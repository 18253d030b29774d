import BuildPrune.Yaml.Anchor
import BuildPrune.Yaml.Scalar

/-!
# BuildPrune.Yaml.Node

The content of a YAML document: scalars with their meaning, sequences, and mappings in the order of
the text. Aliases are replaced by what they stand for. A document is refused if

* an alias has no anchor before it,
* two keys of a mapping are the same,
* it is nested more than 128 levels deep, as it is if an alias stands for a node around it,
* the aliases that are replaced are more than a hundred times the size of the document.
-/

namespace BuildPrune.Yaml

/-- A node of a document. -/
inductive Node where
  | scalar (value : Scalar)
  | sequence (items : List Node)
  | mapping (pairs : List (Node × Node))
  /-- A node with a tag of its own, `!tag`. -/
  | tagged (tag : String) (node : Node)
  deriving Repr

namespace Node

/-- The node without its tags. -/
def untagged : Node → Node
  | .tagged _ node => node.untagged
  | node => node

/-! ### Sameness of keys -/

/-- The scalars are the same. Numbers of different kind are not. -/
def sameScalar : Scalar → Scalar → Bool
  | .null, .null => true
  | .bool a, .bool b => a == b
  | .int a, .int b => a == b
  | .float a, .float b => a == b || (a.isNaN && b.isNaN)
  | .str a, .str b => a == b
  | _, _ => false

mutual

/-- The nodes are the same. The order of the pairs of a mapping has no meaning. -/
def same : Node → Node → Bool
  | .scalar a, .scalar b => sameScalar a b
  | .sequence as, .sequence bs => sameItems as bs
  | .mapping as, .mapping bs => as.length == bs.length && pairsIn as bs
  | .tagged s a, .tagged t b => s == t && same a b
  | _, _ => false

/-- The items are the same, one by one. -/
def sameItems : List Node → List Node → Bool
  | [], [] => true
  | a :: as, b :: bs => same a b && sameItems as bs
  | _, _ => false

/-- Each pair of the first list has the same in the second. -/
def pairsIn : List (Node × Node) → List (Node × Node) → Bool
  | [], _ => true
  | (key, value) :: rest, bs => bs.any (fun b => same key b.1 && same value b.2) && pairsIn rest bs

end

/-- Two of the keys are the same. -/
def hasSameKeys : List Node → Bool
  | [] => false
  | key :: rest => rest.any (same key ·) || hasSameKeys rest

/-! ### From outline to node -/

/-- The node under its tag, if that has a name. -/
def withTag (tag : Option Tag) (node : Node) : Node :=
  match tag.bind Tag.name? with
  | none => node
  | some name => .tagged name node

/-- The meaning of a scalar with its tag. A tag of the document's own leaves the meaning as it
is. -/
def ofScalar? (tag : Option Tag) (text : String) (plain : Bool) : Option Node := do
  if tag.all Tag.isOwn then
    let value ← if plain then Scalar.ofPlain? text else some (.str text)
    return withTag tag (.scalar value)
  else return .scalar (← Scalar.ofTagged? tag text)

/-- A computation that replaces aliases. It knows how many more it may replace. -/
abbrev Budgeted := StateT Nat Option

/-- The outline, or what it stands for if it is an alias. -/
def follow (targets : List (Nat × Outline Nat)) : Outline Nat → Budgeted (Outline Nat)
  | .aliasOf number => do
    match ← get with
    | 0 => failure
    | left + 1 =>
      set left
      targets.lookup number
  | outline => pure outline

/-- The mapping with these pairs, if no two of its keys are the same. -/
def mapping? (pairs : List (Node × Node)) : Option Node :=
  if hasSameKeys (pairs.map Prod.fst) then none else some (.mapping pairs)

/-- The node that an outline stands for, at most `depth` levels deep. -/
def ofOutline? (targets : List (Nat × Outline Nat)) : (depth : Nat) → Outline Nat → Budgeted Node
  | 0, outline => do
    match ← follow targets outline with
    | .scalar properties text plain => ofScalar? properties.tag text plain
    | _ => failure
  | depth + 1, outline => do
    match ← follow targets outline with
    | .aliasOf _ => failure
    | .scalar properties text plain => ofScalar? properties.tag text plain
    | .sequence properties items =>
      let items ← items.mapM (ofOutline? targets depth)
      return withTag properties.tag (.sequence items)
    | .mapping properties pairs =>
      let pairs ← pairs.mapM fun (key, value) => do
        return (← ofOutline? targets depth key, ← ofOutline? targets depth value)
      return withTag properties.tag (← mapping? pairs)

/-! ### Documents -/

/-- The node of a document. -/
def ofDocument? (root : Outline Nat) : Option Node := do
  let (node, _) ← (ofOutline? root.targets.reverse 128 root).run (100 * root.size)
  return node

/-- A plain scalar that counts as a document without content: null without a tag or under the tag of
null, and under any other tag only a scalar that is not written. -/
def isNothing (tag : Option Tag) (text : String) : Bool :=
  match tag with
  | none => text.isEmpty || Scalar.isNull text
  | some tag => if tag == Tag.null then Scalar.isNull text else text.isEmpty

/-- The pairs of a document that is a mapping or without content. -/
def documentPairs? : Outline Nat → Option (List (Node × Node))
  | .scalar properties text plain =>
    if plain && isNothing properties.tag text then some [] else none
  | root => do
    match (← ofDocument? root).untagged with
    | .mapping pairs => some pairs
    | _ => none

/-- The pairs of the only document of a YAML text, which is a mapping or without content. -/
def readPairs? (text : String) : Option (List (Node × Node)) := do
  let (root, _) ← (← Outline.ofLexemes? (← lexemes? text)).numbered []
  documentPairs? root

end Node

end BuildPrune.Yaml
