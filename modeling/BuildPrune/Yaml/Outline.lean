import BuildPrune.Yaml.Lexeme

/-!
# BuildPrune.Yaml.Outline

The structure of a YAML document before its aliases are followed and its scalars are understood:
sequences, mappings and scalars, with the anchors and tags that are written on them.

The productions follow the grammar of the lexemes. They take a bound on the depth of their
recursion; each call reads a lexeme or is one of a few for the same lexeme, so a multiple of the
number of lexemes is enough.
-/

namespace BuildPrune.Yaml

/-- The anchor and the tag of a node, each if it is written. -/
structure Properties (α : Type) where
  anchor : Option α := none
  tag : Option Tag := none
  deriving DecidableEq, Repr

/-- A node as it is written, with anchors in `α`. -/
inductive Outline (α : Type) where
  | aliasOf (anchor : α)
  | scalar (properties : Properties α) (text : String) (plain : Bool)
  | sequence (properties : Properties α) (items : List (Outline α))
  | mapping (properties : Properties α) (pairs : List (Outline α × Outline α))
  deriving Repr

namespace Outline

/-- A node that is not written. -/
def missing : Outline String :=
  .scalar {} "" true

/-- What the handles of tags stand for, the first that fits. -/
abbrev Handles := List (String × Tag)

/-- The handles that every document knows. -/
def commonHandles : Handles :=
  [("!", .ofString "!"), ("!!", .ofString "tag:yaml.org,2002:")]

/-- The tag with its handle replaced by what it stands for. -/
def expandTag (handles : Handles) (handle : String) (suffix : Tag) : Option Tag :=
  if handle.isEmpty then some suffix else (handles.lookup handle).map (·.append suffix)

/-- Reads an anchor and a tag, in either order, each if it is there. -/
def properties (handles : Handles) : List Lexeme → Option (Properties String × List Lexeme)
  | .anchor name :: .tag handle suffix :: rest => do
    return (⟨some name, some (← expandTag handles handle suffix)⟩, rest)
  | .tag handle suffix :: .anchor name :: rest => do
    return (⟨some name, some (← expandTag handles handle suffix)⟩, rest)
  | .anchor name :: rest => some (⟨some name, none⟩, rest)
  | .tag handle suffix :: rest => do
    return (⟨none, some (← expandTag handles handle suffix)⟩, rest)
  | rest => some ({}, rest)

/-- The next lexeme is one of `stops`. -/
def stopsAt (stops : List Lexeme) (lexemes : List Lexeme) : Bool :=
  lexemes.head?.any stops.contains

mutual

/-- A node. `inBlock` says that block collections are allowed, `indentless` that a sequence may
start without deeper indentation. -/
def node (handles : Handles) : Nat → (inBlock indentless : Bool) → List Lexeme →
    Option (Outline String × List Lexeme)
  | 0, _, _, _ => none
  | _ + 1, _, _, .aliasOf name :: rest => some (.aliasOf name, rest)
  | n + 1, inBlock, indentless, lexemes => do
    let (properties, lexemes) ← properties handles lexemes
    let absent : Option (Outline String × List Lexeme) :=
      if properties == {} then none else some (.scalar properties "" true, lexemes)
    match lexemes with
    | .entry :: _ =>
      if indentless then do
        let (items, rest) ← indentlessItems handles n lexemes
        return (.sequence properties items, rest)
      else absent
    | .scalar text plain :: rest => return (Outline.scalar properties text plain, rest)
    | .flowSequence :: rest => do
      let (items, rest) ← flowItems handles n true rest
      return (.sequence properties items, rest)
    | .flowMapping :: rest => do
      let (pairs, rest) ← flowPairs handles n true rest
      return (.mapping properties pairs, rest)
    | .sequenceBlock :: rest =>
      if inBlock then do
        let (items, rest) ← blockItems handles n rest
        return (.sequence properties items, rest)
      else absent
    | .mappingBlock :: rest =>
      if inBlock then do
        let (pairs, rest) ← blockPairs handles n rest
        return (.mapping properties pairs, rest)
      else absent
    | _ => absent

/-- A node, or none if one of `stops` comes next. -/
def nodeUnless (handles : Handles) : Nat → (stops : List Lexeme) → (inBlock indentless : Bool) →
    List Lexeme → Option (Outline String × List Lexeme)
  | 0, _, _, _, _ => none
  | n + 1, stops, inBlock, indentless, lexemes =>
    if stopsAt stops lexemes then some (missing, lexemes)
    else node handles n inBlock indentless lexemes

/-- The items of a block sequence, up to and with its end. -/
def blockItems (handles : Handles) : Nat → List Lexeme →
    Option (List (Outline String) × List Lexeme)
  | 0, _ => none
  | n + 1, .entry :: rest => do
    let (item, rest) ← nodeUnless handles n [.entry, .blockEnd] true false rest
    let (more, rest) ← blockItems handles n rest
    return (item :: more, rest)
  | _ + 1, .blockEnd :: rest => some ([], rest)
  | _ + 1, _ => none

/-- The items of a sequence without a block of its own, up to the first lexeme that is no entry. -/
def indentlessItems (handles : Handles) : Nat → List Lexeme →
    Option (List (Outline String) × List Lexeme)
  | 0, _ => none
  | n + 1, .entry :: rest => do
    let (item, rest) ← nodeUnless handles n [.entry, .key, .value, .blockEnd] true false rest
    let (more, rest) ← indentlessItems handles n rest
    return (item :: more, rest)
  | _ + 1, rest => some ([], rest)

/-- The pairs of a block mapping, up to and with its end. -/
def blockPairs (handles : Handles) : Nat → List Lexeme →
    Option (List (Outline String × Outline String) × List Lexeme)
  | 0, _ => none
  | n + 1, .key :: rest => do
    let stops := [.key, .value, .blockEnd]
    let (key, rest) ← nodeUnless handles n stops true true rest
    let (value, rest) ←
      match rest with
      | .value :: rest => nodeUnless handles n stops true true rest
      | _ => some (missing, rest)
    let (more, rest) ← blockPairs handles n rest
    return ((key, value) :: more, rest)
  | _ + 1, .blockEnd :: rest => some ([], rest)
  | _ + 1, _ => none

/-- The items of a flow sequence, up to and with its end. `first` says that no comma is needed. An
item with a key is a mapping of one pair; a missing key takes the lexeme in its place with it. -/
def flowItems (handles : Handles) : Nat → (first : Bool) → List Lexeme →
    Option (List (Outline String) × List Lexeme)
  | 0, _, _ => none
  | _ + 1, _, .flowSequenceEnd :: rest => some ([], rest)
  | n + 1, first, lexemes => do
    let lexemes ←
      match first, lexemes with
      | true, lexemes => some lexemes
      | false, .comma :: rest => some rest
      | false, _ => none
    match lexemes with
    | .flowSequenceEnd :: rest => return ([], rest)
    | .key :: rest => do
      let (key, rest) ←
        if stopsAt [.value, .comma, .flowSequenceEnd] rest then some (missing, rest.drop 1)
        else node handles n false false rest
      let (value, rest) ←
        match rest with
        | .value :: rest => nodeUnless handles n [.comma, .flowSequenceEnd] false false rest
        | _ => some (missing, rest)
      let (more, rest) ← flowItems handles n false rest
      return (.mapping {} [(key, value)] :: more, rest)
    | lexemes => do
      let (item, rest) ← node handles n false false lexemes
      let (more, rest) ← flowItems handles n false rest
      return (item :: more, rest)

/-- The pairs of a flow mapping, up to and with its end. `first` says that no comma is needed. -/
def flowPairs (handles : Handles) : Nat → (first : Bool) → List Lexeme →
    Option (List (Outline String × Outline String) × List Lexeme)
  | 0, _, _ => none
  | _ + 1, _, .flowMappingEnd :: rest => some ([], rest)
  | n + 1, first, lexemes => do
    let lexemes ←
      match first, lexemes with
      | true, lexemes => some lexemes
      | false, .comma :: rest => some rest
      | false, _ => none
    match lexemes with
    | .flowMappingEnd :: rest => return ([], rest)
    | .key :: rest => do
      let (key, rest) ← nodeUnless handles n [.value, .comma, .flowMappingEnd] false false rest
      let (value, rest) ←
        match rest with
        | .value :: rest => nodeUnless handles n [.comma, .flowMappingEnd] false false rest
        | _ => some (missing, rest)
      let (more, rest) ← flowPairs handles n false rest
      return ((key, value) :: more, rest)
    | lexemes => do
      let (key, rest) ← node handles n false false lexemes
      let (more, rest) ← flowPairs handles n false rest
      return ((key, missing) :: more, rest)

end

/-! ### Documents -/

/-- Reads the directives in front of a document. One version and one meaning for each handle may be
given, and the version has to be 1.1 or 1.2. -/
def directives (versionSeen : Bool) (handles : Handles) : List Lexeme →
    Option (Handles × List Lexeme)
  | .versionDirective major minor :: rest =>
    if !versionSeen && major == 1 && (minor == 1 || minor == 2) then directives true handles rest
    else none
  | .tagDirective handle expansion :: rest =>
    if (handles.lookup handle).isSome then none
    else directives versionSeen ((handle, expansion) :: handles) rest
  | rest => some (handles, rest)

/-- Reads a document that may lack its start mark. -/
def document (lexemes : List Lexeme) : Option (Outline String × List Lexeme) := do
  let bound := 4 * (lexemes.length + 1)
  let (handles, rest) ← directives false [] lexemes
  let all := handles ++ commonHandles
  match rest with
  | .documentStart :: rest =>
    match rest with
    | [] | .documentStart :: _ | .documentEnd :: _ | .versionDirective _ _ :: _
    | .tagDirective _ _ :: _ => return (missing, rest)
    | _ => node all bound true false rest
  | _ => if rest.length < lexemes.length then failure else node all bound true false rest

/-- The only document of a text. A text without lexemes is a document that is not written. -/
def ofLexemes? (lexemes : List Lexeme) : Option (Outline String) := do
  if lexemes.isEmpty then return missing
  let (root, rest) ← document lexemes
  if rest.dropWhile (· == .documentEnd) != [] then failure
  return root

end Outline

end BuildPrune.Yaml
