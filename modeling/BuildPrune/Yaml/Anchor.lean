import BuildPrune.Yaml.Outline

/-!
# BuildPrune.Yaml.Anchor

Which node an alias stands for. Each anchor has a number: how many names of anchors are used in
front of it. A name that is used again gets a new number without being a new name, so the next
anchor has the same number.

An alias takes the number that its name has last got in front of it, and stands for the last node of
the whole document with that number. That node may come behind the alias, or be around it.
-/

namespace BuildPrune.Yaml

/-- The numbers of the names of anchors, each name once. -/
abbrev Anchors := List (String × Nat)

namespace Anchors

/-- Gives the name of an anchor, if there is one, its number. -/
def enter (anchors : Anchors) : Option String → Option Nat × Anchors
  | none => (none, anchors)
  | some name =>
    (some anchors.length, (name, anchors.length) :: anchors.filter fun known => known.1 != name)

end Anchors

namespace Outline

mutual

/-- The outline with numbers in the place of names, none if an alias has no anchor in front of
it. -/
def numbered (anchors : Anchors) : Outline String → Option (Outline Nat × Anchors)
  | .aliasOf name => do return (.aliasOf (← anchors.lookup name), anchors)
  | .scalar properties text plain =>
    let (anchor, anchors) := anchors.enter properties.anchor
    some (.scalar ⟨anchor, properties.tag⟩ text plain, anchors)
  | .sequence properties items => do
    let (anchor, anchors) := anchors.enter properties.anchor
    let (items, anchors) ← numberedItems anchors items
    return (.sequence ⟨anchor, properties.tag⟩ items, anchors)
  | .mapping properties pairs => do
    let (anchor, anchors) := anchors.enter properties.anchor
    let (pairs, anchors) ← numberedPairs anchors pairs
    return (.mapping ⟨anchor, properties.tag⟩ pairs, anchors)

/-- The outlines of a list with numbers, from left to right. -/
def numberedItems (anchors : Anchors) : List (Outline String) →
    Option (List (Outline Nat) × Anchors)
  | [] => some ([], anchors)
  | item :: rest => do
    let (item, anchors) ← numbered anchors item
    let (rest, anchors) ← numberedItems anchors rest
    return (item :: rest, anchors)

/-- The outlines of a list of pairs with numbers, from left to right. -/
def numberedPairs (anchors : Anchors) : List (Outline String × Outline String) →
    Option (List (Outline Nat × Outline Nat) × Anchors)
  | [] => some ([], anchors)
  | (key, value) :: rest => do
    let (key, anchors) ← numbered anchors key
    let (value, anchors) ← numbered anchors value
    let (rest, anchors) ← numberedPairs anchors rest
    return ((key, value) :: rest, anchors)

end

/-- The node with its number, if it has one. -/
def ownTarget (properties : Properties Nat) (outline : Outline Nat) : List (Nat × Outline Nat) :=
  properties.anchor.toList.map fun number => (number, outline)

mutual

/-- The nodes with a number, in the order of the text. -/
def targets : Outline Nat → List (Nat × Outline Nat)
  | .aliasOf _ => []
  | .scalar properties text plain => ownTarget properties (.scalar properties text plain)
  | .sequence properties items =>
    ownTarget properties (.sequence properties items) ++ itemTargets items
  | .mapping properties pairs =>
    ownTarget properties (.mapping properties pairs) ++ pairTargets pairs

/-- The nodes with a number in a list. -/
def itemTargets : List (Outline Nat) → List (Nat × Outline Nat)
  | [] => []
  | item :: rest => targets item ++ itemTargets rest

/-- The nodes with a number in a list of pairs. -/
def pairTargets : List (Outline Nat × Outline Nat) → List (Nat × Outline Nat)
  | [] => []
  | (key, value) :: rest => targets key ++ targets value ++ pairTargets rest

end

mutual

/-- The size of an outline: one for a scalar or an alias, two for a collection, besides what is in
it. -/
def size : Outline Nat → Nat
  | .aliasOf _ => 1
  | .scalar _ _ _ => 1
  | .sequence _ items => 2 + itemsSize items
  | .mapping _ pairs => 2 + pairsSize pairs

/-- The size of a list. -/
def itemsSize : List (Outline Nat) → Nat
  | [] => 0
  | item :: rest => size item + itemsSize rest

/-- The size of a list of pairs. -/
def pairsSize : List (Outline Nat × Outline Nat) → Nat
  | [] => 0
  | (key, value) :: rest => size key + size value + pairsSize rest

end

end Outline

end BuildPrune.Yaml
