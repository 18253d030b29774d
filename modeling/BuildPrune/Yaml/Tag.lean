import BuildPrune.Yaml.ScalarText

/-!
# BuildPrune.Yaml.Tag

Tags, which say of what kind a node is. A tag is written with characters and with `%` sequences that
spell bytes, so it is a list of bytes; those of a tag need not be the encoding of a text.

A tag of the document's own starts with `!` and has a name. All others are tags of some schema, of
which `BuildPrune.Yaml.Scalar` knows four.
-/

namespace BuildPrune.Yaml

/-- A tag, or a part of one. -/
structure Tag where
  bytes : List UInt8
  deriving DecidableEq, Repr

namespace Tag

/-- The tag with this text. -/
def ofString (text : String) : Tag :=
  ⟨text.toUTF8.toList⟩

/-- The text of a tag, if its bytes encode one. -/
def text? (tag : Tag) : Option String :=
  String.fromUTF8? ⟨tag.bytes.toArray⟩

/-- The two parts of a tag together. -/
def append (first second : Tag) : Tag :=
  ⟨first.bytes ++ second.bytes⟩

/-- The tag of nulls. -/
def null : Tag :=
  .ofString "tag:yaml.org,2002:null"

/-- The tag starts with `!`. -/
def isOwn (tag : Tag) : Bool :=
  tag.bytes.head? == some 0x21

/-- The text without a `!` in front of it, unless that is all there is. -/
def withoutMark (text : String) : String :=
  match text.toList with
  | '!' :: c :: rest => String.ofList (c :: rest)
  | _ => text

/-- The name of a tag of the document's own. A second `!` in front of it makes no difference. -/
def name? (tag : Tag) : Option String :=
  if tag.isOwn then tag.text?.map fun text => withoutMark (withoutMark text) else none

/-! ### Written tags -/

/-- Characters of a written tag. A comma and brackets may stand only in one that is written in full,
between `<` and `>` or in a directive. -/
def isTagChar (full : Bool) (c : Char) : Bool :=
  isWord c || [';', '/', '?', ':', '@', '&', '=', '+', '$', '.', '%', '!', '~', '*', '\'', '(',
    ')'].contains c || (full && [',', '[', ']'].contains c)

/-- The byte that the `%` sequence at the start of a text stands for. -/
def percentByte? : List Char → Option (UInt8 × List Char)
  | '%' :: a :: b :: rest => do
    let value ← hexValue? [a, b]
    return (value.toUInt8, rest)
  | _ => none

/-- How many bytes follow this one in the encoding of a character. -/
def followers? (b : UInt8) : Option Nat :=
  if b < 0x80 then some 0
  else if 0xC0 ≤ b && b < 0xE0 then some 1
  else if 0xE0 ≤ b && b < 0xF0 then some 2
  else if 0xF0 ≤ b && b < 0xF8 then some 3
  else none

/-- Reads `count` further `%` sequences of one character. -/
def percentFollowers? : Nat → List Char → Option (List UInt8 × List Char)
  | 0, text => some ([], text)
  | count + 1, text => do
    let (b, text) ← percentByte? text
    if b < 0x80 || 0xC0 ≤ b then failure
    let (more, text) ← percentFollowers? count text
    return (b :: more, text)

/-- The bytes that a written tag spells. The first argument bounds the number of steps. -/
def bytes? : Nat → List Char → Option (List UInt8)
  | 0, _ => some []
  | _ + 1, [] => some []
  | n + 1, '%' :: rest => do
    let (first, after) ← percentByte? ('%' :: rest)
    let (more, after) ← percentFollowers? (← followers? first) after
    return first :: more ++ (← bytes? n after)
  | n + 1, c :: rest => do return c.toNat.toUInt8 :: (← bytes? n rest)

/-- The tag that a text spells. It ends in front of the first zero byte. -/
def ofWritten? (text : List Char) : Option Tag := do
  let bytes ← bytes? (text.length + 1) text
  return ⟨bytes.takeWhile (· != 0)⟩

end Tag

end BuildPrune.Yaml
