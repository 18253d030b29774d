/-!
# BuildPrune.Text.WhiteSpace

The Unicode property `White_Space`, line breaks, and the ways of trimming a text that rest on them.
Everything here works on lists of characters, so that a cut is a `takeWhile` or a `dropWhile`.
-/

namespace BuildPrune.Text

/-- The twenty-five code points with the property `White_Space`. -/
def isWhiteSpace (c : Char) : Bool :=
  let n := c.toNat
  (0x09 ≤ n && n ≤ 0x0D) || n == 0x20 || n == 0x85 || n == 0xA0 || n == 0x1680 ||
    (0x2000 ≤ n && n ≤ 0x200A) || n == 0x2028 || n == 0x2029 || n == 0x202F || n == 0x205F ||
    n == 0x3000

/-- A line feed or a carriage return. -/
def isLineBreak (c : Char) : Bool :=
  c == '\n' || c == '\r'

/-- `text` without the white space it opens with. -/
def trimStart (text : List Char) : List Char :=
  text.dropWhile isWhiteSpace

/-- `text` without the white space it closes with. -/
def trimEnd : List Char → List Char
  | [] => []
  | c :: rest =>
    match trimEnd rest with
    | [] => if isWhiteSpace c then [] else [c]
    | kept => c :: kept

/-- The white space that opens `text`. -/
def openingSpace (text : List Char) : List Char :=
  text.takeWhile isWhiteSpace

end BuildPrune.Text
