/-!
# BuildPrune.Yaml.Place

A place in a YAML text, and the characters that count there. YAML knows five line breaks, and a
carriage return with a line feed is one of them.
-/

namespace BuildPrune.Yaml

/-- A space or a tab. -/
def isBlank (c : Char) : Bool :=
  c == ' ' || c == '\t'

/-- A line break. -/
def isBreak (c : Char) : Bool :=
  c == '\n' || c == '\r' || c == '\u0085' || c == '\u2028' || c == '\u2029'

/-- A character that a YAML text may hold. -/
def isAllowed (c : Char) : Bool :=
  let n := c.toNat
  n == 0x09 || n == 0x0A || n == 0x0D || (0x20 ≤ n && n ≤ 0x7E) || n == 0x85 ||
    (0xA0 ≤ n && n ≤ 0xD7FF) || (0xE000 ≤ n && n ≤ 0xFFFD) || 0x10000 ≤ n

/-- A character of the names of anchors, directives and tag handles. -/
def isWord (c : Char) : Bool :=
  c.isAlphanum || c == '_' || c == '-'

/-- A place in a text: what follows it, and how far it is from the start. -/
structure Place where
  rest : List Char
  line : Nat := 0
  column : Nat := 0
  index : Nat := 0
  deriving Repr

namespace Place

/-- The character `n` characters from here. -/
def charAt (p : Place) (n : Nat) : Option Char :=
  p.rest[n]?

/-- The character here is `c`. -/
def isAt (p : Place) (c : Char) : Bool :=
  p.rest.head? == some c

/-- The text ends here. -/
def atEnd (p : Place) : Bool :=
  p.rest.isEmpty

/-- The character `n` characters from here is a blank. -/
def blankAt (p : Place) (n : Nat) : Bool :=
  (p.charAt n).any isBlank

/-- The character `n` characters from here is a blank or a line break, or the text ends there. -/
def spaceAt (p : Place) (n : Nat) : Bool :=
  (p.charAt n).all fun c => isBlank c || isBreak c

/-- `n` characters on, none of them a line break. -/
def skip (p : Place) (n : Nat) : Place :=
  { p with rest := p.rest.drop n, column := p.column + n, index := p.index + n }

/-- Behind the characters that satisfy `f`, none of them a line break. -/
def skipWhile (p : Place) (f : Char → Bool) : Place :=
  p.skip (p.rest.takeWhile f).length

/-- At the end of the line. -/
def skipLine (p : Place) : Place :=
  p.skipWhile (!isBreak ·)

/-- The line break here as it counts in a scalar, and the place behind it. -/
def lineBreak? (p : Place) : Option (List Char × Place) :=
  let behind := fun (n : Nat) (rest : List Char) =>
    { rest, line := p.line + 1, column := 0, index := p.index + n : Place }
  match p.rest with
  | '\r' :: '\n' :: rest => some (['\n'], behind 2 rest)
  | c :: rest =>
    if c == '\u2028' || c == '\u2029' then some ([c], behind 1 rest)
    else if isBreak c then some (['\n'], behind 1 rest)
    else none
  | [] => none

/-- `---` or `...` starts the line here and stands alone. -/
def atDocumentMark (p : Place) : Bool :=
  p.column == 0 && (['-', '-', '-'].isPrefixOf p.rest || ['.', '.', '.'].isPrefixOf p.rest) &&
    p.spaceAt 3

end Place

end BuildPrune.Yaml
