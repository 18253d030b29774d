import BuildPrune.Script.Dialect
import BuildPrune.Script.ParseError

/-!
# BuildPrune.Script.Cursor

A place in a list of tokens, what stands there, and the classes of tokens that the grammar tells
apart.
-/

namespace BuildPrune

/-- A place in a list of tokens: the token read last and the tokens still to read. -/
structure Cursor where
  last : Option Token
  rest : List Token
  deriving DecidableEq, Repr

namespace Cursor

/-- The token at the cursor. -/
def next (c : Cursor) : Option Token :=
  c.rest.head?

/-- The token after the one at the cursor. -/
def second (c : Cursor) : Option Token :=
  c.rest[1]?

/-- The token at the cursor satisfies `p`. -/
def nextIs (c : Cursor) (p : Token → Bool) : Bool :=
  c.next.any p

/-- The token after the one at the cursor satisfies `p`. -/
def secondIs (c : Cursor) (p : Token → Bool) : Bool :=
  c.second.any p

/-- The token at the cursor is spelled `text`. -/
def isAt (c : Cursor) (text : String) : Bool :=
  c.nextIs (·.is text)

/-- The token at the cursor is spelled `text` and shares its line with the token before. -/
def isAtOnLine (c : Cursor) (text : String) : Bool :=
  c.nextIs fun t => t.is text && !t.startsLine

/-- The token at the cursor is spelled `text` and touches the token before. -/
def isAtAttached (c : Cursor) (text : String) : Bool :=
  c.nextIs fun t => t.is text && t.attached

/-- The fault of meeting `problem` at the cursor. -/
def fault (c : Cursor) (problem : Problem) : Fault :=
  ⟨problem, c.next⟩

/-- Reads one token if it satisfies `p`. -/
def take? (c : Cursor) (p : Token → Bool) : Option (Token × Cursor) :=
  match c.rest with
  | t :: rest => if p t then some (t, ⟨some t, rest⟩) else none
  | [] => none

/-- Reads one token that satisfies `p`, or fails with `problem`. -/
def take (c : Cursor) (p : Token → Bool) (problem : Problem) : Except Fault (Token × Cursor) :=
  match c.take? p with
  | some read => .ok read
  | none => .error (c.fault problem)

/-- Reads the token spelled `text`. -/
def expect (c : Cursor) (text : String) : Except Fault (Token × Cursor) :=
  c.take (·.is text) (.expected text)

/-- Reads a name or a keyword. -/
def name (c : Cursor) : Except Fault (Token × Cursor) :=
  c.take Token.isIdent .expectedName

/-- Reads the token spelled `text` if it is there. -/
def optional (c : Cursor) (text : String) : Option Token × Cursor :=
  match c.take? (·.is text) with
  | some (t, c) => (some t, c)
  | none => (none, c)

/-- Reads `count` tokens, or as many as there are. -/
def takeMany (c : Cursor) : Nat → List Token × Cursor
  | 0 => ([], c)
  | count + 1 =>
    match c.rest with
    | [] => ([], c)
    | t :: rest =>
      let (more, c) := takeMany ⟨some t, rest⟩ count
      (t :: more, c)

end Cursor

/-! ### Classes of tokens -/

/-- Identifiers that name nothing. -/
def keywords : List String :=
  ["if", "else", "when", "for", "while", "do", "try", "catch", "finally", "return", "throw", "val",
    "var", "fun", "class", "object", "interface", "typealias", "package", "import", "def", "new",
    "instanceof", "as", "is", "in", "by", "null", "true", "false", "this", "super", "private",
    "public", "protected", "internal", "override", "abstract", "const", "lateinit", "static",
    "final", "void", "break", "continue", "assert"]

/-- Keywords that denote a value, and so can start an argument. -/
def literalKeywords : List String :=
  ["true", "false", "null", "this", "super", "new"]

/-- Operators between two operands. -/
def binaryOperators : List String :=
  ["=", "+=", "-=", "*=", "/=", "%=", "==", "!=", "===", "!==", "<", ">", "<=", ">=", "&&", "||",
    "+", "-", "*", "/", "%", "?", ":", "?:", "->", "::", "..", "..<", "...", "=~", "&", "|", "^",
    "as", "is", "in", "instanceof"]

/-- Operators in front of an operand. -/
def prefixOperators : List String :=
  ["!", "-", "+", "++", "--", "~", "*"]

/-- Operators behind an operand. -/
def postfixOperators : List String :=
  ["!!", "++", "--"]

/-- The dots between a receiver and a member. -/
def memberDots : List String :=
  [".", "?.", "*."]

/-- Tokens that carry a statement on when they start a line. -/
def continuations : List String :=
  [".", "?.", "*.", "?:", "&&", "||", "else", "catch", "finally"]

/-- The closing brackets. -/
def closers : List String :=
  [")", "]", closeBrace]

namespace Token

/-- A keyword. -/
def isKeyword (t : Token) : Bool :=
  t.isIdent && keywords.contains t.text

/-- An identifier that is no keyword. -/
def isName (t : Token) : Bool :=
  t.isIdent && !t.isKeyword

/-- A keyword that denotes a value. -/
def isLiteralKeyword (t : Token) : Bool :=
  t.isIdent && literalKeywords.contains t.text

/-- A token that can start an argument without parentheses. -/
def startsOperand (t : Token) : Bool :=
  match t.kind with
  | .str | .number => true
  | .ident => !t.isKeyword || literalKeywords.contains t.text
  | _ => false

/-- A closing bracket. -/
def isCloser (t : Token) : Bool :=
  t.isOneOf closers

end Token

end BuildPrune
