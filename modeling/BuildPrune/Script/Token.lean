/-!
# BuildPrune.Script.Token

Tokens of a build script. A token keeps the blank space and the comments in front of it as its
`leading` trivia, so a list of tokens, and the trivia after the last one, hold every character of
the text they were read from.
-/

namespace BuildPrune

/-- A range of UTF-8 byte offsets: `start` belongs to it, `stop` does not. -/
structure Span where
  start : Nat := 0
  stop : Nat := 0
  deriving DecidableEq, Repr, Inhabited

/-- How many bytes are marked when a report points to the span: one at least. -/
def Span.marked (span : Span) : Nat :=
  max 1 (span.stop - span.start)

/-- The lexical class of a token. -/
inductive TokenKind
  /-- A name or a keyword, also one between backticks. -/
  | ident
  /-- A string literal with its quotes. -/
  | str
  /-- A number literal. -/
  | number
  /-- An operator, a bracket or a separator. -/
  | punct
  /-- A character that starts no token. -/
  | unknown
  deriving DecidableEq, Repr, Inhabited

/-- A token with the trivia that precedes it. -/
structure Token where
  leading : String
  kind : TokenKind
  text : String
  span : Span
  deriving DecidableEq, Repr, Inhabited

namespace Token

/-- A token that was read from no text: no trivia in front, an empty span. -/
def bare (kind : TokenKind) (text : String) : Token :=
  ⟨"", kind, text, {}⟩

/-- A punctuation mark or an identifier spelled `text`. -/
def is (t : Token) (text : String) : Bool :=
  (t.kind == .punct || t.kind == .ident) && t.text == text

/-- One of the spellings in `texts`. -/
def isOneOf (t : Token) (texts : List String) : Bool :=
  texts.any t.is

/-- A name or a keyword. -/
def isIdent (t : Token) : Bool :=
  t.kind == .ident

/-- A line break separates the token from what precedes it. -/
def startsLine (t : Token) : Bool :=
  t.leading.toList.any fun c => c == '\n' || c == '\r'

/-- Nothing separates the token from what precedes it. -/
def attached (t : Token) : Bool :=
  t.leading.isEmpty

/-- The token with other trivia in front. -/
def withLeading (t : Token) (leading : String) : Token :=
  { t with leading }

/-- The trivia in front of the token and its text. -/
def print (t : Token) : String :=
  t.leading ++ t.text

end Token

/-- The brace that opens a block. -/
def openBrace : String := "\x7b"

/-- The brace that closes a block. -/
def closeBrace : String := "\x7d"

/-! ### Printing lists of tokens -/

/-- Every token with the trivia in front of it. -/
def printTokens (tokens : List Token) : String :=
  String.join (tokens.map Token.print)

/-- As `printTokens`, without the trivia in front of the first token. -/
def printTrimmed : List Token → String
  | [] => ""
  | t :: rest => t.text ++ printTokens rest

end BuildPrune
