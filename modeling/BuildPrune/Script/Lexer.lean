import BuildPrune.Text.Identifier
import BuildPrune.Text.WhiteSpace
import BuildPrune.Script.Literal
import BuildPrune.Script.Token

/-!
# BuildPrune.Script.Lexer

Splits the text of a build script into tokens and trivia. Both dialects share the lexical grammar,
and every text has a reading: a character that starts nothing else is a token of kind `unknown`.

* trivia: a `#!` line at the very start, line breaks, runs of blanks, `//` comments up to the line
  break, and `/* ... */` comments that are closed;
* tokens: string literals, numbers, identifiers, punctuation (the longest that fits), in this order.

As in `BuildPrune.Script.Literal`, a scanner answers the text that follows what it recognises.
-/

namespace BuildPrune

/-- The tokens of a text and the trivia after the last of them. -/
structure Lexed where
  tokens : List Token
  eof : String
  deriving DecidableEq, Repr

namespace Lexer

open Text

/-! ### Trivia -/

/-- The characters that separate tokens on a line. -/
def isBlank (c : Char) : Bool :=
  c == ' ' || c == '\t' || c == '\x0c' || c == '\uFEFF'

/-- The rest of the line, from its line break on. -/
def fromLineBreak (text : List Char) : List Char :=
  text.dropWhile (!isLineBreak ·)

/-- What follows the `*/` of a comment whose opening has been read. -/
def afterBlockComment : List Char → Option (List Char)
  | '*' :: '/' :: rest => some rest
  | _ :: rest => afterBlockComment rest
  | [] => none

/-- What follows one piece of trivia: a line break, a run of blanks or a comment. -/
def trivia? : List Char → Option (List Char)
  | '\r' :: '\n' :: rest => some rest
  | '/' :: '/' :: rest => some (fromLineBreak rest)
  | '/' :: '*' :: rest => afterBlockComment rest
  | c :: rest =>
    if isLineBreak c then some rest
    else if isBlank c then some (rest.dropWhile isBlank)
    else none
  | [] => none

/-- What follows a `#!` line. -/
def shebang? : List Char → Option (List Char)
  | '#' :: '!' :: rest => some (fromLineBreak rest)
  | _ => none

/-! ### Tokens -/

/-- What follows the digits, letters, underscores and decimal points of a number. A point belongs
to the number only in front of a digit. -/
def afterNumber : List Char → List Char
  | '.' :: c :: rest => if c.isDigit then afterNumber rest else '.' :: c :: rest
  | c :: rest => if c.isAlphanum || c == '_' then afterNumber rest else c :: rest
  | [] => []

/-- What follows a number. -/
def number? : List Char → Option (List Char)
  | c :: rest => if c.isDigit then some (afterNumber rest) else none
  | [] => none

/-- What follows the closing backtick of a name whose opening one has been read; the name has at
least one character and stays on its line. -/
def afterBacktick (rest : List Char) : Option (List Char) :=
  let isName := fun c => !(c == '\x60' || isLineBreak c)
  match rest.takeWhile isName, rest.dropWhile isName with
  | _ :: _, '\x60' :: after => some after
  | _, _ => none

/-- What follows an identifier. -/
def identifier? : List Char → Option (List Char)
  | '\x60' :: rest => afterBacktick rest
  | c :: rest =>
    if isIdentifierStart c || c == '_' || c == '$' then
      some (rest.dropWhile fun c => isIdentifierContinue c || c == '$')
    else none
  | [] => none

/-- Every spelling of punctuation. -/
def punctuation : List String :=
  ["..<", "...", "===", "!==", "..", "::", "->", "?.", "?:", "*.", "!!", "==", "!=", "<=", ">=",
    "&&", "||", "++", "--", "+=", "-=", "*=", "/=", "%=", "=~", "(", ")", openBrace, closeBrace,
    "[", "]",
    ",", ";", ".", ":", "=", "+", "-", "*", "/", "%", "!", "?", "<", ">", "&", "|", "^", "~", "@",
    "#"]

/-- What follows the longest punctuation that `text` opens with. -/
def punctuation? (text : List Char) : Option (List Char) :=
  ([3, 2, 1].find? fun n => punctuation.contains (String.ofList (text.take n))).map text.drop

/-- The kind of the token that `text` opens with and what follows it. -/
def token (text : List Char) : TokenKind × List Char :=
  match Literal.literal? text with
  | some rest => (.str, rest)
  | none =>
    match number? text with
    | some rest => (.number, rest)
    | none =>
      match identifier? text with
      | some rest => (.ident, rest)
      | none =>
        match punctuation? text with
        | some rest => (.punct, rest)
        | none => (.unknown, text.drop 1)

/-! ### The whole text -/

/-- The front of `text` that is missing from what follows it. -/
def before (text rest : List Char) : String :=
  String.ofList (text.take (text.length - rest.length))

/-- Reads `text`, which stands at byte `offset`, with the trivia `pending` already read in front of
it. The first argument bounds the number of pieces; each has at least one character, so the length
of the text is enough. -/
def readFrom : Nat → (pending : String) → (offset : Nat) → List Char → Lexed
  | 0, pending, _, text => ⟨[], pending ++ String.ofList text⟩
  | _ + 1, pending, _, [] => ⟨[], pending⟩
  | n + 1, pending, offset, c :: cs =>
    let text := c :: cs
    match trivia? text with
    | some rest =>
      let piece := before text rest
      readFrom n (pending ++ piece) (offset + piece.utf8ByteSize) rest
    | none =>
      let (kind, rest) := token text
      let piece := before text rest
      let stop := offset + piece.utf8ByteSize
      let more := readFrom n "" stop rest
      ⟨⟨pending, kind, piece, ⟨offset, stop⟩⟩ :: more.tokens, more.eof⟩

end Lexer

/-- The tokens of a script. -/
def lex (source : String) : Lexed :=
  let text := source.toList
  match Lexer.shebang? text with
  | some rest =>
    let piece := Lexer.before text rest
    Lexer.readFrom rest.length piece piece.utf8ByteSize rest
  | none => Lexer.readFrom text.length "" 0 text

end BuildPrune
