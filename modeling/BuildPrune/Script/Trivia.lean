import BuildPrune.Text.WhiteSpace

/-!
# BuildPrune.Script.Trivia

The trivia that stays when a statement goes. Two stretches of trivia meet where the statement stood:
the one in front of it and the one behind it, in front of the next statement or at the end of the
block. `repair` joins them so that

* comments directly above the statement and behind it on its line go with it,
* what a blank line separates from the statement stays,
* the gap has the blank lines of the wider side, and none is opened in front of a closing brace.
-/

namespace BuildPrune.Trivia

open Text

/-- The text holds a line break. -/
def hasLineBreak (text : List Char) : Bool :=
  text.any isLineBreak

/-- The text in front of its first line break. -/
def beforeLineBreak (text : List Char) : List Char :=
  text.takeWhile (!isLineBreak ·)

/-- The text from its first line break on. -/
def fromLineBreak (text : List Char) : List Char :=
  text.dropWhile (!isLineBreak ·)

/-- The text without the spaces and tabs it opens with. -/
def trimBlanks (text : List Char) : List Char :=
  text.dropWhile fun c => c == ' ' || c == '\t'

/-- The line feeds in the white space that opens the text. -/
def lineFeeds (text : List Char) : Nat :=
  (openingSpace text).count '\n'

/-- The part of the text behind its last line feed, or all of it. -/
def afterLastLineFeed (text : List Char) : List Char :=
  (text.reverse.takeWhile (· != '\n')).reverse

/-- The text without the blank lines it opens with. The indentation of the first other line
stays. -/
def dropBlankLines (text : List Char) : List Char :=
  afterLastLineFeed (openingSpace text) ++ trimStart text

/-- Only white space precedes a line feed: the line that starts here is blank. -/
def startsBlankLine (text : List Char) : Bool :=
  text.contains '\n' && (text.takeWhile (· != '\n')).all isWhiteSpace

/-- The text in front of its last blank line, from the line feed that opens the blank line on cut
away. What it holds belongs to what precedes the statement. -/
def beforeBlankLine : List Char → Option (List Char)
  | [] => none
  | c :: rest =>
    match beforeBlankLine rest with
    | some head => some (c :: head)
    | none => if c == '\n' && startsBlankLine rest then some [] else none

/-- The line ending that a text uses. -/
def lineEnding : List Char → List Char
  | '\r' :: '\n' :: _ => ['\r', '\n']
  | _ :: rest => lineEnding rest
  | [] => ['\n']

/-- The trivia in front of what follows a removed statement, from the trivia `removed` in front of
the statement and the trivia `following` behind it. `atStart` says that the statement was the first
of its list and nothing preceded it, `atEnd` that no statement follows in the list. -/
def repair (removed following : List Char) (atStart atEnd : Bool) : List Char :=
  if !hasLineBreak following then removed ++ trimBlanks following
  else
    let rest := fromLineBreak following
    if !hasLineBreak removed then
      if atStart then trimStart rest else rest
    else
      match beforeBlankLine removed with
      | none => beforeLineBreak removed ++ rest
      | some before =>
        let head := trimEnd before
        let above := if atEnd then 0 else lineFeeds (removed.drop head.length)
        let gap := max (lineFeeds rest) above
        head ++ (List.replicate gap (lineEnding following)).flatten ++ dropBlankLines rest

end BuildPrune.Trivia
