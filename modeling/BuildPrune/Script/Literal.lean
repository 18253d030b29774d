/-!
# BuildPrune.Script.Literal

String literals. A scanner looks at the front of a text and answers what is left after the piece it
recognises, or `none` if the text opens with no such piece.

There are four forms, between `'''`, `"""`, `'` and `"`. The two double-quoted ones hold templates
`${ ... }`, whose body holds braces and further literals, nested to any depth. A `${` that no brace
closes is plain text.

The nested scanners take a bound on the depth of their recursion. Each recursive call has consumed
a character, so the length of the text is enough: `literal?` supplies it.
-/

namespace BuildPrune.Literal

/-- What follows the closing `'` of a literal whose opening quote has been read. -/
def afterSingle : List Char → Option (List Char)
  | '\\' :: _ :: rest => afterSingle rest
  | '\'' :: rest => some rest
  | c :: rest => if c == '\n' || c == '\r' then none else afterSingle rest
  | [] => none

/-- What follows the closing `'''` of a literal whose opening quotes have been read. -/
def afterTripleSingle : List Char → Option (List Char)
  | '\\' :: _ :: rest => afterTripleSingle rest
  | '\'' :: '\'' :: '\'' :: rest => some rest
  | _ :: rest => afterTripleSingle rest
  | [] => none

/-- What follows the literal that `text` opens with, given what follows a closing `"` and a closing
`"""`. Three quotes that are not closed by three are an empty literal and a quote. -/
def literalBy (double tripleDouble : List Char → Option (List Char)) (text : List Char) :
    Option (List Char) :=
  match text with
  | '"' :: '"' :: '"' :: rest => (tripleDouble rest).or (some ('"' :: rest))
  | '\'' :: '\'' :: '\'' :: rest => (afterTripleSingle rest).or (some ('\'' :: rest))
  | '"' :: rest => double rest
  | '\'' :: rest => afterSingle rest
  | _ => none

mutual

/-- What follows the closing `"` of a literal whose opening quote has been read. -/
def afterDouble : Nat → List Char → Option (List Char)
  | 0, _ => none
  | n + 1, '\\' :: _ :: rest => afterDouble n rest
  | _ + 1, '"' :: rest => some rest
  | n + 1, '$' :: '{' :: rest =>
    match templateBody n rest with
    | '}' :: after => afterDouble n after
    | _ => afterDouble n ('{' :: rest)
  | n + 1, c :: rest => if c == '\n' || c == '\r' then none else afterDouble n rest
  | _ + 1, [] => none

/-- What follows the closing `"""` of a literal whose opening quotes have been read. Further quotes
directly behind it belong to the literal. -/
def afterTripleDouble : Nat → List Char → Option (List Char)
  | 0, _ => none
  | _ + 1, '"' :: '"' :: '"' :: rest => some (rest.dropWhile (· == '"'))
  | n + 1, '$' :: '{' :: rest =>
    match templateBody n rest with
    | '}' :: after => afterTripleDouble n after
    | _ => afterTripleDouble n ('{' :: rest)
  | n + 1, _ :: rest => afterTripleDouble n rest
  | _ + 1, [] => none

/-- What follows the body of a template: the longest run of literals, braces in pairs and other
characters that are no braces. -/
def templateBody : Nat → List Char → List Char
  | 0, text => text
  | n + 1, text =>
    match literalBy (afterDouble n) (afterTripleDouble n) text with
    | some rest => templateBody n rest
    | none =>
      match text with
      | '{' :: rest =>
        match templateBody n rest with
        | '}' :: after => templateBody n after
        | _ => text
      | '}' :: _ => text
      | _ :: rest => templateBody n rest
      | [] => []

end

/-- What follows the string literal that `text` opens with, if it opens with one. -/
def literal? (text : List Char) : Option (List Char) :=
  literalBy (afterDouble text.length) (afterTripleDouble text.length) text

/-! ### The text between the quotes -/

/-- `text` without `quote` in front and at the end. A quote that does both is not stripped twice. -/
def stripQuote (quote : List Char) (text : List Char) : Option (List Char) :=
  if quote.isPrefixOf text && quote.isSuffixOf (text.drop quote.length) then
    some ((text.drop quote.length).take (text.length - 2 * quote.length))
  else
    none

/-- The text between the quotes of a literal. A double-quoted literal with a `$` in it may hold a
template, and has none. -/
def content? (literal : String) : Option String :=
  let text := literal.toList
  let (quote, interpolates) : List Char × Bool :=
    if ['"', '"', '"'].isPrefixOf text then (['"', '"', '"'], true)
    else if ['\'', '\'', '\''].isPrefixOf text then (['\'', '\'', '\''], false)
    else if ['"'].isPrefixOf text then (['"'], true)
    else (['\''], false)
  if interpolates && text.contains '$' then none
  else (stripQuote quote text).map String.ofList

end BuildPrune.Literal
