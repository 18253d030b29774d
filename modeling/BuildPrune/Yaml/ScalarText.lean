import BuildPrune.Yaml.Place

/-!
# BuildPrune.Yaml.ScalarText

The text of scalars in their five styles: plain, between single and double quotes, literal and
folded. Each reader takes a place and answers the text and the place behind it, or nothing if the
scalar is malformed.

The readers take a bound on their number of steps. Each step reads a character, so the length of the
text is enough.
-/

namespace BuildPrune.Yaml

/-! ### Gaps -/

/-- White space inside a plain or quoted scalar: blanks on one line, or line breaks. -/
structure Gap where
  blanks : List Char := []
  firstBreak : List Char := []
  moreBreaks : List Char := []
  /-- There is a line break in the gap. -/
  isBroken : Bool := false
  deriving Repr

namespace Gap

/-- What the gap counts as. A single line feed is folded to a space, one that is followed by further
line breaks is dropped. -/
def text (g : Gap) : List Char :=
  if !g.isBroken then g.blanks
  else if g.firstBreak == ['\n'] then if g.moreBreaks.isEmpty then [' '] else g.moreBreaks
  else g.firstBreak ++ g.moreBreaks

/-- Reads blanks and line breaks. A tab that indents a line less than `indent` is refused. -/
def read (indent : Nat) : Nat → Gap → Place → Option (Gap × Place)
  | 0, _, _ => none
  | n + 1, g, p =>
    match p.lineBreak? with
    | some (text, after) =>
      if g.isBroken then read indent n { g with moreBreaks := g.moreBreaks ++ text } after
      else read indent n { g with blanks := [], firstBreak := text, isBroken := true } after
    | none =>
      match p.charAt 0 with
      | some c =>
        if !isBlank c then some (g, p)
        else if g.isBroken then
          if c == '\t' && p.column < indent then none else read indent n g (p.skip 1)
        else read indent n { g with blanks := g.blanks ++ [c] } (p.skip 1)
      | none => some (g, p)

end Gap

/-! ### Plain scalars -/

/-- The indicators that end a plain scalar inside a flow collection. -/
def flowIndicators : List Char :=
  [',', '[', ']', '{', '}']

/-- Reads characters of a plain scalar up to white space or an indicator that ends it. Inside a flow
collection a `:` right in front of an indicator is refused. -/
def plainRun (inFlow : Bool) : Nat → List Char → Place → Option (List Char × Place)
  | 0, _, _ => none
  | n + 1, text, p =>
    match p.charAt 0 with
    | none => some (text, p)
    | some c =>
      if p.spaceAt 0 then some (text, p)
      else if inFlow && c == ':' &&
          ((p.charAt 1).any fun d => d == '?' || flowIndicators.contains d) then none
      else if (c == ':' && p.spaceAt 1) || (inFlow && flowIndicators.contains c) then some (text, p)
      else plainRun inFlow n (text ++ [c]) (p.skip 1)

/-- Reads a plain scalar whose text so far is `text`, behind the gap `gap`. Answers the text,
whether a line break followed it, and the place behind. A line that is indented less than `indent`
does not belong to the scalar, except in a flow collection. -/
def plainFrom (inFlow : Bool) (indent : Nat) : Nat → List Char → Gap → Place →
    Option (List Char × Bool × Place)
  | 0, _, _, _ => none
  | n + 1, text, gap, p =>
    if p.atDocumentMark || p.isAt '#' then some (text, gap.isBroken, p)
    else
      match plainRun inFlow (n + 1) [] p with
      | none => none
      | some (run, p) =>
        let (text, gap) := if run.isEmpty then (text, gap) else (text ++ gap.text ++ run, {})
        if p.atEnd || !p.spaceAt 0 then some (text, gap.isBroken, p)
        else
          match Gap.read indent (n + 1) gap p with
          | none => none
          | some (gap, p) =>
            if !inFlow && p.column < indent then some (text, gap.isBroken, p)
            else plainFrom inFlow indent n text gap p

/-! ### Quoted scalars -/

/-- The value of a hexadecimal digit. -/
def hexDigit? (c : Char) : Option Nat :=
  if c.isDigit then some (c.toNat - '0'.toNat)
  else if 'a' ≤ c && c ≤ 'f' then some (c.toNat - 'a'.toNat + 10)
  else if 'A' ≤ c && c ≤ 'F' then some (c.toNat - 'A'.toNat + 10)
  else none

/-- The number with these hexadecimal digits. -/
def hexValue? (digits : List Char) : Option Nat :=
  digits.foldlM (fun value c => (hexDigit? c).map (16 * value + ·)) 0

/-- The character of this code point, if there is one. -/
def codePoint? (n : Nat) : Option Char :=
  if n.isValidChar then some (Char.ofNat n) else none

/-- The character that `\` and `c` stand for, if no number follows. -/
def namedEscape? (c : Char) : Option Char :=
  match c with
  | '0' => some '\x00'
  | 'a' => some '\x07'
  | 'b' => some '\x08'
  | 't' => some '\t'
  | '\t' => some '\t'
  | 'n' => some '\n'
  | 'v' => some '\x0b'
  | 'f' => some '\x0c'
  | 'r' => some '\r'
  | 'e' => some '\x1b'
  | ' ' => some ' '
  | '"' => some '"'
  | '/' => some '/'
  | '\\' => some '\\'
  | 'N' => some '\u0085'
  | '_' => some '\u00a0'
  | 'L' => some '\u2028'
  | 'P' => some '\u2029'
  | _ => none

/-- How many hexadecimal digits follow `\` and `c`. -/
def escapeWidth? (c : Char) : Option Nat :=
  match c with
  | 'x' => some 2
  | 'u' => some 4
  | 'U' => some 8
  | _ => none

/-- The character of the escape sequence that starts with the backslash here, and the place behind
it. -/
def escape? (p : Place) : Option (Char × Place) := do
  let c ← p.charAt 1
  match escapeWidth? c with
  | none => return (← namedEscape? c, p.skip 2)
  | some width =>
    let digits := (p.rest.drop 2).take width
    if digits.length < width then failure
    return (← codePoint? (← hexValue? digits), p.skip (2 + width))

/-- Reads characters of a quoted scalar up to white space, the closing quote, or a line break that a
backslash takes out. Answers also whether it stopped at such a line break. -/
def quotedRun (single : Bool) : Nat → List Char → Place → Option (List Char × Bool × Place)
  | 0, _, _ => none
  | n + 1, text, p =>
    match p.charAt 0 with
    | none => some (text, false, p)
    | some c =>
      if p.spaceAt 0 then some (text, false, p)
      else if single && c == '\'' then
        if p.charAt 1 == some '\'' then quotedRun single n (text ++ [c]) (p.skip 2)
        else some (text, false, p)
      else if !single && c == '"' then some (text, false, p)
      else if !single && c == '\\' then
        match (p.skip 1).lineBreak? with
        | some (_, after) => some (text, true, after)
        | none =>
          match escape? p with
          | some (d, after) => quotedRun single n (text ++ [d]) after
          | none => none
      else quotedRun single n (text ++ [c]) (p.skip 1)

/-- Reads a quoted scalar, behind its opening quote, up to and with its closing quote. -/
def quotedFrom (single : Bool) : Nat → List Char → Place → Option (List Char × Place)
  | 0, _, _ => none
  | n + 1, text, p =>
    if p.atDocumentMark || p.atEnd then none
    else
      match quotedRun single (n + 1) [] p with
      | none => none
      | some (run, escapedBreak, p) =>
        if p.isAt (if single then '\'' else '"') then
          some (text ++ run, p.skip 1)
        else
          match Gap.read 0 (n + 1) { isBroken := escapedBreak } p with
          | none => none
          | some (gap, p) => quotedFrom single n (text ++ run ++ gap.text) p

/-! ### Block scalars -/

/-- What becomes of the line breaks at the end of a block scalar. -/
inductive Chomping
  | strip
  | clip
  | keep
  deriving DecidableEq, Repr

/-- The chomping that `c` stands for. -/
def chomping? : Option Char → Option Chomping
  | some '+' => some .keep
  | some '-' => some .strip
  | _ => none

/-- The indentation that `c` stands for, if it is a digit. -/
def indentation? (c : Option Char) : Option Nat :=
  c.bind fun c => if c.isDigit then some (c.toNat - '0'.toNat) else none

/-- Reads the header of a block scalar behind its indicator: the chomping and the indentation in
either order, a comment, and the line break. -/
def blockHeader (p : Place) : Option (Chomping × Option Nat × Place) := do
  let (chomping, indentation, p) :=
    match chomping? (p.charAt 0) with
    | some chomping =>
      match indentation? (p.charAt 1) with
      | some n => (chomping, some n, p.skip 2)
      | none => (chomping, none, p.skip 1)
    | none =>
      match indentation? (p.charAt 0) with
      | none => (.clip, none, p)
      | some n =>
        match chomping? (p.charAt 1) with
        | some chomping => (chomping, some n, p.skip 2)
        | none => (.clip, some n, p.skip 1)
  if indentation == some 0 then failure
  let p := p.skipWhile isBlank
  let p := if p.isAt '#' then p.skipLine else p
  match p.lineBreak? with
  | some (_, p) => return (chomping, indentation, p)
  | none => if p.atEnd then return (chomping, indentation, p) else failure

/-- Reads the blank lines in front of a line of a block scalar and the indentation of that line, up
to `indent` columns if that is known. Answers the line breaks, the deepest indentation seen, and the
place. A tab in the indentation is refused. -/
def blockBreaks (indent : Option Nat) : Nat → List Char → (deepest : Nat) → Place →
    Option (List Char × Nat × Place)
  | 0, _, _, _ => none
  | n + 1, breaks, deepest, p =>
    let isShort := fun (p : Place) => indent.all (p.column < ·)
    let spaces := (p.rest.takeWhile (· == ' ')).length
    let p := p.skip (match indent with
      | some indent => min spaces (indent - p.column)
      | none => spaces)
    let deepest := max deepest p.column
    if isShort p && p.isAt '\t' then none
    else
      match p.lineBreak? with
      | some (text, after) => blockBreaks indent n (breaks ++ text) deepest after
      | none => some (breaks, deepest, p)

/-- Reads the lines of a block scalar that are indented by `indent`. `text` is the text so far,
`lastBreak` the line break behind it, `breaks` the blank lines behind that; `wasBlank` says that the
last line started with a blank. -/
def blockLines (literal : Bool) (indent : Nat) : Nat → (text lastBreak breaks : List Char) →
    (wasBlank : Bool) → Place → Option (List Char × List Char × List Char × Place)
  | 0, _, _, _, _, _ => none
  | n + 1, text, lastBreak, breaks, wasBlank, p =>
    if p.column != indent || p.atEnd then some (text, lastBreak, breaks, p)
    else
      let isBlankLine := p.blankAt 0
      let joint :=
        if !literal && lastBreak == ['\n'] && !wasBlank && !isBlankLine then
          if breaks.isEmpty then [' '] else []
        else lastBreak
      let line := p.rest.takeWhile (!isBreak ·)
      let text := text ++ joint ++ breaks ++ line
      let p := p.skipLine
      let (lastBreak, p) := (p.lineBreak?).getD ([], p)
      match blockBreaks (some indent) (n + 1) [] 0 p with
      | none => none
      | some (breaks, _, p) => blockLines literal indent n text lastBreak breaks isBlankLine p

/-- Reads a block scalar behind its indicator, in a block that is indented by `parent` columns, or
by none if the scalar is the whole document. -/
def blockScalar (literal : Bool) (parent : Option Nat) (bound : Nat) (p : Place) :
    Option (List Char × Place) := do
  let (chomping, indentation, p) ← blockHeader p
  let fixed := indentation.map (parent.getD 0 + ·)
  let (breaks, deepest, p) ← blockBreaks fixed bound [] 0 p
  let least := match parent with
    | some column => column + 1
    | none => 1
  let indent := fixed.getD (max deepest least)
  let (text, lastBreak, breaks, p) ← blockLines literal indent bound [] [] breaks false p
  return match chomping with
    | .strip => (text, p)
    | .clip => (text ++ lastBreak, p)
    | .keep => (text ++ lastBreak ++ breaks, p)

end BuildPrune.Yaml
