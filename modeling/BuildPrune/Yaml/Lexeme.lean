import BuildPrune.Yaml.ScalarText
import BuildPrune.Yaml.Tag

/-!
# BuildPrune.Yaml.Lexeme

The lexemes of a YAML text. Indentation becomes lexemes that open and close blocks, and a key that
no `?` announces gets its `key` lexeme when the `:` behind it is found. Until then the place of the
possible key is remembered, one place for the block and one for each open flow collection.

A text that has no reading answers nothing: which rule it breaks is of no use to anyone here.
-/

namespace BuildPrune.Yaml

/-- A lexeme. -/
inductive Lexeme
  | versionDirective (major minor : Nat)
  | tagDirective (handle : String) (expansion : Tag)
  | documentStart
  | documentEnd
  | sequenceBlock
  | mappingBlock
  | blockEnd
  | flowSequence
  | flowSequenceEnd
  | flowMapping
  | flowMappingEnd
  /-- `-` in a block. -/
  | entry
  /-- `,` in a flow collection. -/
  | comma
  | key
  | value
  | aliasOf (name : String)
  | anchor (name : String)
  | tag (handle : String) (suffix : Tag)
  | scalar (text : String) (plain : Bool)
  deriving DecidableEq, Repr

/-- The place of a lexeme that is a key if a `:` follows. -/
structure PossibleKey where
  /-- The number of lexemes in front of it. -/
  position : Nat
  /-- Nothing but a key can stand there. -/
  required : Bool
  line : Nat
  column : Nat
  index : Nat
  deriving Repr

/-- How far the text has been read. -/
structure Scan where
  place : Place
  lexemes : Array Lexeme := #[]
  /-- The columns of the open blocks, innermost first. -/
  columns : List Nat := []
  /-- The possible keys: of the innermost flow collection first, of the block last. -/
  keys : List (Option PossibleKey) := [none]
  /-- A key may start here. -/
  keyAllowed : Bool := true

namespace Scan

/-! ### Blocks and keys -/

/-- A flow collection is open. -/
def inFlow (s : Scan) : Bool :=
  1 < s.keys.length

/-- Adds a lexeme. -/
def push (s : Scan) (lexeme : Lexeme) : Scan :=
  { s with lexemes := s.lexemes.push lexeme }

/-- Moves on in the text. -/
def skip (s : Scan) (n : Nat) : Scan :=
  { s with place := s.place.skip n }

/-- Says whether a key may start behind what has been read. -/
def allowKey (s : Scan) (allowed : Bool) : Scan :=
  { s with keyAllowed := allowed }

/-- Inserts a lexeme at `position`. -/
def insert (s : Scan) (position : Nat) (lexeme : Lexeme) : Scan :=
  { s with lexemes := s.lexemes.insertIdxIfInBounds position lexeme }

/-- Opens a block at `column` if it is deeper than the innermost one, with its lexeme at
`position`. -/
def openBlock (s : Scan) (column position : Nat) (lexeme : Lexeme) : Scan :=
  if !s.inFlow && s.columns.head?.all (· < column) then
    { s.insert position lexeme with columns := column :: s.columns }
  else s

/-- Closes the blocks deeper than `column`, all of them if there is none. -/
def closeBlocks (s : Scan) (column : Option Nat) : Scan :=
  if s.inFlow then s
  else
    let isDeeper := fun (c : Nat) => column.all (· < c)
    let closed := (s.columns.takeWhile isDeeper).length
    { s with
      columns := s.columns.drop closed
      lexemes := s.lexemes ++ Array.replicate closed Lexeme.blockEnd }

/-- Gives up a possible key, which fails if it is required. -/
def giveUp : Option PossibleKey → Option (Option PossibleKey)
  | some key => if key.required then none else some none
  | none => some none

/-- Gives up the possible keys that are on an earlier line, or more than 1024 characters back. -/
def dropStaleKeys (s : Scan) : Option Scan := do
  let isStale := fun (key : PossibleKey) =>
    key.line < s.place.line || key.index + 1024 < s.place.index
  let keys ← s.keys.mapM fun key => if key.any isStale then giveUp key else some key
  return { s with keys }

/-- Gives up the innermost possible key. -/
def dropKey (s : Scan) : Option Scan := do
  match s.keys with
  | [] => return s
  | key :: outer => return { s with keys := (← giveUp key) :: outer }

/-- Remembers that the lexeme here may be a key. -/
def saveKey (s : Scan) : Option Scan := do
  if !s.keyAllowed then return s
  let s ← s.dropKey
  let key : PossibleKey := {
    position := s.lexemes.size
    required := !s.inFlow && s.columns.head? == some s.place.column
    line := s.place.line
    column := s.place.column
    index := s.place.index }
  return { s with keys := some key :: s.keys.drop 1 }

/-! ### White space between lexemes -/

/-- Moves on to the next lexeme, over white space and comments. A tab is no white space where a key
may start, and a byte order mark is white space where a line starts. -/
def toLexeme : Nat → Scan → Scan
  | 0, s => s
  | n + 1, s =>
    let p := s.place
    let p := if p.column == 0 && p.isAt '\uFEFF' then p.skip 1 else p
    let p := p.skipWhile fun c => c == ' ' || ((s.inFlow || !s.keyAllowed) && c == '\t')
    let p := if p.isAt '#' then p.skipLine else p
    match p.lineBreak? with
    | some (_, p) => toLexeme n { s with place := p, keyAllowed := s.keyAllowed || !s.inFlow }
    | none => { s with place := p }

/-! ### Directives, anchors and tags -/

/-- Reads a number of at most nine digits. -/
def directiveNumber (p : Place) : Option (Nat × Place) := do
  let digits := p.rest.takeWhile Char.isDigit
  if digits.isEmpty || 9 < digits.length then failure
  return (digits.foldl (fun n c => 10 * n + (c.toNat - '0'.toNat)) 0, p.skip digits.length)

/-- Reads the handle of a tag: `!`, `!!` or `!word!`, outside a directive also `!word`. -/
def tagHandle (inDirective : Bool) (p : Place) : Option (List Char × Place) := do
  if !p.isAt '!' then failure
  let word := (p.rest.drop 1).takeWhile isWord
  let handle := '!' :: word
  let p := p.skip handle.length
  if p.isAt '!' then return (handle ++ ['!'], p.skip 1)
  if inDirective && handle != ['!'] then failure
  return (handle, p)

/-- Reads the text of a tag, with whether any of it is written. -/
def tagText (full : Bool) (p : Place) : Option (Tag × Bool × Place) := do
  let text := p.rest.takeWhile (Tag.isTagChar full)
  return (← Tag.ofWritten? text, !text.isEmpty, p.skip text.length)

/-- Reads the tag here. A tag of nothing but `!` needs no handle. -/
def readTag (inFlow : Bool) (p : Place) : Option (Lexeme × Place) := do
  let (handle, suffix, p) ←
    if p.charAt 1 == some '<' then do
      let (tag, isWritten, p) ← tagText true (p.skip 2)
      if !isWritten || !p.isAt '>' then failure
      pure ("", tag, p.skip 1)
    else do
      let (handle, p) ← tagHandle false p
      let (tag, isWritten, p) ← tagText false p
      if 1 < handle.length && handle.getLast? == some '!' then
        if !isWritten then failure
        pure (String.ofList handle, tag, p)
      else
        let suffix := (Tag.ofString (String.ofList (handle.drop 1))).append tag
        if suffix.bytes.isEmpty then pure ("", .ofString "!", p) else pure ("!", suffix, p)
  if !(inFlow && p.isAt ',') && !p.spaceAt 0 then failure
  return (.tag handle suffix, p)

/-- Reads the name of the anchor or the alias here. -/
def readName (p : Place) : Option (String × Place) := do
  let name := (p.rest.drop 1).takeWhile isWord
  let p := p.skip (1 + name.length)
  let ends := p.spaceAt 0 || (p.charAt 0).any ['?', ':', ',', ']', '}', '%', '@', '\x60'].contains
  if name.isEmpty || !ends then failure
  return (String.ofList name, p)

/-- Reads the directive here, up to and with the end of its line. -/
def readDirective (p : Place) : Option (Lexeme × Place) := do
  let name := (p.rest.drop 1).takeWhile isWord
  let p := p.skip (1 + name.length)
  if name.isEmpty || !p.spaceAt 0 then failure
  let (lexeme, p) ←
    match String.ofList name with
    | "YAML" => do
      let (major, p) ← directiveNumber (p.skipWhile isBlank)
      if !p.isAt '.' then failure
      let (minor, p) ← directiveNumber (p.skip 1)
      pure (Lexeme.versionDirective major minor, p)
    | "TAG" => do
      let (handle, p) ← tagHandle true (p.skipWhile isBlank)
      if !p.blankAt 0 then failure
      let (expansion, isWritten, p) ← tagText true (p.skipWhile isBlank)
      if !isWritten || !p.spaceAt 0 then failure
      pure (Lexeme.tagDirective (String.ofList handle) expansion, p)
    | _ => failure
  let p := p.skipWhile isBlank
  let p := if p.isAt '#' then p.skipLine else p
  match p.lineBreak? with
  | some (_, p) => return (lexeme, p)
  | none => if p.atEnd then return (lexeme, p) else failure

/-! ### One lexeme -/

/-- Adds the lexeme that was read up to `place`. -/
def pushTo (s : Scan) (lexeme : Lexeme) (place : Place) : Scan :=
  { s.push lexeme with place }

/-- A mark that starts or ends a document. It closes all blocks. -/
def documentMark (s : Scan) (lexeme : Lexeme) : Option Scan := do
  let s ← (s.closeBlocks none).dropKey
  return ((s.allowKey false).push lexeme).skip 3

/-- A bracket that opens a flow collection, itself a possible key. -/
def openFlow (s : Scan) (lexeme : Lexeme) : Option Scan := do
  let s ← s.saveKey
  return (({ s with keys := none :: s.keys }.allowKey true).push lexeme).skip 1

/-- A bracket that closes a flow collection. -/
def closeFlow (s : Scan) (lexeme : Lexeme) : Option Scan := do
  let s ← s.dropKey
  let s := if s.inFlow then { s with keys := s.keys.drop 1 } else s
  return ((s.allowKey false).push lexeme).skip 1

/-- The `-` of a block sequence. -/
def readEntry (s : Scan) : Option Scan := do
  if !s.inFlow && !s.keyAllowed then failure
  let s := s.openBlock s.place.column s.lexemes.size .sequenceBlock
  let s ← s.dropKey
  return ((s.allowKey true).push .entry).skip 1

/-- The `?` of a key. -/
def readKey (s : Scan) : Option Scan := do
  if !s.inFlow && !s.keyAllowed then failure
  let s := s.openBlock s.place.column s.lexemes.size .mappingBlock
  let s ← s.dropKey
  return ((s.allowKey !s.inFlow).push .key).skip 1

/-- The `:` of a value. The possible key in front of it, if there is one, is a key. -/
def readValue (s : Scan) : Option Scan := do
  match s.keys with
  | some key :: outer =>
    let s := { s with keys := none :: outer }
    let s := s.insert key.position .key
    let s := s.openBlock key.column key.position .mappingBlock
    return ((s.allowKey false).push .value).skip 1
  | _ =>
    if !s.inFlow && !s.keyAllowed then failure
    let s := s.openBlock s.place.column s.lexemes.size .mappingBlock
    return ((s.allowKey !s.inFlow).push .value).skip 1

/-- A block scalar. -/
def readBlockScalar (s : Scan) (literal : Bool) : Option Scan := do
  let s ← s.dropKey
  let bound := s.place.rest.length + 1
  let (text, place) ← blockScalar literal s.columns.head? bound (s.place.skip 1)
  return (s.allowKey true).pushTo (.scalar (String.ofList text) false) place

/-- A quoted scalar. -/
def readQuoted (s : Scan) (single : Bool) : Option Scan := do
  let s ← s.saveKey
  let (text, place) ← quotedFrom single (s.place.rest.length + 1) [] (s.place.skip 1)
  return (s.allowKey false).pushTo (.scalar (String.ofList text) false) place

/-- A plain scalar. A key may follow it on a new line. -/
def readPlain (s : Scan) : Option Scan := do
  let s ← s.saveKey
  let indent := match s.columns.head? with
    | some column => column + 1
    | none => 0
  let (text, endsLine, place) ←
    plainFrom s.inFlow indent (s.place.rest.length + 1) [] {} s.place
  return (s.allowKey endsLine).pushTo (.scalar (String.ofList text) true) place

/-- The characters that start something other than a plain scalar. -/
def indicators : List Char :=
  ['-', '?', ':', ',', '[', ']', '{', '}', '#', '&', '*', '!', '|', '>', '\'', '"', '%', '@', '\x60']

/-- A plain scalar starts with the character `c` here. -/
def startsPlain (s : Scan) (c : Char) : Bool :=
  let p := s.place
  !(p.spaceAt 0 || indicators.contains c) || (c == '-' && !p.blankAt 1) ||
    (!s.inFlow && (c == '?' || c == ':') && !p.spaceAt 1)

/-- Reads the lexeme that starts with the character `c` here. -/
def readLexeme (s : Scan) (c : Char) : Option Scan := do
  let p := s.place
  let ends := s.inFlow || p.spaceAt 1
  if p.column == 0 && c == '%' then
    let s ← (s.closeBlocks none).dropKey
    let (lexeme, place) ← readDirective p
    return (s.allowKey false).pushTo lexeme place
  else if p.atDocumentMark then
    s.documentMark (if c == '-' then .documentStart else .documentEnd)
  else if c == '[' then s.openFlow .flowSequence
  else if c == '{' then s.openFlow .flowMapping
  else if c == ']' then s.closeFlow .flowSequenceEnd
  else if c == '}' then s.closeFlow .flowMappingEnd
  else if c == ',' then
    let s ← s.dropKey
    return ((s.allowKey true).push .comma).skip 1
  else if c == '-' && p.spaceAt 1 then s.readEntry
  else if c == '?' && ends then s.readKey
  else if c == ':' && ends then s.readValue
  else if c == '*' || c == '&' then
    let s ← s.saveKey
    let (name, place) ← readName p
    return (s.allowKey false).pushTo (if c == '*' then .aliasOf name else .anchor name) place
  else if c == '!' then
    let s ← s.saveKey
    let (lexeme, place) ← readTag s.inFlow p
    return (s.allowKey false).pushTo lexeme place
  else if (c == '|' || c == '>') && !s.inFlow then s.readBlockScalar (c == '|')
  else if c == '\'' || c == '"' then s.readQuoted (c == '\'')
  else if s.startsPlain c then s.readPlain
  else failure

/-- Reads the rest of the text. The first argument bounds the number of lexemes. -/
def run : Nat → Scan → Option (Array Lexeme)
  | 0, _ => none
  | n + 1, s => do
    let s ← (s.toLexeme (s.place.rest.length + 1)).dropStaleKeys
    let s := s.closeBlocks (some s.place.column)
    match s.place.charAt 0 with
    | some c => run n (← s.readLexeme c)
    | none =>
      let s ← (s.closeBlocks none).dropKey
      return s.lexemes

end Scan

/-- The lexemes of a text. -/
def lexemes? (text : String) : Option (List Lexeme) := do
  let chars := text.toList
  if !chars.all isAllowed then failure
  return (← Scan.run (chars.length + 1) { place := { rest := chars } }).toList

end BuildPrune.Yaml
