import BuildPrune.Yaml.ScalarText
import BuildPrune.Yaml.Tag

/-!
# BuildPrune.Yaml.Scalar

What a plain scalar means: nothing, a truth value, an integer, a floating-point number or a string.
Integers are written in decimal or, behind `0x`, `0o` or `0b`, in another base. Digits behind a
leading zero are a string.
-/

namespace BuildPrune.Yaml

/-- The meaning of a scalar. -/
inductive Scalar
  | null
  | bool (value : Bool)
  | int (value : Int)
  | float (value : Float)
  | str (text : String)
  deriving Repr

namespace Scalar

/-- A spelling of nothing. -/
def isNull (text : String) : Bool :=
  ["null", "Null", "NULL", "~"].contains text

/-- The truth value of this spelling. -/
def bool? (text : String) : Option Bool :=
  if ["true", "True", "TRUE"].contains text then some true
  else if ["false", "False", "FALSE"].contains text then some false
  else none

/-! ### Integers -/

/-- The value of a digit. Letters are the digits from ten on. -/
def digit? (base : Nat) (c : Char) : Option Nat :=
  (hexDigit? c).filter (· < base)

/-- The number with these digits. -/
def natural? (base : Nat) (digits : List Char) : Option Nat :=
  if digits.isEmpty then none
  else digits.foldlM (fun value c => (digit? base c).map (base * value + ·)) 0

/-- Digits behind a leading zero, with or without a sign. -/
def hasLeadingZero (text : List Char) : Bool :=
  let digits := match text with
    | '-' :: rest => rest
    | '+' :: rest => rest
    | text => text
  match digits with
  | '0' :: c :: rest => (c :: rest).all Char.isDigit
  | _ => false

/-- The number that the digits behind a base mark denote. -/
def basedNatural? : List Char → Option Nat
  | '0' :: 'x' :: digits => natural? 16 digits
  | '0' :: 'o' :: digits => natural? 8 digits
  | '0' :: 'b' :: digits => natural? 2 digits
  | _ => none

/-- The number without sign that the text denotes, in any base. -/
def unsigned? (text : List Char) : Option Nat :=
  (basedNatural? text).or (natural? 10 text)

/-- The integer that the text denotes. -/
def int? (text : List Char) : Option Int :=
  if hasLeadingZero text then none
  else
    match text with
    | '-' :: digits => (unsigned? digits).map fun n => -(n : Int)
    | '+' :: digits => (unsigned? digits).map Int.ofNat
    | digits => (unsigned? digits).map Int.ofNat

/-- The integer fits into 64 bits, with or without sign. -/
def isWord64 (n : Int) : Bool :=
  -Int.pow 2 63 ≤ n && n < Int.pow 2 64

/-- The integer fits into 128 bits, with or without sign. -/
def isWord128 (n : Int) : Bool :=
  -Int.pow 2 127 ≤ n && n < Int.pow 2 128

/-! ### Floating-point numbers -/

/-- The exponent behind the digits of a number: `e`, a sign and digits, or nothing. -/
def exponent? : List Char → Option Int
  | [] => some 0
  | c :: rest =>
    if c == 'e' || c == 'E' then
      match rest with
      | '-' :: digits => (natural? 10 digits).map fun n => -(n : Int)
      | '+' :: digits => (natural? 10 digits).map Int.ofNat
      | digits => (natural? 10 digits).map Int.ofNat
    else none

/-- `digits * 10 ^ exponent`, rounded to the nearest floating-point number. -/
def scaled (digits : Nat) (exponent : Int) : Float :=
  if 0 ≤ exponent then Float.ofScientific digits false exponent.toNat
  else Float.ofScientific digits true (-exponent).toNat

/-- The number without sign that decimal digits with a point and an exponent denote. At least one
digit stands beside the point. -/
def decimal? (text : List Char) : Option Float := do
  let whole := text.takeWhile Char.isDigit
  let rest := text.dropWhile Char.isDigit
  let (fraction, rest) := match rest with
    | '.' :: rest => (rest.takeWhile Char.isDigit, rest.dropWhile Char.isDigit)
    | rest => ([], rest)
  let digits ← natural? 10 (whole ++ fraction)
  let exponent ← exponent? rest
  let places := exponent - fraction.length
  -- Beyond these exponents the value is infinite or zero whatever its digits are.
  let size := (whole ++ fraction).length
  let places := max (-400 - (size : Int)) (min places 400)
  return scaled digits places

/-- The floating-point number that the text denotes, also an infinite one and none at all. -/
def float? (text : List Char) : Option Float :=
  let isInfinite := fun text => [".inf", ".Inf", ".INF"].contains (String.ofList text)
  let finite := fun (x : Float) => if x.isFinite then some x else none
  match text with
  | '-' :: rest =>
    if isInfinite rest then some (-1.0 / 0.0) else (decimal? rest).bind fun x => finite (-x)
  | '+' :: rest => if isInfinite rest then some (1.0 / 0.0) else (decimal? rest).bind finite
  | text =>
    if isInfinite text then some (1.0 / 0.0)
    else if [".nan", ".NaN", ".NAN"].contains (String.ofList text) then some (0.0 / 0.0)
    else (decimal? text).bind finite

/-! ### Meaning -/

/-- The meaning of an integer. One of more than 64 bits has none; one of more than 128 bits is read
as a floating-point number. -/
def ofInt? (text : List Char) : Option (Option Scalar) :=
  match int? text with
  | some n => if isWord64 n then some (some (.int n)) else if isWord128 n then some none else none
  | none => none

/-- The meaning of a plain scalar without a tag, none if it has none. -/
def ofPlain? (text : String) : Option Scalar :=
  if text.isEmpty || isNull text then some .null
  else
    match bool? text with
    | some value => some (.bool value)
    | none =>
      match ofInt? text.toList with
      | some meaning => meaning
      | none =>
        if hasLeadingZero text.toList then some (.str text)
        else
          match float? text.toList with
          | some value => some (.float value)
          | none => some (.str text)

/-- The meaning of a scalar with a tag of the common schema, none if it has none. Under a tag that
is not known it is a string. -/
def ofTagged? (tag : Option Tag) (text : String) : Option Scalar :=
  match tag.bind Tag.text? with
  | some "tag:yaml.org,2002:bool" => (bool? text).map .bool
  | some "tag:yaml.org,2002:int" => (ofInt? text.toList).join
  | some "tag:yaml.org,2002:float" => (float? text.toList).map .float
  | some "tag:yaml.org,2002:null" => if isNull text then some .null else none
  | _ => some (.str text)

end Scalar

end BuildPrune.Yaml
