/-!
# BuildPrune.Decimal.Shortest

The shortest decimal that reads back as a given binary fraction, and its two notations.

A positive value `m * 2 ^ q` with a mantissa of 53 bits owns the interval of reals that are nearer
to it than to its neighbours. On the grid of the multiples of a power of ten the two points next to
the value are tried, from the coarsest grid on; the first that lies in the interval is the answer.
All comparisons are between integers.
-/

namespace BuildPrune.Decimal

/-- The value `digits * 10 ^ exponent`. -/
structure Numeral where
  digits : Nat
  exponent : Int
  deriving DecidableEq, Repr

/-- A fraction of two natural numbers. -/
structure Ratio where
  num : Nat
  den : Nat
  deriving DecidableEq, Repr

/-- `n * base ^ e`, as a fraction. -/
def Ratio.scaled (n base : Nat) (e : Int) : Ratio :=
  if 0 ≤ e then ⟨n * base.pow e.toNat, 1⟩ else ⟨n, base.pow (-e).toNat⟩

/-- `a ≤ b` -/
def Ratio.le (a b : Ratio) : Bool :=
  a.num * b.den ≤ b.num * a.den

/-- `a < b` -/
def Ratio.lt (a b : Ratio) : Bool :=
  a.num * b.den < b.num * a.den

/-- The number of decimal digits of `n`. -/
def digitCount (n : Nat) : Nat :=
  (Nat.toDigits 10 n).length

/-- The exponent of the leading decimal digit of a positive value: the largest `e` with
`10 ^ e ≤ r`. -/
def Ratio.leadingExponent (r : Ratio) : Int :=
  if r.den ≤ r.num then (digitCount (r.num / r.den) : Int) - 1
  else
    let guess := digitCount (r.den / r.num)
    if r.den ≤ r.num * Nat.pow 10 (guess - 1) then 1 - (guess : Int) else -(guess : Int)

/-- The values that round to `m * 2 ^ q`: the ends of the interval, in quarters of `2 ^ q`, and
whether they belong to it. Below a power of two the neighbour is nearer. -/
structure Interval where
  low : Nat
  high : Nat
  closed : Bool
  deriving DecidableEq, Repr

/-- The interval of `m * 2 ^ q`. -/
def Interval.around (m : Nat) (q : Int) : Interval where
  low := if m == Nat.pow 2 52 && -1074 < q then 4 * m - 1 else 4 * m - 2
  high := 4 * m + 2
  closed := m % 2 == 0

/-- The decimal lies in the interval of `m * 2 ^ q`. -/
def readsBack (m : Nat) (q : Int) (d : Numeral) : Bool :=
  let interval := Interval.around m q
  let value := Ratio.scaled d.digits 10 d.exponent
  let low := Ratio.scaled interval.low 2 (q - 2)
  let high := Ratio.scaled interval.high 2 (q - 2)
  if interval.closed then low.le value && value.le high else low.lt value && value.lt high

/-- The point of the grid `10 ^ e` that stands for `m * 2 ^ q`: of the two next to it the one that
reads back, the nearer one if both do, the even one of two that are equally near. -/
def onGrid (m : Nat) (q e : Int) : Option Numeral :=
  let value := Ratio.scaled m 2 q
  let grid := Ratio.scaled 1 10 e
  let below := value.num * grid.den / (value.den * grid.num)
  let excess := value.num * grid.den - below * (value.den * grid.num)
  let missing := value.den * grid.num - excess
  let low : Numeral := ⟨below, e⟩
  let high : Numeral := ⟨below + 1, e⟩
  match readsBack m q low && below != 0, readsBack m q high with
  | true, true =>
    if excess < missing || (excess == missing && below % 2 == 0) then some low else some high
  | true, false => some low
  | false, true => some high
  | false, false => none

/-- `m * 2 ^ q` with all its digits. -/
def exactly (m : Nat) (q : Int) : Numeral :=
  if 0 ≤ q then ⟨m * Nat.pow 2 q.toNat, 0⟩ else ⟨m * Nat.pow 5 (-q).toNat, q⟩

/-- The decimal with the fewest digits that reads back as `m * 2 ^ q`, for positive `m`. -/
def shortest (m : Nat) (q : Int) : Numeral :=
  let leading := (Ratio.scaled m 2 q).leadingExponent
  ((List.range 17).findSome? fun (more : Nat) => onGrid m q (leading - (more : Int))).getD (exactly m q)

/-- A finite binary fraction: its sign and `m * 2 ^ q`. -/
structure Fraction where
  negative : Bool
  m : Nat
  q : Int
  deriving DecidableEq, Repr

/-- The fraction that a finite floating-point number denotes. -/
def Fraction.ofFloat (x : Float) : Fraction :=
  let bits := x.toBits.toNat
  let exponent : Nat := bits / Nat.pow 2 52 % Nat.pow 2 11
  let mantissa := bits % Nat.pow 2 52
  let negative := bits / Nat.pow 2 63 == 1
  if exponent == 0 then ⟨negative, mantissa, -1074⟩
  else ⟨negative, mantissa + Nat.pow 2 52, (exponent : Int) - 1075⟩

/-! ### Notations -/

/-- `n` zeros. -/
def zeros (n : Nat) : String :=
  String.ofList (List.replicate n '0')

/-- Digits without the zeros they end in. -/
def trimZeros (digits : List Char) : List Char :=
  (digits.reverse.dropWhile (· == '0')).reverse

/-- The decimal digits of the fraction, and how many of them precede the point. -/
def Fraction.layout (x : Fraction) : List Char × Int :=
  if x.m == 0 then (['0'], 1)
  else
    let d := shortest x.m x.q
    let digits := Nat.toDigits 10 d.digits
    (trimZeros digits, digits.length + d.exponent)

/-- Digits with the point at `place`, without exponent, always with a digit on both sides of the
point. -/
def positional (digits : List Char) (place : Int) : String :=
  if digits.length ≤ place then
    String.ofList digits ++ zeros (place - digits.length).toNat ++ ".0"
  else if 0 < place then
    String.ofList (digits.take place.toNat) ++ "." ++ String.ofList (digits.drop place.toNat)
  else "0." ++ zeros (-place).toNat ++ String.ofList digits

/-- Digits with the point behind the first of them and a power of ten. -/
def scientific (digits : List Char) (place : Int) : String :=
  let fraction := digits.drop 1
  String.ofList (digits.take 1) ++ (if fraction.isEmpty then "" else "." ++ String.ofList fraction) ++
    "e" ++ toString (place - 1)

/-- The shortest decimal without exponent. -/
def Fraction.plain (x : Fraction) : String :=
  let (digits, place) := x.layout
  (if x.negative then "-" else "") ++ positional digits place

/-- The shortest decimal, with an exponent if the point is more than sixteen places to the right of
the first digit or more than five to the left. -/
def Fraction.compact (x : Fraction) : String :=
  let (digits, place) := x.layout
  (if x.negative then "-" else "") ++
    (if -5 < place && place ≤ 16 then positional digits place else scientific digits place)

end BuildPrune.Decimal
