import BuildPrune.Script.Cursor
import BuildPrune.Script.Tree

/-!
# BuildPrune.Script.TypeArgs

The two lists that are recognised by looking ahead: the type arguments of a call, which could also
be comparisons, and the parameters of a lambda, which could also be its first statement. A scan over
the tokens finds where the list ends, then the list is read up to there.
-/

namespace BuildPrune

/-! ### Type arguments -/

/-- A token that can stand between the angle brackets. -/
def Token.inTypeArgs (t : Token) : Bool :=
  t.isIdent || t.isOneOf [".", ",", "?", "*", ":"]

/-- How many tokens precede the `>` that closes the outermost of `depth` open brackets. The list
stays on one line, and the arguments or the lambda of a call follow it there. -/
def typeArgsLength (depth : Nat) : List Token → Option Nat
  | [] => none
  | t :: rest =>
    if t.startsLine then none
    else if t.is "<" then (typeArgsLength (depth + 1) rest).map (· + 1)
    else if t.is ">" then
      match depth with
      | 0 | 1 =>
        if rest.head?.any fun after => (after.is "(" || after.is openBrace) && !after.startsLine then
          some 0
        else none
      | depth + 1 => (typeArgsLength depth rest).map (· + 1)
    else if t.inTypeArgs then (typeArgsLength depth rest).map (· + 1)
    else none

/-- How many tokens the type arguments at the cursor have between `<` and the matching `>`, if what
stands there are the type arguments of a call. -/
def Cursor.typeArgsClose (c : Cursor) : Option Nat :=
  match c.rest with
  | t :: rest => if t.is "<" && t.attached then typeArgsLength 1 rest else none
  | [] => none

/-- Splits the tokens between the angle brackets at the commas outside inner brackets. `current`
holds the tokens of the parameter that is being read, inside `depth` inner brackets. -/
def splitTypeParams (depth : Nat) (current : List Token) : List Token → List TypeParam
  | [] => if current.isEmpty then [] else [⟨current, none⟩]
  | t :: rest =>
    if t.is "<" then splitTypeParams (depth + 1) (current ++ [t]) rest
    else if t.is ">" then splitTypeParams (depth - 1) (current ++ [t]) rest
    else if t.is "," && depth == 0 then ⟨current, some t⟩ :: splitTypeParams depth [] rest
    else splitTypeParams depth (current ++ [t]) rest

/-- Reads type arguments with `count` tokens between the angle brackets. -/
def Cursor.typeArgs (c : Cursor) (count : Nat) : Option (TypeArgs × Cursor) := do
  let (opening, c) ← c.take? (·.is "<")
  let (inner, c) := c.takeMany count
  let (closing, c) ← c.take? (·.is ">")
  return (⟨opening, splitTypeParams 0 [] inner, closing⟩, c)

/-- Reads the type arguments of a call if there are some. -/
def Cursor.typeArgs? (c : Cursor) : Option TypeArgs × Cursor :=
  match c.typeArgsClose.bind c.typeArgs with
  | some (types, c) => (some types, c)
  | none => (none, c)

/-! ### Lambda parameters -/

/-- A token that can stand in the parameters of a lambda. -/
def Token.inLambdaParams (t : Token) : Bool :=
  t.isIdent || t.isOneOf [",", ":", ".", "?", "(", ")"]

/-- How many tokens precede the `->` that ends the parameters of a lambda, none of them starting a
line. -/
def arrowAfter : List Token → Option Nat
  | [] => none
  | t :: rest =>
    if t.is "->" then some 0
    else if t.startsLine || !t.inLambdaParams then none
    else (arrowAfter rest).map (· + 1)

/-- How many tokens the lambda parameters at the cursor have in front of the arrow. The first may
start a line. -/
def Cursor.lambdaArrow (c : Cursor) : Option Nat :=
  match c.rest with
  | [] => none
  | t :: rest =>
    if t.is "->" then some 0
    else if t.inLambdaParams then (arrowAfter rest).map (· + 1)
    else none

/-- Reads the parameters of a lambda with `count` tokens in front of the arrow. -/
def Cursor.lambdaParams (c : Cursor) (count : Nat) : Option (LambdaParams × Cursor) := do
  let (tokens, c) := c.takeMany count
  let (arrow, c) ← c.take? (·.is "->")
  return (⟨tokens, arrow⟩, c)

/-- Reads the parameters of a lambda if there are some. -/
def Cursor.lambdaParams? (c : Cursor) : Option LambdaParams × Cursor :=
  match c.lambdaArrow.bind c.lambdaParams with
  | some (params, c) => (some params, c)
  | none => (none, c)

end BuildPrune
