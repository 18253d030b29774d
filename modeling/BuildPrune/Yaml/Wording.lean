import BuildPrune.Decimal.Shortest
import BuildPrune.Text.Quoted
import BuildPrune.Yaml.Node

/-!
# BuildPrune.Yaml.Wording

How messages name a node: by its kind, as in "integer `1`", or in full, as in `Number(1)`.
-/

namespace BuildPrune.Yaml

open Decimal (Fraction)
open Text (quoted)

/-- A truth value in a message. -/
def boolText (value : Bool) : String :=
  if value then "true" else "false"

/-- A floating-point number in a message that names a kind: without exponent. -/
def floatText (x : Float) : String :=
  if x.isNaN then "NaN"
  else if x.isInf then if x < 0 then "-inf" else "inf"
  else (Fraction.ofFloat x).plain

/-- A floating-point number as YAML writes it: with an exponent where that is shorter. -/
def numberText (x : Float) : String :=
  if x.isNaN then ".nan"
  else if x.isInf then if x < 0 then "-.inf" else ".inf"
  else (Fraction.ofFloat x).compact

namespace Node

/-- The kind of a node, with the value of a scalar. -/
def kindText (node : Node) : String :=
  match node.untagged with
  | .scalar .null => "unit value"
  | .scalar (.bool value) => "boolean `" ++ boolText value ++ "`"
  | .scalar (.int value) => "integer `" ++ toString value ++ "`"
  | .scalar (.float value) => "floating point `" ++ floatText value ++ "`"
  | .scalar (.str text) => "string " ++ quoted text
  | .sequence _ => "sequence"
  | .mapping _ => "map"
  | .tagged _ _ => "enum"

/-- A scalar in full. -/
def scalarText : Scalar → String
  | .null => "Null"
  | .bool value => "Bool(" ++ boolText value ++ ")"
  | .int value => "Number(" ++ toString value ++ ")"
  | .float value => "Number(" ++ numberText value ++ ")"
  | .str text => "String(" ++ quoted text ++ ")"

/-- A scalar in full where it is a key: without the name of its kind. -/
def scalarKeyText : Scalar → String
  | .null => "Null"
  | .bool value => boolText value
  | .int value => toString value
  | .float value => numberText value
  | .str text => quoted text

mutual

/-- A node in full. -/
def fullText : Node → String
  | .scalar value => scalarText value
  | .sequence items => "Sequence [" ++ ", ".intercalate (itemTexts items) ++ "]"
  | .mapping pairs => "Mapping \x7b" ++ ", ".intercalate (pairTexts pairs) ++ "\x7d"
  | .tagged tag node => "TaggedValue \x7b tag: !" ++ tag ++ ", value: " ++ fullText node ++ " \x7d"

/-- The items of a sequence in full. -/
def itemTexts : List Node → List String
  | [] => []
  | item :: rest => fullText item :: itemTexts rest

/-- The pairs of a mapping in full. -/
def pairTexts : List (Node × Node) → List String
  | [] => []
  | (key, value) :: rest =>
    let keyText := match key with
      | .scalar value => scalarKeyText value
      | key => fullText key
    (keyText ++ ": " ++ fullText value) :: pairTexts rest

end

end Node

end BuildPrune.Yaml
