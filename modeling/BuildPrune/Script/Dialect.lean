/-!
# BuildPrune.Script.Dialect

The two surface languages of build scripts, and the capabilities in which their grammars differ.
The parser asks for a capability, never for the dialect.
-/

namespace BuildPrune

/-- A surface language of build scripts. -/
inductive Dialect
  /-- `build.gradle`, `settings.gradle`, `*.gradle`. -/
  | groovy
  /-- `build.gradle.kts`, `*.gradle.kts`. -/
  | kotlin
  deriving DecidableEq, Repr, Inhabited

/-- The forms of expression that only one of the dialects has. -/
structure Capabilities where
  /-- `@Name(...) expr` is one expression. -/
  annotatedExpressions : Bool
  /-- Calls without parentheses: `implementation 'a:b:1.0'`, `id 'x' version '1'`. -/
  commandExpressions : Bool
  /-- Calls between their operands: `id("x") version "1"`. -/
  infixCalls : Bool
  deriving DecidableEq, Repr

namespace Dialect

/-- What the grammar of the dialect allows. -/
def capabilities : Dialect → Capabilities
  | .groovy => ⟨false, true, false⟩
  | .kotlin => ⟨true, false, true⟩

/-- The name of the dialect in options and reports. -/
def name : Dialect → String
  | .groovy => "groovy"
  | .kotlin => "kotlin"

/-- The dialect of that name. -/
def ofName? : String → Option Dialect
  | "groovy" => some .groovy
  | "kotlin" => some .kotlin
  | _ => none

end Dialect

end BuildPrune
