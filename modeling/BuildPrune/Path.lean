import BuildPrune.Script.Dialect
import BuildPrune.Text.Raw
import BuildPrune.Text.Split

/-!
# BuildPrune.Path

Paths: their components, how they are joined and ordered, and what they say about a script. Names
are divided by `/`; an empty name and a `.` that is not the first name mean nothing. Nothing here
looks at a disk, so `..` stays where it is.
-/

namespace BuildPrune.Path

/-- The byte between the names of a path. -/
def slash : UInt8 := 0x2F

/-- A step of a path. -/
inductive Component
  /-- The `/` at the start of an absolute path. -/
  | root
  /-- A `.` at the start of a path. -/
  | here
  /-- A `..` anywhere. -/
  | up
  | name (raw : RawText)
  deriving DecidableEq, Repr

/-- A component as it is written. -/
def Component.raw : Component → RawText
  | .root => "/"
  | .here => "."
  | .up => ".."
  | .name raw => raw

/-- The step that a piece of a path stands for, unless it means nothing. -/
def Component.ofPiece? (piece : RawText) : Option Component :=
  if piece = "" ∨ piece = "." then none
  else if piece = ".." then some .up
  else some (.name piece)

/-- The path starts at the root. -/
def isAbsolute (path : RawText) : Bool :=
  path.bytes.head? = some slash

/-- The names between the slashes of a path, empty ones included. -/
def pieces (path : RawText) : List RawText :=
  (Text.cut slash path.bytes).map RawText.mk

/-- The steps of a path. -/
def components (path : RawText) : List Component :=
  let steps := (pieces path).filterMap Component.ofPiece?
  if isAbsolute path then .root :: steps
  else if (pieces path).head? = some (RawText.ofText ".") then .here :: steps
  else steps

/-- The name at the end of a path, if the path ends in one. -/
def fileName? (path : RawText) : Option RawText :=
  match (components path).getLast? with
  | some (.name raw) => some raw
  | _ => none

/-- One path and then another, with a slash between. -/
def attach (front path : RawText) : RawText :=
  ⟨front.bytes ++ slash :: path.bytes⟩

/-- `path` taken from `base`. An absolute path forgets the base; an empty path leaves a slash. -/
def join (base path : RawText) : RawText :=
  if isAbsolute path then path
  else if base.bytes = [] ∨ base.bytes.getLast? = some slash then ⟨base.bytes ++ path.bytes⟩
  else attach base path

/-- What is left of `steps` after those of `start`, if it begins with them. -/
def dropSteps? : (start steps : List Component) → Option (List Component)
  | [], steps => some steps
  | _ :: _, [] => none
  | a :: start, b :: steps => if a = b then dropSteps? start steps else none

/-- `path` as seen from `root`, or all of it if it is not below `root`, as it is shown. -/
def relativeTo (root path : RawText) : String :=
  let steps := (dropSteps? (components root) (components path)).getD (components path)
  "/".intercalate (steps.map fun step => step.raw.shown)

/-- The characters of a path without the `./` it starts with, however often that is repeated. -/
def dropDotSlash : List Char → List Char
  | '.' :: '/' :: rest => dropDotSlash rest
  | path => path

/-- A path of a rule file in the form in which paths are compared. -/
def normalize (path : String) : String :=
  String.ofList (dropDotSlash path.toList)

/-! ### The order of paths -/

/-- Where a component stands among others: the root, `.` and `..` come before names, and these are
in the order of their bytes. -/
def Component.key : Component → List Nat
  | .root => [0]
  | .here => [1]
  | .up => [2]
  | .name raw => 3 :: raw.bytes.map UInt8.toNat

/-- What is compared of a path, step by step. -/
def key (path : RawText) : List (List Nat) :=
  (components path).map Component.key

/-- One path comes before another. -/
def Before (path other : RawText) : Prop :=
  List.Lex (List.Lex Nat.lt) (key path) (key other)

-- The instances are named, so that the order does not depend on what else is in scope.
instance (path other : RawText) : Decidable (Before path other) :=
  @List.decidableLT (List Nat) instDecidableEqList (@List.instLT Nat instLTNat)
    (@List.decidableLT Nat instDecidableEqNat instLTNat Nat.decLt) (key path) (key other)

/-! ### Scripts -/

/-- The names that build scripts have most often. -/
def wellKnownScripts : List String :=
  ["build.gradle", "build.gradle.kts", "settings.gradle", "settings.gradle.kts", "init.gradle",
    "init.gradle.kts"]

/-- A file of this name is a build script. -/
def isScriptName (name : String) : Bool :=
  wellKnownScripts.contains name || Text.endsWith name ".gradle" || Text.endsWith name ".gradle.kts"

/-- The path names a build script. A name that is no text is never one. -/
def isBuildScript (path : RawText) : Bool :=
  ((fileName? path).bind RawText.text?).any isScriptName

/-- The dialect of a script, as its name tells. -/
def dialect (path : RawText) : Dialect :=
  if ((fileName? path).bind RawText.text?).any (Text.endsWith · ".kts") then .kotlin else .groovy

end BuildPrune.Path
