import BuildPrune.Disk.Lookup
import BuildPrune.Recipe.Reader
import BuildPrune.Script.ParseError

/-!
# BuildPrune.Failure

What can go wrong, by cause. A script that cannot be read is set aside and the run goes on; a
`Failure` ends it.
-/

namespace BuildPrune

/-- The three kinds of failure that reports tell apart. -/
inductive FailureKind
  | parse
  | config
  | io
  deriving DecidableEq, Repr

/-- What the report of a failure starts with. -/
def FailureKind.heading : FailureKind → String
  | .parse => "Parse error: "
  | .config => "Configuration error: "
  | .io => "I/O error: "

/-- Why a file is no script. -/
inductive ScriptFailure
  /-- The content is no UTF-8. -/
  | encoding
  | rejected (error : ParseError)
  deriving DecidableEq, Repr

/-- The report of a failure of the script at `path`. -/
def ScriptFailure.message (path : String) (failure : ScriptFailure) : String :=
  FailureKind.parse.heading ++
    match failure with
    | .encoding => "'" ++ path ++ "' is not valid UTF-8"
    | .rejected error => error.message

/-- Where the failure points to. -/
def ScriptFailure.span? : ScriptFailure → Option Span
  | .encoding => none
  | .rejected error => some error.span

/-- What was to be done with a file. -/
inductive Access
  | read
  | write
  | delete
  deriving DecidableEq, Repr

/-- The verb for what was to be done. -/
def Access.verb : Access → String
  | .read => "read"
  | .write => "write"
  | .delete => "delete"

/-- A failure that ends a run. -/
inductive Failure
  | recipe (error : RecipeError)
  | unknownRecipe (error : UnknownRecipe)
  /-- The project at `base` was searched, and something at `path` could not be. -/
  | walk (base path : RawText) (trouble : Trouble)
  | access (access : Access) (path : RawText)

namespace Failure

/-- The kind of a failure. -/
def kind : Failure → FailureKind
  | .recipe _ | .unknownRecipe _ => .config
  | .walk _ _ _ | .access _ _ => .io

/-- The wording of a failure. -/
def detail : Failure → String
  | .recipe error => error.message
  | .unknownRecipe error => error.message
  | .walk base path trouble =>
    "failed to walk directory '" ++ base.shown ++ "': IO error for operation on " ++ path.shown ++
      ": " ++ trouble.message
  | .access wanted path => "failed to " ++ wanted.verb ++ " '" ++ path.shown ++ "'"

/-- The report of a failure. -/
def message (failure : Failure) : String :=
  failure.kind.heading ++ failure.detail

end Failure

end BuildPrune
