import BuildPrune.CommandLine.Output

/-!
# BuildPrune.CommandLine.Session

The command as a whole: from its arguments and a disk to what it prints, how it ends and what it
leaves on the disk.
-/

namespace BuildPrune.CommandLine

/-- How the command ends. -/
inductive Exit
  | success
  | failure
  | misuse
  deriving DecidableEq, Repr

/-- The exit code. -/
def Exit.code : Exit → Nat
  | .success => 0
  | .failure => 1
  | .misuse => 2

/-- What the command leaves behind. -/
structure Session where
  exit : Exit
  output : String
  disk : Disk
  /-- What ended the run, if something went wrong. -/
  failure : Option Failure := none

/-- The recipe in the content of the rule file at a path. -/
def recipeOf (path : String) (content : ByteArray) : Except Failure Recipe :=
  match String.fromUTF8? content with
  | none => .error (.access .read path)
  | some text =>
    match Recipe.read text with
    | .ok recipe => .ok recipe
    | .error error => .error (.recipe error)

/-- The recipe at a path. -/
def readRecipe (disk : Disk) (path : String) : Except Failure Recipe :=
  match disk.read path with
  | .ok content => recipeOf path content
  | .error _ => .error (.access .read path)

namespace Options

/-- The workspace with the dialect that the options fix. -/
def adjust (options : Options) (workspace : Workspace) : Workspace :=
  match options.dialect with
  | .auto => workspace
  | .fixed dialect => { workspace with dialect := dialect }

/-- Whether the run writes to the disk. -/
def mode (options : Options) : RunMode :=
  if options.dryRun then .dry else .write

/-- Reads the rule file and the project. -/
def load (options : Options) (disk : Disk) : Except Failure (Recipe × Workspace) := do
  let recipe ← readRecipe disk options.recipe
  let workspace ← Workspace.load disk options.base
  return (recipe, options.adjust workspace)

/-- Applies the recipe to the project. -/
def execute (options : Options) (terminal : Terminal) (disk : Disk) : Session :=
  match options.load disk with
  | .error failure => ⟨.failure, "", disk, some failure⟩
  | .ok (recipe, workspace) =>
    let bad := failuresText workspace
    let result := workspace.run recipe options.mode disk
    match result.outcome with
    | .ok report => ⟨.success, bad ++ reportText options terminal report, result.disk, none⟩
    | .error failure => ⟨.failure, bad, result.disk, some failure⟩

end Options

/-- The command with some arguments on a disk. -/
def session (arguments : List String) (terminal : Terminal) (disk : Disk) : Session :=
  match Request.ofArguments arguments with
  | .run options => options.execute terminal disk
  | .version => ⟨.success, versionText, disk, none⟩
  | .help => ⟨.success, helpText, disk, none⟩
  | .misuse => ⟨.misuse, "", disk, none⟩

end BuildPrune.CommandLine
