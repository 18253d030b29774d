import BuildPrune.CommandLine.Session
import BuildPrune.Workspace.Plan

/-!
# BuildPrune.Main

The command on a real disk. What is decided is decided by the modules below; here files are read,
written and deleted, and text is printed. Paths are handed to the system as they are shown, so names
that are no texts are not found here.
-/

namespace BuildPrune.CommandLine

/-- The trouble behind an error of the operating system. -/
def troubleOf : IO.Error → Trouble
  | .noFileOrDirectory .. => .notFound
  | .inappropriateType .. => .notADirectory
  | _ => .refused

/-- Does something at `path`, or says what is in the way. -/
def attempt {α : Type} (path : RawText) (act : IO α) : ExceptT Disk.Obstacle IO α := do
  match ← act.toBaseIO with
  | .ok answer => return answer
  | .error error => throw (path, troubleOf error)

/-- What is found in the directory at `path` and below it, without what is skipped. -/
partial def searchSystem (path : RawText) : ExceptT Disk.Obstacle IO (List Found) := do
  let mut found := []
  let directory := (← IO.currentDir) / path.shown
  for child in ← attempt path directory.readDir do
    let inner := Path.join path child.fileName
    let kind :=
      match (← attempt inner child.path.symlinkMetadata).type with
      | .dir => .directory
      | .file => .file
      | _ => .link
    let entry := Found.mk inner kind
    unless entry.isSkipped do
      found := found ++ [entry]
      if kind = .directory then
        found := found ++ (← searchSystem entry.path)
  return found

/-- What a search finds that starts at `base`. -/
def searchSystemFrom (base : RawText) : ExceptT Disk.Obstacle IO (List Found) := do
  let path := (← IO.currentDir) / base.shown
  match (← attempt base path.metadata).type with
  | .dir => searchSystem base
  | .file =>
    let isRegular := (← attempt base path.symlinkMetadata).type == .file
    return [⟨base, if isRegular then .file else .link⟩]
  | _ => return []

/-- The path leads to a regular file. -/
def isFileAt (path : RawText) : IO Bool := do
  try
    return (← ((← IO.currentDir) / path.shown).metadata).type == .file
  catch _ => return false

/-- Reads a file that was found. -/
def fetchScript (path : RawText) : ExceptT Failure IO Workspace.FoundFile := do
  match ← (IO.FS.readBinFile path.shown).toBaseIO with
  | .ok content => return (path, content)
  | .error _ => throw (.access .read path)

/-- Reads the project at `base`. -/
def loadProject (base : RawText) : ExceptT Failure IO Workspace := do
  match ← (searchSystemFrom base).run with
  | .error (path, trouble) => throw (.walk base path trouble)
  | .ok found =>
    let dialect := if ← isFileAt (Path.join base "build.gradle") then .groovy else .kotlin
    let files ← (scriptPaths found).mapM fetchScript
    return Workspace.ofFiles base dialect files

/-- Does an action, and tells whether it met a file. -/
def performAction (base : RawText) (mode : RunMode) : Action → IO (Except Failure Bool)
  | .store change => do
    let path := Path.join base change.path
    if mode = .dry then return .ok true
    try
      IO.FS.writeBinFile path.shown change.after.print.toUTF8
      return .ok true
    catch _ => return .error (.access .write path)
  | .delete file => do
    let path := Path.join base file
    if mode = .dry then return .ok (← isFileAt path)
    try
      IO.FS.removeFile path.shown
      return .ok true
    catch
      | .noFileOrDirectory .. => return .ok false
      | _ => return .error (.access .delete path)

/-- Does actions until one fails. -/
def performActions (base : RawText) (mode : RunMode) :
    List Action → Progress → IO (Except Failure Progress)
  | [], progress => return .ok progress
  | action :: rest, progress => do
    match ← performAction base mode action with
    | .ok found => performActions base mode rest (progress.record action found)
    | .error failure => return .error failure

/-- Reads the rule file at a path. -/
def loadRecipe (path : String) : IO (Except Failure Recipe) := do
  try
    return recipeOf path (← IO.FS.readBinFile path)
  catch _ => return .error (.access .read path)

/-- The terminal that the environment describes. -/
def currentTerminal : IO Terminal := do
  return ⟨← IO.getEnv "TERM", (← IO.getEnv "NO_COLOR").isSome⟩

/-- Ends the command because of a failure. -/
def fail (failure : Failure) : IO Exit := do
  IO.eprintln failure.message
  return .failure

/-- Applies the recipe to the project. -/
def Options.perform (options : Options) : IO Exit := do
  match ← loadRecipe options.recipe with
  | .error failure => fail failure
  | .ok recipe =>
    match ← (loadProject options.base).run with
    | .error failure => fail failure
    | .ok found =>
      let workspace := options.adjust found
      IO.print (failuresText workspace)
      match recipe.groups workspace.dialect with
      | .error error => fail (.unknownRecipe error)
      | .ok groups =>
        let actions := plan groups workspace.sources
        let start : Progress := { sources := workspace.sources }
        match ← performActions workspace.base options.mode actions start with
        | .error failure => fail failure
        | .ok progress =>
          IO.print (reportText options (← currentTerminal) (workspace.report progress))
          return .success

end BuildPrune.CommandLine

open BuildPrune.CommandLine in
/-- Removes from the build scripts of a project what its rule file names. -/
def main (arguments : List String) : IO UInt32 := do
  let exit ←
    match Request.ofArguments arguments with
    | .run options => options.perform
    | .version => do IO.print versionText; pure Exit.success
    | .help => do IO.print helpText; pure Exit.success
    | .misuse => do IO.eprint helpText; pure Exit.misuse
  return exit.code.toUInt32
