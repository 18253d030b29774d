import BuildPrune.Workspace.Actions

/-!
# BuildPrune.Workspace.Run

A recipe applied to a project, group by group. A group first changes the scripts that it selects, as
the groups before it left them, and then deletes its files. A run ends where something fails; what
is done by then stays done.
-/

namespace BuildPrune

/-- Whether a run writes to the disk. -/
inductive RunMode
  | write
  | dry
  deriving DecidableEq, Repr

/-! ### The state of a run -/

/-- How far a run has come. -/
structure Progress where
  sources : List Source
  /-- The paths of the scripts that changed: a set, in alphabetical order. -/
  changedPaths : List String := []
  /-- The changes made, in order. -/
  changes : List Change := []
  /-- The files deleted, in order. -/
  removed : List String := []

/-- The set of paths with one more, if it is not there yet. -/
def insertPath (path : String) : List String → List String
  | [] => [path]
  | first :: rest =>
    if path < first then path :: first :: rest
    else if path = first then first :: rest
    else first :: insertPath path rest

/-- The progress after an action, of which `found` tells whether it met a file. The changes are not
counted here, but when all those of a group are made. -/
def Progress.take (progress : Progress) (action : Action) (found : Bool) : Progress :=
  let progress := { progress with sources := action.applyTo progress.sources }
  match action with
  | .store change =>
    { progress with changedPaths := insertPath change.path progress.changedPaths }
  | .delete file =>
    if found then { progress with removed := progress.removed ++ [file] } else progress

/-- What is in memory in the course of a run, and what is on the disk. -/
structure RunState where
  progress : Progress
  disk : Disk

/-- A part of a run. It keeps the state when it fails. -/
abbrev RunM := EStateM Failure RunState

/-! ### The parts of a run -/

/-- Gives a script its new text, on the disk if the run writes, and in memory. -/
def storeChange (base : RawText) (mode : RunMode) (change : Change) : RunM Unit := do
  if mode = .write then
    let path := Path.join base change.path
    match (← get).disk.write path change.after.print.toUTF8 with
    | .ok disk => modify fun state => { state with disk := disk }
    | .error _ => throw (.access .write path)
  modify fun state => { state with progress := state.progress.take (.store change) true }

/-- Deletes a file if the run writes, and tells whether there was one. That there is none is no
failure. -/
def deleteFile (base : RawText) (mode : RunMode) (file : String) : RunM Bool := do
  let path := Path.join base file
  match mode with
  | .dry => return (← get).disk.isFile path
  | .write =>
    match (← get).disk.remove path with
    | .ok disk =>
      modify fun state => { state with disk := disk }
      return true
    | .error .notFound => return false
    | .error _ => throw (.access .delete path)

/-- Deletes one of the files that a group lists, and lets go of the script that it was. -/
def deleteListed (base : RawText) (mode : RunMode) (file : String) : RunM Unit := do
  let found ← deleteFile base mode file
  modify fun state => { state with progress := state.progress.take (.delete file) found }

/-- Applies a group: its rules, to the scripts as they are when its turn comes, and then its
deletions. -/
def runGroup (base : RawText) (mode : RunMode) (group : Group) : RunM Unit := do
  let made := changes group.rules (selectSources group.files (← get).progress.sources)
  made.forM (storeChange base mode)
  modify fun state =>
    { state with progress := { state.progress with changes := state.progress.changes ++ made } }
  group.removeFiles.forM (deleteListed base mode)

/-! ### Runs -/

/-- What a run did. -/
structure Report where
  /-- How many scripts were found, good or bad. -/
  considered : Nat
  parseFailures : Nat
  /-- The paths of the scripts that changed: a set, in alphabetical order. -/
  changedPaths : List String
  /-- The files deleted, in order. -/
  removed : List String
  /-- The changes made, in order. -/
  changes : List Change

/-- The end of a run: what is in memory, what is on the disk, and how it went. -/
structure RunResult where
  workspace : Workspace
  disk : Disk
  outcome : Except Failure Report

namespace Workspace

/-- The report on a workspace after some progress. -/
def report (workspace : Workspace) (progress : Progress) : Report where
  considered := workspace.discovered
  parseFailures := workspace.failures.length
  changedPaths := progress.changedPaths
  removed := progress.removed
  changes := progress.changes

/-- Applies a recipe. If one of its entries is of an unknown kind nothing is done at all. -/
def run (workspace : Workspace) (recipe : Recipe) (mode : RunMode) (disk : Disk) : RunResult :=
  match recipe.groups workspace.dialect with
  | .error error => ⟨workspace, disk, .error (.unknownRecipe error)⟩
  | .ok groups =>
    match (groups.forM (runGroup workspace.base mode)).run ⟨{ sources := workspace.sources }, disk⟩ with
    | .ok _ state =>
      ⟨{ workspace with sources := state.progress.sources }, state.disk,
        .ok (workspace.report state.progress)⟩
    | .error failure state =>
      ⟨{ workspace with sources := state.progress.sources }, state.disk, .error failure⟩

end Workspace

end BuildPrune
