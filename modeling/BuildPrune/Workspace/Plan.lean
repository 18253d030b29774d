import BuildPrune.Workspace.Run

/-!
# BuildPrune.Workspace.Plan

A run planned ahead. The changes of a script depend on the scripts alone and not on the disk, so all
that the groups of a recipe do can be known before the first of them begins. What is planned is then
carried out action by action, until one fails.
-/

namespace BuildPrune

/-- What a group does to the sources: first its rules are applied, then its files are deleted. -/
def Group.actions (group : Group) (sources : List Source) : List Action :=
  (changes group.rules (selectSources group.files sources)).map .store ++
    group.removeFiles.map .delete

/-- What some groups do, each to the sources that the one before it leaves. -/
def plan : List Group → List Source → List Action
  | [], _ => []
  | group :: rest, sources =>
    let actions := group.actions sources
    actions ++ plan rest (Action.applyAll actions sources)

/-- The progress after an action, with its change counted. -/
def Progress.record (progress : Progress) (action : Action) (found : Bool) : Progress :=
  match action with
  | .store change =>
    { progress.take action found with changes := progress.changes ++ [change] }
  | .delete _ => progress.take action found

/-- Does an action to a disk, and tells whether it met a file. To delete what is not there is no
failure. -/
def Action.perform (base : RawText) (mode : RunMode) (disk : Disk) :
    Action → Except Failure (Bool × Disk)
  | .store change =>
    match mode with
    | .dry => .ok (true, disk)
    | .write =>
      let path := Path.join base change.path
      match disk.write path change.after.print.toUTF8 with
      | .ok disk => .ok (true, disk)
      | .error _ => .error (.access .write path)
  | .delete file =>
    let path := Path.join base file
    match mode with
    | .dry => .ok (disk.isFile path, disk)
    | .write =>
      match disk.remove path with
      | .ok disk => .ok (true, disk)
      | .error .notFound => .ok (false, disk)
      | .error _ => .error (.access .delete path)

/-- Carries out actions until one fails. -/
def carryOut (base : RawText) (mode : RunMode) :
    List Action → Progress → Disk → Progress × Disk × Option Failure
  | [], progress, disk => (progress, disk, none)
  | action :: rest, progress, disk =>
    match action.perform base mode disk with
    | .ok (found, disk) => carryOut base mode rest (progress.record action found) disk
    | .error failure => (progress, disk, some failure)

end BuildPrune
