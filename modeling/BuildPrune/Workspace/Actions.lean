import BuildPrune.Pruning
import BuildPrune.Workspace.Basic

/-!
# BuildPrune.Workspace.Actions

What rules do to the scripts of a project, and what can be done to the project: a script gets its
new text, or a file is deleted.
-/

namespace BuildPrune

/-- A script whose text changed. -/
structure Change where
  path : String
  before : Script
  after : Script

/-- What becomes of a source under rules, if its text changes. -/
def Source.change? (rules : RuleSet) (source : Source) : Option Change :=
  let after := (Pruner.visitScript { rules := rules } source.script).1
  if after.print = source.script.print then none else some ⟨source.path, source.script, after⟩

/-- The changes of some sources under rules. -/
def changes (rules : RuleSet) (sources : List Source) : List Change :=
  sources.filterMap (Source.change? rules)

/-- The sources that a list of paths selects; all of them if there is no list. -/
def selectSources (files : Option (List String)) (sources : List Source) : List Source :=
  match files with
  | none => sources
  | some files => sources.filter fun source => files.contains source.path

/-- Something to be done to a project. -/
inductive Action
  /-- Write the new text of a script. -/
  | store (change : Change)
  /-- Delete a file, script or not. -/
  | delete (file : String)

/-- The sources with the script of the first one at the path of a change replaced. -/
def Change.applyTo (change : Change) : List Source → List Source
  | [] => []
  | source :: rest =>
    if source.path = change.path then { source with script := change.after } :: rest
    else source :: change.applyTo rest

/-- The sources after an action. -/
def Action.applyTo (action : Action) (sources : List Source) : List Source :=
  match action with
  | .store change => change.applyTo sources
  | .delete file => sources.filter fun source => source.path ≠ file

/-- The sources after some actions. -/
def Action.applyAll (actions : List Action) (sources : List Source) : List Source :=
  actions.foldl (fun sources action => action.applyTo sources) sources

end BuildPrune
