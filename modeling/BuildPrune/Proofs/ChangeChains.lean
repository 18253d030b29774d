import Mathlib.Data.List.Chain
import BuildPrune.Proofs.Runs

/-!
# BuildPrune.Proofs.ChangeChains

The changes of a run, file by file. A run of several groups can change a file more than once, and a
file can go between two groups. What the report says about a file is one chain: it starts from the
script that was in memory before the run (`Anchored`), each change takes up where the one before it
ended, and the last one ends with the script that is in memory afterwards (`Linked`).

* That the chains are anchored is kept by every group, because its changes start from the sources as
  it finds them (`Anchored.group`).
* That they are linked is kept by every action (`Linked.record`), because what is stored is a change
  from the script that the source has at that moment (`Action.Due`). For this the paths of the
  sources must be distinct. If two sources are shown under one path, their changes are no chain
  (`not_report_chained`).
* The paths that the report names are collected change by change, and are those of the changes
  (`Progress.Named`).
-/

namespace BuildPrune

variable {base : RawText} {mode : RunMode} {disk disk' : Disk} {actions : List Action}
  {changes made : List Change} {before now : List Source} {progress progress' : Progress}
  {failure : Option Failure}

/-- The changes of one path. -/
def changesAt (path : String) (changes : List Change) : List Change :=
  changes.filter fun change => change.path = path

theorem changesAt_append (path : String) (changes made : List Change) :
    changesAt path (changes ++ made) = changesAt path changes ++ changesAt path made :=
  List.filter_append ..

theorem changesAt_append_self (changes : List Change) (change : Change) :
    changesAt change.path (changes ++ [change]) = changesAt change.path changes ++ [change] := by
  simp [changesAt]

theorem changesAt_append_of_ne {path : String} {change : Change} (h : change.path ≠ path)
    (changes : List Change) : changesAt path (changes ++ [change]) = changesAt path changes := by
  simp [changesAt, h]

theorem mem_changesAt {path : String} {change : Change} :
    change ∈ changesAt path changes ↔ change ∈ changes ∧ change.path = path := by
  simp [changesAt]

/-! ### Where chains start

Behind some groups a path has changed or not. If it has not, then the source at this path still
has the script that it had before the run, and so the first change of the path starts from that.
-/

/-- For each path the first change is one of a script that a source had `before`, a source without
changes is as it was, and every change alters the text. -/
structure Anchored (before : List Source) (changes : List Change) (now : List Source) : Prop where
  starts : ∀ path, ∀ change ∈ (changesAt path changes).head?, ⟨path, change.before⟩ ∈ before
  kept : ∀ source ∈ now, changesAt source.path changes = [] → source ∈ before
  differ : ∀ change ∈ changes, change.before.print ≠ change.after.print

namespace Anchored

theorem refl (sources : List Source) : Anchored sources [] sources where
  starts := nofun
  kept _ hsource _ := hsource
  differ := nofun

/-- The changes of a group start from the sources as it finds them. A source has one script at that
moment, so of each path the first change since the start of the run is one from before it. -/
theorem group (h : Anchored before changes now) (group : Group) :
    Anchored before (changes ++ (group.actions now).filterMap Action.change?)
      (Action.applyAll (group.actions now) now) := by
  have hmade : (group.actions now).filterMap Action.change? =
      BuildPrune.changes group.rules (selectSources group.files now) := by
    rw [Group.actions, List.filterMap_append, Action.changes_stores, Action.changes_deletes,
      List.append_nil]
  rw [hmade]
  refine ⟨?_, ?_, ?_⟩
  · intro path change hchange
    rw [changesAt_append] at hchange
    cases hchanges : changesAt path changes with
    | cons first rest =>
        refine h.starts path change ?_
        rw [hchanges] at hchange ⊢
        exact hchange
    | nil =>
        -- This is the first change of the path, so the source was never changed.
        rw [hchanges] at hchange
        obtain ⟨hmem, rfl⟩ := mem_changesAt.1 (List.mem_of_mem_head? hchange)
        exact h.kept _ (due_of_mem_changes hmem).1 hchanges
  · intro source hsource hnone
    rw [changesAt_append, List.append_eq_nil_iff] at hnone
    refine h.kept source ?_ hnone.1
    refine (Action.mem_applyAll hsource).resolve_left ?_
    rintro ⟨change, hstore, hpath⟩
    have hchange : change ∈ (group.actions now).filterMap Action.change? :=
      List.mem_filterMap.2 ⟨_, hstore, rfl⟩
    rw [hmade] at hchange
    exact List.not_mem_nil (hnone.2 ▸ mem_changesAt.2 ⟨hchange, hpath⟩)
  · intro change hchange
    rcases List.mem_append.1 hchange with hmem | hmem
    · exact h.differ change hmem
    · exact (due_of_mem_changes hmem).2

/-- So do those of all groups, one after the other, each on what the groups before it leave in
memory. -/
theorem plan (h : Anchored before changes now) (groups : List Group) :
    Anchored before (changes ++ (plan groups now).filterMap Action.change?)
      (Action.applyAll (plan groups now) now) := by
  induction groups generalizing changes now with
  | nil =>
      rw [show (BuildPrune.plan [] now).filterMap Action.change? = [] from rfl, List.append_nil]
      exact h
  | cons group rest ih =>
      rw [BuildPrune.plan, List.filterMap_append, ← List.append_assoc, Action.applyAll_append]
      exact ih (h.group group)

end Anchored

/-! ### How chains go on

The last change of a path ends with the script that its source has now. A deletion takes sources
away and changes none, so it can break no chain, and no source comes back to be changed again. -/

/-- For each path every change takes up where the one before it ended, and the last one ends with
the script that a source has `now`, if it is still there. -/
structure Linked (changes : List Change) (now : List Source) : Prop where
  linked : ∀ path, (changesAt path changes).IsChain fun change next => next.before = change.after
  ends : ∀ source ∈ now, ∀ change ∈ (changesAt source.path changes).getLast?,
    source.script = change.after

namespace Linked

theorem nil (sources : List Source) : Linked [] sources where
  linked _ := .nil
  ends := nofun

/-- A stored change takes up where its source stands. If the paths are distinct, this source is the
only one of its path, so it is where the last change of the path ended. -/
theorem store {change : Change} (h : Linked changes now)
    (hdistinct : (now.map Source.path).Nodup) (hdue : Action.Due now (.store change)) :
    Linked (changes ++ [change]) (change.applyTo now) := by
  constructor
  · intro path
    by_cases hpath : change.path = path
    · subst hpath
      rw [changesAt_append_self]
      refine List.isChain_append.2 ⟨h.linked _, .singleton _, ?_⟩
      intro last hlast next hnext
      cases hnext
      -- The source has the script with which its last change ended, and the new one starts from it.
      exact h.ends _ hdue last hlast
    · rw [changesAt_append_of_ne hpath]
      exact h.linked path
  · intro source hafter last hlast
    by_cases hpath : source.path = change.path
    · rw [hpath, changesAt_append_self, List.getLast?_append] at hlast
      cases hlast
      exact Change.script_of_mem_applyTo hdistinct hafter hpath
    · have hmem := (Change.mem_applyTo hafter).resolve_left fun hchanged => hpath hchanged.1
      rw [changesAt_append_of_ne (Ne.symm hpath)] at hlast
      exact h.ends source hmem last hlast

/-- Sources that go leave no gap in the chains of the others. The chain of a source that went ends
in the middle, and nothing is asked of its end. -/
theorem of_subset {fewer : List Source} (h : Linked changes now) (hfewer : fewer ⊆ now) :
    Linked changes fewer where
  linked := h.linked
  ends source hsource := h.ends source (hfewer hsource)

/-- So it is with each action that a run takes note of. -/
theorem record {action : Action} (h : Linked progress.changes progress.sources)
    (hdistinct : (progress.sources.map Source.path).Nodup) (hdue : action.Due progress.sources)
    (found : Bool) :
    Linked (progress.record action found).changes (progress.record action found).sources := by
  rw [progress.sources_record, progress.changes_record]
  cases action with
  | store change => exact h.store hdistinct hdue
  | delete file =>
      rw [show progress.changes ++ (Action.delete file).change?.toList = progress.changes from
        List.append_nil _]
      exact h.of_subset List.filter_sublist.subset

/-- Wherever a run ends, the changes up to there are linked: at its end, or where an action failed.
The induction is on the actions, each of which is due when its turn comes. -/
theorem carryOut (h : Linked progress.changes progress.sources)
    (hdistinct : (progress.sources.map Source.path).Nodup)
    (hdue : Action.InTurn Action.Due actions progress.sources)
    (hrun : BuildPrune.carryOut base mode actions progress disk = (progress', disk', failure)) :
    Linked progress'.changes progress'.sources := by
  refine (carryOut_induction (motive := fun due progress _ =>
    Linked progress.changes progress.sources ∧
      (progress.sources.map Source.path).Nodup ∧ Action.InTurn Action.Due due progress.sources)
    ?_ ⟨h, hdistinct, hdue⟩ hrun).elim fun _ hend => hend.1
  rintro action rest progress disk found disk' ⟨hlinked, hdistinct, hdue, hrest⟩ -
  refine ⟨hlinked.record hdistinct hdue found, ?_, ?_⟩
  · rw [progress.sources_record]
    exact hdistinct.sublist (action.paths_applyTo _)
  · rw [progress.sources_record]
    exact hrest

end Linked

/-! ### The paths that changed

A run collects the paths in a list of its own, in order and without repetition, as it stores one
change after the other. That it comes to hold the paths of the changes is an invariant of storing.
-/

theorem mem_insertPath {path other : String} {paths : List String} :
    other ∈ insertPath path paths ↔ other = path ∨ other ∈ paths := by
  induction paths with
  | nil => simp [insertPath]
  | cons first rest ih =>
      unfold insertPath
      split
      · exact List.mem_cons
      · split
        · next heq => simp [heq]
        · rw [List.mem_cons, ih, List.mem_cons]
          exact or_left_comm

/-- A set of paths stays in order, with each path once, when a path is put in. If the path is there
already, nothing is put in. -/
theorem pairwise_insertPath {path : String} {paths : List String}
    (h : paths.Pairwise (· < ·)) : (insertPath path paths).Pairwise (· < ·) := by
  induction paths with
  | nil => exact .cons nofun .nil
  | cons first rest ih =>
      obtain ⟨hfirst, hrest⟩ := List.pairwise_cons.1 h
      unfold insertPath
      split
      · next hlt =>
          refine List.pairwise_cons.2 ⟨fun other hother => ?_, h⟩
          rcases List.mem_cons.1 hother with rfl | hother
          · exact hlt
          · exact String.lt_trans hlt (hfirst other hother)
      · next hnot =>
          split
          · exact h
          · next hne =>
              have hgt : first < path := String.not_le.1 fun hle =>
                hne (String.le_antisymm hle (String.not_lt.1 hnot))
              refine List.pairwise_cons.2 ⟨fun other hother => ?_, ih hrest⟩
              rcases mem_insertPath.1 hother with rfl | hother
              · exact hgt
              · exact hfirst other hother

/-- The paths that changed are in order, each once, and are those of the changes. -/
structure Progress.Named (progress : Progress) : Prop where
  sorted : progress.changedPaths.Pairwise (· < ·)
  mem_iff : ∀ path, path ∈ progress.changedPaths ↔ ∃ change ∈ progress.changes, change.path = path

namespace Progress.Named

theorem record (h : progress.Named) (action : Action) (found : Bool) :
    (progress.record action found).Named := by
  cases action with
  | delete file => cases found <;> exact ⟨h.sorted, h.mem_iff⟩
  | store change =>
      refine ⟨pairwise_insertPath h.sorted, fun path => mem_insertPath.trans ?_⟩
      rw [h.mem_iff]
      show _ ↔ ∃ other ∈ progress.changes ++ [change], other.path = path
      simp only [List.mem_append, List.mem_singleton, or_and_right, exists_or, exists_eq_left]
      rw [or_comm, eq_comm]

/-- So it is wherever a run ends: the set is filled change by change, as the list of changes is. -/
theorem carryOut (h : progress.Named)
    (hrun : BuildPrune.carryOut base mode actions progress disk = (progress', disk', failure)) :
    progress'.Named :=
  (carryOut_induction (motive := fun _ progress _ => progress.Named)
    (fun action _ _ _ found _ hnow _ => hnow.record action found) h hrun).elim fun _ hend => hend

end Progress.Named

/-! ### Runs

The two invariants are put together for a run that has come to its end. The converse example has
two scripts with names that are no texts, which are shown alike. -/

/-- What a run reports about a file starts from the script that was in memory for its path before
the run, and is one chain of changes that ends with the script that is there afterwards, if the
paths of the sources are distinct. They are if the names of all scripts are texts. Only a file that
the recipe deletes goes from memory, and the paths that the report names are those of its changes.

Distinctness is needed for the links only: two names can be shown alike, and then the changes of
both are listed under one path (`not_report_chained`). -/
theorem report_chained {start disk₀ : Disk} (htree : start.IsTree) {workspace : Workspace}
    (hhistory : History start base workspace disk₀) {recipe : Recipe} {report : Report}
    (hrun : (workspace.run recipe mode disk).outcome = .ok report) :
    ((∀ root, start.spot true base = .ok (.taken root .directory) → start.TextScripts root) →
      (workspace.sources.map Source.path).Nodup) ∧
      ((workspace.sources.map Source.path).Nodup →
        Linked report.changes (workspace.run recipe mode disk).workspace.sources) ∧
      Anchored workspace.sources report.changes
        (workspace.run recipe mode disk).workspace.sources ∧
      (∀ source ∈ workspace.sources,
        (∀ entry ∈ recipe, ∀ file ∈ entry.2.removeFiles.getD [],
          Path.normalize file ≠ source.path) →
        source.path ∈ (workspace.run recipe mode disk).workspace.sources.map Source.path) ∧
      report.changedPaths.Pairwise (· < ·) ∧
      ∀ path, path ∈ report.changedPaths ↔ ∃ change ∈ report.changes, change.path = path := by
  obtain ⟨groups, progress, disk', hgroups, hcomplete, rfl⟩ := Workspace.complete_of_report hrun
  obtain ⟨hsources, hchanges, -⟩ := carryOut_complete hcomplete
  have hnamed : progress.Named := Progress.Named.carryOut ⟨.nil, by simp⟩ hcomplete
  rw [Workspace.run_eq hgroups hcomplete]
  refine ⟨hhistory.distinct htree, ?_, ?_, ?_, hnamed.sorted, hnamed.mem_iff⟩
  · intro hdistinct
    refine Linked.carryOut ?_ ?_ ?_ hcomplete
    · exact .nil _
    · exact hdistinct
    · exact due_plan groups hdistinct
  · show Anchored workspace.sources progress.changes progress.sources
    rw [hsources, hchanges]
    exact (Anchored.refl workspace.sources).plan groups
  · intro source hsource hkept
    refine carryOut_keeps hcomplete (List.mem_map_of_mem hsource) ?_
    intro hdelete
    obtain ⟨group, hgroup, hfile⟩ := exists_group_of_delete hdelete
    obtain ⟨entry, hentry, file, hfile, hpath⟩ := Recipe.exists_of_removeFiles hgroups hgroup hfile
    exact hkept entry hentry file hfile hpath

/-- Changes one script twice, and another once. -/
def twoStepRecipe : Recipe :=
  [("first", { recipe := "remove", removeMethods := some ["rm"] }),
    ("second", { recipe := "remove", removeMethods := some ["keep"] })]

theorem report_chained_twice :
    ∃ workspace report, Workspace.load sampleDisk "p" = .ok workspace ∧
      (workspace.run twoStepRecipe .write sampleDisk).outcome = .ok report ∧
      (changesAt "app/build.gradle" report.changes).length = 2 ∧
      Linked report.changes (workspace.run twoStepRecipe .write sampleDisk).workspace.sources := by
  have hloaded : (Workspace.load sampleDisk "p").toOption.any (fun workspace =>
      (workspace.run twoStepRecipe .write sampleDisk).outcome.toOption.any fun report =>
        (changesAt "app/build.gradle" report.changes).length == 2) = true := by
    decide +kernel
  obtain ⟨workspace, hload, hruns⟩ := ok_of_any hloaded
  obtain ⟨report, hrun, htwo⟩ := ok_of_any hruns
  obtain ⟨hdistinct, hlinked, -⟩ := report_chained isTree_sampleDisk (.loaded hload) hrun
  refine ⟨workspace, report, hload, hrun, by simpa using htwo, hlinked (hdistinct ?_)⟩
  intro root hroot
  cases hroot.symm.trans isProject_sampleDisk.leads
  decide +kernel

/-- The second of these changes does not take up where the first one ended. -/
def opensBroken : List Change → Bool
  | [] | [_] => false
  | change :: next :: _ => next.before.print != change.after.print

/-- Where the check finds a break, there are two changes on both sides of it. -/
theorem exists_of_opensBroken {changes : List Change} (h : opensBroken changes = true) :
    ∃ change next, changes.take 2 = [change, next] ∧ next.before ≠ change.after := by
  match changes, h with
  | change :: next :: _, h =>
      refine ⟨change, next, rfl, fun heq => ?_⟩
      rw [opensBroken, heq] at h
      simp at h

/-- Two scripts that are shown under one path are changed at once. The second change does not take
up where the first one ended. -/
theorem not_report_chained :
    strangeDisk.IsTree ∧ strangeDisk.IsProject "." ["w"] ∧
      ∃ workspace report change next, Workspace.load strangeDisk "." = .ok workspace ∧
        (workspace.run twoStepRecipe .dry strangeDisk).outcome = .ok report ∧
        (changesAt "a\uFFFD/build.gradle" report.changes).take 2 = [change, next] ∧
        next.before ≠ change.after := by
  have hloaded : (Workspace.load strangeDisk ".").toOption.any (fun workspace =>
      (workspace.run twoStepRecipe .dry strangeDisk).outcome.toOption.any fun report =>
        opensBroken (changesAt "a\uFFFD/build.gradle" report.changes)) = true := by
    decide +kernel
  obtain ⟨workspace, hload, hruns⟩ := ok_of_any hloaded
  obtain ⟨report, hrun, hbroken⟩ := ok_of_any hruns
  obtain ⟨change, next, htwo, hapart⟩ := exists_of_opensBroken hbroken
  refine ⟨⟨by decide, by decide⟩, ⟨by decide +kernel, ?_⟩, workspace, report, change, next, hload,
    hrun, htwo, hapart⟩
  exact Disk.plain_of_entries (by decide) ["w"]

end BuildPrune
