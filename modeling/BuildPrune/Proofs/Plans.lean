import BuildPrune.Proofs.Searches
import BuildPrune.Workspace.Plan

/-!
# BuildPrune.Proofs.Plans

A run goes from group to group, and each group acts on the sources as it finds them. That comes to
the same as to plan all actions ahead and to carry them out one by one (`endsAs_groups`), because an
action that succeeds does the same in memory whatever is on the disk (`carryOut_complete`). If an
action fails, the run and the plan stop at the same one, with the same sources and the same disk;
only the changes of the group that stopped are not counted by the run.

So everything about runs is proved action by action: what holds at the start and is kept by every
action that succeeds holds wherever a run ends (`carryOut_induction`).
-/

namespace BuildPrune

variable {base : RawText} {mode : RunMode} {disk disk' : Disk} {sources : List Source}
  {workspace : Workspace} {recipe : Recipe} {groups : List Group} {actions : List Action}
  {progress progress' : Progress} {failure : Option Failure} {report : Report}

/-! ### Sources after actions -/

theorem Change.map_path_applyTo (change : Change) (sources : List Source) :
    (change.applyTo sources).map Source.path = sources.map Source.path := by
  induction sources with
  | nil => rfl
  | cons source rest ih =>
      rw [Change.applyTo]
      split
      · rfl
      · rw [List.map_cons, List.map_cons, ih]

/-- A source that is there after a change is the one that was changed, or was there before. -/
theorem Change.mem_applyTo {change : Change} {source : Source} (h : source ∈ change.applyTo sources) :
    (source.path = change.path ∧ source.script = change.after) ∨ source ∈ sources := by
  induction sources with
  | nil => cases h
  | cons first rest ih =>
      rw [Change.applyTo] at h
      split at h
      · next hpath =>
          rcases List.mem_cons.1 h with rfl | hrest
          · exact .inl ⟨hpath, rfl⟩
          · exact .inr (List.mem_cons_of_mem _ hrest)
      · rcases List.mem_cons.1 h with rfl | hrest
        · exact .inr List.mem_cons_self
        · exact (ih hrest).imp_right (List.mem_cons_of_mem _)

/-- If the paths are distinct, a change replaces the source at its path. -/
theorem Change.script_of_mem_applyTo {change : Change} (hdistinct : (sources.map Source.path).Nodup)
    {source : Source} (h : source ∈ change.applyTo sources) (hpath : source.path = change.path) :
    source.script = change.after := by
  induction sources with
  | nil => cases h
  | cons first rest ih =>
      rw [List.map_cons, List.nodup_cons] at hdistinct
      rw [Change.applyTo] at h
      split at h
      · next hfirst =>
          rcases List.mem_cons.1 h with rfl | hrest
          · rfl
          · -- The paths are distinct, so no other source has the path of the first.
            refine absurd ?_ hdistinct.1
            rw [hfirst, ← hpath]
            exact List.mem_map_of_mem hrest
      · next hfirst =>
          rcases List.mem_cons.1 h with rfl | hrest
          · exact absurd hpath hfirst
          · exact ih hdistinct.2 hrest

theorem Change.mem_applyTo_of_ne {change : Change} {source : Source} (h : source ∈ sources)
    (hne : source.path ≠ change.path) : source ∈ change.applyTo sources := by
  induction sources with
  | nil => cases h
  | cons first rest ih =>
      rw [Change.applyTo]
      split
      · next hpath =>
          rcases List.mem_cons.1 h with rfl | hrest
          · exact absurd hpath hne
          · exact List.mem_cons_of_mem _ hrest
      · rcases List.mem_cons.1 h with rfl | hrest
        · exact List.mem_cons_self
        · exact List.mem_cons_of_mem _ (ih hrest)

theorem Action.paths_applyTo (action : Action) (sources : List Source) :
    ((action.applyTo sources).map Source.path).Sublist (sources.map Source.path) := by
  cases action with
  | store change => rw [applyTo, Change.map_path_applyTo]
  | delete file => exact List.filter_sublist.map _

theorem Action.paths_applyAll (actions : List Action) (sources : List Source) :
    ((applyAll actions sources).map Source.path).Sublist (sources.map Source.path) := by
  induction actions generalizing sources with
  | nil => exact .refl _
  | cons action rest ih => exact (ih _).trans (action.paths_applyTo sources)

theorem Action.applyAll_append (first more : List Action) (sources : List Source) :
    applyAll (first ++ more) sources = applyAll more (applyAll first sources) :=
  List.foldl_append ..

theorem Action.mem_paths_applyTo {action : Action} {path : String}
    (h : path ∈ sources.map Source.path) (hkept : action ≠ .delete path) :
    path ∈ (action.applyTo sources).map Source.path := by
  cases action with
  | store change =>
      rw [applyTo, Change.map_path_applyTo]
      exact h
  | delete file =>
      obtain ⟨source, hsource, rfl⟩ := List.mem_map.1 h
      refine List.mem_map_of_mem (List.mem_filter.2 ⟨hsource, ?_⟩)
      exact decide_eq_true fun hfile => hkept (hfile ▸ rfl)

/-- A source that is there after some actions was there before, unless one of them stored its path.
Deletions only take sources away, so they need no mention. -/
theorem Action.mem_applyAll {source : Source} (h : source ∈ applyAll actions sources) :
    (∃ change, .store change ∈ actions ∧ change.path = source.path) ∨ source ∈ sources := by
  induction actions generalizing sources with
  | nil => exact .inr h
  | cons action rest ih =>
      rcases ih h with ⟨change, hchange, hpath⟩ | hmem
      · exact .inl ⟨change, List.mem_cons_of_mem _ hchange, hpath⟩
      · cases action with
        | store change =>
            rcases Change.mem_applyTo hmem with ⟨hpath, -⟩ | hbefore
            · exact .inl ⟨change, List.mem_cons_self, hpath.symm⟩
            · exact .inr hbefore
        | delete file => exact .inr (List.mem_of_mem_filter hmem)

/-! ### Actions in turn

A condition on an action may speak of the sources as they are when the action is due. Whether it
holds of all actions of a plan can then be asked group by group, with the sources that the groups
before have left. -/

/-- Each action satisfies a condition on the sources that there are when its turn comes. -/
def Action.InTurn (P : List Source → Action → Prop) : List Action → List Source → Prop
  | [], _ => True
  | action :: rest, sources => P sources action ∧ InTurn P rest (action.applyTo sources)

theorem Action.inTurn_append {P : List Source → Action → Prop} {first more : List Action} :
    InTurn P (first ++ more) sources ↔
      InTurn P first sources ∧ InTurn P more (applyAll first sources) := by
  induction first generalizing sources with
  | nil => simp [InTurn, applyAll]
  | cons action rest ih =>
      rw [List.cons_append, InTurn, InTurn, ih, and_assoc]
      rfl

/-- What is planned satisfies a condition in turn if what each group does satisfies it. The sources
in front of a group may be assumed to have a property that the actions keep, such as different
paths. -/
theorem Action.inTurn_plan {P : List Source → Action → Prop} {Q : List Source → Prop}
    (hgroup : ∀ (group : Group) sources, Q sources → InTurn P (group.actions sources) sources)
    (hkept : ∀ actions sources, Q sources → Q (applyAll actions sources))
    (groups : List Group) (h : Q sources) : InTurn P (plan groups sources) sources := by
  induction groups generalizing sources with
  | nil => trivial
  | cons group rest ih =>
      rw [plan]
      exact inTurn_append.2 ⟨hgroup group sources h, ih (hkept _ _ h)⟩

/-- An action that stores does so for one of the sources. -/
def Action.Known (sources : List Source) : Action → Prop
  | .store change => change.path ∈ sources.map Source.path
  | .delete _ => True

/-- What is stored later belongs to a source already now, since no action brings a new path. -/
theorem Action.InTurn.path_mem (h : InTurn Action.Known actions sources) {change : Change}
    (hstore : .store change ∈ actions) : change.path ∈ sources.map Source.path := by
  induction actions generalizing sources with
  | nil => cases hstore
  | cons action rest ih =>
      obtain ⟨hfirst, hrest⟩ := h
      rcases List.mem_cons.1 hstore with rfl | hlater
      · exact hfirst
      · exact (action.paths_applyTo sources).subset (ih hrest hlater)

/-! ### Plans

What a group does depends on the sources only. This is why a plan can be made without a disk: of
each group it is known which sources it will find. -/

theorem selectSources_sublist (files : Option (List String)) (sources : List Source) :
    (selectSources files sources).Sublist sources := by
  cases files with
  | none => exact .refl _
  | some files => exact List.filter_sublist

/-- A change of a source starts from the script of the source and alters its text. -/
theorem Source.due_of_change? {rules : RuleSet} {source : Source} {change : Change}
    (h : source.change? rules = some change) :
    source = ⟨change.path, change.before⟩ ∧ change.before.print ≠ change.after.print := by
  simp only [change?] at h
  split at h
  · cases h
  · next hprint =>
      cases h
      exact ⟨rfl, Ne.symm hprint⟩

/-- A change that a group makes is one of a source that it selects. It starts from the script of
that source, and the text is another one afterwards. -/
theorem due_of_mem_changes {rules : RuleSet} {files : Option (List String)} {change : Change}
    (h : change ∈ changes rules (selectSources files sources)) :
    ⟨change.path, change.before⟩ ∈ sources ∧ change.before.print ≠ change.after.print := by
  obtain ⟨source, hselected, hchange⟩ := List.mem_filterMap.1 h
  obtain ⟨rfl, hprint⟩ := Source.due_of_change? hchange
  exact ⟨(selectSources_sublist files sources).subset hselected, hprint⟩

theorem inTurn_stores {changes : List Change}
    (h : ∀ change ∈ changes, change.path ∈ sources.map Source.path) :
    Action.InTurn Action.Known (changes.map .store) sources := by
  induction changes generalizing sources with
  | nil => trivial
  | cons change rest ih =>
      obtain ⟨hchange, hrest⟩ := List.forall_mem_cons.1 h
      refine ⟨hchange, ih fun other hother => ?_⟩
      rw [Action.applyTo, Change.map_path_applyTo]
      exact hrest other hother

theorem inTurn_deletes {P : List Source → Action → Prop}
    (h : ∀ sources file, P sources (.delete file)) (files : List String) (sources : List Source) :
    Action.InTurn P (files.map .delete) sources := by
  induction files generalizing sources with
  | nil => trivial
  | cons file rest ih => exact ⟨h sources file, ih _⟩

/-- Whatever is planned to be stored belongs to a source. So a run writes at no path but those of
its sources. -/
theorem known_plan (groups : List Group) (sources : List Source) :
    Action.InTurn Action.Known (plan groups sources) sources := by
  refine Action.inTurn_plan (Q := fun _ => True) ?_ (fun _ _ _ => trivial) groups trivial
  intro group sources _
  refine Action.inTurn_append.2 ⟨inTurn_stores ?_, inTurn_deletes (fun _ _ => trivial) _ _⟩
  intro change hchange
  exact List.mem_map.2 ⟨_, (due_of_mem_changes hchange).1, rfl⟩

/-- A group stores a change of a source that it selects, among the sources as the groups before it
leave them. This is how a stored change is followed back to the rules that it comes from. -/
theorem exists_group_of_store {change : Change} (h : .store change ∈ plan groups sources) :
    ∃ before group after source, groups = before ++ group :: after ∧
      source ∈ selectSources group.files (Action.applyAll (plan before sources) sources) ∧
      source.change? group.rules = some change := by
  induction groups generalizing sources with
  | nil => cases h
  | cons group rest ih =>
      rw [plan, Group.actions, List.append_assoc, List.mem_append, List.mem_append] at h
      rcases h with hstore | hdelete | hrest
      · obtain ⟨_, hchange, hstored⟩ := List.mem_map.1 hstore
        cases hstored
        obtain ⟨source, hsource, hchange⟩ := List.mem_filterMap.1 hchange
        exact ⟨[], group, rest, source, rfl, hsource, hchange⟩
      · obtain ⟨file, -, hfile⟩ := List.mem_map.1 hdelete
        cases hfile
      · obtain ⟨before, later, after, source, hgroups, hsource, hchange⟩ := ih hrest
        have hparts : group :: rest = group :: before ++ later :: after := by
          rw [hgroups, List.cons_append]
        refine ⟨group :: before, later, after, source, hparts, ?_, hchange⟩
        rw [plan, Action.applyAll, List.foldl_append]
        exact hsource

/-- What a plan deletes is what its groups ask for. -/
theorem exists_group_of_delete {file : String} (h : .delete file ∈ plan groups sources) :
    ∃ group ∈ groups, file ∈ group.removeFiles := by
  induction groups generalizing sources with
  | nil => cases h
  | cons group rest ih =>
      rw [plan, Group.actions, List.append_assoc, List.mem_append, List.mem_append] at h
      rcases h with hstore | hdelete | hrest
      · obtain ⟨change, -, hchange⟩ := List.mem_map.1 hstore
        cases hchange
      · obtain ⟨deleted, hdeleted, hfile⟩ := List.mem_map.1 hdelete
        cases hfile
        exact ⟨group, List.mem_cons_self, hdeleted⟩
      · obtain ⟨later, hlater, hfile⟩ := ih hrest
        exact ⟨later, List.mem_cons_of_mem _ hlater, hfile⟩

/-- A file that a group deletes is one that its entry names. -/
theorem Recipe.exists_of_removeFiles {dialect : Dialect}
    (hgroups : recipe.groups dialect = .ok groups) {group : Group} (hgroup : group ∈ groups)
    {file : String} (hfile : file ∈ group.removeFiles) :
    ∃ entry ∈ recipe, ∃ written ∈ entry.2.removeFiles.getD [], Path.normalize written = file := by
  obtain ⟨entry, hentry, hread⟩ := exists_of_forall₂ (forall₂_of_mapM hgroups) hgroup
  simp only [Entry.group] at hread
  split at hread
  · cases hread
    exact ⟨entry, hentry, List.mem_map.1 hfile⟩
  · cases hread

/-- The groups of a recipe can be made if it asks for nothing but removal. -/
theorem Recipe.groups_ok_iff {dialect : Dialect} :
    (∃ groups, recipe.groups dialect = .ok groups) ↔
      ∀ entry ∈ recipe, entry.2.recipe = "remove" := by
  constructor
  · intro ⟨groups, hgroups⟩ entry hentry
    obtain ⟨group, -, hgroup⟩ := exists_of_forall₂ (forall₂_of_mapM hgroups).flip hentry
    simp only [Entry.group] at hgroup
    split at hgroup
    · next hremove => simpa using hremove
    · cases hgroup
  · intro h
    refine exists_mapM_ok fun entry hentry => ?_
    simp only [Entry.group, h entry hentry, beq_self_eq_true, if_true]
    exact ⟨_, rfl⟩

/-! ### Actions carried out

To carry out the actions of a list is a loop that stops at the first failure. All that is needed
of the loop are an induction over it and that lists can be divided. -/

/-- The change that an action stores. -/
def Action.change? : Action → Option Change
  | .store change => some change
  | .delete _ => none

/-- The file that an action deletes, as its path is spelled. -/
def Action.file? : Action → Option String
  | .store _ => none
  | .delete file => some file

theorem Action.changes_stores (made : List Change) :
    (made.map Action.store).filterMap Action.change? = made := by
  rw [List.filterMap_map]
  exact List.filterMap_some

theorem Action.changes_deletes (files : List String) :
    (files.map Action.delete).filterMap Action.change? = [] := by
  rw [List.filterMap_map]
  exact List.filterMap_eq_nil_iff.2 fun _ _ => rfl

theorem Progress.sources_record (progress : Progress) (action : Action) (found : Bool) :
    (progress.record action found).sources = action.applyTo progress.sources := by
  cases action with
  | store change => rfl
  | delete file => cases found <;> rfl

theorem Progress.changes_record (progress : Progress) (action : Action) (found : Bool) :
    (progress.record action found).changes = progress.changes ++ action.change?.toList := by
  cases action with
  | store change => rfl
  | delete file => cases found <;> exact (List.append_nil _).symm

theorem Progress.changedPaths_record (progress : Progress) (action : Action) (found : Bool) :
    (progress.record action found).changedPaths =
      action.change?.toList.foldl (fun paths change => insertPath change.path paths)
        progress.changedPaths := by
  cases action with
  | store change => rfl
  | delete file => cases found <;> rfl

theorem Progress.removed_record (progress : Progress) (action : Action) (found : Bool) :
    (progress.record action found).removed =
      progress.removed ++ action.file?.toList.filter fun _ => found := by
  cases action with
  | store change => exact (List.append_nil _).symm
  | delete file =>
      cases found with
      | false => exact (List.append_nil _).symm
      | true => rfl

/-- An action that succeeds in writing mode writes, or removes, or finds nothing to delete. In the
last case the disk is the same as before, and the action counts as done all the same. -/
theorem Action.perform_write {action : Action} {found : Bool}
    (h : action.perform base .write disk = .ok (found, disk')) :
    (∃ change, action = .store change ∧
      disk.write (Path.join base change.path) change.after.print.toUTF8 = .ok disk') ∨
    (∃ file, action = .delete file ∧ found = true ∧ disk.remove (Path.join base file) = .ok disk') ∨
    ∃ file, action = .delete file ∧ found = false ∧
      disk.remove (Path.join base file) = .error .notFound ∧ disk' = disk := by
  cases action with
  | store change =>
      simp only [perform] at h
      split at h
      · next hwrite =>
          cases h
          exact .inl ⟨change, rfl, hwrite⟩
      · cases h
  | delete file =>
      simp only [perform] at h
      split at h
      · next hremove =>
          cases h
          exact .inr (.inl ⟨file, rfl, rfl, hremove⟩)
      · next hremove =>
          cases h
          exact .inr (.inr ⟨file, rfl, rfl, hremove, rfl⟩)
      · cases h

/-- What is true of the actions that are due, and stays true of those that are left when the first
of them succeeds, is true of those that are left wherever the run ends. The action that fails is
still among them. -/
theorem carryOut_induction {motive : List Action → Progress → Disk → Prop}
    (hstep : ∀ action rest progress disk found disk', motive (action :: rest) progress disk →
      action.perform base mode disk = .ok (found, disk') →
        motive rest (progress.record action found) disk')
    (hstart : motive actions progress disk)
    (hrun : carryOut base mode actions progress disk = (progress', disk', failure)) :
    ∃ left, motive left progress' disk' := by
  induction actions generalizing progress disk with
  | nil =>
      cases hrun
      exact ⟨[], hstart⟩
  | cons action rest ih =>
      rw [carryOut] at hrun
      split at hrun
      · next hperform => exact ih (hstep _ _ _ _ _ _ hstart hperform) hrun
      · cases hrun
        exact ⟨action :: rest, hstart⟩

/-- Actions are carried out in parts, the second if the first comes to its end. If the first part
fails, nothing of the second is done. -/
theorem carryOut_append (base : RawText) (mode : RunMode) (first more : List Action)
    (progress : Progress) (disk : Disk) :
    carryOut base mode (first ++ more) progress disk =
      match carryOut base mode first progress disk with
      | (progress', disk', none) => carryOut base mode more progress' disk'
      | stopped => stopped := by
  induction first generalizing progress disk with
  | nil => rfl
  | cons action rest ih =>
      rw [List.cons_append, carryOut, carryOut]
      cases action.perform base mode disk with
      | error failure => rfl
      | ok result => exact ih _ _

/-- A run goes on behind an action that succeeds. -/
theorem carryOut_middle {done : List Action} {action : Action} {found : Bool} {disk₁ disk₂ : Disk}
    (hdone : carryOut base mode done progress disk = (progress', disk₁, none))
    (hperform : action.perform base mode disk₁ = .ok (found, disk₂)) (later : List Action) :
    carryOut base mode (done ++ action :: later) progress disk =
      carryOut base mode later (progress'.record action found) disk₂ := by
  rw [carryOut_append, hdone]
  simp only [carryOut, hperform]

/-- A run that comes to its end has done in memory what its actions say: the sources, the changes in
their order and the paths that were changed. None of these depends on the mode or on the disk. -/
theorem carryOut_complete (h : carryOut base mode actions progress disk = (progress', disk', none)) :
    progress'.sources = Action.applyAll actions progress.sources ∧
      progress'.changes = progress.changes ++ actions.filterMap Action.change? ∧
      progress'.changedPaths = (actions.filterMap Action.change?).foldl
        (fun paths change => insertPath change.path paths) progress.changedPaths := by
  induction actions generalizing progress disk with
  | nil =>
      cases h
      exact ⟨rfl, (List.append_nil _).symm, rfl⟩
  | cons action rest ih =>
      rw [carryOut] at h
      split at h
      · next found disk₁ hperform =>
          obtain ⟨hsources, hchanges, hpaths⟩ := ih h
          rw [progress.sources_record] at hsources
          rw [progress.changes_record, List.append_assoc] at hchanges
          rw [progress.changedPaths_record] at hpaths
          refine ⟨hsources, hchanges.trans ?_, hpaths.trans ?_⟩ <;> cases action <;> rfl
      · cases h

/-- A run brings no new paths. -/
theorem carryOut_paths (h : carryOut base mode actions progress disk = (progress', disk', failure)) :
    (progress'.sources.map Source.path).Sublist (progress.sources.map Source.path) := by
  refine (carryOut_induction (motive := fun _ now _ =>
    (now.sources.map Source.path).Sublist (progress.sources.map Source.path))
    ?_ (.refl _) h).elim fun _ hend => hend
  intro action rest now disk found disk' hnow _
  rw [now.sources_record]
  exact (action.paths_applyTo _).trans hnow

/-- Wherever a run ends, a path that no action deletes is still there. -/
theorem carryOut_keeps (h : carryOut base mode actions progress disk = (progress', disk', failure))
    {path : String} (hpath : path ∈ progress.sources.map Source.path)
    (hkept : .delete path ∉ actions) : path ∈ progress'.sources.map Source.path := by
  refine (carryOut_induction (motive := fun due now _ =>
    path ∈ now.sources.map Source.path ∧ .delete path ∉ due)
    ?_ ⟨hpath, hkept⟩ h).elim fun _ hend => hend.1
  rintro action rest now disk found disk' ⟨hnow, hdue⟩ -
  rw [List.mem_cons, not_or] at hdue
  rw [now.sources_record]
  exact ⟨Action.mem_paths_applyTo hnow (Ne.symm hdue.1), hdue.2⟩

/-- To plan ahead is to plan for each group when its turn comes: the first group acts on the
sources, and the others on what it leaves in memory. This is the step by which the loop over the
groups comes to the same as the plan (`endsAs_groups`). -/
theorem carryOut_plan_cons (base : RawText) (mode : RunMode) (group : Group) (rest : List Group)
    (progress : Progress) (disk : Disk) :
    carryOut base mode (plan (group :: rest) progress.sources) progress disk =
      match carryOut base mode (group.actions progress.sources) progress disk with
      | (progress', disk', none) => carryOut base mode (plan rest progress'.sources) progress' disk'
      | stopped => stopped := by
  rw [plan, carryOut_append]
  split
  · next hgroup => rw [(carryOut_complete hgroup).1]
  · rfl

/-! ### The parts of a run

A run is a program with two loops for each group, one that stores and one that deletes. Each of
the loops is compared with carrying out the actions that it stands for. -/

/-- How a part of a run ends that does a single action. If the action fails then the part leaves
everything as it was. -/
def Action.result (action : Action) (base : RawText) (mode : RunMode) (progress : Progress)
    (disk : Disk) : EStateM.Result Failure RunState Unit :=
  match action.perform base mode disk with
  | .ok (found, disk) => .ok () ⟨progress.take action found, disk⟩
  | .error failure => .error failure ⟨progress, disk⟩

theorem storeChange_eq (base : RawText) (mode : RunMode) (change : Change) (progress : Progress)
    (disk : Disk) :
    (storeChange base mode change).run ⟨progress, disk⟩ =
      (Action.store change).result base mode progress disk := by
  cases mode with
  | dry => rfl
  | write =>
      unfold storeChange Action.result Action.perform
      simp only [if_true, EStateM.run_bind, EStateM.run_get]
      cases disk.write (Path.join base change.path) change.after.print.toUTF8 <;> rfl

theorem deleteListed_eq (base : RawText) (mode : RunMode) (file : String) (progress : Progress)
    (disk : Disk) :
    (deleteListed base mode file).run ⟨progress, disk⟩ =
      (Action.delete file).result base mode progress disk := by
  cases mode with
  | dry => rfl
  | write =>
      unfold deleteListed deleteFile Action.result Action.perform
      simp only [EStateM.run_bind, EStateM.run_get]
      cases disk.remove (Path.join base file) with
      | ok disk' => rfl
      | error trouble => cases trouble <;> rfl

/-- The end of a loop over actions, as that of a part of a run in which the given changes are
counted. -/
def loopEnd (counted : List Change) :
    Progress × Disk × Option Failure → EStateM.Result Failure RunState Unit
  | (progress, disk, none) => .ok () ⟨{ progress with changes := counted }, disk⟩
  | (progress, disk, some failure) => .error failure ⟨{ progress with changes := counted }, disk⟩

/-- The loop over the changes of a group carries them out. It counts none of them, since a group
counts its changes only when the loop has come to its end. -/
theorem forM_storeChange (base : RawText) (mode : RunMode) (made counted : List Change)
    (progress : Progress) (disk : Disk) :
    (made.forM (storeChange base mode)).run ⟨{ progress with changes := counted }, disk⟩ =
      loopEnd counted (carryOut base mode (made.map .store) progress disk) := by
  induction made generalizing progress disk with
  | nil => rfl
  | cons change rest ih =>
      rw [List.forM, EStateM.run_bind, storeChange_eq, Action.result, List.map_cons, carryOut]
      cases (Action.store change).perform base mode disk with
      | error failure => rfl
      | ok result => exact ih (progress.record (.store change) result.1) result.2

/-- The loop over the files of a group carries the deletions out. -/
theorem forM_deleteListed (base : RawText) (mode : RunMode) (files : List String)
    (progress : Progress) (disk : Disk) :
    (files.forM (deleteListed base mode)).run ⟨progress, disk⟩ =
      loopEnd progress.changes (carryOut base mode (files.map .delete) progress disk) := by
  induction files generalizing progress disk with
  | nil => rfl
  | cons file rest ih =>
      rw [List.forM, EStateM.run_bind, deleteListed_eq, Action.result, List.map_cons, carryOut]
      cases (Action.delete file).perform base mode disk with
      | error failure => rfl
      | ok result =>
          have hchanges := progress.changes_record (.delete file) result.1
          rw [show progress.changes ++ (Action.delete file).change?.toList = progress.changes from
            List.append_nil _] at hchanges
          have hrest := ih (progress.record (.delete file) result.1) result.2
          rw [hchanges] at hrest
          exact hrest

/-- A part of a run ends as some actions do. If one of them fails, the changes that are counted may
be others. -/
def EndsAs (result : EStateM.Result Failure RunState Unit) :
    Progress × Disk × Option Failure → Prop
  | (progress, disk, none) => result = .ok () ⟨progress, disk⟩
  | (progress, disk, some failure) =>
    ∃ stopped, result = .error failure ⟨stopped, disk⟩ ∧ stopped.sources = progress.sources

theorem endsAs_loopEnd {counted : List Change} {ending : Progress × Disk × Option Failure}
    (h : ending.2.2 = none → ending.1.changes = counted) : EndsAs (loopEnd counted ending) ending := by
  obtain ⟨progress, disk, _ | failure⟩ := ending
  · exact congrArg (EStateM.Result.ok ()) (by rw [← h rfl])
  · exact ⟨_, rfl, rfl⟩

theorem run_group (base : RawText) (mode : RunMode) (group : Group) (progress : Progress)
    (disk : Disk) :
    (runGroup base mode group).run ⟨progress, disk⟩ =
      let made := changes group.rules (selectSources group.files progress.sources)
      match (made.forM (storeChange base mode)).run ⟨progress, disk⟩ with
      | .ok _ state => (group.removeFiles.forM (deleteListed base mode)).run
          ⟨{ state.progress with changes := state.progress.changes ++ made }, state.disk⟩
      | .error failure state => .error failure state := by
  unfold runGroup
  simp only [EStateM.run_bind, EStateM.run_get, EStateM.run_modify]
  generalize (List.forM _ (storeChange base mode)).run ⟨progress, disk⟩ = ending
  cases ending <;> rfl

/-- A group does its actions. If it stops at one of them its changes are not counted, although those
in front of it are on the disk. -/
theorem endsAs_group (base : RawText) (mode : RunMode) (group : Group) (progress : Progress)
    (disk : Disk) :
    EndsAs ((runGroup base mode group).run ⟨progress, disk⟩)
      (carryOut base mode (group.actions progress.sources) progress disk) := by
  have hstores := forM_storeChange base mode
    (changes group.rules (selectSources group.files progress.sources)) progress.changes progress disk
  rw [run_group, Group.actions, carryOut_append]
  simp only [hstores]
  generalize hmade : changes group.rules (selectSources group.files progress.sources) = made
  obtain ⟨⟨progress', disk', failure⟩, hrun⟩ :
    ∃ ending, carryOut base mode (made.map .store) progress disk = ending := ⟨_, rfl⟩
  rw [hrun]
  cases failure with
  | some failure => exact ⟨_, rfl, rfl⟩
  | none =>
      have hchanges : progress'.changes = progress.changes ++ made := by
        rw [(carryOut_complete hrun).2.1, Action.changes_stores]
      simp only [loopEnd]
      rw [← hchanges, forM_deleteListed]
      refine endsAs_loopEnd fun hend => ?_
      have hdeletes := (carryOut_complete (Prod.ext rfl (Prod.ext rfl hend))).2.1
      rw [hdeletes, Action.changes_deletes, List.append_nil]

/-- The run of some groups ends as their plan does: at the same action, with the same sources, disk
and failure. By induction on the groups, each of which acts on what the one before it left in
memory. -/
theorem endsAs_groups (base : RawText) (mode : RunMode) (groups : List Group) (progress : Progress)
    (disk : Disk) :
    EndsAs ((groups.forM (runGroup base mode)).run ⟨progress, disk⟩)
      (carryOut base mode (plan groups progress.sources) progress disk) := by
  induction groups generalizing progress disk with
  | nil => rfl
  | cons group rest ih =>
      have hgroup := endsAs_group base mode group progress disk
      rw [carryOut_plan_cons, List.forM, EStateM.run_bind]
      obtain ⟨⟨progress', disk', failure⟩, hrun⟩ :
        ∃ ending, carryOut base mode (group.actions progress.sources) progress disk = ending :=
          ⟨_, rfl⟩
      rw [hrun] at hgroup ⊢
      cases failure with
      | some failure =>
          obtain ⟨stopped, hstopped, hsources⟩ := hgroup
          rw [hstopped]
          exact ⟨stopped, rfl, hsources⟩
      | none =>
          rw [show (runGroup base mode group).run ⟨progress, disk⟩ = .ok () ⟨progress', disk'⟩ from
            hgroup]
          exact ih progress' disk'

/-! ### Runs -/

/-- What is left of a workspace and a disk when the groups of a recipe have been applied, told by
their plan. -/
theorem Workspace.run_eq (hgroups : recipe.groups workspace.dialect = .ok groups)
    (hrun : carryOut workspace.base mode (plan groups workspace.sources)
      { sources := workspace.sources } disk = (progress, disk', failure)) :
    workspace.run recipe mode disk =
      { workspace := { workspace with sources := progress.sources }
        disk := disk'
        outcome := match failure with
          | none => .ok (workspace.report progress)
          | some failure => .error failure } := by
  have hends := endsAs_groups workspace.base mode groups { sources := workspace.sources } disk
  rw [hrun] at hends
  rw [run, hgroups]
  cases failure with
  | none => simp only [show _ = _ from hends]
  | some failure =>
      obtain ⟨stopped, hstopped, hsources⟩ := hends
      simp only [hstopped, hsources]

/-- A run reports if its recipe is valid and all of its actions succeed. -/
theorem Workspace.complete_of_report (h : (workspace.run recipe mode disk).outcome = .ok report) :
    ∃ groups progress disk', recipe.groups workspace.dialect = .ok groups ∧
      carryOut workspace.base mode (plan groups workspace.sources) { sources := workspace.sources }
        disk = (progress, disk', none) ∧
      report = workspace.report progress := by
  cases hgroups : recipe.groups workspace.dialect with
  | error error =>
      rw [run, hgroups] at h
      cases h
  | ok groups =>
      obtain ⟨⟨progress, disk', failure⟩, hrun⟩ : ∃ result, carryOut workspace.base mode
        (plan groups workspace.sources) { sources := workspace.sources } disk = result := ⟨_, rfl⟩
      rw [run_eq hgroups hrun] at h
      cases failure with
      | some failure => cases h
      | none => exact ⟨groups, progress, disk', rfl, hrun, (Except.ok.inj h).symm⟩

/-- A run does nothing, or carries out what its groups plan, as far as that comes. It does nothing
if the recipe asks for something that cannot be made into groups. -/
theorem Workspace.run_cases (workspace : Workspace) (recipe : Recipe) (mode : RunMode) (disk : Disk) :
    ((workspace.run recipe mode disk).workspace = workspace ∧
      (workspace.run recipe mode disk).disk = disk) ∨
    ∃ groups progress disk' failure, recipe.groups workspace.dialect = .ok groups ∧
      carryOut workspace.base mode (plan groups workspace.sources) { sources := workspace.sources }
        disk = (progress, disk', failure) ∧
      (workspace.run recipe mode disk).workspace = { workspace with sources := progress.sources } ∧
      (workspace.run recipe mode disk).disk = disk' := by
  cases hgroups : recipe.groups workspace.dialect with
  | error error => exact .inl (by simp [run, hgroups])
  | ok groups =>
      obtain ⟨⟨progress, disk', failure⟩, hrun⟩ : ∃ result, carryOut workspace.base mode
        (plan groups workspace.sources) { sources := workspace.sources } disk = result := ⟨_, rfl⟩
      rw [run_eq hgroups hrun]
      exact .inr ⟨groups, progress, disk', failure, rfl, hrun, rfl, rfl⟩

theorem Workspace.run_paths (workspace : Workspace) (recipe : Recipe) (mode : RunMode) (disk : Disk) :
    (workspace.run recipe mode disk).workspace.base = workspace.base ∧
      ((workspace.run recipe mode disk).workspace.sources.map Source.path).Sublist
        (workspace.sources.map Source.path) := by
  rcases workspace.run_cases recipe mode disk with ⟨hsame, -⟩ |
    ⟨groups, progress, disk', failure, -, hrun, hworkspace, -⟩
  · rw [hsame]
    exact ⟨rfl, .refl _⟩
  · rw [hworkspace]
    exact ⟨rfl, carryOut_paths hrun⟩

end BuildPrune
