import BuildPrune.Proofs.MemoryAndDisk

/-!
# BuildPrune.Proofs.Runs

What a run does in memory, whether it writes or not.

* In memory an action does the same in both modes, so a run that comes to its end leaves the sources
  and reports the changes that its plan says. A dry run always comes to its end, and leaves the disk
  alone (`carryOut_dry`). So it tells what a run that writes would do to the scripts
  (`dry_run_predicts`).
* What is stored is a change from the script that the source has at that moment (`due_plan`), if the
  paths of the sources are distinct.
* `History` is all that can happen to a project, also runs with paths that are spelled in any way.
  The paths of the sources stay among those that were loaded (`History.exists_loaded`).
-/

namespace BuildPrune

variable {base : RawText} {root : Location} {mode : RunMode} {disk disk' : Disk}
  {workspace : Workspace} {recipe : Recipe} {groups : List Group} {actions : List Action}
  {progress progress' : Progress} {failure : Option Failure} {report : Report}

/-! ### Dry runs

A dry run does not touch the disk, so each of its actions succeeds. What it says about deletions
is read off the disk as it is at the start. -/

/-- Of the files that actions delete those that are on a disk, as their paths are spelled. -/
def foreseen (disk : Disk) (base : RawText) (actions : List Action) : List String :=
  (actions.filterMap Action.file?).filter fun file => disk.isFile (Path.join base file)

theorem foreseen_store (disk : Disk) (base : RawText) (change : Change) (rest : List Action) :
    foreseen disk base (.store change :: rest) = foreseen disk base rest := rfl

theorem foreseen_delete (disk : Disk) (base : RawText) (file : String) (rest : List Action) :
    foreseen disk base (.delete file :: rest) =
      ([file].filter fun _ => disk.isFile (Path.join base file)) ++ foreseen disk base rest := by
  show List.filter _ (file :: rest.filterMap Action.file?) = _
  rw [List.filter_cons]
  cases disk.isFile (Path.join base file) <;> rfl

/-- A dry run goes through all actions. It counts the files that are on the disk, and that stays as
it is. So a file that is listed twice is counted twice. -/
theorem carryOut_dry (base : RawText) (actions : List Action) (progress : Progress) (disk : Disk) :
    ∃ progress', carryOut base .dry actions progress disk = (progress', disk, none) ∧
      progress'.removed = progress.removed ++ foreseen disk base actions := by
  induction actions generalizing progress with
  | nil => exact ⟨progress, rfl, (List.append_nil _).symm⟩
  | cons action rest ih =>
      cases action with
      | store change => exact ih _
      | delete file =>
          obtain ⟨progress', hrest, hremoved⟩ :=
            ih (progress.record (.delete file) (disk.isFile (Path.join base file)))
          refine ⟨progress', hrest, ?_⟩
          rw [hremoved, progress.removed_record, List.append_assoc, foreseen_delete]
          rfl

/-- If a run that writes comes to a report, then so does a dry run in its place. It considers the
same scripts and makes the same changes to them, in memory it leaves the same, and on the disk
nothing changes. -/
theorem dry_run_predicts (h : (workspace.run recipe .write disk).outcome = .ok report) :
    ∃ forecast, (workspace.run recipe .dry disk).outcome = .ok forecast ∧
      forecast.considered = report.considered ∧
      forecast.parseFailures = report.parseFailures ∧
      forecast.changedPaths = report.changedPaths ∧
      forecast.changes = report.changes ∧
      (workspace.run recipe .dry disk).workspace = (workspace.run recipe .write disk).workspace ∧
      (workspace.run recipe .dry disk).disk = disk := by
  obtain ⟨groups, progress, disk', hgroups, hwrite, rfl⟩ := Workspace.complete_of_report h
  obtain ⟨forecast, hdry, -⟩ := carryOut_dry workspace.base (plan groups workspace.sources)
    { sources := workspace.sources } disk
  -- Both runs go through the same actions to their end, so in memory they do the same.
  obtain ⟨hsources, hchanges, hpaths⟩ := carryOut_complete hdry
  obtain ⟨hsources', hchanges', hpaths'⟩ := carryOut_complete hwrite
  rw [Workspace.run_eq hgroups hdry, Workspace.run_eq hgroups hwrite]
  refine ⟨workspace.report forecast, rfl, rfl, rfl, ?_, ?_, ?_, rfl⟩
  · exact hpaths.trans hpaths'.symm
  · exact hchanges.trans hchanges'.symm
  · rw [hsources, hsources']

theorem dry_run_predicts_sample :
    ∃ workspace report, Workspace.load sampleDisk "p" = .ok workspace ∧
      (workspace.run sampleRecipe .write sampleDisk).outcome = .ok report ∧
      report.changedPaths = ["app/build.gradle"] ∧
      ∃ forecast, (workspace.run sampleRecipe .dry sampleDisk).outcome = .ok forecast ∧
        forecast.changes = report.changes ∧
        (workspace.run sampleRecipe .dry sampleDisk).disk = sampleDisk := by
  have hloaded : (Workspace.load sampleDisk "p").toOption.any (fun workspace =>
      (workspace.run sampleRecipe .write sampleDisk).outcome.toOption.any fun report =>
        report.changedPaths == ["app/build.gradle"]) = true := by
    decide +kernel
  obtain ⟨workspace, hload, hruns⟩ := ok_of_any hloaded
  obtain ⟨report, hrun, hpaths⟩ := ok_of_any hruns
  obtain ⟨forecast, hdry, -, -, -, hchanges, -, hdisk⟩ := dry_run_predicts hrun
  exact ⟨workspace, report, hload, hrun, by simpa using hpaths, forecast, hdry, hchanges, hdisk⟩

/-! ### What is due

The changes of a group are computed from the sources as the group finds them, and then stored one
by one. Storing one of them leaves the other sources as they were if their paths differ. -/

/-- An action that can be due: it stores a change of a source from the script that the source has,
or it deletes something. -/
def Action.Due (sources : List Source) : Action → Prop
  | .store change => ⟨change.path, change.before⟩ ∈ sources
  | .delete _ => True

theorem due_stores {changes : List Change} {sources : List Source}
    (hdistinct : (changes.map Change.path).Nodup)
    (h : ∀ change ∈ changes, ⟨change.path, change.before⟩ ∈ sources) :
    Action.InTurn Action.Due (changes.map .store) sources := by
  induction changes generalizing sources with
  | nil => trivial
  | cons change rest ih =>
      obtain ⟨hchange, hrest⟩ := List.forall_mem_cons.1 h
      rw [List.map_cons, List.nodup_cons] at hdistinct
      refine ⟨hchange, ih hdistinct.2 ?_⟩
      intro other hother
      -- The paths are distinct, so the other sources still have the scripts that they had.
      have hne : other.path ≠ change.path := by
        intro hsame
        apply hdistinct.1
        rw [← hsame]
        exact List.mem_map_of_mem hother
      exact Change.mem_applyTo_of_ne (hrest other hother) hne

theorem changes_paths_sublist (rules : RuleSet) (sources : List Source) :
    ((changes rules sources).map Change.path).Sublist (sources.map Source.path) := by
  induction sources with
  | nil => exact .slnil
  | cons source rest ih =>
      cases hchange : source.change? rules with
      | none =>
          rw [changes, List.filterMap_cons_none hchange, List.map_cons]
          exact ih.cons _
      | some change =>
          rw [changes, List.filterMap_cons_some hchange, List.map_cons, List.map_cons,
            (Source.due_of_change? hchange).1]
          exact ih.cons_cons _

/-- What is planned starts, when its turn comes, from the scripts that the sources have then. With
two sources of one path it need not, as a change replaces the first source at its path. -/
theorem due_plan (groups : List Group) {sources : List Source}
    (hdistinct : (sources.map Source.path).Nodup) :
    Action.InTurn Action.Due (plan groups sources) sources := by
  refine Action.inTurn_plan (Q := fun sources => (sources.map Source.path).Nodup) ?_ ?_ groups
    hdistinct
  · intro group sources hdistinct
    have hselected := (selectSources_sublist group.files sources).map Source.path
    refine Action.inTurn_append.2 ⟨due_stores ?_ ?_, inTurn_deletes (fun _ _ => trivial) _ _⟩
    · exact hdistinct.sublist ((changes_paths_sublist group.rules _).trans hselected)
    · exact fun change hchange => (due_of_mem_changes hchange).1
  · exact fun actions sources hdistinct => hdistinct.sublist (Action.paths_applyAll actions sources)

/-! ### Histories

What holds at any time of a project is proved by going through what can happen to it. In a history
nothing is said about the paths that recipes name, which may lead anywhere. -/

/-- What can become of the project at `base`, with the disk that it was loaded from: it is loaded,
another dialect is chosen, and it is run in either mode, any number of times. -/
inductive History (disk : Disk) (base : RawText) : Workspace → Disk → Prop
  | loaded {workspace : Workspace} (hload : Workspace.load disk base = .ok workspace) :
      History disk base workspace disk
  | chosen {workspace : Workspace} {disk₁ : Disk} (hbefore : History disk base workspace disk₁)
      (dialect : Dialect) : History disk base { workspace with dialect := dialect } disk₁
  | run {workspace : Workspace} {disk₁ : Disk} (hbefore : History disk base workspace disk₁)
      (recipe : Recipe) (mode : RunMode) :
      History disk base (workspace.run recipe mode disk₁).workspace
        (workspace.run recipe mode disk₁).disk

namespace History

variable {start : Disk}

/-- The paths of the sources are some of those that were loaded. -/
theorem exists_loaded (h : History start base workspace disk) :
    workspace.base = base ∧ ∃ first, Workspace.load start base = .ok first ∧
      (workspace.sources.map Source.path).Sublist (first.sources.map Source.path) := by
  induction h with
  | @loaded workspace hload =>
      refine ⟨?_, workspace, hload, .refl _⟩
      obtain ⟨files, -, -, rfl⟩ := Workspace.load_ok hload
      rfl
  | chosen _ _ ih => exact ih
  | @run workspace disk₁ _ recipe mode ih =>
      obtain ⟨hbase, first, hload, hpaths⟩ := ih
      obtain ⟨hbase', hpaths'⟩ := workspace.run_paths recipe mode disk₁
      exact ⟨hbase'.trans hbase, first, hload, hpaths'.trans hpaths⟩

/-- What is true of the disk at the start, and stays true where actions are carried out, is true
of the disk at any time. Loading reads the disk only, and the choice of a dialect does not ask
for it. -/
theorem disk_induction {motive : Disk → Prop} (h : History start base workspace disk)
    (hstart : motive start)
    (hactions : ∀ {base mode actions progress disk progress' disk' failure}, motive disk →
      carryOut base mode actions progress disk = (progress', disk', failure) → motive disk') :
    motive disk := by
  induction h with
  | loaded _ => exact hstart
  | chosen _ _ ih => exact ih
  | @run workspace disk₁ _ recipe mode ih =>
      rcases workspace.run_cases recipe mode disk₁ with ⟨-, hdisk⟩ |
        ⟨groups, progress, disk₂, failure, -, hrun, -, hdisk⟩
      · rw [hdisk]
        exact ih
      · rw [hdisk]
        exact hactions ih hrun

/-- Where the names of scripts are texts, the sources have different paths. Names that are no texts
may look alike once they are made into text, and then two scripts share a path. -/
theorem distinct (h : History start base workspace disk) (htree : start.IsTree)
    (htexts : ∀ root, start.spot true base = .ok (.taken root .directory) →
      start.TextScripts root) : (workspace.sources.map Source.path).Nodup := by
  obtain ⟨-, first, hload, hpaths⟩ := h.exists_loaded
  exact (List.nodup_append.1 (Workspace.distinct_of_load htree htexts hload)).1.sublist hpaths

theorem canonical (h : History start base workspace disk) (htree : start.IsTree)
    (hbase : start.spot true base = .ok (.taken root .directory)) :
    ∀ source ∈ workspace.sources, Path.Canonical source.path := by
  intro source hsource
  obtain ⟨-, first, hload, hpaths⟩ := h.exists_loaded
  obtain ⟨original, horiginal, hpath⟩ :=
    List.mem_map.1 (hpaths.subset (List.mem_map_of_mem hsource))
  rw [← hpath]
  exact Workspace.canonical_of_load htree hbase hload original horiginal

end History

end BuildPrune
