import BuildPrune.Proofs.Loading
import BuildPrune.Proofs.Plans

/-!
# BuildPrune.Proofs.MemoryAndDisk

What is in memory is what is on the disk. A workspace holds each script in parsed form, and no run
reads a file again, so everything rests on this: at the path of each source there is a file, and its
content is the text that the source prints (`Agree`).

* It holds once a project is loaded (`agree_of_load`), if its scripts have texts for names and no
  file is a script under two names. Without that it does not hold, nor where the base is itself a
  script (`not_session_agrees`).
* An action that succeeds keeps it, and one that fails changes nothing (`Agree.perform`). So a run
  keeps it wherever it ends (`carryOut_kept`).
* `Session` is all that can happen to a project in writing runs, also that the disk refuses an
  action for reasons of its own. The sources agree with the disk all the time (`session_agrees`).

That each source has a file at all (`Placed`) asks nothing about second names.
-/

namespace BuildPrune

variable {base : RawText} {root : Location} {sources : List Source} {disk disk' : Disk}

/-! ### Agreement -/

/-- Each source has a file at its path in the project at `base`. Nothing is said of what is in that
file, so second names do no harm here. -/
structure Placed (base : RawText) (root : Location) (sources : List Source) (disk : Disk) : Prop where
  project : disk.IsProject base root
  canonical : ∀ source ∈ sources, Path.Canonical source.path
  there : ∀ source ∈ sources, ∃ content, disk.read (Path.join base source.path) = .ok content

/-- Each source is the file at its path, and each has a file of its own. The latter is needed
because a change of one source would show in the file of another one otherwise. -/
structure Agree (base : RawText) (root : Location) (sources : List Source) (disk : Disk) : Prop
    extends Placed base root sources disk where
  distinct : (sources.map Source.path).Nodup
  unshared : ∀ source ∈ sources, ∀ other ∈ sources,
    disk.SameFile (root ++ Path.pieces source.path) (root ++ Path.pieces other.path) →
      source.path = other.path
  stored : ∀ source ∈ sources,
    disk.read (Path.join base source.path) = .ok source.script.print.toUTF8

/-- Different paths have different places in the project. -/
theorem place_ne {path other : String} (hne : path ≠ other) :
    root ++ Path.pieces path ≠ root ++ Path.pieces other :=
  fun heq => hne (RawText.ofText_injective (Path.pieces_injective (List.append_cancel_left heq)))

/-! ### One action

To store a script writes its text to the file at its path; all names of that file change. So the
other sources must not lead to the same file, and this is what `Agree` includes besides the
contents. -/

/-- A change stores the file of a source, with all of its names. -/
theorem Placed.store_of_write {change : Change} (h : Placed base root sources disk)
    (hsource : change.path ∈ sources.map Source.path)
    (hwrite : disk.write (Path.join base change.path) change.after.print.toUTF8 = .ok disk') :
    Path.Canonical change.path ∧ disk.LeafAt (root ++ Path.pieces change.path) ∧
      disk' = disk.store (root ++ Path.pieces change.path) change.after.print.toUTF8 := by
  obtain ⟨source, hsource, hpath⟩ := List.mem_map.1 hsource
  have hcanonical : Path.Canonical change.path := hpath ▸ h.canonical source hsource
  exact ⟨hcanonical, h.project.store_of_write hcanonical hwrite⟩

/-- After that each source still has a file, since storing makes no file go. -/
theorem Placed.store {change : Change} (h : Placed base root sources disk)
    (hsource : change.path ∈ sources.map Source.path)
    (hwrite : disk.write (Path.join base change.path) change.after.print.toUTF8 = .ok disk') :
    Placed base root (change.applyTo sources) disk' := by
  obtain ⟨-, hleaf, rfl⟩ := h.store_of_write hsource hwrite
  have hretouched := Disk.Retouched.store hleaf change.after.print.toUTF8
  have hpaths : ∀ source ∈ change.applyTo sources, ∃ before ∈ sources, before.path = source.path := by
    intro source hafter
    have hmem := List.mem_map_of_mem (f := Source.path) hafter
    rw [Change.map_path_applyTo] at hmem
    exact List.mem_map.1 hmem
  refine ⟨h.project.sameWays hretouched.sameWays, ?_, ?_⟩
  · intro source hafter
    obtain ⟨before, hbefore, hpath⟩ := hpaths source hafter
    exact hpath ▸ h.canonical before hbefore
  · intro source hafter
    obtain ⟨before, hbefore, hpath⟩ := hpaths source hafter
    obtain ⟨content, hread⟩ := h.there before hbefore
    have hcanonical := h.canonical before hbefore
    rw [← hpath]
    -- The file is there with what it had, or with what was stored.
    have hnode : ∃ content', (disk.store (root ++ Path.pieces change.path)
        change.after.print.toUTF8).get? (root ++ Path.pieces before.path) =
          some (.file content') := by
      by_cases hshares : disk.Shares (root ++ Path.pieces change.path)
          (root ++ Path.pieces before.path)
      · exact ⟨_, hshares.get?_store hleaf _⟩
      · rw [hretouched.elsewhere _ hshares]
        exact ⟨content, (h.project.read_join hcanonical hread).2⟩
    obtain ⟨content', hnode⟩ := hnode
    exact ⟨content', h.project.read_of_sameWays hretouched.sameWays hcanonical hread hnode⟩

/-- Fewer sources have their files as well. -/
theorem Placed.sublist {fewer : List Source} (h : Placed base root sources disk)
    (hfewer : fewer.Sublist sources) : Placed base root fewer disk where
  project := h.project
  canonical source hsource := h.canonical source (hfewer.subset hsource)
  there source hsource := h.there source (hfewer.subset hsource)

/-- A deletion erases the file at the place of its path, and no source is left there. The path is
canonical, so the sources of that place are spelled like it. -/
theorem Placed.erase_of_remove {file : String} (h : Placed base root sources disk)
    (hfile : Path.Canonical file) (hremove : disk.remove (Path.join base file) = .ok disk') :
    disk.SameWays disk' ∧ disk' = disk.erase (root ++ Path.pieces file) ∧
      ∀ source ∈ sources.filter fun source => source.path ≠ file,
        disk'.get? (root ++ Path.pieces source.path) =
          disk.get? (root ++ Path.pieces source.path) := by
  obtain ⟨hleaf, rfl⟩ := h.project.erase_of_remove hfile hremove
  have hretouched := Disk.Retouched.erase hleaf
  refine ⟨hretouched.sameWays, rfl, fun source hsource => hretouched.elsewhere _ ?_⟩
  exact place_ne (of_decide_eq_true (List.mem_filter.1 hsource).2)

theorem Placed.delete {file : String} (h : Placed base root sources disk)
    (hfile : Path.Canonical file) (hremove : disk.remove (Path.join base file) = .ok disk') :
    Placed base root (sources.filter fun source => source.path ≠ file) disk' := by
  obtain ⟨hways, -, hsame⟩ := h.erase_of_remove hfile hremove
  have hkept := h.sublist (List.filter_sublist (p := fun source => decide (source.path ≠ file)))
  refine ⟨h.project.sameWays hways, hkept.canonical, fun source hsource => ?_⟩
  obtain ⟨content, hread⟩ := hkept.there source hsource
  have hcanonical := hkept.canonical source hsource
  refine ⟨content, h.project.read_of_sameWays hways hcanonical hread ?_⟩
  rw [hsame source hsource]
  exact (h.project.read_join hcanonical hread).2

/-- After an action that succeeds each source has a file still. -/
theorem Placed.perform {action : Action} {found : Bool} (h : Placed base root sources disk)
    (hknown : action.Known sources) (hfile : ∀ file, action = .delete file → Path.Canonical file)
    (hperform : action.perform base .write disk = .ok (found, disk')) :
    Placed base root (action.applyTo sources) disk' := by
  rcases Action.perform_write hperform with
    ⟨change, rfl, hwrite⟩ | ⟨file, rfl, -, hremove⟩ | ⟨file, rfl, -, -, rfl⟩
  · exact h.store hknown hwrite
  · exact h.delete (hfile file rfl) hremove
  · exact h.sublist List.filter_sublist

/-- A stored change brings the source and its file to the same text. No other source has this file,
so the others agree as they did. -/
theorem Agree.store {change : Change} (h : Agree base root sources disk)
    (hsource : change.path ∈ sources.map Source.path)
    (hwrite : disk.write (Path.join base change.path) change.after.print.toUTF8 = .ok disk') :
    Agree base root (change.applyTo sources) disk' := by
  have hplaced := h.toPlaced.store hsource hwrite
  obtain ⟨-, hleaf, rfl⟩ := h.store_of_write hsource hwrite
  have hretouched := Disk.Retouched.store hleaf change.after.print.toUTF8
  have hpaths := change.map_path_applyTo sources
  have hbefore : ∀ source ∈ change.applyTo sources, ∃ before ∈ sources, before.path = source.path := by
    intro source hafter
    exact List.mem_map.1 (hpaths ▸ List.mem_map_of_mem (f := Source.path) hafter)
  obtain ⟨source₀, hsource₀, hpath₀⟩ := List.mem_map.1 hsource
  refine ⟨hplaced, ?_, ?_, ?_⟩
  · rw [hpaths]
    exact h.distinct
  · intro source hafter other hother hsame
    obtain ⟨before, hmem, hpath⟩ := hbefore source hafter
    obtain ⟨before', hmem', hpath'⟩ := hbefore other hother
    by_contra hne
    refine hne ?_
    have hold := h.unshared before hmem before' hmem'
    rw [hpath, hpath'] at hold
    exact hold (hsame.of_store (place_ne hne))
  · intro source hafter
    by_cases hpath : source.path = change.path
    · rw [hpath, Change.script_of_mem_applyTo h.distinct hafter hpath]
      have hstored := h.stored source₀ hsource₀
      have hcanonical := h.canonical source₀ hsource₀
      rw [hpath₀] at hstored hcanonical
      exact h.project.read_of_sameWays hretouched.sameWays hcanonical hstored
        ((Disk.Shares.refl disk _).get?_store hleaf _)
    · -- A source with another path has a file of its own, so that is as it was.
      have hmem := (Change.mem_applyTo hafter).resolve_left fun hchanged => hpath hchanged.1
      have hcanonical := h.canonical source hmem
      have hstored := h.stored source hmem
      refine h.project.read_of_sameWays hretouched.sameWays hcanonical hstored ?_
      rw [hretouched.elsewhere]
      · exact (h.project.read_join hcanonical hstored).2
      · rintro (hplace | hsame)
        · exact place_ne hpath hplace
        · rw [← hpath₀] at hsame
          exact hpath ((h.unshared source₀ hsource₀ source hmem hsame).symm.trans hpath₀)

/-- Fewer sources agree as well. -/
theorem Agree.sublist {fewer : List Source} (h : Agree base root sources disk)
    (hfewer : fewer.Sublist sources) : Agree base root fewer disk where
  toPlaced := h.toPlaced.sublist hfewer
  distinct := h.distinct.sublist (hfewer.map Source.path)
  unshared source hsource other hother :=
    h.unshared source (hfewer.subset hsource) other (hfewer.subset hother)
  stored source hsource := h.stored source (hfewer.subset hsource)

/-- A deletion takes the file and the source. -/
theorem Agree.delete {file : String} (h : Agree base root sources disk)
    (hfile : Path.Canonical file) (hremove : disk.remove (Path.join base file) = .ok disk') :
    Agree base root (sources.filter fun source => source.path ≠ file) disk' := by
  have hplaced := h.toPlaced.delete hfile hremove
  have hkept := h.sublist (List.filter_sublist (p := fun source => decide (source.path ≠ file)))
  obtain ⟨hways, rfl, hsame⟩ := h.erase_of_remove hfile hremove
  refine ⟨hplaced, hkept.distinct, ?_, fun source hsource => ?_⟩
  · intro source hsource other hother hshared
    exact hkept.unshared source hsource other hother hshared.of_erase
  · have hcanonical := hkept.canonical source hsource
    have hstored := hkept.stored source hsource
    refine h.project.read_of_sameWays hways hcanonical hstored ?_
    rw [hsame source hsource]
    exact (h.project.read_join hcanonical hstored).2

/-- An action that succeeds is done in memory and on the disk. -/
theorem Agree.perform {action : Action} {found : Bool} (h : Agree base root sources disk)
    (hknown : action.Known sources) (hfile : ∀ file, action = .delete file → Path.Canonical file)
    (hperform : action.perform base .write disk = .ok (found, disk')) :
    Agree base root (action.applyTo sources) disk' := by
  rcases Action.perform_write hperform with
    ⟨change, rfl, hwrite⟩ | ⟨file, rfl, -, hremove⟩ | ⟨file, rfl, -, -, rfl⟩
  · exact h.store hknown hwrite
  · exact h.delete (hfile file rfl) hremove
  · exact h.sublist List.filter_sublist

/-! ### A run

What holds at the start and is kept by each action that succeeds holds wherever a run ends.
Deletions keep it if their paths are canonical: then the source goes together with its file. -/

/-- The files that the actions delete have canonical paths. -/
def DeletesCanonical (actions : List Action) : Prop :=
  ∀ file : String, .delete file ∈ actions → Path.Canonical file

/-- What actions keep that succeed, if they store sources and delete at canonical paths, holds
wherever a run ends. `Placed` and `Agree` are both used with this. -/
theorem carryOut_kept {motive : List Source → Disk → Prop}
    (hstep : ∀ (action : Action) sources disk found disk', motive sources disk →
      action.Known sources → (∀ file, action = .delete file → Path.Canonical file) →
      action.perform base .write disk = .ok (found, disk') → motive (action.applyTo sources) disk')
    {actions : List Action} {progress progress' : Progress} {failure : Option Failure}
    (h : motive progress.sources disk) (hknown : Action.InTurn Action.Known actions progress.sources)
    (hfiles : DeletesCanonical actions)
    (hrun : carryOut base .write actions progress disk = (progress', disk', failure)) :
    motive progress'.sources disk' := by
  refine (carryOut_induction (motive := fun due progress disk => motive progress.sources disk ∧
    Action.InTurn Action.Known due progress.sources ∧ DeletesCanonical due)
    ?_ ⟨h, hknown, hfiles⟩ hrun).elim fun _ hend => hend.1
  rintro action rest progress disk found disk' ⟨hnow, ⟨hfirst, hrest⟩, hfiles⟩ hperform
  rw [progress.sources_record]
  refine ⟨hstep action _ disk found disk' hnow hfirst ?_ hperform, hrest, ?_⟩
  · rintro file rfl
    exact hfiles file List.mem_cons_self
  · exact fun file hfile => hfiles file (List.mem_cons_of_mem _ hfile)

/-- The paths of the files that the recipe deletes are canonical. -/
def Recipe.DeletesCanonical (recipe : Recipe) : Prop :=
  ∀ entry ∈ recipe, ∀ file ∈ entry.2.removeFiles.getD [], Path.Canonical (Path.normalize file)

instance (recipe : Recipe) : Decidable recipe.DeletesCanonical :=
  inferInstanceAs (Decidable (∀ entry ∈ recipe, ∀ file ∈ entry.2.removeFiles.getD [],
    Path.Canonical (Path.normalize file)))

theorem Recipe.DeletesCanonical.plan {recipe : Recipe} (h : recipe.DeletesCanonical)
    {dialect : Dialect} {groups : List Group} (hgroups : recipe.groups dialect = .ok groups)
    (sources : List Source) : BuildPrune.DeletesCanonical (plan groups sources) := by
  intro file hfile
  obtain ⟨group, hgroup, hlisted⟩ := exists_group_of_delete hfile
  obtain ⟨entry, hentry, written, hwritten, rfl⟩ :=
    Recipe.exists_of_removeFiles hgroups hgroup hlisted
  exact h entry hentry written hwritten

/-! ### Loading -/

section Loading

variable {workspace : Workspace} (htree : disk.IsTree) (hproject : disk.IsProject base root)
  (htexts : disk.TextScripts root) (hload : Workspace.load disk base = .ok workspace)
include htree hproject htexts hload

/-- A source that was just loaded is the file that its path names. For this the names must be
texts. -/
theorem source_of_load {source : Source} (hsource : source ∈ workspace.sources) :
    disk.FoundScript root (Path.pieces source.path) ∧
      disk.read (Path.join base source.path) = .ok source.script.print.toUTF8 := by
  obtain ⟨names, hfound, hpath, hread⟩ :=
    Workspace.script_of_source htree hproject.leads hload hsource
  rw [hpath, hfound.pieces_shownPath htree htexts, hfound.joined_shownPath htree htexts]
  exact ⟨hfound, hread⟩

theorem placed_of_load : Placed base root workspace.sources disk where
  project := hproject
  canonical := Workspace.canonical_of_load htree hproject.leads hload
  there _ hsource := ⟨_, (source_of_load htree hproject htexts hload hsource).2⟩

/-- A project that was just loaded agrees with the disk, if no script has the file of another. -/
theorem agree_of_load (hunshared : disk.UnsharedScripts root) :
    Agree base root workspace.sources disk where
  toPlaced := placed_of_load htree hproject htexts hload
  distinct := by
    have hdistinct := Workspace.distinct_of_load htree (fun root' hroot' => ?_) hload
    · exact (List.nodup_append.1 hdistinct).1
    · cases hroot'.symm.trans hproject.leads
      exact htexts
  unshared source hsource other hother hsame := by
    have hfound := (source_of_load htree hproject htexts hload hsource).1.scriptAt htree
    have hfound' := (source_of_load htree hproject htexts hload hother).1.scriptAt htree
    have hpieces := hunshared.eq_of_sameFile htree hfound hfound' hsame
    exact RawText.ofText_injective (Path.pieces_injective hpieces)
  stored source hsource := (source_of_load htree hproject htexts hload hsource).2

end Loading

/-! ### Sessions

A session includes that the disk refuses an action. The run then stops, with the actions before it
done both in memory and on the disk, so that the next run finds the two as they should be. -/

/-- What can become of the project at `base`, with the disk that it was loaded from: it is loaded,
and then there are runs in writing mode.

* A run comes to its end, or to an action that fails.
* Or the disk refuses an action of the run for a reason of its own, when some have been `done`. Then
  the run ends there, and neither memory nor the disk changes by the action. -/
inductive Session (disk : Disk) (base : RawText) : Workspace → Disk → Prop
  | loaded {workspace : Workspace} (hload : Workspace.load disk base = .ok workspace) :
      Session disk base workspace disk
  | run {workspace : Workspace} {disk₁ : Disk} {recipe : Recipe}
      (hbefore : Session disk base workspace disk₁) (hrecipe : recipe.DeletesCanonical) :
      Session disk base (workspace.run recipe .write disk₁).workspace
        (workspace.run recipe .write disk₁).disk
  | refused {workspace : Workspace} {disk₁ disk₂ : Disk} {recipe : Recipe} {groups : List Group}
      {done rest : List Action} {action : Action} {progress : Progress}
      (hbefore : Session disk base workspace disk₁) (hrecipe : recipe.DeletesCanonical)
      (hgroups : recipe.groups workspace.dialect = .ok groups)
      (hplan : plan groups workspace.sources = done ++ action :: rest)
      (hdone : carryOut workspace.base .write done { sources := workspace.sources } disk₁ =
        (progress, disk₂, none)) :
      Session disk base { workspace with sources := progress.sources } disk₂

/-- What holds of a project that was loaded, and is kept by actions that succeed, holds in every
session. An action that the disk refuses ends its run and changes nothing. -/
theorem Session.induction {motive : List Source → Disk → Prop}
    (hloaded : ∀ workspace, Workspace.load disk base = .ok workspace → motive workspace.sources disk)
    (hstep : ∀ (action : Action) sources disk found disk', motive sources disk →
      action.Known sources → (∀ file, action = .delete file → Path.Canonical file) →
      action.perform base .write disk = .ok (found, disk') → motive (action.applyTo sources) disk')
    {workspace : Workspace} (h : Session disk base workspace disk') :
    workspace.base = base ∧ motive workspace.sources disk' := by
  induction h with
  | @loaded workspace hload =>
      refine ⟨?_, hloaded workspace hload⟩
      obtain ⟨files, -, -, rfl⟩ := Workspace.load_ok hload
      rfl
  | @run workspace disk₁ recipe _ hrecipe ih =>
      obtain ⟨hbase, hnow⟩ := ih
      rcases workspace.run_cases recipe .write disk₁ with ⟨hsame, hdisk⟩ |
        ⟨groups, progress, disk₂, failure, hgroups, hrun, hworkspace, hdisk⟩
      · rw [hsame, hdisk]
        exact ⟨hbase, hnow⟩
      · rw [hworkspace, hdisk]
        rw [hbase] at hrun
        refine ⟨hbase, carryOut_kept hstep ?_ ?_ (hrecipe.plan hgroups _) hrun⟩
        · exact hnow
        · exact known_plan groups workspace.sources
  | @refused workspace _ _ _ groups done _ _ _ _ hrecipe hgroups hplan hdone ih =>
      obtain ⟨hbase, hnow⟩ := ih
      have hknown := known_plan groups workspace.sources
      have hfiles := hrecipe.plan hgroups workspace.sources
      rw [hplan] at hknown hfiles
      rw [hbase] at hdone
      refine ⟨hbase, carryOut_kept hstep ?_ ?_ ?_ hdone⟩
      · exact hnow
      · exact (Action.inTurn_append.1 hknown).1
      · exact fun file hfile => hfiles file (List.mem_append_left _ hfile)

/-- In every session each source has a file. -/
theorem placed_of_session (htree : disk.IsTree) (hproject : disk.IsProject base root)
    (htexts : disk.TextScripts root) {workspace : Workspace}
    (h : Session disk base workspace disk') :
    workspace.base = base ∧ Placed base root workspace.sources disk' :=
  h.induction (fun _ hload => placed_of_load htree hproject htexts hload)
    fun _ _ _ _ _ hnow hknown hfile hperform => hnow.perform hknown hfile hperform

/-- Memory and disk agree in every session. -/
theorem agree_of_session (htree : disk.IsTree) (hproject : disk.IsProject base root)
    (htexts : disk.TextScripts root) (hunshared : disk.UnsharedScripts root)
    {workspace : Workspace} (h : Session disk base workspace disk') :
    workspace.base = base ∧ Agree base root workspace.sources disk' :=
  h.induction (fun _ hload => agree_of_load htree hproject htexts hload hunshared)
    fun _ _ _ _ _ hnow hknown hfile hperform => hnow.perform hknown hfile hperform

/-- In a project without links every source is, after each run and however the run ended, a file at
its path that has the text of the source as its content. The names of its scripts are texts, and
none of these is a second name of the file of another.

Each proviso is needed: `not_session_agrees` has a project without it, in which a run ends with a
source that is not its file. -/
theorem session_agrees (htree : disk.IsTree) (hproject : disk.IsProject base root)
    (htexts : disk.TextScripts root) (hunshared : disk.UnsharedScripts root)
    {workspace : Workspace} (h : Session disk base workspace disk') :
    ∀ source ∈ workspace.sources,
      disk'.read (Path.join base source.path) = .ok source.script.print.toUTF8 :=
  (agree_of_session htree hproject htexts hunshared h).2.stored

/-- A project of two scripts, and a file beside it. -/
def sampleDisk : Disk where
  entries := [(["w"], .directory), (["w", "p"], .directory), (["w", "p", "app"], .directory),
    (["w", "p", "app", "build.gradle"], .file 1), (["w", "p", "old.gradle"], .file 2),
    (["w", "notes"], .file 3)]
  contents
    | 1 => "rm()\nkeep()\n".toUTF8
    | 2 => "keep()\n".toUTF8
    | _ => ⟨#[255]⟩
  home := ["w"]

theorem isTree_sampleDisk : sampleDisk.IsTree :=
  ⟨by decide, by decide⟩

theorem isProject_sampleDisk : sampleDisk.IsProject "p" ["w", "p"] :=
  ⟨by decide +kernel, Disk.plain_of_entries (by decide) ["w", "p"]⟩

/-- Changes one of the scripts and deletes the other. -/
def sampleRecipe : Recipe :=
  [("cleanup",
    { recipe := "remove", removeMethods := some ["rm"], removeFiles := some ["./old.gradle"] })]

theorem session_agrees_sample :
    ∃ workspace, Workspace.load sampleDisk "p" = .ok workspace ∧ workspace.sources.length = 2 ∧
      ∀ source ∈ (workspace.run sampleRecipe .write sampleDisk).workspace.sources,
        (workspace.run sampleRecipe .write sampleDisk).disk.read (Path.join "p" source.path) =
          .ok source.script.print.toUTF8 := by
  have hloaded : (Workspace.load sampleDisk "p").toOption.any (·.sources.length == 2) = true := by
    decide +kernel
  obtain ⟨workspace, hload, htwo⟩ := ok_of_any hloaded
  refine ⟨workspace, hload, by simpa using htwo, ?_⟩
  exact session_agrees isTree_sampleDisk isProject_sampleDisk (by decide +kernel)
    (by decide +kernel) (.run (.loaded hload) (by decide))

/-! ### Where they do not agree

The provisos are needed. A script whose name is no text has no file at the path that is shown for
it, of a file with two names only the source that was changed agrees with it, and where the base
is itself a script no path can be joined to it. -/

/-- A source that was loaded is, after a run that writes, not the file at its path: the file is
another text, or there is none. -/
def Disagrees (disk : Disk) (base : RawText) (recipe : Recipe) : Prop :=
  ∃ workspace, Workspace.load disk base = .ok workspace ∧
    ∃ source ∈ (workspace.run recipe .write disk).workspace.sources,
      (workspace.run recipe .write disk).disk.read (Path.join base source.path) ≠
        .ok source.script.print.toUTF8

/-- The file at the path of a source is told from what the source prints, byte by byte. -/
def Source.differsFrom (source : Source) (file : Except Trouble ByteArray) : Bool :=
  file.toOption.map (·.data.toList) ≠ some source.script.print.toUTF8.data.toList

/-- Such a run can be carried out, and its sources be compared with their files. -/
theorem disagrees_of_check {recipe : Recipe}
    (h : (Workspace.load disk base).toOption.any (fun workspace =>
      let result := workspace.run recipe .write disk
      result.workspace.sources.any fun source =>
        source.differsFrom (result.disk.read (Path.join base source.path))) = true) :
    Disagrees disk base recipe := by
  obtain ⟨workspace, hload, h⟩ := ok_of_any h
  obtain ⟨source, hsource, hdiffers⟩ := List.any_eq_true.1 h
  refine ⟨workspace, hload, source, hsource, fun hread => ?_⟩
  rw [Source.differsFrom, hread] at hdiffers
  exact of_decide_eq_true hdiffers rfl

/-- A project of two scripts in directories whose names are no texts, and are shown alike. -/
def strangeDisk : Disk where
  entries := [(["w"], .directory), (["w", ⟨[0x61, 0xFE]⟩], .directory),
    (["w", ⟨[0x61, 0xFE]⟩, "build.gradle"], .file 1), (["w", ⟨[0x61, 0xFF]⟩], .directory),
    (["w", ⟨[0x61, 0xFF]⟩, "build.gradle"], .file 2)]
  contents
    | 1 => "rm()\nkeep()\n".toUTF8
    | _ => "rm()\ncall()\n".toUTF8
  home := ["w"]

/-- A project of one script that has two names. -/
def sharedDisk : Disk where
  entries := [(["w"], .directory), (["w", "x.gradle"], .file 1), (["w", "y.gradle"], .file 1)]
  contents _ := "rm()\nkeep()\n".toUTF8
  home := ["w"]

/-- Changes one script of the project only. -/
def partialRecipe : Recipe :=
  [("strip", { recipe := "remove", files := some ["x.gradle"], removeMethods := some ["rm"] })]

/-- Memory and disk do not agree if a script is in a directory whose name is no text, because the
path that is shown leads nowhere; if a script has a second name, under which the file changes while
the source does not; or if the base is a script, which is loaded under an empty path. -/
theorem not_session_agrees :
    (strangeDisk.IsTree ∧ strangeDisk.IsProject "." ["w"] ∧ Disagrees strangeDisk "." []) ∧
    (sharedDisk.IsTree ∧ sharedDisk.IsProject "." ["w"] ∧ Disagrees sharedDisk "." partialRecipe) ∧
    (sampleDisk.IsTree ∧ Disagrees sampleDisk "p/old.gradle" []) := by
  refine ⟨⟨⟨by decide, by decide⟩, ⟨by decide +kernel, ?_⟩, disagrees_of_check ?_⟩,
    ⟨⟨by decide, by decide⟩, ⟨by decide +kernel, ?_⟩, disagrees_of_check ?_⟩,
    isTree_sampleDisk, disagrees_of_check ?_⟩
  · exact Disk.plain_of_entries (by decide) ["w"]
  · decide +kernel
  · exact Disk.plain_of_entries (by decide) ["w"]
  · decide +kernel
  · decide +kernel

end BuildPrune
