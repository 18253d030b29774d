import BuildPrune.Proofs.Runs

/-!
# BuildPrune.Proofs.LastingDeletions

Whether a file that a run has deleted comes back. The disk finds a file by any spelling of its path,
but a source leaves the memory only if the deleted path is its own, letter by letter. So a later
group writes the file again if it changes a source that was left behind (`not_deletion_lasts`). That
is the only way back (`deletion_lasts`), and a canonical path leaves no source behind.

The paths that are deleted may lead anywhere, also to links outside of the project, and one of these
may be on the way to the base. So it does not stay true that the base leads to the project. What
stays true is that no path leads to a directory to which it did not lead before (`NoNewWays`): then
a path from the base leads nowhere, or to the place that its names say.
-/

namespace BuildPrune

namespace Disk

variable {disk disk' : Disk} {place root : Location}

/-! ### An erased place

What is erased may be a link, so paths that came by it lead nowhere afterwards. But none comes to
lead anywhere else: a walk that does not end at the free place goes as it went before. -/

/-- A walk goes as it went before a place was erased, unless it ends there. An erased place is free,
and a walk does not go on from a free place. -/
theorem walk_of_erase {here : Location} {names : List RawText} {reach : Reach}
    (h : (disk.erase place).walk here names = .ok reach) :
    reach = .spot (.free place) ∨ disk.walk here names = .ok reach := by
  induction names generalizing here with
  | nil => exact .inr h
  | cons name rest ih =>
      rcases walk_cons_ok h with ⟨there, hstays⟩ | hdown
      · rw [hstays] at h ⊢
        exact ih h
      · rw [hdown] at h ⊢
        by_cases hplace : here ++ [name] = place
        · have hsome : place ≠ [] := by
            rw [← hplace]
            exact List.append_ne_nil_of_right_ne_nil _ (List.cons_ne_nil _ _)
          rw [hplace, get?_erase_self disk hsome] at h
          -- Nothing is there any more, so the walk can only end.
          cases rest with
          | nil =>
              cases h
              exact .inl rfl
          | cons next rest => cases h
        · rw [get?_erase_of_ne disk hplace] at h
          rcases arrive_cases h with ⟨hnode, hbelow⟩ | hends
          · rw [hnode]
            exact ih hbelow
          · exact .inr (hends disk)

/-- A path that leads to a directory after a place was erased led there before. To follow links
takes no new way, as erasing makes no links. -/
theorem follow_of_erase {links : Nat} {here : Location} {names : List RawText}
    (h : (disk.erase place).follow true links here names = .ok (.taken root .directory)) :
    disk.follow true links here names = .ok (.taken root .directory) := by
  induction links using Nat.strongRecOn generalizing here names with
  | ind links ih =>
      -- A walk that meets a directory or a link has not ended at the place that is free.
      rcases follow_eq_ok_iff.1 h with hwalk | ⟨passed, target, rest, hwalk, hgoes⟩
      · rcases walk_of_erase hwalk with hfree | hwalk'
        · cases hfree
        · exact follow_eq_ok_iff.2 (.inl hwalk')
      · rcases walk_of_erase hwalk with hfree | hwalk'
        · cases hfree
        · rcases hgoes with ⟨hlast, -⟩ | ⟨hleads, left, rfl, hleft⟩
          · cases hlast
          · refine follow_eq_ok_iff.2 (.inr ⟨passed, target, rest, hwalk', .inr ?_⟩)
            exact ⟨hleads, left, rfl, ih left (Nat.lt_succ_self left) hleft⟩

/-! ### No new ways

A run makes no directories and no links. So a path that leads to a directory now has led to the
same one at the start, and this is enough to know where the paths of sources lead. -/

/-- No path leads to a directory to which it did not lead at the `origin`, and no link is new. -/
structure NoNewWays (origin disk : Disk) : Prop where
  directories : ∀ path root, disk.spot true path = .ok (.taken root .directory) →
    origin.spot true path = .ok (.taken root .directory)
  links : ∀ place target, disk.get? place = some (.link target) →
    origin.get? place = some (.link target)

namespace NoNewWays

variable {origin : Disk}

/-- On the disk itself there are no new ways. -/
theorem refl (disk : Disk) : disk.NoNewWays disk :=
  ⟨fun _ _ h => h, fun _ _ h => h⟩

/-- No new ways in two steps, and none in both. -/
theorem trans (h : origin.NoNewWays disk) (h' : disk.NoNewWays disk') : origin.NoNewWays disk' where
  directories path root hspot := h.directories path root (h'.directories path root hspot)
  links place target hlink := h.links place target (h'.links place target hlink)

/-- To write to a file makes no way: directories and links stay as they are. -/
theorem of_sameWays (h : disk.SameWays disk') : disk.NoNewWays disk' where
  directories _ _ hspot := h.symm.spot hspot
  links place target hlink := by
    rcases h.leaves place with hsame | ⟨-, hleaf⟩
    · rw [← hsame]
      exact hlink
    · exact absurd hlink (hleaf.plain target)

/-- To erase a place makes no way. -/
theorem erase (disk : Disk) (place : Location) : disk.NoNewWays (disk.erase place) where
  directories path root hspot := by
    obtain ⟨-, hfollow⟩ := spot_eq_follow hspot
    rw [hfollow] at hspot ⊢
    exact follow_of_erase hspot
  links other target hlink := by
    by_cases hplace : other = place
    · subst hplace
      by_cases hroot : other = []
      · rw [hroot] at hlink
        cases hlink
      · rw [get?_erase_self disk hroot] at hlink
        cases hlink
    · rw [get?_erase_of_ne disk hplace] at hlink
      exact hlink

/-- Where a canonical path from the base leads anywhere, the project is where it was. Else the way
to the base is closed, and the path would lead nowhere. -/
theorem isProject (h : origin.NoNewWays disk) {base path : RawText}
    (hproject : origin.IsProject base root) (hpath : Path.Canonical path) {last : Bool} {spot : Spot}
    (hspot : disk.spot last (Path.join base path) = .ok spot) : disk.IsProject base root where
  leads := by
    obtain ⟨there, -, hbase, -⟩ := spot_join hproject.leads hpath hspot
    cases (h.directories base there hbase).symm.trans hproject.leads
    exact hbase
  plain names target hlink := hproject.plain names target (h.links _ target hlink)

end NoNewWays

end Disk

variable {base : RawText} {root place : Location} {mode : RunMode} {disk disk' origin : Disk}
  {workspace : Workspace} {recipe : Recipe} {actions : List Action} {sources : List Source}
  {progress progress' : Progress} {failure : Option Failure}

/-- An action writes to a file or deletes one, and makes no way in either. -/
theorem Action.noNewWays_of_perform {action : Action} {found : Bool}
    (h : action.perform base mode disk = .ok (found, disk')) : disk.NoNewWays disk' := by
  cases mode with
  | dry => cases action <;> cases h <;> exact .refl _
  | write =>
      rcases perform_write h with ⟨change, -, hwrite⟩ | ⟨file, -, -, hremove⟩ | ⟨-, -, -, -, rfl⟩
      · obtain ⟨spot, -, hleaf, rfl⟩ := Disk.store_of_write hwrite
        exact .of_sameWays (Disk.Retouched.store hleaf _).sameWays
      · obtain ⟨there, -, -, -, rfl⟩ := Disk.erase_of_remove hremove
        exact .erase disk there
      · exact .refl disk'

/-- So the actions that a run carries out make none, whether they all succeed or one of them
fails. -/
theorem noNewWays_of_carryOut
    (h : carryOut base mode actions progress disk = (progress', disk', failure)) :
    disk.NoNewWays disk' := by
  refine (carryOut_induction (motive := fun _ _ now => disk.NoNewWays now)
    ?_ (.refl disk) h).elim fun _ hend => hend
  intro action rest _ now found next hnow hperform
  exact hnow.trans (Action.noNewWays_of_perform hperform)

/-- And the runs of a session make none, whatever their recipes are. -/
theorem History.noNewWays (h : History origin base workspace disk) : origin.NoNewWays disk :=
  h.disk_induction (.refl origin) fun hbefore hactions =>
    hbefore.trans (noNewWays_of_carryOut hactions)

/-! ### What is gone

A place that was emptied stays empty until something is stored there. A source stores at its own
path only, so a file can come back only if a source for it is still in memory. -/

/-- Nothing is at a place, and no source belongs there. -/
structure Gone (root place : Location) (sources : List Source) (disk : Disk) : Prop where
  absent : disk.get? place = none
  dropped : ∀ source ∈ sources, root ++ Path.pieces source.path ≠ place

/-- One action leaves gone what is gone. A change is written to the place of its source, and none
belongs here; and a deletion brings nothing back. -/
theorem Gone.perform {action : Action} {found : Bool} (h : Gone root place sources disk)
    (hproject : origin.IsProject base root) (hways : origin.NoNewWays disk)
    (hcanonical : ∀ path ∈ sources.map Source.path, Path.Canonical path)
    (hknown : action.Known sources) (hperform : action.perform base .write disk = .ok (found, disk')) :
    Gone root place (action.applyTo sources) disk' := by
  have hdropped : ∀ path ∈ sources.map Source.path, root ++ Path.pieces path ≠ place := by
    intro path hpath
    obtain ⟨source, hsource, rfl⟩ := List.mem_map.1 hpath
    exact h.dropped source hsource
  refine ⟨?_, fun source hsource => hdropped _ ?_⟩
  · rcases Action.perform_write hperform with
      ⟨change, rfl, hwrite⟩ | ⟨file, rfl, -, hremove⟩ | ⟨-, -, -, -, rfl⟩
    · -- What is written is the file of a source, and no source belongs to the place.
      obtain ⟨spot, hspot, -⟩ := Disk.store_of_write hwrite
      have hnow := hways.isProject hproject (hcanonical _ hknown) hspot
      obtain ⟨hleaf, rfl⟩ := hnow.store_of_write (hcanonical _ hknown) hwrite
      rw [(Disk.Retouched.store hleaf _).elsewhere]
      · exact h.absent
      · -- Nothing is there, so it is no second name of the file either.
        rintro (hplace | hsame)
        · exact hdropped _ hknown hplace.symm
        · obtain ⟨content, hfile⟩ := hsame.symm.exists_content
          rw [h.absent] at hfile
          cases hfile
    · -- A deletion can only take away, wherever its path leads.
      obtain ⟨there, -, -, -, rfl⟩ := Disk.erase_of_remove hremove
      by_cases hplace : place = there
      · have hsome : there ≠ [] := by
          rintro rfl
          rw [hplace] at h
          cases h.absent
        rw [hplace]
        exact disk.get?_erase_self hsome
      · rw [disk.get?_erase_of_ne hplace]
        exact h.absent
    · exact h.absent
  · exact (action.paths_applyTo sources).subset (List.mem_map_of_mem hsource)

/-- What is gone in the course of a run is gone at its end. The induction is on the actions that are
still to come, each of which knows its source. -/
theorem Gone.carryOut (h : Gone root place progress.sources disk)
    (hproject : origin.IsProject base root) (hways : origin.NoNewWays disk)
    (hcanonical : ∀ path ∈ progress.sources.map Source.path, Path.Canonical path)
    (hknown : Action.InTurn Action.Known actions progress.sources)
    (hrun : BuildPrune.carryOut base .write actions progress disk = (progress', disk', failure)) :
    Gone root place progress'.sources disk' := by
  -- Of the sources, the paths stay canonical; of the disk, that no way to a directory is new.
  refine (carryOut_induction (motive := fun due progress disk =>
    Gone root place progress.sources disk ∧ origin.NoNewWays disk ∧
      (∀ path ∈ progress.sources.map Source.path, Path.Canonical path) ∧
        Action.InTurn Action.Known due progress.sources)
    ?_ ⟨h, hways, hcanonical, hknown⟩ hrun).elim fun _ hend => hend.1
  rintro action rest progress disk found disk' ⟨hgone, hways, hcanonical, hfirst, hrest⟩ hperform
  have hfewer := (action.paths_applyTo progress.sources).subset
  rw [progress.sources_record]
  exact ⟨hgone.perform hproject hways hcanonical hfirst hperform,
    hways.trans (Action.noNewWays_of_perform hperform),
    fun path hpath => hcanonical path (hfewer hpath), hrest⟩

/-! ### Deletions

A source is dropped if its path is the deleted one, letter by letter. Another spelling, such as
`app//build.gradle`, leads the disk to the same file and leaves the source where it is. -/

/-- In a run that writes, a deletion is due of the path `file`, and it leads to a file at `place`.
By then `held` are the sources, and what comes after it is `later`. -/
def Workspace.Deletes (workspace : Workspace) (recipe : Recipe) (disk : Disk) (file : String)
    (place : Location) (held : List Source) (later : List Action) : Prop :=
  ∃ groups done progress disk₁ content,
    recipe.groups workspace.dialect = .ok groups ∧
    plan groups workspace.sources = done ++ .delete file :: later ∧
    carryOut workspace.base .write done { sources := workspace.sources } disk =
      (progress, disk₁, none) ∧
    progress.sources = held ∧
    disk₁.spot false (Path.join workspace.base file) = .ok (.taken place (.file content))

/-- A source belongs to the place, under a path that is not spelled like `file`. -/
def Respelled (root place : Location) (file : String) (sources : List Source) : Prop :=
  ∃ source ∈ sources, root ++ Path.pieces source.path = place ∧ source.path ≠ file

/-- Behind a deletion, nothing is at the place. No source belongs there either, if the sources there
were spelled as the deleted path: these are dropped with it. -/
theorem gone_of_delete {path : RawText} {file : String} {content : ByteArray}
    (hfile : disk.spot false path = .ok (.taken place (.file content)))
    (hspelled : ¬Respelled root place file sources) :
    Gone root place ((Action.delete file).applyTo sources) (disk.erase place) where
  absent := by
    have hleaf : disk.LeafAt place := .inr ⟨content, Disk.get?_of_spotAt (Disk.spot_on hfile)⟩
    exact disk.get?_erase_self hleaf.ne_nil
  dropped source hsource hplace := by
    obtain ⟨hsource, hne⟩ := List.mem_filter.1 hsource
    exact hspelled ⟨source, hsource, hplace, of_decide_eq_true hne⟩

/-- A canonical path has no other spelling that is canonical, and the paths of sources are. So every
source of the place is spelled like it. -/
theorem not_respelled (hproject : origin.IsProject base root) (hways : origin.NoNewWays disk)
    {file : String} (hcanonical : Path.Canonical file) {content : ByteArray}
    (hfile : disk.spot false (Path.join base file) = .ok (.taken place (.file content))) :
    ¬Respelled root place file sources := by
  -- Both paths are canonical and belong to one place, so they are spelled alike.
  rintro ⟨source, -, hplace, hne⟩
  have hnow := hways.isProject hproject hcanonical hfile
  have hthere := Disk.place_of_spotAt (hnow.spot_join hcanonical hfile).symm
  rw [← hthere] at hplace
  exact place_ne hne hplace

/-- A file that a run deletes is absent from the disk and from memory when the run ends, and nothing
later writes it, unless a source belongs to its place whose path is not spelled like the deleted
one. If that is canonical, there is no such source. If there is one, it stays in memory, unless
later its own path is deleted. -/
theorem deletion_lasts (htree : origin.IsTree) (hproject : origin.IsProject base root)
    (hhistory : History origin base workspace disk) {file : String} {held : List Source}
    {later : List Action} (h : workspace.Deletes recipe disk file place held later) :
    (Path.Canonical file → ¬Respelled root place file held) ∧
      (¬Respelled root place file held →
        (workspace.run recipe .write disk).disk.get? place = none ∧
        (∀ source ∈ (workspace.run recipe .write disk).workspace.sources,
          root ++ Path.pieces source.path ≠ place) ∧
        ∀ change, .store change ∈ later → root ++ Path.pieces change.path ≠ place) ∧
      ∀ source ∈ held, source.path ≠ file → .delete source.path ∉ later →
        source.path ∈ (workspace.run recipe .write disk).workspace.sources.map Source.path := by
  obtain ⟨groups, done, progress, disk₁, content, hgroups, hplan, hdone, rfl, hfile⟩ := h
  have hbase := hhistory.exists_loaded.1
  have hways : origin.NoNewWays disk₁ := hhistory.noNewWays.trans (noNewWays_of_carryOut hdone)
  rw [hbase] at hfile
  have hstep : (Action.delete file).perform workspace.base .write disk₁ =
      .ok (true, disk₁.erase place) := by
    simp [Action.perform, Disk.remove, hbase, hfile]
  -- From here on the run is one that starts without the file.
  obtain ⟨⟨progress', disk', failure⟩, hrun⟩ : ∃ result, carryOut workspace.base .write later
    (progress.record (.delete file) true) (disk₁.erase place) = result := ⟨_, rfl⟩
  have hwhole := carryOut_middle hdone hstep later
  rw [← hplan, hrun] at hwhole
  rw [Workspace.run_eq hgroups hwhole]
  refine ⟨fun hcanonical => not_respelled hproject hways hcanonical hfile, ?_, ?_⟩
  · intro hspelled
    have hknown := known_plan groups workspace.sources
    rw [hplan, Action.inTurn_append] at hknown
    obtain ⟨-, -, hlater⟩ := hknown
    rw [show Action.applyAll done workspace.sources = progress.sources from
      (carryOut_complete hdone).1.symm] at hlater
    have hgone := gone_of_delete hfile hspelled
    have hcanonical : ∀ path ∈ ((Action.delete file).applyTo progress.sources).map Source.path,
        Path.Canonical path := by
      intro path hpath
      have hpath := (Action.paths_applyTo _ _).subset hpath
      obtain ⟨source, hsource, rfl⟩ := List.mem_map.1 ((carryOut_paths hdone).subset hpath)
      exact hhistory.canonical htree hproject.leads source hsource
    rw [← progress.sources_record (.delete file) true] at hgone hcanonical hlater
    rw [hbase] at hrun
    have hend :=
      hgone.carryOut hproject (hways.trans (.erase disk₁ place)) hcanonical hlater hrun
    refine ⟨hend.absent, hend.dropped, ?_⟩
    intro change hstore
    obtain ⟨source, hsource, hpath⟩ := List.mem_map.1 (hlater.path_mem hstore)
    rw [← hpath]
    exact hgone.dropped source hsource
  · intro source hsource hne hkept
    refine carryOut_keeps hrun ?_ hkept
    rw [progress.sources_record]
    refine Action.mem_paths_applyTo (List.mem_map_of_mem hsource) ?_
    rintro ⟨⟩
    exact hne rfl

/-- Deletes a script, and goes on to change all scripts. -/
def dropRecipe (file : String) : Recipe :=
  [("drop", { recipe := "remove", removeFiles := some [file] }),
    ("strip", { recipe := "remove", removeMethods := some ["rm", "keep"] })]

theorem deletion_lasts_dot :
    ∃ workspace later, Workspace.load sampleDisk "p" = .ok workspace ∧
      workspace.Deletes (dropRecipe "./old.gradle") sampleDisk "old.gradle" ["w", "p", "old.gradle"]
        workspace.sources later ∧
      (workspace.run (dropRecipe "./old.gradle") .write sampleDisk).disk.get?
        ["w", "p", "old.gradle"] = none := by
  have hloaded : (Workspace.load sampleDisk "p").toOption.any (fun workspace =>
      (changes { dialect := workspace.dialect } workspace.sources).isEmpty) = true := by
    decide +kernel
  obtain ⟨workspace, hload, hnone⟩ := ok_of_any hloaded
  have hhistory : History sampleDisk "p" workspace sampleDisk := .loaded hload
  have hplan (rest : List Group) :
      plan (⟨"drop", { dialect := workspace.dialect }, none, ["old.gradle"]⟩ :: rest)
        workspace.sources = .delete "old.gradle" ::
          plan rest (Action.applyAll [.delete "old.gradle"] workspace.sources) := by
    simp only [plan, Group.actions, selectSources, List.isEmpty_iff.1 hnone]
    rfl
  obtain ⟨later, hdeletes⟩ : ∃ later, workspace.Deletes (dropRecipe "./old.gradle") sampleDisk
      "old.gradle" ["w", "p", "old.gradle"] workspace.sources later := by
    refine ⟨_, _, [], _, sampleDisk, "keep()\n".toUTF8, rfl, hplan _, rfl, rfl, ?_⟩
    rw [hhistory.exists_loaded.1]
    rfl
  obtain ⟨hspelled, hlasts⟩ := deletion_lasts isTree_sampleDisk isProject_sampleDisk hhistory
    hdeletes
  exact ⟨workspace, later, hload, hdeletes, (hlasts.1 (hspelled (by decide))).1⟩

/-- A script that is deleted under another spelling of its path is back when the run ends: the
source stays in memory, the next group changes it, and the file is written again. -/
theorem not_deletion_lasts :
    sampleDisk.IsTree ∧ sampleDisk.IsProject "p" ["w", "p"] ∧
      ∃ workspace report, Workspace.load sampleDisk "p" = .ok workspace ∧
      (workspace.run (dropRecipe "app//build.gradle") .write sampleDisk).outcome = .ok report ∧
      report.removed = ["app//build.gradle"] ∧
      (workspace.run (dropRecipe "app//build.gradle") .write sampleDisk).disk.get?
        ["w", "p", "app", "build.gradle"] = some (.file "".toUTF8) ∧
      "app/build.gradle" ∈ (workspace.run (dropRecipe "app//build.gradle") .write
        sampleDisk).workspace.sources.map Source.path := by
  have hloaded : (Workspace.load sampleDisk "p").toOption.any (fun workspace =>
      let result := workspace.run (dropRecipe "app//build.gradle") .write sampleDisk
      result.outcome.toOption.any fun report =>
        decide (report.removed = ["app//build.gradle"] ∧
          result.disk.get? ["w", "p", "app", "build.gradle"] = some (.file "".toUTF8) ∧
          "app/build.gradle" ∈ result.workspace.sources.map Source.path)) = true := by
    decide +kernel
  obtain ⟨workspace, hload, hruns⟩ := ok_of_any hloaded
  obtain ⟨report, hrun, hback⟩ := ok_of_any hruns
  exact ⟨isTree_sampleDisk, isProject_sampleDisk, workspace, report, hload, hrun,
    of_decide_eq_true hback⟩

end BuildPrune
