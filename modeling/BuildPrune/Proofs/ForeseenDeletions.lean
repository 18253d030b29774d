import BuildPrune.Proofs.Runs

/-!
# BuildPrune.Proofs.ForeseenDeletions

Whether a dry run tells which files would be deleted. It asks the disk as it is at the start for
each path, but a run that writes has changed the disk by then. In a project that agrees with the
disk, a run that comes to its end creates no files, and those that are missing are the ones that it
deleted and has not written again (`Depleted`). So the dry run names all files that are deleted, and
it names too many exactly if one of them is deleted when it is gone already
(`foreseen_deletions_iff`). For each action `Accounted` has a lemma that compares what is foreseen
with what is removed.
-/

namespace BuildPrune

namespace Disk

variable {disk disk' : Disk} {place : Location} {path : RawText}

/-! ### Links at the end of a path

To ask whether there is a file, links are followed to the end; to remove, the last one is not.
Both come to the same place unless the path ends in a link, and whether it does is the same at any
time of the run. -/

/-- A path that leads to a file without following a link at its end leads there also if a link would
be followed. -/
theorem follow_true_of_false {links : Nat} {here : Location} {names : List RawText}
    {content : ByteArray}
    (h : disk.follow false links here names = .ok (.taken place (.file content))) :
    disk.follow true links here names = .ok (.taken place (.file content)) := by
  induction links using Nat.strongRecOn generalizing here names with
  | ind links ih =>
      rcases follow_eq_ok_iff.1 h with hwalk | ⟨passed, target, rest, hwalk, hgoes⟩
      · exact follow_eq_ok_iff.2 (.inl hwalk)
      · rcases hgoes with ⟨-, -, hspot⟩ | ⟨-, left, rfl, hleft⟩
        · cases hspot
        · refine follow_eq_ok_iff.2 (.inr ⟨passed, target, rest, hwalk, .inr ?_⟩)
          exact ⟨rfl, left, rfl, ih left (Nat.lt_succ_self left) hleft⟩

/-- Slashes lead nowhere else. -/
theorem walk_slashes (disk : Disk) (here : Location) {names : List RawText}
    (h : names.all (· = "") = true) :
    disk.walk here names = .ok (.spot (.taken here .directory)) := by
  induction names with
  | nil => rfl
  | cons name rest ih =>
      rw [List.all_cons, Bool.and_eq_true, decide_eq_true_iff] at h
      rw [walk, if_pos (.inl h.1)]
      exact ih h.2

/-- A path that leads to a file does so without the link at its end, or it ends in a link. -/
theorem follow_false_of_true {links : Nat} {here : Location} {names : List RawText}
    {content : ByteArray}
    (h : disk.follow true links here names = .ok (.taken place (.file content))) :
    disk.follow false links here names = .ok (.taken place (.file content)) ∨
      ∃ there target, disk.follow false links here names = .ok (.taken there (.link target)) := by
  induction links using Nat.strongRecOn generalizing here names with
  | ind links ih =>
      rcases follow_eq_ok_iff.1 h with hwalk | ⟨passed, target, rest, hwalk, hgoes⟩
      · exact .inl (follow_eq_ok_iff.2 (.inl hwalk))
      · rcases hgoes with ⟨hlast, -⟩ | ⟨-, left, rfl, hleft⟩
        · cases hlast
        · by_cases hend : rest = []
          · refine .inr ⟨passed, target, follow_eq_ok_iff.2 (.inr ?_)⟩
            exact ⟨passed, target, rest, hwalk, .inl ⟨rfl, hend, rfl⟩⟩
          · -- A slash behind the link would ask for a directory.
            have hnames : rest.all (· = "") = false := by
              rw [Bool.eq_false_iff]
              intro hslashes
              obtain ⟨root, left', -, hrest⟩ := follow_append hend hleft
              rw [follow, disk.walk_slashes root hslashes] at hrest
              cases hrest
            have hgo : ∀ spot, disk.follow false left (start passed.dropLast target)
                (Path.pieces target ++ rest) = .ok spot →
                disk.follow false (left + 1) here names = .ok spot := by
              intro spot hspot
              refine follow_eq_ok_iff.2 (.inr ⟨passed, target, rest, hwalk, .inr ?_⟩)
              exact ⟨hnames, left, rfl, hspot⟩
            rcases ih left (Nat.lt_succ_self left) hleft with hfile | ⟨there, target', hlink⟩
            · exact .inl (hgo _ hfile)
            · exact .inr ⟨there, target', hgo _ hlink⟩

/-- The path leads to a link, and does not follow it. -/
def EndsInLink (disk : Disk) (path : RawText) : Prop :=
  ∃ place target, disk.spot false path = .ok (.taken place (.link target))

theorem SameWays.endsInLink (h : disk.SameWays disk') (hlink : disk.EndsInLink path) :
    disk'.EndsInLink path := by
  obtain ⟨place, target, hspot⟩ := hlink
  exact ⟨place, target, h.spot hspot⟩

/-- The place of the file to which a path leads, if it leads to one without following a link at its
end. This is what a deletion would remove. -/
def fileAt? (disk : Disk) (path : RawText) : Option Location :=
  match disk.spot false path with
  | .ok (.taken place (.file _)) => some place
  | _ => none

theorem fileAt?_eq_some_iff :
    disk.fileAt? path = some place ↔
      ∃ content, disk.spot false path = .ok (.taken place (.file content)) := by
  unfold fileAt?
  split
  · next hspot => simp [hspot]
  · next hother =>
      constructor
      · nofun
      · rintro ⟨content, hspot⟩
        exact absurd hspot (hother place content)

theorem spot_true_of_false {content : ByteArray}
    (h : disk.spot false path = .ok (.taken place (.file content))) :
    disk.spot true path = .ok (.taken place (.file content)) := by
  obtain ⟨-, hfollow⟩ := spot_eq_follow h
  rw [hfollow] at h ⊢
  exact follow_true_of_false h

theorem spot_false_of_true (hlink : ¬disk.EndsInLink path) {content : ByteArray}
    (h : disk.spot true path = .ok (.taken place (.file content))) :
    disk.spot false path = .ok (.taken place (.file content)) := by
  obtain ⟨-, hfollow⟩ := spot_eq_follow h
  rw [hfollow] at h ⊢
  rcases follow_false_of_true h with hfile | ⟨there, target, hspot⟩
  · exact hfile
  · refine absurd ⟨there, target, ?_⟩ hlink
    rw [hfollow]
    exact hspot

/-- Where no link is at the end of a path, it makes no difference that one would be followed. A dry
run asks whether there is a file and follows links; a deletion does not. -/
theorem isFile_eq (hlink : ¬disk.EndsInLink path) :
    disk.isFile path = (disk.fileAt? path).isSome := by
  unfold isFile
  split
  · next hspot =>
      have hplace := fileAt?_eq_some_iff.2 ⟨_, spot_false_of_true hlink hspot⟩
      rw [hplace]
      rfl
  · next hother =>
      cases hplace : disk.fileAt? path with
      | none => rfl
      | some place =>
          obtain ⟨content, hspot⟩ := fileAt?_eq_some_iff.1 hplace
          exact absurd (spot_true_of_false hspot) (hother place content)

/-! ### Files that are missing

At any time of a run the files that are missing are those that it has deleted and not written
again. This is an account of places and not of paths, so that different spellings of a path count
for the same file. -/

/-- The disk has the ways of the `origin`, and files only where that has some. Those that it has no
more are `gone`. -/
structure Depleted (origin disk : Disk) (gone : List Location) : Prop where
  ways : origin.SameWays disk
  free : ∀ place, origin.get? place = none → disk.get? place = none
  missing : ∀ place content, origin.get? place = some (.file content) →
    (disk.get? place = none ↔ place ∈ gone)

/-- Storing a file makes no other place free, and takes none. -/
theorem get?_store_eq_none_iff {other : Location} (content : ByteArray) (hne : other ≠ place) :
    (disk.store place content).get? other = none ↔ disk.get? other = none := by
  by_cases hsame : disk.SameFile place other
  · obtain ⟨old, hfile⟩ := hsame.symm.exists_content
    simp [disk.get?_store_of_same content hsame, hfile]
  · rw [get?_store_of_ne content hne hsame]

namespace Depleted

variable {origin : Disk} {gone : List Location} {content : ByteArray}

theorem refl (disk : Disk) : disk.Depleted disk [] where
  ways := .refl disk
  free _ hfree := hfree
  missing place content hfile := by simp [hfile]

/-- A path that led to a file leads to what is there now: a file, or nothing. -/
theorem spot (h : origin.Depleted disk gone) {last : Bool}
    (hspot : origin.spot last path = .ok (.taken place (.file content))) :
    disk.spot last path = .ok (disk.spotAt place) ∧
      (disk.get? place = none ∨ ∃ content', disk.get? place = some (.file content')) := by
  refine ⟨h.ways.spot hspot, ?_⟩
  have hfile := get?_of_spotAt (spot_on hspot)
  rcases h.ways.leaves place with hsame | ⟨-, hleaf⟩
  · exact .inr ⟨content, hsame.trans hfile⟩
  · exact hleaf

/-- A file that is written is gone no more. -/
theorem write {old : ByteArray} (h : origin.Depleted disk gone)
    (hspot : origin.spot true path = .ok (.taken place (.file old)))
    (hwrite : disk.write path content = .ok disk') :
    origin.Depleted disk' (gone.filter fun other => place ≠ other) := by
  obtain ⟨found, hfound, hleaf, rfl⟩ := store_of_write hwrite
  have hplace : found.place = place := by
    cases (h.spot hspot).1.symm.trans hfound
    exact disk.spotAt_place place
  rw [hplace] at hleaf ⊢
  have hfile := get?_of_spotAt (spot_on hspot)
  refine ⟨h.ways.trans (Retouched.store hleaf content).sameWays, ?_, ?_⟩
  · intro other hfree
    have hne : other ≠ place := by
      rintro rfl
      rw [hfile] at hfree
      cases hfree
    rw [get?_store_eq_none_iff content hne]
    exact h.free other hfree
  · intro other content' hother
    by_cases hne : other = place
    · subst hne
      simp [disk.get?_store_self hleaf.ne_nil content]
    · rw [get?_store_eq_none_iff content hne, h.missing other content' hother]
      simp [Ne.symm hne]

/-- A file that is deleted was there, and is gone from now on. -/
theorem remove (h : origin.Depleted disk gone) (hlink : ¬origin.EndsInLink path)
    (hremove : disk.remove path = .ok disk') :
    ∃ place, origin.fileAt? path = some place ∧ place ∉ gone ∧
      origin.Depleted disk' (place :: gone) := by
  obtain ⟨place, node, hspot, hdirectory, rfl⟩ := erase_of_remove hremove
  cases node with
  | directory => exact absurd rfl hdirectory
  | link target =>
      -- To remove a link leaves the file to which it leads, and a dry run does not see that.
      exact absurd (h.ways.symm.endsInLink ⟨place, target, hspot⟩) hlink
  | file content =>
      have hthere := get?_of_spotAt (spot_on hspot)
      -- No file is new, so this one was there at the start.
      obtain ⟨old, hfile⟩ : ∃ old, origin.get? place = some (.file old) := by
        rcases h.ways.leaves place with hsame | ⟨hfree | hfile, -⟩
        · exact ⟨content, hsame.symm.trans hthere⟩
        · rw [h.free place hfree] at hthere
          cases hthere
        · exact hfile
      have hspot' : origin.spot false path = .ok (.taken place (.file old)) := by
        have hspot' := h.ways.symm.spot hspot
        simp only [Spot.on, spotAt, hfile] at hspot'
        exact hspot'
      have hleaf : disk.LeafAt place := .inr ⟨content, hthere⟩
      have hretouched := Retouched.erase hleaf
      refine ⟨place, fileAt?_eq_some_iff.2 ⟨old, hspot'⟩, ?_, ?_, ?_, ?_⟩
      · intro hgone
        rw [← h.missing place old hfile, hthere] at hgone
        cases hgone
      · exact h.ways.trans hretouched.sameWays
      · intro other hfree
        by_cases hne : other = place
        · rw [hne]
          exact disk.get?_erase_self hleaf.ne_nil
        · rw [hretouched.elsewhere other hne]
          exact h.free other hfree
      · intro other content' hother
        by_cases hne : other = place
        · rw [hne]
          simp [disk.get?_erase_self hleaf.ne_nil]
        · rw [hretouched.elsewhere other hne, h.missing other content' hother]
          simp [hne]

/-- A file that is not found any more is gone. -/
theorem mem_gone (h : origin.Depleted disk gone) (hfile : origin.fileAt? path = some place)
    (hremove : disk.remove path = .error .notFound) : place ∈ gone := by
  obtain ⟨content, hspot⟩ := fileAt?_eq_some_iff.1 hfile
  have hthere := get?_of_spotAt (spot_on hspot)
  rw [← h.missing place content hthere]
  obtain ⟨hspot', hfree | ⟨content', hfile'⟩⟩ := h.spot hspot
  · exact hfree
  · simp only [Disk.remove, hspot', spotAt, hfile'] at hremove
    cases hremove

end Depleted

end Disk

variable {base : RawText} {root : Location} {disk disk' origin : Disk} {gone : List Location}
  {workspace : Workspace} {recipe : Recipe} {groups : List Group} {actions : List Action}
  {progress progress' : Progress} {report : Report}

/-- The path of a source leads to a file. -/
theorem Placed.fileAt? {sources : List Source} (h : Placed base root sources disk)
    {source : Source} (hsource : source ∈ sources) :
    disk.fileAt? (Path.join base source.path) = some (root ++ Path.pieces source.path) := by
  have hcanonical := h.canonical source hsource
  obtain ⟨content, hread⟩ := h.there source hsource
  obtain ⟨hspot, hfile⟩ := h.project.read_join hcanonical hread
  rw [Disk.spotAt, hfile] at hspot
  refine Disk.fileAt?_eq_some_iff.2 ⟨_, Disk.spot_false_of_true ?_ hspot⟩
  rintro ⟨place, target, hlink⟩
  have hthere := (h.project.spot_join hcanonical hlink).symm
  exact h.project.plain _ target (Disk.get?_of_spotAt hthere)

/-! ### Deletions in a run

Both lists are made action by action. They differ where a path is to be deleted for which there
was a file at the start and is none any more. -/

/-- Of the files on the disk, one is deleted when it is among those that are `gone`. A file that is
deleted is gone until it is written. -/
def deletesAgain (disk : Disk) (base : RawText) : (gone : List Location) → List Action → Bool
  | _, [] => false
  | gone, .store change :: rest =>
    deletesAgain disk base
      (gone.filter fun place => disk.fileAt? (Path.join base change.path) ≠ some place) rest
  | gone, .delete file :: rest =>
    match disk.fileAt? (Path.join base file) with
    | none => deletesAgain disk base gone rest
    | some place => gone.contains place || deletesAgain disk base (place :: gone) rest

/-- A file that is stored is there again, so that it can be deleted once more. -/
theorem deletesAgain_store {change : Change} {place : Location}
    (h : disk.fileAt? (Path.join base change.path) = some place) (gone : List Location)
    (rest : List Action) :
    deletesAgain disk base gone (.store change :: rest) =
      deletesAgain disk base (gone.filter fun other => place ≠ other) rest := by
  simp only [deletesAgain, h, ne_eq, Option.some.injEq]

/-- A deletion repeats one if its file is gone; else it makes it gone. -/
theorem deletesAgain_delete {file : String} {place : Location}
    (h : disk.fileAt? (Path.join base file) = some place) (gone : List Location)
    (rest : List Action) :
    deletesAgain disk base gone (.delete file :: rest) =
      (gone.contains place || deletesAgain disk base (place :: gone) rest) := by
  rw [deletesAgain, h]

/-- A deletion is foreseen if its path leads to a file at the start. -/
theorem foreseen_delete_of_file {file : String} {place : Location}
    (hlink : ¬disk.EndsInLink (Path.join base file))
    (hplace : disk.fileAt? (Path.join base file) = some place) :
    foreseen disk base (.delete file :: actions) = file :: foreseen disk base actions := by
  rw [foreseen_delete, Disk.isFile_eq hlink, hplace]
  rfl

/-- What is `removed` is part of what can be foreseen on the disk. It is all of it exactly if
nothing is deleted again. -/
structure Accounted (disk : Disk) (base : RawText) (gone : List Location) (actions : List Action)
    (removed : List String) : Prop where
  part : removed.Sublist (foreseen disk base actions)
  whole : foreseen disk base actions = removed ↔ deletesAgain disk base gone actions = false

namespace Accounted

variable {file : String} {place : Location} {removed : List String}

theorem nil (disk : Disk) (base : RawText) (gone : List Location) :
    Accounted disk base gone [] [] where
  part := .slnil
  whole := by simp [foreseen, deletesAgain]

/-- Storing a file adds nothing to what is removed or foreseen. -/
theorem store {change : Change}
    (h : Accounted disk base (gone.filter fun other => place ≠ other) actions removed)
    (hplace : disk.fileAt? (Path.join base change.path) = some place) :
    Accounted disk base gone (.store change :: actions) removed where
  part := h.part
  whole := by
    rw [foreseen_store, deletesAgain_store hplace]
    exact h.whole

/-- The file is deleted, and is found: it is on both lists. -/
theorem found (h : Accounted disk base (place :: gone) actions removed)
    (hlink : ¬disk.EndsInLink (Path.join base file))
    (hplace : disk.fileAt? (Path.join base file) = some place) (hnew : place ∉ gone) :
    Accounted disk base gone (.delete file :: actions) (file :: removed) := by
  have hcontains : gone.contains place = false := by simpa using hnew
  constructor
  · rw [foreseen_delete_of_file hlink hplace]
    exact h.part.cons_cons file
  · rw [foreseen_delete_of_file hlink hplace, deletesAgain_delete hplace, hcontains,
      Bool.false_or, ← h.whole]
    exact List.cons_inj_right file

/-- There was no such file, neither at the start nor when its turn came: it is on neither. -/
theorem absent (h : Accounted disk base gone actions removed)
    (hlink : ¬disk.EndsInLink (Path.join base file))
    (hplace : disk.fileAt? (Path.join base file) = none) :
    Accounted disk base gone (.delete file :: actions) removed := by
  have hforeseen : foreseen disk base (.delete file :: actions) = foreseen disk base actions := by
    rw [foreseen_delete, Disk.isFile_eq hlink, hplace]
    rfl
  constructor
  · rw [hforeseen]
    exact h.part
  · rw [hforeseen, deletesAgain, hplace]
    exact h.whole

/-- The file is foreseen, but it is gone: one more is foreseen than is removed. From then on the
lists differ, whatever else is deleted. -/
theorem again (h : removed.Sublist (foreseen disk base actions))
    (hlink : ¬disk.EndsInLink (Path.join base file))
    (hplace : disk.fileAt? (Path.join base file) = some place) (hgone : place ∈ gone) :
    Accounted disk base gone (.delete file :: actions) removed := by
  have hcontains : gone.contains place = true := by simpa using hgone
  constructor
  · rw [foreseen_delete_of_file hlink hplace]
    exact h.cons file
  · rw [foreseen_delete_of_file hlink hplace, deletesAgain_delete hplace, hcontains, Bool.true_or]
    constructor
    · intro heq
      have hlength := h.length_le
      rw [← heq, List.length_cons] at hlength
      omega
    · nofun

end Accounted

/-- A run that comes to its end accounts for its deletions. The induction is on the actions, with
the files that are gone so far. -/
theorem Disk.Depleted.carryOut (h : origin.Depleted disk gone)
    (hlinks : ∀ file : String, .delete file ∈ actions → ¬origin.EndsInLink (Path.join base file))
    (hstores : ∀ change, .store change ∈ actions →
      ∃ place, origin.fileAt? (Path.join base change.path) = some place)
    (hrun : BuildPrune.carryOut base .write actions progress disk = (progress', disk', none)) :
    ∃ removed, progress'.removed = progress.removed ++ removed ∧
      Accounted origin base gone actions removed := by
  induction actions generalizing progress disk gone with
  | nil =>
      cases hrun
      exact ⟨[], (List.append_nil _).symm, .nil origin base gone⟩
  | cons action rest ih =>
      rw [BuildPrune.carryOut] at hrun
      split at hrun
      case h_2 => cases hrun
      case h_1 found disk₁ hperform =>
        have hlinks' := fun file hfile => hlinks file (List.mem_cons_of_mem _ hfile)
        have hstores' := fun change hchange => hstores change (List.mem_cons_of_mem _ hchange)
        rcases Action.perform_write hperform with
          ⟨change, rfl, hwrite⟩ | ⟨file, rfl, rfl, hremove⟩ | ⟨file, rfl, rfl, hremove, rfl⟩
        · obtain ⟨place, hplace⟩ := hstores change List.mem_cons_self
          obtain ⟨content, hspot⟩ := Disk.fileAt?_eq_some_iff.1 hplace
          have hnext := h.write (Disk.spot_true_of_false hspot) hwrite
          obtain ⟨removed, hremoved, haccount⟩ := ih hnext hlinks' hstores' hrun
          exact ⟨removed, hremoved, haccount.store hplace⟩
        · -- The file is found: it was there at the start, and is not gone yet.
          have hlink := hlinks file List.mem_cons_self
          obtain ⟨place, hplace, hnew, hnext⟩ := h.remove hlink hremove
          obtain ⟨removed, hremoved, haccount⟩ := ih hnext hlinks' hstores' hrun
          rw [progress.removed_record, List.append_assoc] at hremoved
          exact ⟨file :: removed, hremoved, haccount.found hlink hplace hnew⟩
        · have hlink := hlinks file List.mem_cons_self
          obtain ⟨removed, hremoved, haccount⟩ := ih h hlinks' hstores' hrun
          rw [progress.removed_record, List.append_assoc] at hremoved
          refine ⟨removed, hremoved, ?_⟩
          -- Nothing is there now: nothing was there at the start, or it is gone by this run.
          cases hplace : origin.fileAt? (Path.join base file) with
          | none => exact haccount.absent hlink hplace
          | some place => exact .again haccount.part hlink hplace (h.mem_gone hplace hremove)

/-- If a run that writes comes to a report, a dry run in its place names every file that is deleted.
It names the same ones exactly if no file is deleted when it is gone already.

The project has no links, and its scripts have texts for names. What is deleted outside of it may be
reached through links, but must be no link itself. -/
theorem foreseen_deletions_iff {start : Disk} (htree : start.IsTree)
    (hproject : start.IsProject base root) (htexts : start.TextScripts root)
    (hsession : Session start base workspace disk)
    (hgroups : recipe.groups workspace.dialect = .ok groups)
    (hlinks : ∀ group ∈ groups, ∀ file ∈ group.removeFiles,
      ¬disk.EndsInLink (Path.join base file))
    (hwrite : (workspace.run recipe .write disk).outcome = .ok report) :
    ∃ forecast, (workspace.run recipe .dry disk).outcome = .ok forecast ∧
      report.removed.Sublist forecast.removed ∧
      (forecast.removed = report.removed ↔
        deletesAgain disk base [] (plan groups workspace.sources) = false) := by
  obtain ⟨hbase, hplaced⟩ := placed_of_session htree hproject htexts hsession
  obtain ⟨groups', progress, disk', hgroups', hrun, rfl⟩ := Workspace.complete_of_report hwrite
  cases hgroups.symm.trans hgroups'
  obtain ⟨forecast, hdry, hforecast⟩ := carryOut_dry workspace.base (plan groups workspace.sources)
    { sources := workspace.sources } disk
  rw [Workspace.run_eq hgroups hdry]
  refine ⟨workspace.report forecast, rfl, ?_⟩
  -- Every script that is stored is a file on the disk.
  have hstores : ∀ change, .store change ∈ plan groups workspace.sources →
      ∃ place, disk.fileAt? (Path.join base change.path) = some place := by
    intro change hstore
    have hknown := known_plan groups workspace.sources
    obtain ⟨source, hsource, hpath⟩ := List.mem_map.1 (hknown.path_mem hstore)
    rw [← hpath]
    exact ⟨_, hplaced.fileAt? hsource⟩
  have hlinks' : ∀ file : String, .delete file ∈ plan groups workspace.sources →
      ¬disk.EndsInLink (Path.join base file) := by
    intro file hdelete
    obtain ⟨group, hgroup, hfile⟩ := exists_group_of_delete hdelete
    exact hlinks group hgroup file hfile
  rw [hbase] at hrun hforecast
  obtain ⟨removed, hremoved, haccount⟩ :=
    (Disk.Depleted.refl disk).carryOut hlinks' hstores hrun
  simp only [Workspace.report, hforecast, hremoved, List.nil_append]
  exact ⟨haccount.part, haccount.whole⟩

theorem foreseen_deletions_sample :
    ∃ workspace report forecast, Workspace.load sampleDisk "p" = .ok workspace ∧
      (workspace.run sampleRecipe .write sampleDisk).outcome = .ok report ∧
      (workspace.run sampleRecipe .dry sampleDisk).outcome = .ok forecast ∧
      report.removed = ["old.gradle"] ∧ forecast.removed = report.removed := by
  have hloaded : (Workspace.load sampleDisk "p").toOption.any (fun workspace =>
      (sampleRecipe.groups workspace.dialect).toOption.any fun groups =>
        groups.map Group.removeFiles == [["old.gradle"]] &&
        !deletesAgain sampleDisk "p" [] (plan groups workspace.sources) &&
        (workspace.run sampleRecipe .write sampleDisk).outcome.toOption.any fun report =>
          report.removed == ["old.gradle"]) = true := by
    decide +kernel
  obtain ⟨workspace, hload, hgroups⟩ := ok_of_any hloaded
  obtain ⟨groups, hgroups, hruns⟩ := ok_of_any hgroups
  simp only [Bool.and_eq_true, beq_iff_eq, Bool.not_eq_true'] at hruns
  obtain ⟨⟨hfiles, honce⟩, hruns⟩ := hruns
  obtain ⟨report, hrun, hremoved⟩ := ok_of_any hruns
  have hlinks : ∀ group ∈ groups, ∀ file ∈ group.removeFiles,
      ¬sampleDisk.EndsInLink (Path.join "p" file) := by
    intro group hgroup file hfile
    have hmem := List.mem_map_of_mem (f := Group.removeFiles) hgroup
    rw [hfiles, List.mem_singleton] at hmem
    rw [hmem, List.mem_singleton] at hfile
    subst hfile
    rintro ⟨place, target, hlink⟩
    cases hlink
  obtain ⟨forecast, hdry, -, hiff⟩ :=
    foreseen_deletions_iff isTree_sampleDisk isProject_sampleDisk (by decide +kernel) (.loaded hload)
      hgroups hlinks hrun
  exact ⟨workspace, report, forecast, hload, hrun, hdry, by simpa using hremoved, hiff.2 honce⟩

/-- Deletes one file twice. -/
def twiceRecipe : Recipe :=
  [("drop", { recipe := "remove", removeFiles := some ["old.gradle", "old.gradle"] })]

/-- A file that is deleted twice is foreseen twice. -/
theorem not_foreseen_deletions :
    sampleDisk.IsTree ∧ sampleDisk.IsProject "p" ["w", "p"] ∧
      ∃ workspace report forecast, Workspace.load sampleDisk "p" = .ok workspace ∧
      (workspace.run twiceRecipe .write sampleDisk).outcome = .ok report ∧
      (workspace.run twiceRecipe .dry sampleDisk).outcome = .ok forecast ∧
      report.removed = ["old.gradle"] ∧ forecast.removed = ["old.gradle", "old.gradle"] := by
  have hloaded : (Workspace.load sampleDisk "p").toOption.any (fun workspace =>
      (workspace.run twiceRecipe .write sampleDisk).outcome.toOption.any fun report =>
        (workspace.run twiceRecipe .dry sampleDisk).outcome.toOption.any fun forecast =>
          report.removed == ["old.gradle"] && forecast.removed == ["old.gradle", "old.gradle"]) =
        true := by
    decide +kernel
  obtain ⟨workspace, hload, hruns⟩ := ok_of_any hloaded
  obtain ⟨report, hwrite, hruns⟩ := ok_of_any hruns
  obtain ⟨forecast, hdry, hremoved⟩ := ok_of_any hruns
  exact ⟨isTree_sampleDisk, isProject_sampleDisk, workspace, report, forecast, hload, hwrite, hdry,
    by simpa using hremoved⟩

end BuildPrune
