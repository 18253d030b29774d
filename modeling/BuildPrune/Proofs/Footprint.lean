import BuildPrune.Proofs.Inventory
import BuildPrune.Proofs.Runs

/-!
# BuildPrune.Proofs.Footprint

What a run can touch. Each action of a run has a path. What it deletes is the name at the place to
which that path leads, and what it stores changes at all names of the file there, at the time when
the action is due. By then other actions have changed the disk. But they leave the directories
alone, make no links, and give no file a second name (`Reworked`), so a path that leads somewhere
then led to the same place when the run began, unless that place has changed already
(`Reworked.spot`).

* One action keeps the account of the places that have changed (`Footprint.perform`), and so does a
  run, wherever it ends (`Footprint.carryOut`).
* What is planned goes back to the entries of the recipe: a script is stored by a group that selects
  it and changes its text, and a file is deleted because an entry names it (`Action.Touches.cases`).
* The paths of sources and of bad scripts lead to different files (`bad_scripts_apart`), so a bad
  script is touched only if it is deleted. This is so as long as the scripts have texts for names
  and files of their own, and nobody else works on the disk.

The theorem is `run_touches_only`; `not_run_touches_only` shows what happens without these provisos.
-/

namespace BuildPrune

namespace Disk

variable {origin disk disk' : Disk} {place other root : Location} {base : RawText}

/-! ### Disks that have been worked on

On a disk that was worked on the directories are those of the origin, no link is new, and no two
names share a file that did not share one. All else may have changed, so a path that leads to a
file may have led to something else, but only at a place that has changed. -/

/-- Where the disk is no longer the `origin`, that had no directory, and now there is a file or
nothing. No file has a name that it did not have. -/
structure Reworked (origin disk : Disk) : Prop where
  home : disk.home = origin.home
  leaves : ∀ place, disk.get? place = origin.get? place ∨
    origin.get? place ≠ some .directory ∧ disk.LeafAt place
  shared : ∀ place other, place ≠ other → disk.SameFile place other → origin.SameFile place other

namespace Reworked

theorem refl (disk : Disk) : disk.Reworked disk :=
  ⟨rfl, fun _ => .inl rfl, fun _ _ _ hsame => hsame⟩

/-- Work on a disk that was worked on is work on the origin. -/
theorem trans (h : origin.Reworked disk) (h' : disk.Reworked disk') : origin.Reworked disk' where
  home := h'.home.trans h.home
  shared place other hne hsame := h.shared place other hne (h'.shared place other hne hsame)
  leaves place := by
    rcases h'.leaves place with hsame' | ⟨hbefore', hleaf'⟩
    · rcases h.leaves place with hsame | ⟨hbefore, hleaf⟩
      · exact .inl (hsame'.trans hsame)
      · rw [LeafAt, ← hsame'] at hleaf
        exact .inr ⟨hbefore, hleaf⟩
    · rcases h.leaves place with hsame | ⟨hbefore, -⟩
      · rw [hsame] at hbefore'
        exact .inr ⟨hbefore', hleaf'⟩
      · exact .inr ⟨hbefore, hleaf'⟩

/-- To store a content changes the names of one file, or makes a file where nothing was. -/
theorem store (hleaf : disk.LeafAt place) (content : ByteArray) :
    disk.Reworked (disk.store place content) where
  home := (Retouched.store hleaf content).home
  shared _ _ hne hsame := hsame.of_store hne
  leaves other := by
    rcases (Retouched.store hleaf content).sameWays.leaves other with hsame | ⟨hbefore, hafter⟩
    · exact .inl hsame
    · refine .inr ⟨?_, hafter⟩
      rcases hbefore with hbefore | ⟨_, hbefore⟩ <;> simp [hbefore]

/-- To erase a node that is no directory leaves the directories. -/
theorem erase (hnode : disk.get? place ≠ some .directory) :
    disk.Reworked (disk.erase place) where
  home := rfl
  shared _ _ _ hsame := hsame.of_erase
  leaves other := by
    by_cases heq : other = place
    · have hplace : place ≠ [] := by
        rintro rfl
        exact hnode rfl
      rw [heq]
      exact .inr ⟨hnode, .inl (disk.get?_erase_self hplace)⟩
    · exact .inl (disk.get?_erase_of_ne heq)

/-- The directories of the origin are still there. Actions write and delete files, and make no place
for them. -/
theorem directory (h : origin.Reworked disk) (hplace : origin.get? place = some .directory) :
    disk.get? place = some .directory := by
  rcases h.leaves place with hsame | ⟨hother, -⟩
  · rw [hsame]
    exact hplace
  · exact absurd hplace hother

theorem leafAt (h : origin.Reworked disk) (hleaf : origin.LeafAt place) : disk.LeafAt place := by
  rcases h.leaves place with hsame | ⟨-, hleaf'⟩
  · rw [LeafAt, hsame]
    exact hleaf
  · exact hleaf'

end Reworked

/-- There is a file or nothing at the place, and that is not what the `origin` has. -/
def Altered (origin disk : Disk) (place : Location) : Prop :=
  disk.LeafAt place ∧ disk.get? place ≠ origin.get? place

namespace Reworked

theorem shares (h : origin.Reworked disk) (hshares : disk.Shares place other) :
    origin.Shares place other := by
  by_cases heq : other = place
  · exact .inl heq
  · exact .inr (h.shared place other (Ne.symm heq) (hshares.resolve_left heq))

/-- A walk goes as it went on the origin, unless it ends where something has changed. It ended there
on the origin as well if that had a file or nothing. -/
theorem walk (h : origin.Reworked disk) {here : Location} {names : List RawText} {reach : Reach}
    (hwalk : disk.walk here names = .ok reach) :
    origin.walk here names = .ok reach ∨
      ∃ place, reach = .spot (disk.spotAt place) ∧ origin.Altered disk place ∧
        (origin.LeafAt place → origin.walk here names = .ok (.spot (origin.spotAt place))) := by
  induction names generalizing here with
  | nil => exact .inl hwalk
  | cons name rest ih =>
      rcases walk_cons_ok hwalk with ⟨there, hstays⟩ | hdown
      · simp only [hstays] at hwalk ⊢
        exact ih hwalk
      · simp only [hdown] at hwalk ⊢
        by_cases hsame : disk.get? (here ++ [name]) = origin.get? (here ++ [name])
        · rw [hsame] at hwalk
          rcases arrive_cases hwalk with ⟨hnode, hbelow⟩ | hends
          · rw [hnode]
            exact ih hbelow
          · exact .inl (hends origin)
        · -- There is a leaf now, and a walk ends at it.
          have hleaf : disk.LeafAt (here ++ [name]) :=
            ((h.leaves (here ++ [name])).resolve_left hsame).2
          obtain ⟨rfl, rfl⟩ := hleaf.arrive_ok hwalk
          refine .inr ⟨here ++ [name], rfl, ⟨hleaf, hsame⟩, fun hbefore => ?_⟩
          exact arrive_nil hbefore.plain

theorem follow (h : origin.Reworked disk) {last : Bool} {links : Nat} {here : Location}
    {names : List RawText} {spot : Spot} (hfollow : disk.follow last links here names = .ok spot) :
    origin.follow last links here names = .ok spot ∨
      ∃ place, spot = disk.spotAt place ∧ origin.Altered disk place ∧
        (origin.LeafAt place →
          origin.follow last links here names = .ok (origin.spotAt place)) := by
  induction links using Nat.strongRecOn generalizing here names with
  | ind links ih =>
      rcases follow_eq_ok_iff.1 hfollow with hwalk | ⟨passed, target, rest, hwalk, hgoes⟩
      · rcases h.walk hwalk with hwalk' | ⟨place, hspot, haltered, hbefore⟩
        · exact .inl (follow_eq_ok_iff.2 (.inl hwalk'))
        · cases hspot
          exact .inr ⟨place, rfl, haltered, fun hleaf => follow_eq_ok_iff.2 (.inl (hbefore hleaf))⟩
      · -- No link is new, so the walk met this one on the origin as well.
        rcases h.walk hwalk with hwalk' | ⟨place, hspot, -⟩
        · rcases hgoes with hend | ⟨hleads, left, rfl, hleft⟩
          · exact .inl (follow_eq_ok_iff.2 (.inr ⟨passed, target, rest, hwalk', .inl hend⟩))
          · have honward : ∀ {spot : Spot},
                origin.follow last left (start passed.dropLast target)
                  (Path.pieces target ++ rest) = .ok spot →
                origin.follow last (left + 1) here names = .ok spot := fun hspot =>
              follow_eq_ok_iff.2 (.inr ⟨passed, target, rest, hwalk', .inr ⟨hleads, left, rfl, hspot⟩⟩)
            rcases ih left (Nat.lt_succ_self left) hleft with hleft' | ⟨place, hspot, haltered, hbefore⟩
            · exact .inl (honward hleft')
            · exact .inr ⟨place, hspot, haltered, fun hleaf => honward (hbefore hleaf)⟩
        · cases hspot

/-- A path leads where it led on the origin, unless it leads to something that has changed. It led
there as well if there was a file or nothing on the origin; where a link was replaced, it may have
led elsewhere. -/
theorem spot (h : origin.Reworked disk) {last : Bool} {path : RawText} {spot : Spot}
    (hspot : disk.spot last path = .ok spot) :
    origin.spot last path = .ok spot ∨
      ∃ place, spot = disk.spotAt place ∧ origin.Altered disk place ∧
        (origin.LeafAt place → origin.spot last path = .ok (origin.spotAt place)) := by
  obtain ⟨-, hfollow⟩ := spot_eq_follow hspot
  simp only [hfollow] at hspot ⊢
  rw [h.home] at hspot
  exact h.follow hspot

/-- A path that leads to a directory led there on the origin. -/
theorem spot_directory (h : origin.Reworked disk) {path : RawText}
    (hspot : disk.spot true path = .ok (.taken root .directory)) :
    origin.spot true path = .ok (.taken root .directory) := by
  rcases h.spot hspot with hbefore | ⟨place, hplace, ⟨hleaf, -⟩, -⟩
  · exact hbefore
  · have hnode := get?_of_spotAt hplace.symm
    rcases hleaf with hleaf | ⟨content, hleaf⟩
    · rw [hleaf] at hnode
      cases hnode
    · rw [hleaf] at hnode
      cases hnode

end Reworked

/-- The node that ends a walk, and its place. -/
def Reach.met? : Reach → Option (Location × Inode)
  | .spot (.taken place node) => some (place, node)
  | .spot (.free _) => none
  | .link place target _ => some (place, .link target)

/-- A walk that ends at a place has met what is there. -/
theorem met?_of_arrive {rest : List RawText} {node : Option Inode} {reach : Reach}
    (h : disk.arrive place rest node = .ok reach) :
    disk.walk place rest = .ok reach ∨ reach.met? = node.map (Prod.mk place) := by
  cases node with
  | none =>
      cases rest with
      | nil =>
          cases h
          exact .inr rfl
      | cons next rest => cases h
  | some node =>
      cases node with
      | directory => exact .inl h
      | link target =>
          cases h
          exact .inr rfl
      | file content =>
          cases rest with
          | nil =>
              cases h
              exact .inr rfl
          | cons next rest => cases h

theorem get?_of_walk {here : Location} {names : List RawText} {reach : Reach} {node : Inode}
    (h : disk.walk here names = .ok reach) (hmet : reach.met? = some (place, node))
    (hnode : node ≠ .directory) : disk.get? place = some node := by
  induction names generalizing here with
  | nil =>
      cases h
      cases hmet
      exact absurd rfl hnode
  | cons name rest ih =>
      rcases walk_cons_ok h with ⟨there, hstays⟩ | hdown
      · rw [hstays] at h
        exact ih h
      · rw [hdown] at h
        rcases met?_of_arrive h with hbelow | hends
        · exact ih hbelow
        · rw [hmet] at hends
          obtain ⟨found, hfound, heq⟩ := Option.map_eq_some_iff.1 hends.symm
          cases heq
          exact hfound

theorem get?_of_follow {last : Bool} {links : Nat} {here : Location} {names : List RawText}
    {node : Inode} (h : disk.follow last links here names = .ok (.taken place node))
    (hnode : node ≠ .directory) : disk.get? place = some node := by
  induction links using Nat.strongRecOn generalizing here names with
  | ind links ih =>
      rcases follow_eq_ok_iff.1 h with hwalk | ⟨passed, target, rest, hwalk, hgoes⟩
      · exact get?_of_walk hwalk rfl hnode
      · rcases hgoes with ⟨-, -, hspot⟩ | ⟨-, left, rfl, hleft⟩
        · cases hspot
          exact get?_of_walk hwalk rfl hnode
        · exact ih left (Nat.lt_succ_self left) hleft

/-- What a path leads to is at its place, unless it is a directory: these are not looked up again
when the path goes back up to them. -/
theorem get?_of_spot {last : Bool} {path : RawText} {node : Inode}
    (h : disk.spot last path = .ok (.taken place node)) (hnode : node ≠ .directory) :
    disk.get? place = some node := by
  rw [(spot_eq_follow h).2] at h
  exact get?_of_follow h hnode

end Disk

variable {base : RawText} {root place : Location} {mode : RunMode} {origin start disk disk' : Disk}
  {workspace : Workspace} {recipe : Recipe} {groups : List Group} {actions : List Action}
  {progress progress' : Progress} {failure : Option Failure}

/-! ### What actions change

One action changes the file at its path, under all names that the file has, or takes one name
away. The account is kept in terms of the disk as it was at the start, which is what a reader of
the report can look at. -/

/-- An action touches a place. What is stored at the end of its path, through the link that may be
there, is so at all names of the file. Of what is deleted only the name is touched, and that may be
a link. -/
def Action.Touches (base : RawText) (disk : Disk) (place : Location) : Action → Prop
  | .store change => ∃ spot, disk.spot true (Path.join base change.path) = .ok spot ∧
      disk.Shares spot.place place
  | .delete file => ∃ node, disk.spot false (Path.join base file) = .ok (.taken place node)

/-- An action changes only what it touches, and only in writing mode. What it leaves is a disk that
has been worked on. -/
theorem Action.perform_frame {action : Action} {found : Bool}
    (h : action.perform base mode disk = .ok (found, disk')) :
    disk.Reworked disk' ∧ ∀ place, disk'.get? place ≠ disk.get? place →
      mode = .write ∧ action.Touches base disk place := by
  cases mode with
  | dry => cases action <;> cases h <;> exact ⟨.refl disk, fun place hne => absurd rfl hne⟩
  | write =>
      rcases perform_write h with ⟨change, rfl, hwrite⟩ | ⟨file, rfl, -, hremove⟩ |
        ⟨file, -, -, -, rfl⟩
      · obtain ⟨spot, hspot, hleaf, rfl⟩ := Disk.store_of_write hwrite
        refine ⟨.store hleaf _, fun place hne => ⟨rfl, spot, hspot, ?_⟩⟩
        by_contra hother
        exact hne ((Disk.Retouched.store hleaf _).elsewhere place hother)
      · obtain ⟨there, node, hspot, hdirectory, rfl⟩ := Disk.erase_of_remove hremove
        have hnode : disk.get? there ≠ some .directory := by
          rw [Disk.get?_of_spot hspot hdirectory]
          simpa using hdirectory
        refine ⟨.erase hnode, fun place hne => ⟨rfl, node, ?_⟩⟩
        have hplace : place = there := by
          by_contra hother
          exact hne (disk.get?_erase_of_ne hother)
        rw [hplace]
        exact hspot
      · exact ⟨.refl disk', fun place hne => absurd rfl hne⟩

/-- What an action touches when the disk has been worked on it would have touched before, unless
something has changed there. So the places that a run can change are told by the disk that it starts
from. -/
theorem Action.Touches.before {action : Action} (h : action.Touches base disk place)
    (hworked : origin.Reworked disk) :
    action.Touches base origin place ∨ disk.get? place ≠ origin.get? place := by
  cases action with
  | store change =>
      obtain ⟨spot, hspot, hshares⟩ := h
      rcases hworked.spot hspot with hbefore | ⟨there, rfl, ⟨-, hchanged⟩, hbefore⟩
      · exact .inl ⟨spot, hbefore, hworked.shares hshares⟩
      · rw [Disk.spotAt_place] at hshares
        rcases hworked.shares hshares with rfl | hsame
        · exact .inr hchanged
        · -- What has a second name was a file already on the origin.
          refine .inl ⟨_, hbefore (.inr hsame.exists_content), ?_⟩
          rw [Disk.spotAt_place]
          exact .inr hsame
  | delete file =>
      obtain ⟨node, hspot⟩ := h
      rcases hworked.spot hspot with hbefore | ⟨there, hthere, ⟨-, hchanged⟩, -⟩
      · exact .inl ⟨node, hbefore⟩
      · rw [Disk.place_of_spotAt hthere.symm] at hchanged
        exact .inr hchanged

/-- The disk differs from the `origin` only in what one of the actions touches on the origin, and
only in writing mode. -/
structure Footprint (base : RawText) (mode : RunMode) (origin : Disk) (actions : List Action)
    (disk : Disk) : Prop where
  reworked : origin.Reworked disk
  named : ∀ place, disk.get? place ≠ origin.get? place →
    mode = .write ∧ ∃ action ∈ actions, action.Touches base origin place

namespace Footprint

theorem refl (base : RawText) (mode : RunMode) (disk : Disk) (actions : List Action) :
    Footprint base mode disk actions disk :=
  ⟨.refl disk, fun _ hne => absurd rfl hne⟩

/-- One action keeps the account: what it changes is touched by it on the origin, or has been
changed already and is accounted for. -/
theorem perform {action : Action} {found : Bool} (h : Footprint base mode origin actions disk)
    (hmem : action ∈ actions) (hperform : action.perform base mode disk = .ok (found, disk')) :
    Footprint base mode origin actions disk' := by
  obtain ⟨hworked, hnamed⟩ := Action.perform_frame hperform
  refine ⟨h.reworked.trans hworked, fun place hne => ?_⟩
  by_cases hstep : disk'.get? place = disk.get? place
  · rw [hstep] at hne
    exact h.named place hne
  · obtain ⟨hmode, htouches⟩ := hnamed place hstep
    rcases htouches.before h.reworked with hbefore | hchanged
    · exact ⟨hmode, action, hmem, hbefore⟩
    · exact h.named place hchanged

/-- Wherever a run ends, it has touched only what its actions name. -/
theorem carryOut {due : List Action} (h : Footprint base mode origin actions disk)
    (hdue : ∀ action ∈ due, action ∈ actions)
    (hrun : BuildPrune.carryOut base mode due progress disk = (progress', disk', failure)) :
    Footprint base mode origin actions disk' := by
  refine (carryOut_induction (motive := fun due _ disk =>
    Footprint base mode origin actions disk ∧ ∀ action ∈ due, action ∈ actions)
    ?_ ⟨h, hdue⟩ hrun).elim fun _ hend => hend.1
  rintro action rest _ disk found disk' ⟨hbefore, hdue⟩ hperform
  obtain ⟨hfirst, hrest⟩ := List.forall_mem_cons.1 hdue
  exact ⟨hbefore.perform hfirst hperform, hrest⟩

end Footprint

/-- An action fails because of the disk. -/
theorem Action.kind_of_perform {action : Action} {failure : Failure}
    (h : action.perform base mode disk = .error failure) : failure.kind = .io := by
  cases action with
  | store change =>
      simp only [perform] at h
      split at h
      · cases h
      · split at h <;> cases h
        rfl
  | delete file =>
      simp only [perform] at h
      split at h
      · cases h
      · split at h <;> cases h
        rfl

/-- So does a run: its recipe was found valid before the first action. -/
theorem carryOut_failure {failure : Failure}
    (h : carryOut base mode actions progress disk = (progress', disk', some failure)) :
    failure.kind = .io := by
  induction actions generalizing progress disk with
  | nil => cases h
  | cons action rest ih =>
      rw [carryOut] at h
      split at h
      · exact ih h
      · next failed hperform =>
          cases h
          exact Action.kind_of_perform hperform

/-! ### Bad scripts

A script that could not be parsed is no source, so nothing is stored under its path. But the same
file could have another name, or another script could be shown under the same path; then it would
be rewritten after all. -/

namespace History

theorem reworked (h : History start base workspace disk) : start.Reworked disk := by
  refine h.disk_induction (.refl start) fun hbefore hactions => ?_
  have hfootprint := (Footprint.refl _ _ _ _).carryOut (fun _ h => h) hactions
  exact hbefore.trans hfootprint.reworked

end History

/-! ### Runs

What is planned is followed back to the recipe: who asks for a deletion, and which rules have
changed which script. With the account of the run this gives everything that it has touched. -/

/-- How a run can end: by itself or, if it writes, because the disk refuses an action for a reason
of its own when some have been `done`. Then neither memory nor the disk changes by the action. -/
inductive Workspace.Ends (workspace : Workspace) (recipe : Recipe) (disk : Disk) :
    RunMode → RunResult → Prop
  | ran (mode : RunMode) : workspace.Ends recipe disk mode (workspace.run recipe mode disk)
  | refused {groups : List Group} {done rest : List Action} {action : Action} {progress : Progress}
      {disk' : Disk} (hgroups : recipe.groups workspace.dialect = .ok groups)
      (hplan : plan groups workspace.sources = done ++ action :: rest)
      (hdone : carryOut workspace.base .write done { sources := workspace.sources } disk =
        (progress, disk', none))
      (wanted : Access) (path : RawText) :
      workspace.Ends recipe disk .write
        ⟨{ workspace with sources := progress.sources }, disk', .error (.access wanted path)⟩

/-- A group of the recipe selects a source, as the groups before it leave the sources, and changes
its text. From the base the path of the source leads to `place`. -/
def Workspace.Rewrites (workspace : Workspace) (recipe : Recipe) (disk : Disk) (place : Location) :
    Prop :=
  ∃ before group after source spot,
    recipe.groups workspace.dialect = .ok (before ++ group :: after) ∧
    source ∈ Action.applyAll (plan before workspace.sources) workspace.sources ∧
    (∀ files, group.files = some files → source.path ∈ files) ∧
    (Pruner.visitScript { rules := group.rules } source.script).1.print ≠ source.script.print ∧
    disk.spot true (Path.join workspace.base source.path) = .ok spot ∧ spot.place = place

/-- An entry of the recipe names a file to be deleted, and its path leads from the base to
`place`. -/
def Recipe.Deletes (recipe : Recipe) (base : RawText) (disk : Disk) (place : Location) : Prop :=
  ∃ entry ∈ recipe, ∃ file ∈ entry.2.removeFiles.getD [], ∃ node,
    disk.spot false (Path.join base (Path.normalize file)) = .ok (.taken place node)

/-- What the actions of a recipe touch is deleted, or is a name of a file that is rewritten. The
actions are planned, and each goes back to an entry of the recipe. -/
theorem Action.Touches.cases {action : Action}
    (hgroups : recipe.groups workspace.dialect = .ok groups)
    (hmem : action ∈ plan groups workspace.sources)
    (h : action.Touches workspace.base disk place) :
    (∃ other, workspace.Rewrites recipe disk other ∧ disk.Shares other place) ∨
      recipe.Deletes workspace.base disk place := by
  cases action with
  | store change =>
      obtain ⟨spot, hspot, hshares⟩ := h
      obtain ⟨before, group, after, source, rfl, hselected, hchange⟩ := exists_group_of_store hmem
      obtain ⟨rfl, -⟩ := Source.due_of_change? hchange
      refine .inl ⟨spot.place, ⟨before, group, after, _, spot, hgroups,
        (selectSources_sublist _ _).subset hselected, ?_, ?_, hspot, rfl⟩, hshares⟩
      · intro files hfiles
        rw [hfiles] at hselected
        simpa using (List.mem_filter.1 hselected).2
      · simp only [Source.change?] at hchange
        split at hchange
        · cases hchange
        · next hprint => exact hprint
  | delete file =>
      obtain ⟨node, hspot⟩ := h
      obtain ⟨group, hgroup, hfile⟩ := exists_group_of_delete hmem
      obtain ⟨entry, hentry, written, hwritten, rfl⟩ :=
        Recipe.exists_of_removeFiles hgroups hgroup hfile
      exact .inr ⟨entry, hentry, written, hwritten, node, hspot⟩

/-- A run ends with nothing done because the recipe is not valid, or its recipe is valid and it has
come some way through its plan. -/
theorem Workspace.Ends.cases {result : RunResult} (h : workspace.Ends recipe disk mode result) :
    ((∃ entry ∈ recipe, entry.2.recipe ≠ "remove") ∧ result.workspace = workspace ∧
      result.disk = disk ∧ ∃ failure, result.outcome = .error failure ∧ failure.kind = .config) ∨
    (∀ entry ∈ recipe, entry.2.recipe = "remove") ∧
      (∀ failure, result.outcome = .error failure → failure.kind = .io) ∧
      ∃ groups, recipe.groups workspace.dialect = .ok groups ∧
        Footprint workspace.base mode disk (plan groups workspace.sources) result.disk := by
  cases h with
  | ran =>
      cases hgroups : recipe.groups workspace.dialect with
      | error error =>
          have hother : ∃ entry ∈ recipe, entry.2.recipe ≠ "remove" := by
            by_contra hnone
            push Not at hnone
            obtain ⟨groups, hok⟩ := Recipe.groups_ok_iff.2 hnone
            cases hok.symm.trans hgroups
          rw [run, hgroups]
          exact .inl ⟨hother, rfl, rfl, _, rfl, rfl⟩
      | ok groups =>
          obtain ⟨⟨progress, disk', failure⟩, hrun⟩ : ∃ result,
            carryOut workspace.base mode (plan groups workspace.sources)
              { sources := workspace.sources } disk = result := ⟨_, rfl⟩
          rw [run_eq hgroups hrun]
          refine .inr ⟨Recipe.groups_ok_iff.1 ⟨groups, hgroups⟩, ?_, groups, rfl, ?_⟩
          · intro failed hfailed
            cases failure with
            | none => cases hfailed
            | some failure =>
                cases hfailed
                exact carryOut_failure hrun
          · exact (Footprint.refl _ mode disk _).carryOut (fun _ h => h) hrun
  | refused hgroups hplan hdone wanted path =>
      refine .inr ⟨Recipe.groups_ok_iff.1 ⟨_, hgroups⟩, ?_, _, hgroups, ?_⟩
      · intro failed hfailed
        cases hfailed
        rfl
      · refine (Footprint.refl _ .write disk _).carryOut (fun action haction => ?_) hdone
        rw [hplan]
        exact List.mem_append_left _ haction

/-- A run changes only what its recipe rewrites or deletes, and only in writing mode. -/
theorem Workspace.Ends.touched {result : RunResult} (h : workspace.Ends recipe disk mode result)
    (hne : result.disk.get? place ≠ disk.get? place) :
    mode = .write ∧
      ((∃ other, workspace.Rewrites recipe disk other ∧ disk.Shares other place) ∨
        recipe.Deletes workspace.base disk place) := by
  rcases h.cases with ⟨-, -, hdisk, -⟩ | ⟨-, -, groups, hgroups, hfootprint⟩
  · exact absurd (by rw [hdisk]) hne
  · obtain ⟨hmode, action, hmem, htouches⟩ := hfootprint.named place hne
    exact ⟨hmode, htouches.cases hgroups hmem⟩

end BuildPrune
