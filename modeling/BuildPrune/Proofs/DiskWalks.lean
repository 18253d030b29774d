import BuildPrune.Disk.Lookup
import BuildPrune.Proofs.Paths

/-!
# BuildPrune.Proofs.DiskWalks

Where paths lead on a disk, and what a change at one place does to that.

* A walk along the names of one path and then of another is two walks (`walk_append`). So a path
  that is joined to a base leads to the place that its names say, below the directory to which the
  base leads (`spot_join`).
* Two disks can differ only in places that are free or hold a file. Then every path that leads
  somewhere on one leads to the same place on the other, and finds what is there (`SameWays.spot`).
  This asks nothing of the paths: a walk passes directories and links, and a file only at its end.
* To store a file is such a difference, at all places that are names of it, and to erase it at one
  of them (`Retouched.store`, `Retouched.erase`). What is written is stored at the end of its path
  (`store_of_write`). What is removed is erased at the end of its path, which may be a link
  (`erase_of_remove`).
-/

namespace BuildPrune.Disk

/-! ### Steps of a walk

A walk goes from name to name. It passes directories, and it stops at a link, where the names that
are left have to be followed from the target. -/

/-- A walk that has come to a place with `rest` still to go and meets `node` there. It passes
directories, stops at links, and ends at files and at free places if nothing is left to go. -/
def arrive (disk : Disk) (place : Location) (rest : List RawText) :
    (node : Option Inode) → Except Trouble Reach
  | some .directory => disk.walk place rest
  | some (.link target) => .ok (.link place target rest)
  | some (.file content) =>
    if rest.isEmpty then .ok (.spot (.taken place (.file content))) else .error .notADirectory
  | none => if rest.isEmpty then .ok (.spot (.free place)) else .error .notFound

/-- What a name does to a walk, whatever the disk: it is passed over, goes up, is too long, or goes
down to the place that it names. In the last case only does the disk come in, with the node that
stands there. -/
theorem walk_cons_cases (here : Location) (name : RawText) :
    (¬Path.IsName name ∧ ∃ there, ∀ (disk : Disk) rest,
      disk.walk here (name :: rest) = disk.walk there rest) ∨
    (∀ (disk : Disk) rest, disk.walk here (name :: rest) = .error .nameTooLong) ∨
    (∀ (disk : Disk) rest, disk.walk here (name :: rest) =
      disk.arrive (here ++ [name]) rest (disk.get? (here ++ [name]))) := by
  by_cases hskip : name = "" ∨ name = "."
  · refine .inl ⟨?_, here, fun disk rest => by rw [walk, if_pos hskip]⟩
    exact fun hname => hskip.elim hname.1 hname.2.1
  · by_cases hup : name = ".."
    · refine .inl ⟨fun hname => hname.2.2 hup, here.dropLast, fun disk rest => ?_⟩
      rw [walk, if_neg hskip, if_pos hup]
    · by_cases hlong : name.bytes.length > 255
      · refine .inr (.inl fun disk rest => ?_)
        rw [walk, if_neg hskip, if_neg hup, if_pos hlong]
      · refine .inr (.inr fun disk rest => ?_)
        rw [walk, if_neg hskip, if_neg hup, if_neg hlong]
        rfl

/-- A walk that comes through does the same with its first name on every disk, up to what it meets
there. -/
theorem walk_cons_ok {disk : Disk} {here : Location} {name : RawText} {rest : List RawText}
    {reach : Reach} (h : disk.walk here (name :: rest) = .ok reach) :
    (∃ there, ∀ (disk : Disk) rest, disk.walk here (name :: rest) = disk.walk there rest) ∨
      ∀ (disk : Disk) rest, disk.walk here (name :: rest) =
        disk.arrive (here ++ [name]) rest (disk.get? (here ++ [name])) := by
  rcases walk_cons_cases here name with ⟨-, hstays⟩ | hlong | hdown
  · exact .inl hstays
  · rw [hlong] at h
    cases h
  · exact .inr hdown

/-- A walk goes on from a directory. At any other node it ends, whatever else is on the disk. -/
theorem arrive_cases {disk : Disk} {place : Location} {rest : List RawText} {node : Option Inode}
    {reach : Reach} (h : disk.arrive place rest node = .ok reach) :
    node = some .directory ∧ disk.walk place rest = .ok reach ∨
      ∀ disk' : Disk, disk'.arrive place rest node = .ok reach := by
  cases node with
  | none => exact .inr fun _ => h
  | some node =>
      cases node with
      | directory => exact .inl ⟨rfl, h⟩
      | file | link => exact .inr fun _ => h

/-- A walk that goes on along `more` names from where one ended. -/
def Reach.onward (disk : Disk) (more : List RawText) : Reach → Except Trouble Reach
  | .link place target rest => .ok (.link place target (rest ++ more))
  | .spot (.taken place .directory) => disk.walk place more
  | .spot (.taken place node) =>
    if more.isEmpty then .ok (.spot (.taken place node)) else .error .notADirectory
  | .spot (.free place) => if more.isEmpty then .ok (.spot (.free place)) else .error .notFound

/-- A walk along two lists of names is a walk along the first, and along the second from where that
ended. -/
theorem walk_append (disk : Disk) (here : Location) (names more : List RawText) :
    disk.walk here (names ++ more) = disk.walk here names >>= Reach.onward disk more := by
  induction names generalizing here with
  | nil => rfl
  | cons name rest ih =>
      rw [List.cons_append]
      rcases walk_cons_cases here name with ⟨-, there, hstays⟩ | hlong | hdown
      · rw [hstays, hstays, ih]
      · rw [hlong, hlong]
        rfl
      · rw [hdown, hdown]
        cases disk.get? (here ++ [name]) with
        | none => cases rest <;> rfl
        | some node =>
            cases node with
            | directory => exact ih (here ++ [name])
            | link target => rfl
            | file content => cases rest <;> rfl

/-! ### Following links

Links are followed up to a number of times, as the system does. Where a path leads is said by the
walk to the first link on it and, from there, by the target of the link with the names that were
left. -/

/-- A path is followed to a spot if a walk ends there, or if the walk meets a link that is the end
and is wanted itself, or that leads on to the spot. Later proofs follow paths by this, and do not
look into the loop over links. -/
theorem follow_eq_ok_iff {disk : Disk} {last : Bool} {links : Nat} {here : Location}
    {names : List RawText} {spot : Spot} :
    disk.follow last links here names = .ok spot ↔
      disk.walk here names = .ok (.spot spot) ∨
      ∃ place target rest, disk.walk here names = .ok (.link place target rest) ∧
        ((last = false ∧ rest = [] ∧ spot = .taken place (.link target)) ∨
          (!last && rest.all (· = "")) = false ∧ ∃ left, links = left + 1 ∧
            disk.follow last left (start place.dropLast target) (Path.pieces target ++ rest) =
              .ok spot) := by
  rw [follow]
  cases disk.walk here names with
  | error trouble => simp
  | ok reach =>
      cases reach with
      | spot reached => simp
      | link place target rest =>
          simp only [Except.ok.injEq, reduceCtorEq, Reach.link.injEq, false_or]
          constructor
          · intro h
            refine ⟨place, target, rest, ⟨rfl, rfl, rfl⟩, ?_⟩
            split at h
            · next hend =>
                cases h
                simp only [Bool.and_eq_true, Bool.not_eq_true', List.isEmpty_iff] at hend
                exact .inl ⟨hend.1, hend.2, rfl⟩
            · split at h
              · cases h
              · next hleads =>
                  cases links with
                  | zero => cases h
                  | succ left => exact .inr ⟨eq_false_of_ne_true hleads, left, rfl, h⟩
          · intro ⟨_, _, _, ⟨hplace, htarget, hrest⟩, h⟩
            subst hplace htarget hrest
            rcases h with ⟨hlast, hend, hspot⟩ | ⟨hleads, left, hlinks, h⟩
            · simp [hlast, hend, hspot]
            · subst hlinks
              have hgoes : (!last && rest.isEmpty) = false := by
                cases rest with
                | nil => exact hleads
                | cons => simp
              simp only [hgoes, hleads, Bool.false_eq_true, if_false]
              exact h

/-- What is followed along the names of a directory and then of more is followed to the directory
and on from there. Some of the links that are allowed have been used up on the way. -/
theorem follow_append {disk : Disk} {last : Bool} {more : List RawText} (hmore : more ≠ [])
    {links : Nat} {here : Location} {names : List RawText} {spot : Spot}
    (h : disk.follow last links here (names ++ more) = .ok spot) :
    ∃ root left, disk.follow true links here names = .ok (.taken root .directory) ∧
      disk.follow last left root more = .ok spot := by
  induction links using Nat.strongRecOn generalizing here names with
  | ind links ih =>
      have hboth := disk.walk_append here names more
      have hsome : more.isEmpty = false := by simpa using hmore
      cases hwalk : disk.walk here names with
      | error trouble =>
          rw [hwalk] at hboth
          rw [follow, hboth] at h
          cases h
      | ok reach =>
          rw [hwalk] at hboth
          change disk.walk here (names ++ more) = reach.onward disk more at hboth
          cases reach with
          | spot reached =>
              -- Only from a directory the walk goes on.
              cases reached with
              | free place =>
                  rw [follow, hboth, Reach.onward, hsome] at h
                  cases h
              | taken place node =>
                  cases node with
                  | directory =>
                      refine ⟨place, links, follow_eq_ok_iff.2 (.inl hwalk), ?_⟩
                      rw [follow, hboth] at h
                      rw [follow]
                      exact h
                  | file | link =>
                      rw [follow, hboth, Reach.onward, hsome] at h
                      · cases h
                      · nofun
          | link place target rest =>
              rcases follow_eq_ok_iff.1 h with hspot | ⟨_, _, _, hlink, hgoes⟩
              · rw [hboth] at hspot
                cases hspot
              · cases hboth.symm.trans hlink
                rcases hgoes with ⟨-, hend, -⟩ | ⟨-, left, rfl, hleft⟩
                · exact absurd (List.append_eq_nil_iff.1 hend).2 hmore
                · rw [← List.append_assoc] at hleft
                  obtain ⟨root, rest', hfront, hmoved⟩ := ih left (Nat.lt_succ_self left) hleft
                  refine ⟨root, rest', follow_eq_ok_iff.2 (.inr ?_), hmoved⟩
                  exact ⟨place, target, rest, hwalk, .inr ⟨rfl, left, rfl, hfront⟩⟩

/-- A slash at the end changes nothing about a path that leads to a directory. -/
theorem follow_slash_iff {disk : Disk} {root : Location} {links : Nat} {here : Location}
    {names : List RawText} :
    disk.follow true links here (names ++ [("" : RawText)]) = .ok (.taken root .directory) ↔
      disk.follow true links here names = .ok (.taken root .directory) := by
  constructor
  · intro h
    obtain ⟨front, left, hfront, hrest⟩ := follow_append (List.cons_ne_nil _ _) h
    have hhere : disk.follow true left front [("" : RawText)] = .ok (.taken front .directory) := by
      rw [follow]
      rfl
    cases hhere.symm.trans hrest
    exact hfront
  · intro h
    induction links using Nat.strongRecOn generalizing here names with
    | ind links ih =>
        have hboth := disk.walk_append here names [("" : RawText)]
        rcases follow_eq_ok_iff.1 h with hwalk | ⟨place, target, rest, hwalk, hgoes⟩
        · rw [hwalk] at hboth
          exact follow_eq_ok_iff.2 (.inl hboth)
        · rw [hwalk] at hboth
          rcases hgoes with ⟨hlast, -⟩ | ⟨hleads, left, rfl, hleft⟩
          · cases hlast
          · have hmoved := ih left (Nat.lt_succ_self left) hleft
            rw [List.append_assoc] at hmoved
            refine follow_eq_ok_iff.2 (.inr ⟨place, target, rest ++ [("" : RawText)], hboth, .inr ?_⟩)
            exact ⟨rfl, left, rfl, hmoved⟩

/-- Of some paths their text alone says that they lead nowhere; the others are followed. -/
theorem spot_cases (path : RawText) :
    (∃ trouble, ∀ (disk : Disk) last, disk.spot last path = .error trouble) ∨
      path ≠ "" ∧ ∀ (disk : Disk) last,
        disk.spot last path = disk.follow last 40 (start disk.home path) (Path.pieces path) := by
  by_cases hempty : path = ""
  · exact .inl ⟨.notFound, fun disk last => by rw [spot, if_pos hempty]⟩
  · by_cases hnul : path.bytes.contains 0 = true
    · exact .inl ⟨.nulInPath, fun disk last => by rw [spot, if_neg hempty, if_pos hnul]⟩
    · by_cases hlong : path.bytes.length > 4095
      · refine .inl ⟨.nameTooLong, fun disk last => ?_⟩
        rw [spot, if_neg hempty, if_neg hnul, if_pos hlong]
      · refine .inr ⟨hempty, fun disk last => ?_⟩
        rw [spot, if_neg hempty, if_neg hnul, if_neg hlong]

/-- A path that leads somewhere on one disk is followed on every disk. So whether a path is allowed
need be asked once. -/
theorem spot_eq_follow {disk : Disk} {last : Bool} {path : RawText} {spot : Spot}
    (h : disk.spot last path = .ok spot) :
    path ≠ "" ∧ ∀ (disk : Disk) last,
      disk.spot last path = disk.follow last 40 (start disk.home path) (Path.pieces path) := by
  rcases spot_cases path with ⟨trouble, herror⟩ | hfollow
  · rw [herror] at h
    cases h
  · exact hfollow

/-! ### A change at one place

If a walk does not end at the place that has changed it cannot have come by, since files have
nothing below them. So the two disks answer alike except for what is found at such a place. -/

/-- What a path that leads to a place finds there. -/
def spotAt (disk : Disk) (place : Location) : Spot :=
  match disk.get? place with
  | some node => .taken place node
  | none => .free place

/-- The place to which a path leads. -/
def Spot.place : Spot → Location
  | .taken place _ => place
  | .free place => place

@[simp] theorem spotAt_place (disk : Disk) (place : Location) : (disk.spotAt place).place = place := by
  unfold spotAt
  split <;> rfl

theorem place_of_spotAt {disk : Disk} {place there : Location} {node : Inode}
    (h : disk.spotAt place = .taken there node) : place = there := by
  rw [← disk.spotAt_place place, h, Spot.place]

theorem get?_of_spotAt {disk : Disk} {place there : Location} {node : Inode}
    (h : disk.spotAt place = .taken there node) : disk.get? place = some node := by
  unfold spotAt at h
  split at h
  · next found hfound =>
      cases h
      exact hfound
  · cases h

theorem free_of_spotAt {disk : Disk} {place there : Location}
    (h : disk.spotAt place = .free there) : place = there ∧ disk.get? place = none := by
  unfold spotAt at h
  split at h
  · cases h
  · next hfree =>
      cases h
      exact ⟨rfl, hfree⟩

theorem arrive_nil {disk : Disk} {place : Location}
    (hplain : ∀ target, disk.get? place ≠ some (.link target)) :
    disk.arrive place [] (disk.get? place) = .ok (.spot (disk.spotAt place)) := by
  cases hnode : disk.get? place with
  | none => simp [arrive, spotAt, hnode]
  | some node =>
      cases node with
      | directory => simp [arrive, spotAt, hnode, walk]
      | file content => simp [arrive, spotAt, hnode]
      | link target => exact absurd hnode (hplain target)

/-- There is a file at a place, or nothing. -/
def LeafAt (disk : Disk) (place : Location) : Prop :=
  disk.get? place = none ∨ ∃ content, disk.get? place = some (.file content)

theorem LeafAt.plain {disk : Disk} {place : Location} (h : disk.LeafAt place) (target : RawText) :
    disk.get? place ≠ some (.link target) := by
  rcases h with h | ⟨content, h⟩ <;> simp [h]

/-- A walk ends where there is a file or nothing, and it has come through only if no name is
left. -/
theorem LeafAt.arrive_ok {disk : Disk} {place : Location} (h : disk.LeafAt place)
    {rest : List RawText} {reach : Reach}
    (harrive : disk.arrive place rest (disk.get? place) = .ok reach) :
    rest = [] ∧ reach = .spot (disk.spotAt place) := by
  cases rest with
  | nil =>
      rw [arrive_nil h.plain] at harrive
      exact ⟨rfl, (Except.ok.inj harrive).symm⟩
  | cons name rest => rcases h with h | ⟨content, h⟩ <;> simp [h, arrive] at harrive

/-- A spot as it is on another disk: what is a directory or a link there is so here as well, and for
a file or a free place one has to look. -/
def Spot.on (disk : Disk) : Spot → Spot
  | .taken place .directory => .taken place .directory
  | .taken place (.link target) => .taken place (.link target)
  | .taken place (.file _) => disk.spotAt place
  | .free place => disk.spotAt place

/-- What a walk reaches, as it is on another disk. -/
def Reach.on (disk : Disk) : Reach → Reach
  | .spot reached => .spot (reached.on disk)
  | .link place target rest => .link place target rest

theorem LeafAt.on {disk : Disk} {place : Location} (h : disk.LeafAt place) (disk' : Disk) :
    (disk.spotAt place).on disk' = disk'.spotAt place := by
  rcases h with h | ⟨content, h⟩ <;> simp [spotAt, h, Spot.on]

/-- The disks have the same directories and links. Where they differ, there is a file or nothing. -/
structure SameWays (disk disk' : Disk) : Prop where
  home : disk'.home = disk.home
  leaves : ∀ place, disk'.get? place = disk.get? place ∨ disk.LeafAt place ∧ disk'.LeafAt place

namespace SameWays

variable {disk disk' : Disk}

theorem refl (disk : Disk) : disk.SameWays disk :=
  ⟨rfl, fun _ => .inl rfl⟩

theorem symm (h : disk.SameWays disk') : disk'.SameWays disk where
  home := h.home.symm
  leaves place := (h.leaves place).imp Eq.symm And.symm

theorem trans {disk'' : Disk} (h : disk.SameWays disk') (h' : disk'.SameWays disk'') :
    disk.SameWays disk'' where
  home := h'.home.trans h.home
  leaves place := by
    rcases h.leaves place with hsame | ⟨hbefore, hafter⟩
    · rcases h'.leaves place with hsame' | ⟨hbefore', hafter'⟩
      · exact .inl (hsame'.trans hsame)
      · rw [LeafAt, hsame] at hbefore'
        exact .inr ⟨hbefore', hafter'⟩
    · rcases h'.leaves place with hsame' | ⟨-, hafter'⟩
      · rw [LeafAt, ← hsame'] at hafter
        exact .inr ⟨hbefore, hafter⟩
      · exact .inr ⟨hbefore, hafter'⟩

theorem leafAt (h : disk.SameWays disk') {place : Location} (hleaf : disk.LeafAt place) :
    disk'.LeafAt place := by
  rcases h.leaves place with hsame | ⟨-, hleaf'⟩
  · rwa [LeafAt, hsame]
  · exact hleaf'

/-- A walk goes on two such disks through the same places, since it passes directories and links
only. -/
theorem walk (h : disk.SameWays disk') {here : Location} {names : List RawText} {reach : Reach}
    (hwalk : disk.walk here names = .ok reach) : disk'.walk here names = .ok (reach.on disk') := by
  induction names generalizing here with
  | nil =>
      cases hwalk
      rfl
  | cons name rest ih =>
      rcases walk_cons_ok hwalk with ⟨there, hstays⟩ | hdown
      · rw [hstays] at hwalk ⊢
        exact ih hwalk
      · rw [hdown] at hwalk ⊢
        by_cases hleaf : disk.LeafAt (here ++ [name])
        · -- A walk meets a leaf at its end only, so what is there now ends it as well.
          obtain ⟨rfl, rfl⟩ := hleaf.arrive_ok hwalk
          rw [arrive_nil (h.leafAt hleaf).plain, Reach.on, hleaf.on]
        · rw [(h.leaves (here ++ [name])).resolve_right fun hboth => hleaf hboth.1]
          cases hnode : disk.get? (here ++ [name]) with
          | none => exact absurd (.inl hnode) hleaf
          | some node =>
              rw [hnode] at hwalk
              cases node with
              | directory => exact ih hwalk
              | link target =>
                  cases hwalk
                  rfl
              | file content => exact absurd (.inr ⟨content, hnode⟩) hleaf

/-- And links are the same on both, so paths are followed alike. -/
theorem follow (h : disk.SameWays disk') {last : Bool} {links : Nat} {here : Location}
    {names : List RawText} {spot : Spot} (hfollow : disk.follow last links here names = .ok spot) :
    disk'.follow last links here names = .ok (spot.on disk') := by
  induction links using Nat.strongRecOn generalizing here names with
  | ind links ih =>
      rcases follow_eq_ok_iff.1 hfollow with hwalk | ⟨passed, target, rest, hwalk, hgoes⟩
      · exact follow_eq_ok_iff.2 (.inl (h.walk hwalk))
      · -- The links are where they were, and lead where they led.
        refine follow_eq_ok_iff.2 (.inr ⟨passed, target, rest, h.walk hwalk, ?_⟩)
        rcases hgoes with ⟨hlast, hend, hspot⟩ | ⟨hleads, left, hlinks, hleft⟩
        · exact .inl ⟨hlast, hend, by rw [hspot, Spot.on]⟩
        · exact .inr ⟨hleads, left, hlinks, ih left (by omega) hleft⟩

/-- Every path leads on one disk where it leads on the other. This holds for all paths, also for
those that go up again or through links. -/
theorem spot (h : disk.SameWays disk') {last : Bool} {path : RawText} {spot : Spot}
    (hspot : disk.spot last path = .ok spot) : disk'.spot last path = .ok (spot.on disk') := by
  obtain ⟨-, hfollow⟩ := spot_eq_follow hspot
  rw [hfollow] at hspot ⊢
  rw [h.home]
  exact h.follow hspot

end SameWays

/-- What a path leads to is there. -/
theorem spot_on {disk : Disk} {last : Bool} {path : RawText} {spot : Spot}
    (h : disk.spot last path = .ok spot) : spot.on disk = spot := by
  have hsame := (SameWays.refl disk).spot h
  rw [h] at hsame
  exact (Except.ok.inj hsame).symm

/-- What is stored at `place` is then at the other place as well: it is the same place, or another
name of the file that is there. -/
def Shares (disk : Disk) (place other : Location) : Prop :=
  other = place ∨ disk.SameFile place other

instance (disk : Disk) (place other : Location) : Decidable (disk.Shares place other) :=
  inferInstanceAs (Decidable (_ ∨ _))

theorem Shares.refl (disk : Disk) (place : Location) : disk.Shares place place :=
  .inl rfl

theorem LeafAt.of_shares {disk : Disk} {place other : Location} (h : disk.LeafAt place)
    (hshares : disk.Shares place other) : disk.LeafAt other := by
  rcases hshares with rfl | hsame
  · exact h
  · exact .inr hsame.symm.exists_content

theorem LeafAt.ne_nil {disk : Disk} {place : Location} (h : disk.LeafAt place) : place ≠ [] := by
  rintro rfl
  rcases h with h | ⟨content, h⟩ <;> simp [get?, lookup?, inode] at h

/-- What is stored is found wherever it is shared. -/
theorem Shares.get?_store {disk : Disk} {place other : Location} (h : disk.Shares place other)
    (hleaf : disk.LeafAt place) (content : ByteArray) :
    (disk.store place content).get? other = some (.file content) := by
  rcases h with rfl | hsame
  · exact disk.get?_store_self hleaf.ne_nil content
  · exact disk.get?_store_of_same content hsame

/-- The disks differ at most in files, at the places that are `touched`. Directories and links are
the same, so that paths lead where they led. -/
structure Retouched (disk disk' : Disk) (touched : Location → Prop) : Prop where
  home : disk'.home = disk.home
  elsewhere : ∀ place, ¬touched place → disk'.get? place = disk.get? place
  leaves : ∀ place, touched place → disk.LeafAt place ∧ disk'.LeafAt place

namespace Retouched

variable {disk disk' : Disk} {place : Location} {touched : Location → Prop}

/-- To store a content touches all names of the file. -/
theorem store (hleaf : disk.LeafAt place) (content : ByteArray) :
    disk.Retouched (disk.store place content) (disk.Shares place) where
  home := by rcases disk.store_cases place content with ⟨_, -, h⟩ | ⟨-, h⟩ <;> rw [h] <;> rfl
  elsewhere other hother := by
    rw [Shares, not_or] at hother
    exact disk.get?_store_of_ne content hother.1 hother.2
  leaves other hshares :=
    ⟨hleaf.of_shares hshares, .inr ⟨content, hshares.get?_store hleaf content⟩⟩

/-- To erase a file touches one of its names only; the others still have the content. -/
theorem erase (hleaf : disk.LeafAt place) : disk.Retouched (disk.erase place) (· = place) where
  home := rfl
  elsewhere _ hne := disk.get?_erase_of_ne hne
  leaves other hother := by
    rw [hother]
    exact ⟨hleaf, .inl (disk.get?_erase_self hleaf.ne_nil)⟩

theorem sameWays (h : disk.Retouched disk' touched) : disk.SameWays disk' where
  home := h.home
  leaves place := by
    by_cases hplace : touched place
    · exact .inr (h.leaves place hplace)
    · exact .inl (h.elsewhere place hplace)

end Retouched

/-- A write that succeeds stores the content at the place to which the path leads, through links at
its end as well. There it finds a file, or nothing. -/
theorem store_of_write {disk disk' : Disk} {path : RawText} {content : ByteArray}
    (h : disk.write path content = .ok disk') :
    ∃ spot, disk.spot true path = .ok spot ∧ disk.LeafAt spot.place ∧
      disk' = disk.store spot.place content := by
  unfold write at h
  split at h
  · cases h
  · next place old hspot =>
      cases h
      exact ⟨_, hspot, .inr ⟨old, get?_of_spotAt (spot_on hspot)⟩, rfl⟩
  · cases h
  · next place hspot =>
      cases h
      exact ⟨_, hspot, .inl (free_of_spotAt (spot_on hspot)).2, rfl⟩

/-- A removal that succeeds takes away what the path leads to, which is no directory. A link at the
end of the path is not followed. -/
theorem erase_of_remove {disk disk' : Disk} {path : RawText} (h : disk.remove path = .ok disk') :
    ∃ place node, disk.spot false path = .ok (.taken place node) ∧ node ≠ .directory ∧
      disk' = disk.erase place := by
  unfold remove at h
  split at h
  · cases h
  · cases h
  · next place node hdirectory hspot =>
      cases h
      exact ⟨place, node, hspot, fun heq => hdirectory (heq ▸ rfl), rfl⟩
  · cases h

/-! ### Below the base of a project

The base leads to the root of the project, and no link is below that root. A canonical path has no
`..` and does not begin with a slash, so behind the base it leads down by its names. -/

/-- Walking names down from a place below which there are no links ends at what they name. -/
theorem walk_names {disk : Disk} {names : List RawText} (hsome : names ≠ [])
    (hnames : ∀ name ∈ names, Path.IsName name) {root : Location}
    (hplain : ∀ below target, disk.get? (root ++ below) ≠ some (.link target)) {reach : Reach}
    (h : disk.walk root names = .ok reach) : reach = .spot (disk.spotAt (root ++ names)) := by
  induction names generalizing root with
  | nil => exact absurd rfl hsome
  | cons name rest ih =>
      obtain ⟨hname, hrest⟩ := List.forall_mem_cons.1 hnames
      rcases walk_cons_cases root name with ⟨hskipped, -⟩ | hlong | hdown
      · exact absurd hname hskipped
      · rw [hlong] at h
        cases h
      · rw [hdown] at h
        cases rest with
        | nil =>
            rw [arrive_nil (hplain [name])] at h
            exact (Except.ok.inj h).symm
        | cons next rest =>
            cases hnode : disk.get? (root ++ [name]) with
            | none =>
                rw [hnode] at h
                cases h
            | some node =>
                rw [hnode] at h
                cases node with
                | file => cases h
                | link target => exact absurd hnode (hplain [name] target)
                | directory =>
                    have hbelow := ih (List.cons_ne_nil _ _) hrest
                      (fun below => by
                        rw [List.append_assoc]
                        exact hplain ([name] ++ below)) h
                    rw [hbelow, List.append_assoc, List.singleton_append]

/-- A canonical path from a base is followed to the base and on from there. For this the base must
be a path that leads somewhere on some disk, because the text of others forbids to follow them. -/
theorem spot_join {disk origin : Disk} {base path : RawText} {reached : Spot}
    (hbase : origin.spot true base = .ok reached) (hpath : Path.Canonical path) {last : Bool}
    {spot : Spot} (hspot : disk.spot last (Path.join base path) = .ok spot) :
    ∃ root links, disk.spot true base = .ok (.taken root .directory) ∧
      disk.follow last links root (Path.pieces path) = .ok spot := by
  obtain ⟨hsome, hfollow⟩ := spot_eq_follow hbase
  obtain ⟨front, hfront, hjoin⟩ := Path.exists_join_eq hsome
  obtain ⟨habsolute, hpieces⟩ := hjoin path hpath
  have hstart : start disk.home (Path.join base path) = start disk.home base := by
    rw [start, habsolute, start]
  rw [(spot_eq_follow hspot).2, hstart, hpieces] at hspot
  obtain ⟨root, links, hbefore, hrest⟩ := follow_append (Path.pieces_ne_nil path) hspot
  refine ⟨root, links, ?_, hrest⟩
  -- Up to a slash at its end, the base is what the walk along the joined path starts with.
  rw [hfollow]
  rcases hfront with hfront | hfront
  · rw [hfront]
    exact hbefore
  · rw [hfront, follow_slash_iff]
    exact hbefore

/-- `base` leads to the directory at `root`, and no links are below that. -/
structure IsProject (disk : Disk) (base : RawText) (root : Location) : Prop where
  leads : disk.spot true base = .ok (.taken root .directory)
  plain : ∀ names target, disk.get? (root ++ names) ≠ some (.link target)

namespace IsProject

variable {disk disk' : Disk} {base : RawText} {root : Location} {path : RawText}

/-- A canonical path from the base leads to the place that its names say: the base is followed to
the directory of the project, and below that there are no links. -/
theorem spot_join (h : disk.IsProject base root) (hpath : Path.Canonical path) {last : Bool}
    {spot : Spot} (hspot : disk.spot last (Path.join base path) = .ok spot) :
    spot = disk.spotAt (root ++ Path.pieces path) := by
  obtain ⟨_, links, hbase, hrest⟩ := Disk.spot_join h.leads hpath hspot
  cases hbase.symm.trans h.leads
  -- No link is met below the root.
  rcases follow_eq_ok_iff.1 hrest with hwalk | ⟨place, target, rest, hwalk, -⟩
  · exact Reach.spot.inj (walk_names (Path.pieces_ne_nil path) hpath h.plain hwalk)
  · cases walk_names (Path.pieces_ne_nil path) hpath h.plain hwalk

/-- What is read at a canonical path is the file at the place that its names say. -/
theorem read_join (h : disk.IsProject base root) (hpath : Path.Canonical path) {content : ByteArray}
    (hread : disk.read (Path.join base path) = .ok content) :
    disk.spot true (Path.join base path) = .ok (disk.spotAt (root ++ Path.pieces path)) ∧
      disk.get? (root ++ Path.pieces path) = some (.file content) := by
  unfold read at hread
  split at hread
  · cases hread
  · next place content' hspot =>
      cases hread
      have hfound := h.spot_join hpath hspot
      exact ⟨hfound ▸ hspot, get?_of_spotAt hfound.symm⟩
  · cases hread
  · cases hread

/-- In a project, a canonical path leads below its root to the names that it is made of, so what is
written is stored there. -/
theorem store_of_write (h : disk.IsProject base root) (hpath : Path.Canonical path)
    {content : ByteArray} (hwrite : disk.write (Path.join base path) content = .ok disk') :
    disk.LeafAt (root ++ Path.pieces path) ∧
      disk' = disk.store (root ++ Path.pieces path) content := by
  obtain ⟨spot, hspot, hstore⟩ := Disk.store_of_write hwrite
  rw [h.spot_join hpath hspot, spotAt_place] at hstore
  exact hstore

theorem erase_of_remove (h : disk.IsProject base root) (hpath : Path.Canonical path)
    (hremove : disk.remove (Path.join base path) = .ok disk') :
    disk.LeafAt (root ++ Path.pieces path) ∧ disk' = disk.erase (root ++ Path.pieces path) := by
  obtain ⟨place, node, hspot, hdirectory, rfl⟩ := Disk.erase_of_remove hremove
  have hfound := h.spot_join hpath hspot
  obtain rfl := place_of_spotAt hfound.symm
  have hnode := get?_of_spotAt hfound.symm
  refine ⟨?_, rfl⟩
  cases node with
  | file content => exact .inr ⟨content, hnode⟩
  | link target => exact absurd hnode (h.plain _ target)
  | directory => exact absurd rfl hdirectory

/-- Files that come or go do not move the project. -/
theorem sameWays (h : disk.IsProject base root) (hways : disk.SameWays disk') :
    disk'.IsProject base root where
  leads := hways.spot h.leads
  plain names target := by
    rcases hways.leaves (root ++ names) with hsame | ⟨-, hleaf⟩
    · rw [hsame]
      exact h.plain names target
    · exact hleaf.plain target

/-- A file that was there and is still is read as it is now. That its path could be read once
excludes that the text of the path is refused. -/
theorem read_of_sameWays (h : disk.IsProject base root) (hways : disk.SameWays disk')
    (hpath : Path.Canonical path) {old content : ByteArray}
    (hread : disk.read (Path.join base path) = .ok old)
    (hnode : disk'.get? (root ++ Path.pieces path) = some (.file content)) :
    disk'.read (Path.join base path) = .ok content := by
  obtain ⟨hspot, hfile⟩ := h.read_join hpath hread
  have hspot' := hways.spot hspot
  simp only [spotAt, hfile, Spot.on, hnode] at hspot'
  simp only [read, hspot']

end IsProject

end BuildPrune.Disk
