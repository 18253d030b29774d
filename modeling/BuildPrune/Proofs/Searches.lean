import Mathlib.Data.List.Lex
import Mathlib.Data.List.Nodup
import BuildPrune.Discovery
import BuildPrune.Proofs.DiskWalks
import BuildPrune.Proofs.Reading
import BuildPrune.Proofs.Sweep

/-!
# BuildPrune.Proofs.Searches

What a search finds. The search goes from directory to directory by joined paths; what it comes upon
is said here by names (`Sought`): from the place where it starts, down through directories that are
not skipped.

* Everything that a search finds is sought, and is found once (`listed_search`). This asks nothing
  but that the entries of the disk are listed once each (`IsTree`).
* If the search comes to its end, everything that is sought is found (`mem_search`).
* The scripts that are found are those files that have the names of scripts (`IsScript`), each once,
  and in the order of their paths (`scripts_of_discover`).
-/

namespace BuildPrune

/-! ### Lists that are read entry by entry -/

/-- A list that is read entry by entry gives an answer for each, if none of the readings fails. -/
theorem forall₂_of_mapM {ε α β : Type} {f : α → Except ε β} {inputs : List α} {answers : List β}
    (h : inputs.mapM f = .ok answers) :
    List.Forall₂ (fun input answer => f input = .ok answer) inputs answers := by
  induction inputs generalizing answers with
  | nil =>
      cases h
      exact .nil
  | cons input rest ih =>
      rw [List.mapM_cons] at h
      obtain ⟨answer, hanswer, h⟩ := ok_of_bind h
      obtain ⟨more, hmore, h⟩ := ok_of_bind h
      cases h
      exact .cons hanswer (ih hmore)

theorem exists_mapM_ok {ε α β : Type} {f : α → Except ε β} {inputs : List α}
    (h : ∀ input ∈ inputs, ∃ answer, f input = .ok answer) :
    ∃ answers, inputs.mapM f = .ok answers := by
  induction inputs with
  | nil => exact ⟨[], rfl⟩
  | cons input rest ih =>
      obtain ⟨⟨answer, hanswer⟩, hrest⟩ := List.forall_mem_cons.1 h
      obtain ⟨answers, hanswers⟩ := ih hrest
      refine ⟨answer :: answers, ?_⟩
      rw [List.mapM_cons, hanswer, hanswers]
      rfl

theorem mapM_congr {ε α β : Type} {f g : α → Except ε β} {inputs : List α}
    (h : ∀ input ∈ inputs, f input = g input) : inputs.mapM f = inputs.mapM g := by
  induction inputs with
  | nil => rfl
  | cons input rest ih =>
      obtain ⟨hinput, hrest⟩ := List.forall_mem_cons.1 h
      rw [List.mapM_cons, List.mapM_cons, hinput, ih hrest]

namespace Disk

variable {disk : Disk} {place root : Location} {base path name : RawText} {names : List RawText}

/-! ### Entries

A disk is a list of entries with a place each. If the places are distinct then what the list says
about a place is what the disk finds there, and the names in a directory are the entries one step
below. -/

/-- The entries of the disk are listed once each, under names. -/
structure IsTree (disk : Disk) : Prop where
  distinct : (disk.entries.map Prod.fst).Nodup
  named : ∀ entry ∈ disk.entries, ∀ name ∈ entry.1, Path.IsName name ∧ Path.slash ∉ name.bytes

theorem eq_append_of_dropNames? {above place rest : Location}
    (h : dropNames? above place = some rest) : place = above ++ rest := by
  induction above generalizing place with
  | nil => exact Option.some.inj h
  | cons name above ih =>
      cases place with
      | nil => cases h
      | cons first place =>
          rw [dropNames?] at h
          split at h
          · next hname => rw [hname, List.cons_append, ih h]
          · cases h

theorem dropNames?_append (above names : List RawText) :
    dropNames? above (above ++ names) = some names := by
  induction above with
  | nil => rfl
  | cons name above ih =>
      rw [List.cons_append, dropNames?, if_pos rfl]
      exact ih

theorem IsTree.mem_iff (h : disk.IsTree) (hplace : place ≠ []) {entry : Entry} :
    (place, entry) ∈ disk.entries ↔ disk.lookup? place = some entry := by
  rw [lookup?, if_neg hplace, List.lookup_eq_some_iff]
  constructor
  · intro hmem
    obtain ⟨front, rest, hentries⟩ := List.append_of_mem hmem
    refine ⟨front, rest, hentries, fun other hother => ?_⟩
    have hdistinct := h.distinct
    rw [hentries, List.map_append, List.map_cons, List.nodup_append] at hdistinct
    have hne := hdistinct.2.2 other.1 (List.mem_map_of_mem hother) place List.mem_cons_self
    exact bne_iff_ne.2 (Ne.symm hne)
  · rintro ⟨front, rest, hentries, -⟩
    rw [hentries]
    exact List.mem_append_right front List.mem_cons_self

/-- What is on the disk has names. -/
theorem IsTree.isName (h : disk.IsTree) {node : Inode} (hnode : disk.get? place = some node) :
    ∀ name ∈ place, Path.IsName name ∧ Path.slash ∉ name.bytes := by
  intro name hname
  obtain ⟨entry, hentry, -⟩ := Option.map_eq_some_iff.1 hnode
  exact h.named _ ((h.mem_iff (List.ne_nil_of_mem hname)).2 hentry) name hname

theorem eq_of_child {entry : Location × Entry} {child : RawText × Kind}
    (h : (match dropNames? place entry.1 with
      | some [name] => some (name, entry.2.kind)
      | _ => none) = some child) : entry.1 = place ++ [child.1] ∧ entry.2.kind = child.2 := by
  split at h
  · next hnames =>
      cases h
      exact ⟨eq_append_of_dropNames? hnames, rfl⟩
  · cases h

/-- The names in a directory are those of the entries right below it, each with the kind of what it
stands for. -/
theorem mem_children_iff (h : disk.IsTree) {kind : Kind} :
    (name, kind) ∈ disk.children place ↔
      ∃ entry, disk.lookup? (place ++ [name]) = some entry ∧ entry.kind = kind := by
  rw [children, List.mem_filterMap]
  constructor
  · rintro ⟨⟨there, entry⟩, hentry, hchild⟩
    obtain ⟨rfl, hkind⟩ := eq_of_child hchild
    exact ⟨entry, (h.mem_iff (by simp)).1 hentry, hkind⟩
  · rintro ⟨entry, hentry, rfl⟩
    refine ⟨(place ++ [name], entry), (h.mem_iff (by simp)).2 hentry, ?_⟩
    simp only [dropNames?_append]

theorem names_of_child (htree : disk.IsTree) {child : RawText × Kind}
    (h : child ∈ disk.children place) : Path.IsName child.1 ∧ Path.slash ∉ child.1.bytes := by
  obtain ⟨entry, hentry, -⟩ := (mem_children_iff htree).1 h
  have hnode : disk.get? (place ++ [child.1]) = some (disk.inode entry) := by
    rw [get?, hentry, Option.map_some]
  exact htree.isName hnode _ (by simp)

theorem directory_of_child (htree : disk.IsTree) (h : (name, .directory) ∈ disk.children place) :
    disk.get? (place ++ [name]) = some .directory := by
  obtain ⟨entry, hentry, hkind⟩ := (mem_children_iff htree).1 h
  cases entry with
  | file | link => cases hkind
  | directory =>
      rw [get?, hentry]
      rfl

theorem nodup_children (h : disk.IsTree) (place : Location) :
    ((disk.children place).map Prod.fst).Nodup := by
  have hentries := h.distinct
  rw [List.Nodup, List.pairwise_map] at hentries
  rw [List.Nodup, List.pairwise_map, children, List.pairwise_filterMap]
  refine hentries.imp ?_
  intro entry other hne child hchild child' hchild' heq
  rw [(eq_of_child hchild).1, (eq_of_child hchild').1, heq] at hne
  exact hne rfl

theorem mem_below_iff (h : disk.IsTree) {node : Inode} :
    (names, node) ∈ disk.below place ↔ names ≠ [] ∧ disk.get? (place ++ names) = some node := by
  rw [below, List.mem_filterMap]
  constructor
  · rintro ⟨⟨there, entry⟩, hentry, hbelow⟩
    split at hbelow
    · next hnames =>
        cases hbelow
        have hthere := eq_append_of_dropNames? hnames
        dsimp only at hthere
        subst hthere
        refine ⟨List.cons_ne_nil _ _, ?_⟩
        rw [get?, (h.mem_iff (by simp)).1 hentry, Option.map_some]
    · cases hbelow
  · rintro ⟨hsome, hnode⟩
    obtain ⟨entry, hentry, rfl⟩ := Option.map_eq_some_iff.1 hnode
    refine ⟨(place ++ names, entry), (h.mem_iff (by simp [hsome])).2 hentry, ?_⟩
    obtain ⟨name, rest, rfl⟩ := List.exists_cons_of_ne_nil hsome
    simp only [dropNames?_append]

/-- No links are below a place if there are none at all. -/
theorem plain_of_entries (h : ∀ entry ∈ disk.entries, entry.2.kind ≠ .link) (root : Location)
    (names : List RawText) (target : RawText) :
    disk.get? (root ++ names) ≠ some (.link target) := by
  intro hlink
  obtain ⟨entry, hentry, hinode⟩ := Option.map_eq_some_iff.1 hlink
  cases entry with
  | file | directory => cases hinode
  | link found =>
      unfold lookup? at hentry
      split at hentry
      · cases hentry
      · obtain ⟨front, rest, hentries, -⟩ := List.lookup_eq_some_iff.1 hentry
        refine h (root ++ names, .link found) ?_ rfl
        rw [hentries]
        exact List.mem_append_right front List.mem_cons_self

/-! ### What is sought

What is sought is said by names and by the kind of what is there. It is defined along the names,
one directory after the other, in the way in which a search comes down to it. -/

/-- The name of a directory that is never searched. -/
def SkippedName (name : RawText) : Prop :=
  name = ".git" ∨ name = ".gradle"

instance (name : RawText) : Decidable (SkippedName name) :=
  inferInstanceAs (Decidable (_ ∨ _))

/-- A search comes upon something in the directory where it is, or further down through a directory
that it does not skip. -/
inductive Sought (disk : Disk) : Location → List RawText → Kind → Prop
  | here {place : Location} {name : RawText} {kind : Kind} (hchild : (name, kind) ∈ disk.children place)
      (hkept : kind = .directory → ¬SkippedName name) : Sought disk place [name] kind
  | down {place : Location} {name : RawText} {names : List RawText} {kind : Kind}
      (hchild : (name, .directory) ∈ disk.children place) (hkept : ¬SkippedName name)
      (hbelow : Sought disk (place ++ [name]) names kind) : Sought disk place (name :: names) kind

namespace Sought

variable {kind : Kind}

theorem ne_nil (h : disk.Sought place names kind) : names ≠ [] := by
  cases h <;> exact List.cons_ne_nil _ _

/-- What is sought is on the disk. -/
theorem lookup? (h : disk.Sought place names kind) (htree : disk.IsTree) :
    ∃ entry, disk.lookup? (place ++ names) = some entry ∧ entry.kind = kind := by
  induction h with
  | here hchild _ => exact (mem_children_iff htree).1 hchild
  | down _ _ _ ih =>
      rw [List.append_assoc, List.singleton_append] at ih
      exact ih

theorem isName (h : disk.Sought place names kind) (htree : disk.IsTree) :
    ∀ name ∈ names, Path.IsName name ∧ Path.slash ∉ name.bytes := by
  intro name hname
  obtain ⟨entry, hentry, -⟩ := h.lookup? htree
  have hnode : disk.get? (place ++ names) = some (disk.inode entry) := by
    rw [get?, hentry, Option.map_some]
  exact htree.isName hnode name (List.mem_append_right place hname)

/-- A file that is sought is there. -/
theorem file (h : disk.Sought place names .file) (htree : disk.IsTree) :
    ∃ content, disk.get? (place ++ names) = some (.file content) := by
  obtain ⟨entry, hentry, hkind⟩ := h.lookup? htree
  cases entry with
  | link | directory => cases hkind
  | file number => exact ⟨disk.contents number, by rw [get?, hentry]; rfl⟩

/-- The directories above what is sought are not skipped. -/
theorem kept (h : disk.Sought place names kind) :
    ∀ directory ∈ names.dropLast, ¬SkippedName directory := by
  induction h with
  | here => nofun
  | down _ hkept hbelow ih =>
      rw [List.dropLast_cons_of_ne_nil hbelow.ne_nil]
      exact List.forall_mem_cons.2 ⟨hkept, ih⟩

/-- A walk along the names of something that was sought comes to its place, unless a name is too
long. For this the directories on the way must still be there. -/
theorem walk {origin : Disk} (h : origin.Sought place names kind) (htree : origin.IsTree)
    (hkept : ∀ place, origin.get? place = some .directory → disk.get? place = some .directory) :
    disk.walk place names = .error .nameTooLong ∨
      disk.walk place names = disk.arrive (place ++ names) [] (disk.get? (place ++ names)) := by
  induction h with
  | @here place name _ hchild _ =>
      rcases walk_cons_cases place name with ⟨hskipped, -⟩ | hlong | hdown
      · exact absurd (names_of_child htree hchild).1 hskipped
      · exact .inl (hlong disk [])
      · exact .inr (hdown disk [])
  | @down place name names _ hchild _ _ ih =>
      rcases walk_cons_cases place name with ⟨hskipped, -⟩ | hlong | hdown
      · exact absurd (names_of_child htree hchild).1 hskipped
      · exact .inl (hlong disk names)
      · rw [hdown, hkept _ (directory_of_child htree hchild), arrive]
        rw [List.append_assoc, List.singleton_append] at ih
        exact ih

end Sought

/-! ### A search

At each step a search joins a name to the path that it has. That the system comes to the same
directory by that path is proved here once, and then the paths are not looked at any more. -/

/-- What is found under some names, seen from a path. -/
def foundAt (path : RawText) (entry : List RawText × Kind) : Found :=
  ⟨entry.1.foldl Path.join path, entry.2⟩

theorem isSkipped_foundAt (path : RawText) (hname : Path.IsName name ∧ Path.slash ∉ name.bytes)
    (kind : Kind) :
    (foundAt path ([name], kind)).isSkipped = true ↔ kind = .directory ∧ SkippedName name := by
  have hlast : Path.fileName? (Path.join path name) = some name := by
    rw [Path.fileName?_join (Path.canonical_of_isName hname), Path.pieces_of_notMem hname.2]
    rfl
  rw [Found.isSkipped, Bool.and_eq_true, decide_eq_true_iff]
  refine and_congr_right fun _ => ?_
  show ((Path.fileName? (Path.join path name)).bind RawText.text?).any _ = true ↔ _
  rw [hlast, Option.bind_some, Option.any_eq_true]
  simp [RawText.text?_eq_some_iff, skippedDirectories, SkippedName, and_or_left, exists_or]

/-- The names in a directory that a search does not pass over. -/
def keptChildren (disk : Disk) (place : Location) : List (RawText × Kind) :=
  (disk.children place).filter fun child => ¬(child.2 = .directory ∧ SkippedName child.1)

theorem mem_keptChildren_iff {child : RawText × Kind} :
    child ∈ disk.keptChildren place ↔
      child ∈ disk.children place ∧ (child.2 = .directory → ¬SkippedName child.1) := by
  rw [keptChildren, List.mem_filter, decide_eq_true_iff, not_and]

/-- What a search answers for a name in the directory where it is: what is found there and, if that
is a directory, all that is found below it. -/
def answer (disk : Disk) (levels : Nat) (path : RawText) (child : RawText × Kind) :
    Except Obstacle (List Found) :=
  if child.2 = .directory then do
    return foundAt path ([child.1], child.2) :: (← disk.search levels (Path.join path child.1))
  else return [foundAt path ([child.1], child.2)]

/-- A search goes through the names in a directory. What is skipped is passed over before anything
below it is read. -/
theorem search_succ (htree : disk.IsTree) (hpath : disk.spot true path = .ok (.taken place .directory))
    (levels : Nat) :
    disk.search (levels + 1) path = do
      return (← (disk.keptChildren place).mapM (disk.answer levels path)).flatten := by
  have hkept : ((disk.children place).map fun child => foundAt path ([child.1], child.2)).filter
      (!·.isSkipped) =
        (disk.keptChildren place).map fun child => foundAt path ([child.1], child.2) := by
    rw [List.filter_map, keptChildren]
    congr 1
    refine List.filter_congr fun child hchild => ?_
    have hskipped := isSkipped_foundAt path (names_of_child htree hchild) child.2
    rw [Function.comp_apply, Bool.eq_iff_iff, Bool.not_eq_true', ← Bool.not_eq_true,
      decide_eq_true_iff]
    exact not_congr hskipped
  rw [search, readDirectory, hpath]
  show (((disk.children place).map fun child => foundAt path ([child.1], child.2)).filter
    (!·.isSkipped)).mapM _ >>= _ = _
  rw [hkept, List.mapM_map]
  rfl

/-- A joined name leads to the place that it names in the directory of the path. The system goes
along the whole joined path again, and that it comes to the same directory is what `hpath` says. -/
theorem spot_child (hpath : disk.spot true path = .ok (.taken place .directory))
    (hname : Path.IsName name ∧ Path.slash ∉ name.bytes)
    (hplain : ∀ target, disk.get? (place ++ [name]) ≠ some (.link target)) {last : Bool} {spot : Spot}
    (hspot : disk.spot last (Path.join path name) = .ok spot) :
    spot = disk.spotAt (place ++ [name]) := by
  obtain ⟨_, links, hthere, hfollow⟩ := spot_join hpath (Path.canonical_of_isName hname) hspot
  cases hthere.symm.trans hpath
  rw [Path.pieces_of_notMem hname.2] at hfollow
  rcases walk_cons_cases place name with ⟨hskipped, -⟩ | hlong | hdown
  · exact absurd hname.1 hskipped
  · rw [follow, hlong] at hfollow
    cases hfollow
  · rw [follow, hdown, arrive_nil hplain] at hfollow
    exact (Except.ok.inj hfollow).symm

/-- A search that may go down has read the directory where it starts. -/
theorem search_cases {levels : Nat} {found : List Found} (h : disk.search levels path = .ok found) :
    (levels = 0 ∧ found = []) ∨ ∃ place, disk.spot true path = .ok (.taken place .directory) := by
  cases levels with
  | zero =>
      cases h
      exact .inl ⟨rfl, rfl⟩
  | succ levels =>
      rw [search] at h
      split at h
      · cases h
      · next names hread =>
          unfold readDirectory at hread
          split at hread
          · cases hread
          · next there hspot => exact .inr ⟨there, hspot⟩
          · cases hread
          · cases hread

/-- A directory that is sought is where its joined name leads. -/
theorem spot_directory (htree : disk.IsTree)
    (hpath : disk.spot true path = .ok (.taken place .directory))
    (hchild : (name, .directory) ∈ disk.children place) {spot : Spot}
    (hspot : disk.spot true (Path.join path name) = .ok spot) :
    spot = .taken (place ++ [name]) .directory := by
  have hnode := directory_of_child htree hchild
  have hthere := spot_child hpath (names_of_child htree hchild) (by simp [hnode]) hspot
  rw [hthere, spotAt, hnode]

/-! ### What is found

The entries that are found under different names are told apart by the first of their names. So
the answers for the names in a directory can be put together without finding anything twice. -/

/-- What is found from a path is sought from a place, each entry once, and its names begin with one
of some `heads`. -/
def Listed (disk : Disk) (path : RawText) (place : Location) (heads : List RawText)
    (found : List Found) : Prop :=
  ∃ listed : List (List RawText × Kind), found = listed.map (foundAt path) ∧
    (listed.map Prod.fst).Nodup ∧ ∀ entry ∈ listed,
      (∃ head ∈ heads, entry.1.head? = some head) ∧ disk.Sought place entry.1 entry.2

namespace Listed

variable {kind : Kind} {heads more : List RawText} {found others : List Found}

theorem nil (disk : Disk) (path : RawText) (place : Location) (heads : List RawText) :
    disk.Listed path place heads [] :=
  ⟨[], rfl, List.nodup_nil, nofun⟩

theorem here (hchild : (name, kind) ∈ disk.children place)
    (hkept : kind = .directory → ¬SkippedName name) :
    disk.Listed path place [name] [foundAt path ([name], kind)] := by
  refine ⟨[([name], kind)], rfl, List.nodup_cons.2 ⟨List.not_mem_nil, List.nodup_nil⟩, ?_⟩
  intro entry hentry
  cases List.mem_singleton.1 hentry
  exact ⟨⟨name, List.mem_cons_self, rfl⟩, .here hchild hkept⟩

theorem down (hchild : (name, .directory) ∈ disk.children place) (hkept : ¬SkippedName name)
    (h : disk.Listed (Path.join path name) (place ++ [name]) heads found) :
    disk.Listed path place [name] (foundAt path ([name], .directory) :: found) := by
  obtain ⟨listed, rfl, hdistinct, hsought⟩ := h
  refine ⟨([name], .directory) :: listed.map (Prod.map (name :: ·) id), ?_, ?_, ?_⟩
  · rw [List.map_cons, List.map_map]
    rfl
  · have hcons : (listed.map (Prod.map (name :: ·) id)).map Prod.fst =
        (listed.map Prod.fst).map (name :: ·) := by
      rw [List.map_map, List.map_map]
      rfl
    rw [List.map_cons, hcons, List.nodup_cons]
    refine ⟨?_, hdistinct.map fun _ _ heq => (List.cons.inj heq).2⟩
    intro hmem
    obtain ⟨names, hnames, heq⟩ := List.mem_map.1 hmem
    obtain ⟨entry, hentry, rfl⟩ := List.mem_map.1 hnames
    exact (hsought entry hentry).2.ne_nil (List.cons.inj heq).2
  · intro entry hentry
    refine ⟨⟨name, List.mem_cons_self, ?_⟩, ?_⟩
    · rcases List.mem_cons.1 hentry with rfl | hentry
      · rfl
      · obtain ⟨below, -, rfl⟩ := List.mem_map.1 hentry
        rfl
    · rcases List.mem_cons.1 hentry with rfl | hentry
      · exact .here hchild fun _ => hkept
      · obtain ⟨below, hbelow, rfl⟩ := List.mem_map.1 hentry
        exact .down hchild hkept (hsought below hbelow).2

theorem append (h : disk.Listed path place heads found) (h' : disk.Listed path place more others)
    (hapart : heads.Disjoint more) :
    disk.Listed path place (heads ++ more) (found ++ others) := by
  obtain ⟨listed, rfl, hdistinct, hsought⟩ := h
  obtain ⟨listed', rfl, hdistinct', hsought'⟩ := h'
  refine ⟨listed ++ listed', List.map_append.symm, ?_, ?_⟩
  · rw [List.map_append, List.nodup_append]
    refine ⟨hdistinct, hdistinct', ?_⟩
    rintro names hnames other hother rfl
    obtain ⟨entry, hentry, rfl⟩ := List.mem_map.1 hnames
    obtain ⟨entry', hentry', heq⟩ := List.mem_map.1 hother
    obtain ⟨⟨head, hmem, hhead⟩, -⟩ := hsought entry hentry
    obtain ⟨⟨head', hmem', hhead'⟩, -⟩ := hsought' entry' hentry'
    rw [heq, hhead] at hhead'
    exact hapart hmem (Option.some.inj hhead' ▸ hmem')
  · intro entry hentry
    rcases List.mem_append.1 hentry with hentry | hentry
    · obtain ⟨⟨head, hmem, hhead⟩, hthere⟩ := hsought entry hentry
      exact ⟨⟨head, List.mem_append_left _ hmem, hhead⟩, hthere⟩
    · obtain ⟨⟨head, hmem, hhead⟩, hthere⟩ := hsought' entry hentry
      exact ⟨⟨head, List.mem_append_right _ hmem, hhead⟩, hthere⟩

/-- The answers for different names are listed together. -/
theorem flatten {kept : List (RawText × Kind)} {answers : List (List Found)}
    (hnames : (kept.map Prod.fst).Nodup)
    (h : List.Forall₂ (fun child answer => disk.Listed path place [child.1] answer) kept answers) :
    disk.Listed path place (kept.map Prod.fst) answers.flatten := by
  induction h with
  | nil => exact .nil disk path place _
  | cons hanswer _ ih =>
      rw [List.map_cons, List.nodup_cons] at hnames
      refine hanswer.append (ih hnames.2) ?_
      intro name hname hmem
      rw [List.mem_singleton.1 hname] at hmem
      exact hnames.1 hmem

end Listed

/-- Everything that a search finds is sought, and is found once. By induction on the levels, with
the answers for different names kept apart by the names that they begin with. -/
theorem listed_search (htree : disk.IsTree) {levels : Nat} {found : List Found}
    (hpath : disk.spot true path = .ok (.taken place .directory))
    (h : disk.search levels path = .ok found) :
    disk.Listed path place ((disk.keptChildren place).map Prod.fst) found := by
  induction levels generalizing path place found with
  | zero =>
      cases h
      exact .nil disk path place _
  | succ levels ih =>
      rw [search_succ htree hpath] at h
      obtain ⟨answers, hanswers, h⟩ := ok_of_bind h
      cases h
      have hnames : ((disk.keptChildren place).map Prod.fst).Nodup :=
        (nodup_children htree place).sublist (List.filter_sublist.map _)
      have hboth := (List.forall₂_and_left _ _).2 ⟨fun child hchild => hchild, forall₂_of_mapM hanswers⟩
      refine .flatten hnames (hboth.imp ?_)
      rintro ⟨name, kind⟩ answer ⟨hmem, hanswer⟩
      obtain ⟨hchild, hkept⟩ := mem_keptChildren_iff.1 hmem
      unfold Disk.answer at hanswer
      split at hanswer
      · next hdirectory =>
          cases hdirectory
          obtain ⟨below, hbelow, hanswer⟩ := ok_of_bind hanswer
          cases hanswer
          rcases search_cases hbelow with ⟨-, rfl⟩ | ⟨there, hthere⟩
          · exact .here hchild hkept
          · rw [spot_directory htree hpath hchild hthere] at hthere
            exact .down hchild (hkept rfl) (ih hthere hbelow)
      · cases hanswer
        exact .here hchild hkept

/-- What is found holds the answers for all names that are not passed over. -/
theorem exists_answer (htree : disk.IsTree) {levels : Nat} {found : List Found}
    (hpath : disk.spot true path = .ok (.taken place .directory))
    (h : disk.search (levels + 1) path = .ok found) {child : RawText × Kind}
    (hchild : child ∈ disk.keptChildren place) :
    ∃ answer, disk.answer levels path child = .ok answer ∧ answer ⊆ found := by
  rw [search_succ htree hpath] at h
  obtain ⟨answers, hanswers, h⟩ := ok_of_bind h
  cases h
  obtain ⟨answer, hmem, hanswer⟩ := exists_of_forall₂ (forall₂_of_mapM hanswers).flip hchild
  exact ⟨answer, hanswer, fun found hfound => List.mem_flatten.2 ⟨answer, hmem, hfound⟩⟩

/-- A search that comes to its end and is deep enough finds everything that is sought. It is by
induction on the names: the first of them is not passed over, and the rest is sought from there. -/
theorem mem_search (htree : disk.IsTree) {levels : Nat} {found : List Found} {kind : Kind}
    (hpath : disk.spot true path = .ok (.taken place .directory))
    (h : disk.search levels path = .ok found) (hsought : disk.Sought place names kind)
    (hdeep : names.length ≤ levels) : foundAt path (names, kind) ∈ found := by
  induction hsought generalizing levels path found with
  | @here place name kind hchild hkept =>
      obtain ⟨levels, rfl⟩ := Nat.exists_eq_succ_of_ne_zero (Nat.ne_of_gt hdeep)
      obtain ⟨answer, hanswer, hpart⟩ :=
        exists_answer htree hpath h (mem_keptChildren_iff.2 ⟨hchild, hkept⟩)
      refine hpart ?_
      unfold Disk.answer at hanswer
      split at hanswer
      · obtain ⟨below, -, hanswer⟩ := ok_of_bind hanswer
        cases hanswer
        exact List.mem_cons_self
      · cases hanswer
        exact List.mem_cons_self
  | @down place name names kind hchild hkept hbelow ih =>
      rw [List.length_cons] at hdeep
      obtain ⟨levels, rfl⟩ := Nat.exists_eq_add_of_lt (Nat.lt_of_lt_of_le (Nat.succ_pos _) hdeep)
      rw [Nat.zero_add] at h hdeep
      obtain ⟨answer, hanswer, hpart⟩ :=
        exists_answer htree hpath h (mem_keptChildren_iff.2 ⟨hchild, fun _ => hkept⟩)
      refine hpart ?_
      rw [Disk.answer, if_pos rfl] at hanswer
      obtain ⟨below, hsearch, hanswer⟩ := ok_of_bind hanswer
      cases hanswer
      refine List.mem_cons_of_mem _ ?_
      rcases search_cases hsearch with ⟨rfl, -⟩ | ⟨there, hthere⟩
      · exact absurd (List.length_eq_zero_iff.1 (by omega)) hbelow.ne_nil
      · rw [spot_directory htree hpath hchild hthere] at hthere
        exact ih hthere hsearch (Nat.le_of_succ_le_succ hdeep)

/-- A child is not as deep as the disk. -/
theorem length_lt_of_child (htree : disk.IsTree) {child : RawText × Kind}
    (h : child ∈ disk.children place) : place.length + 1 < disk.depth := by
  obtain ⟨entry, hentry, -⟩ := (mem_children_iff htree).1 h
  have hmem := (htree.mem_iff (by simp)).2 hentry
  have hlength := le_foldr_max (fun entry => entry.1.length) hmem
  rw [List.length_append, List.length_singleton] at hlength
  rw [depth]
  omega

/-- A search that may go below the deepest place finds no more if it may go one level further, since
there is nothing left to go down to. -/
theorem search_succ_eq (htree : disk.IsTree) {levels : Nat}
    (hpath : disk.spot true path = .ok (.taken place .directory))
    (hdeep : disk.depth ≤ place.length + 1 + levels) :
    disk.search (levels + 2) path = disk.search (levels + 1) path := by
  induction levels generalizing path place with
  | zero =>
      have hnone : disk.keptChildren place = [] := by
        refine List.eq_nil_iff_forall_not_mem.2 fun child hchild => ?_
        have := length_lt_of_child htree (mem_keptChildren_iff.1 hchild).1
        omega
      rw [search_succ htree hpath, search_succ htree hpath, hnone]
      rfl
  | succ levels ih =>
      rw [search_succ htree hpath, search_succ htree hpath]
      refine congrArg (· >>= _) (mapM_congr ?_)
      rintro ⟨name, kind⟩ hmem
      unfold answer
      split
      · next hdirectory =>
          cases hdirectory
          have hchild := (mem_keptChildren_iff.1 hmem).1
          refine congrArg (· >>= _) ?_
          dsimp only
          cases hspot : disk.spot true (Path.join path name) with
          | error trouble => simp only [search, readDirectory, hspot]
          | ok spot =>
              rw [spot_directory htree hpath hchild hspot] at hspot
              refine ih hspot ?_
              rw [List.length_append, List.length_singleton]
              omega
      · rfl

/-- The depth of the disk is deep enough for every search: with more levels it answers the same. -/
theorem search_eq_of_depth_le (htree : disk.IsTree) {levels : Nat}
    (hbase : disk.spot true base = .ok (.taken root .directory)) (hdeep : disk.depth ≤ levels) :
    disk.search levels base = disk.search disk.depth base := by
  obtain ⟨more, rfl⟩ := Nat.exists_eq_add_of_le hdeep
  induction more with
  | zero => rfl
  | succ more ih =>
      have hone : disk.depth + more = (disk.depth - 1 + more) + 1 := by
        rw [depth]
        omega
      rw [← ih (Nat.le_add_right _ _), ← Nat.add_assoc, hone]
      exact search_succ_eq htree hbase (by omega)

end Disk

/-! ### The names of scripts -/

/-- The names of a script: the last is a text that ends like the name of a script, and those above
it are not of directories that are never searched. -/
def IsScript (names : List RawText) : Prop :=
  ∃ (above : List RawText) (text : String), names = above ++ [RawText.ofText text] ∧
    (Text.endsWith text ".gradle" = true ∨ Text.endsWith text ".gradle.kts" = true) ∧
    ∀ directory ∈ above, directory ≠ ".git" ∧ directory ≠ ".gradle"

theorem isScriptName_iff {text : String} :
    Path.isScriptName text = true ↔
      Text.endsWith text ".gradle" = true ∨ Text.endsWith text ".gradle.kts" = true := by
  have hwellKnown : ∀ name ∈ Path.wellKnownScripts,
      Text.endsWith name ".gradle" = true ∨ Text.endsWith name ".gradle.kts" = true := by
    decide
  rw [Path.isScriptName, Bool.or_eq_true, Bool.or_eq_true, or_assoc]
  exact or_iff_right_of_imp fun h => hwellKnown text (by simpa using h)

theorem isScript_iff {names : List RawText} :
    IsScript names ↔ (names.getLast?.bind RawText.text?).any Path.isScriptName = true ∧
      ∀ directory ∈ names.dropLast, ¬Disk.SkippedName directory := by
  rcases names.eq_nil_or_concat' with rfl | ⟨above, name, rfl⟩
  · simp [IsScript]
  · rw [List.getLast?_concat, List.dropLast_concat, Option.bind_some, Option.any_eq_true]
    constructor
    · rintro ⟨above', text, hnames, hends, hkept⟩
      obtain ⟨rfl, hname⟩ := List.append_inj' hnames rfl
      cases hname
      refine ⟨⟨text, RawText.text?_eq_some_iff.2 rfl, isScriptName_iff.2 hends⟩, ?_⟩
      exact fun directory hdirectory => not_or.2 (hkept directory hdirectory)
    · rintro ⟨⟨text, htext, hends⟩, hkept⟩
      rw [RawText.text?_eq_some_iff.1 htext]
      refine ⟨above, text, rfl, isScriptName_iff.1 hends, ?_⟩
      exact fun directory hdirectory => not_or.1 (hkept directory hdirectory)

instance (names : List RawText) : Decidable (IsScript names) :=
  decidable_of_iff' _ isScript_iff

/-! ### The order of paths

Paths are compared step by step. In front of all of them stand the steps of the base, so the order
of the joined paths is that of the names below it. -/

namespace Path

/-- Numbers are in order, whatever other way is in scope. -/
local instance strictTotalNat : IsStrictTotalOrder Nat Nat.lt :=
  inferInstanceAs (IsStrictTotalOrder Nat (· < ·))

theorem not_before_of_before {path other : RawText} (h : Before path other) : ¬Before other path :=
  asymm_of (List.Lex (List.Lex Nat.lt)) h

theorem not_before_trans {path other third : RawText} (h : ¬Before path other)
    (h' : ¬Before other third) : ¬Before path third :=
  IsOrderConnected.neg_trans (r := List.Lex (List.Lex Nat.lt)) h h'

theorem key_join {base path : RawText} (hpath : Canonical path) :
    key (join base path) = key base ++ key path := by
  rw [key, components_join hpath, List.map_append, ← hpath.components_eq]
  rfl

/-- A canonical path is known by its key. Other paths are not: `a//b` has the key of `a/b`. -/
theorem eq_of_key_eq {path other : RawText} (hpath : Canonical path) (hother : Canonical other)
    (h : key path = key other) : path = other := by
  rw [key, key, hpath.components_eq, hother.components_eq, List.map_map, List.map_map] at h
  refine pieces_injective ((List.map_inj_right fun name name' hname => ?_).1 h)
  have hbytes := (List.map_inj_right fun _ _ => UInt8.toNat_inj.1).1 (List.cons.inj hname).2
  exact congrArg RawText.mk hbytes

/-- Different canonical paths are in order if they are so behind a base. The search sorts joined
paths, and the scripts are listed by the paths below the base. -/
theorem before_of_not_before {base path other : RawText} (hpath : Canonical path)
    (hother : Canonical other) (hne : path ≠ other)
    (h : ¬Before (join base other) (join base path)) : Before path other := by
  have hbehind : ¬Before other path := by
    intro hbefore
    apply h
    unfold Before
    rw [key_join hpath, key_join hother]
    exact List.Lex.append_left _ hbefore _
  rcases trichotomous_of (List.Lex (List.Lex Nat.lt)) (key path) (key other) with
    hbefore | hsame | hafter
  · exact hbefore
  · exact absurd (eq_of_key_eq hpath hother hsame) hne
  · exact absurd hafter hbehind

end Path

/-! ### Scripts

Of what was found, the files with the names of scripts are kept and put in order. What a script is
depends on the bytes of its name: a name that is no text is none. -/

namespace Disk

variable {disk : Disk} {root : Location} {base : RawText} {names : List RawText}

/-- Names lead down from a place to a script. -/
def ScriptAt (disk : Disk) (root : Location) (names : List RawText) : Prop :=
  IsScript names ∧ ∃ content, disk.get? (root ++ names) = some (.file content)

/-- The names of a script that a search finds. -/
structure FoundScript (disk : Disk) (root : Location) (names : List RawText) : Prop where
  sought : disk.Sought root names .file
  isScript : IsScript names

/-- The path under which a search finds some names, joined to the base where it starts. -/
def joined (base : RawText) (names : List RawText) : RawText :=
  Path.join base (Path.ofNames names)

theorem Sought.canonical {kind : Kind} (h : disk.Sought root names kind) (htree : disk.IsTree) :
    Path.Canonical (Path.ofNames names) :=
  Path.canonical_ofNames h.ne_nil (h.isName htree)

theorem path_foundAt {kind : Kind} (h : disk.Sought root names kind) (htree : disk.IsTree)
    (base : RawText) : (foundAt base (names, kind)).path = joined base names :=
  Path.foldl_join h.ne_nil (h.isName htree) base

/-- What is sought is taken for a script if it is a file with the names of one. -/
theorem Sought.isScript_foundAt {kind : Kind} (h : disk.Sought root names kind)
    (htree : disk.IsTree) (base : RawText) :
    (foundAt base (names, kind)).isScript = true ↔ kind = .file ∧ IsScript names := by
  have hlast : Path.fileName? (joined base names) = names.getLast? := by
    rw [joined, Path.fileName?_join (h.canonical htree),
      Path.pieces_ofNames h.ne_nil fun name hname => (h.isName htree name hname).2]
  rw [Found.isScript, Bool.and_eq_true, decide_eq_true_iff, path_foundAt h htree,
    Path.isBuildScript, hlast, isScript_iff, and_iff_left h.kept]
  rfl

theorem Sought.joined_injective {kind kind' : Kind} {other : List RawText}
    (h : disk.Sought root names kind) (h' : disk.Sought root other kind') (htree : disk.IsTree)
    (heq : joined base names = joined base other) : names = other := by
  have hkey := congrArg Path.key heq
  rw [joined, joined, Path.key_join (h.canonical htree), Path.key_join (h'.canonical htree)] at hkey
  have hpath := Path.eq_of_key_eq (h.canonical htree) (h'.canonical htree)
    (List.append_cancel_left hkey)
  rw [← Path.pieces_ofNames h.ne_nil fun name hname => (h.isName htree name hname).2, hpath,
    Path.pieces_ofNames h'.ne_nil fun name hname => (h'.isName htree name hname).2]

/-- What is sought is less deep than the disk. -/
theorem Sought.length_le_depth {kind : Kind} (h : disk.Sought root names kind)
    (htree : disk.IsTree) : names.length ≤ disk.depth := by
  obtain ⟨entry, hentry, -⟩ := h.lookup? htree
  have hmem := (htree.mem_iff (List.append_ne_nil_of_right_ne_nil root h.ne_nil)).2 hentry
  have hlength := le_foldr_max (fun entry => entry.1.length) hmem
  rw [List.length_append] at hlength
  rw [depth]
  omega

/-- The names of the scripts that a search finds: those of files that are sought and end like
scripts, each once, in the order of the search. -/
theorem scripts_of_search (htree : disk.IsTree)
    (hbase : disk.spot true base = .ok (.taken root .directory)) {all : List Found}
    (h : disk.search disk.depth base = .ok all) :
    ∃ scripts : List (List RawText),
      (all.filter Found.isScript).map Found.path = scripts.map (joined base) ∧ scripts.Nodup ∧
      ∀ names, names ∈ scripts ↔ disk.FoundScript root names := by
  obtain ⟨listed, hlisted, hdistinct, hlist⟩ := listed_search htree hbase h
  have hsought : ∀ entry ∈ listed, disk.Sought root entry.1 entry.2 :=
    fun entry hentry => (hlist entry hentry).2
  refine ⟨(listed.filter fun entry => (foundAt base entry).isScript).map Prod.fst, ?_, ?_, ?_⟩
  · rw [hlisted, List.filter_map, List.map_map, List.map_map]
    refine List.map_congr_left fun entry hentry => ?_
    exact path_foundAt (hsought entry (List.mem_filter.1 hentry).1) htree base
  · exact hdistinct.sublist (List.filter_sublist.map _)
  · intro names
    constructor
    · intro hnames
      obtain ⟨⟨names, kind⟩, hentry, rfl⟩ := List.mem_map.1 hnames
      obtain ⟨hmem, hscript⟩ := List.mem_filter.1 hentry
      have hthere := hsought _ hmem
      obtain ⟨rfl, hnames⟩ := (hthere.isScript_foundAt htree base).1 hscript
      exact ⟨hthere, hnames⟩
    · rintro ⟨hthere, hscript⟩
      have hfound := mem_search htree hbase h hthere (hthere.length_le_depth htree)
      rw [hlisted] at hfound
      obtain ⟨⟨other, kind⟩, hentry, heq⟩ := List.mem_map.1 hfound
      have hother := hsought _ hentry
      -- What is found under one path has one list of names.
      have hpath := congrArg Found.path heq
      rw [path_foundAt hother htree, path_foundAt hthere htree] at hpath
      obtain rfl := hother.joined_injective hthere htree hpath
      obtain rfl : kind = .file := congrArg Found.kind heq
      have hisScript := (hthere.isScript_foundAt htree base).2 ⟨rfl, hscript⟩
      exact List.mem_map.2 ⟨_, List.mem_filter.2 ⟨hentry, hisScript⟩, rfl⟩

/-- Names are in order if their joined paths are. -/
def inOrder (base : RawText) (names other : List RawText) : Bool :=
  !decide (Path.Before (joined base other) (joined base names))

theorem inOrder_iff {other : List RawText} :
    inOrder base names other = true ↔ ¬Path.Before (joined base other) (joined base names) := by
  rw [inOrder, Bool.not_eq_true', decide_eq_false_iff_not]

theorem pairwise_inOrder (htree : disk.IsTree) {scripts : List (List RawText)}
    (hnodup : scripts.Nodup) (hsought : ∀ names ∈ scripts, disk.Sought root names .file) :
    (sortBy (inOrder base) scripts).Pairwise fun names other =>
      Path.Before (Path.ofNames names) (Path.ofNames other) := by
  have hperm := sortBy_perm (inOrder base) scripts
  have hsorted : (sortBy (inOrder base) scripts).Pairwise fun names other =>
      inOrder base names other = true := by
    refine pairwise_sortBy ?_ ?_ scripts
    · intro a b
      rw [Bool.or_eq_true, inOrder_iff, inOrder_iff, ← not_and_or]
      exact fun ⟨hafter, hbefore⟩ => Path.not_before_of_before hbefore hafter
    · intro a b c hab hbc
      rw [inOrder_iff] at hab hbc ⊢
      exact Path.not_before_trans hbc hab
  refine (hsorted.and (hperm.nodup_iff.2 hnodup)).imp_of_mem ?_
  intro names other hnames hother ⟨hle, hne⟩
  have hthere := hsought names (hperm.mem_iff.1 hnames)
  have hthere' := hsought other (hperm.mem_iff.1 hother)
  refine Path.before_of_not_before (hthere.canonical htree) (hthere'.canonical htree) ?_
    (inOrder_iff.1 hle)
  intro heq
  exact hne (hthere.joined_injective hthere' htree (congrArg (Path.join base) heq))

/-- The scripts that are found below a directory: the files that are sought and have the names of
scripts, each once, and in order. Nothing else is found, and none of them is left out. -/
theorem scripts_of_discover (htree : disk.IsTree)
    (hbase : disk.spot true base = .ok (.taken root .directory)) {found : List RawText}
    (h : disk.discover base = .ok found) :
    ∃ scripts : List (List RawText), found = scripts.map (joined base) ∧ scripts.Nodup ∧
      scripts.Pairwise (fun names other => Path.Before (Path.ofNames names) (Path.ofNames other)) ∧
      ∀ names, names ∈ scripts ↔ disk.FoundScript root names := by
  obtain ⟨all, hall, h⟩ := ok_of_bind h
  cases h
  rw [searchFrom, hbase] at hall
  obtain ⟨scripts, hpaths, hnodup, hmem⟩ := scripts_of_search htree hbase hall
  have hperm := sortBy_perm (inOrder base) scripts
  refine ⟨sortBy (inOrder base) scripts, ?_, hperm.nodup_iff.2 hnodup, ?_, fun names => ?_⟩
  · rw [scriptPaths, hpaths, sortBy_map]
    rfl
  · exact pairwise_inOrder htree hnodup fun names hnames => ((hmem names).1 hnames).sought
  · rw [hperm.mem_iff]
    exact hmem names

end Disk

end BuildPrune
