import BuildPrune.Text.Raw

/-!
# BuildPrune.Disk.Basic

A disk as a value: which places are taken, and by what. A place is given by the names from the root
down to it, so that two places are the same exactly if their names are. Files have numbers, and a
number can be at several places: these are names of one file (`Disk.SameFile`).

The view of a disk is `Disk.get?`. `put` and `erase` change it at one place and nowhere else;
`store` changes it at all places of one file.
-/

namespace BuildPrune

/-- The names from the root down to a place. -/
abbrev Location := List RawText

/-- Contents are compared byte by byte, whatever other way is in scope. -/
local instance (priority := high) decEqContent : DecidableEq ByteArray := ByteArray.instDecidableEq

/-- What can be at a place. -/
inductive Inode
  | file (content : ByteArray)
  /-- A symbolic link and the path it stands for. -/
  | link (target : RawText)
  | directory
  deriving DecidableEq

/-- What a name in a directory stands for. The content of a file is found under its number. -/
inductive Disk.Entry
  | file (number : Nat)
  | link (target : RawText)
  | directory
  deriving DecidableEq

/-- What is at the places below the root, and the place from which relative paths start. -/
structure Disk where
  entries : List (Location × Disk.Entry)
  contents : Nat → ByteArray
  home : Location

namespace Disk

/-- What the name of a place stands for. The root is a directory. -/
def lookup? (disk : Disk) (place : Location) : Option Entry :=
  if place = [] then some .directory else disk.entries.lookup place

/-- What there is under a name. -/
def inode (disk : Disk) : Entry → Inode
  | .file number => .file (disk.contents number)
  | .link target => .link target
  | .directory => .directory

/-- What is at a place. -/
def get? (disk : Disk) (place : Location) : Option Inode :=
  (disk.lookup? place).map disk.inode

/-- One file is at both places. -/
def SameFile (disk : Disk) (place other : Location) : Prop :=
  ∃ number, disk.lookup? place = some (.file number) ∧ disk.lookup? other = some (.file number)

instance (disk : Disk) (place other : Location) : Decidable (disk.SameFile place other) :=
  match hplace : disk.lookup? place with
  | some (.file number) =>
    decidable_of_iff (disk.lookup? other = some (.file number)) (by simp [SameFile, hplace])
  | some (.link _) | some .directory | none => .isFalse (by simp [SameFile, hplace])

/-- The disk with nothing at a place. -/
def erase (disk : Disk) (place : Location) : Disk :=
  { disk with entries := disk.entries.filter fun entry => entry.1 ≠ place }

/-- The disk with an entry at a place, whatever was there before. -/
def put (disk : Disk) (place : Location) (entry : Entry) : Disk :=
  { disk with entries := (place, entry) :: (disk.erase place).entries }

/-- The disk with another content in a file. -/
def fill (disk : Disk) (number : Nat) (content : ByteArray) : Disk :=
  { disk with contents := fun other => if other = number then content else disk.contents other }

/-- The number of a file, and 0 for what is none. -/
def Entry.number : Entry → Nat
  | .file number => number
  | .link _ | .directory => 0

/-- A number that no file has. -/
def fresh (disk : Disk) : Nat :=
  (disk.entries.map fun entry => entry.2.number).foldr max 0 + 1

/-- The disk with a content at a place: in the file that is there, with all of its names, or in a
new one. -/
def store (disk : Disk) (place : Location) (content : ByteArray) : Disk :=
  match disk.lookup? place with
  | some (.file number) => disk.fill number content
  | _ => (disk.put place (.file disk.fresh)).fill disk.fresh content

/-! ### The view after a change -/

variable {disk : Disk} {place other : Location}

theorem lookup_filter_ne (h : other ≠ place) (entries : List (Location × Entry)) :
    (entries.filter fun entry => entry.1 ≠ place).lookup other = entries.lookup other := by
  induction entries with
  | nil => rfl
  | cons entry rest ih =>
    by_cases he : entry.1 = place
    · have hne : (other == entry.1) = false := by simp [he, h]
      rw [List.filter_cons_of_neg (by simp [he]), List.lookup_cons, hne]
      exact ih
    · rw [List.filter_cons_of_pos (by simp [he]), List.lookup_cons, List.lookup_cons, ih]

theorem lookup_filter_self (place : Location) (entries : List (Location × Entry)) :
    (entries.filter fun entry => entry.1 ≠ place).lookup place = none := by
  induction entries with
  | nil => rfl
  | cons entry rest ih =>
    by_cases he : entry.1 = place
    · rw [List.filter_cons_of_neg (by simp [he])]
      exact ih
    · have hne : (place == entry.1) = false := by simp [Ne.symm he]
      rw [List.filter_cons_of_pos (by simp [he]), List.lookup_cons, hne]
      exact ih

theorem lookup?_erase_self (disk : Disk) (h : place ≠ []) : (disk.erase place).lookup? place = none := by
  simp only [lookup?, h, if_false]
  exact lookup_filter_self place disk.entries

theorem lookup?_erase_of_ne (disk : Disk) (h : other ≠ place) :
    (disk.erase place).lookup? other = disk.lookup? other := by
  simp only [lookup?]
  rw [show (disk.erase place).entries.lookup other = disk.entries.lookup other from
    lookup_filter_ne h disk.entries]

/-- Nothing is left at a place that is erased. -/
theorem get?_erase_self (disk : Disk) (h : place ≠ []) : (disk.erase place).get? place = none := by
  rw [get?, lookup?_erase_self disk h]
  rfl

/-- Erasing a place changes no other. -/
theorem get?_erase_of_ne (disk : Disk) (h : other ≠ place) :
    (disk.erase place).get? other = disk.get? other := by
  rw [get?, lookup?_erase_of_ne disk h]
  rfl

theorem lookup?_put_self (disk : Disk) (h : place ≠ []) (entry : Entry) :
    (disk.put place entry).lookup? place = some entry := by
  simp [lookup?, put, h]

theorem lookup?_put_of_ne (disk : Disk) (h : other ≠ place) (entry : Entry) :
    (disk.put place entry).lookup? other = disk.lookup? other := by
  have hne : (other == place) = false := by simp [h]
  simp only [lookup?, put, List.lookup_cons, hne]
  rw [show (disk.erase place).entries.lookup other = disk.entries.lookup other from
    lookup_filter_ne h disk.entries]

theorem le_foldr_max {α : Type} (measure : α → Nat) {xs : List α} {x : α} (h : x ∈ xs) :
    measure x ≤ (xs.map measure).foldr max 0 := by
  induction xs with
  | nil => cases h
  | cons first rest ih =>
    rw [List.map_cons, List.foldr_cons]
    rcases List.mem_cons.1 h with rfl | hrest
    · exact Nat.le_max_left _ _
    · exact Nat.le_trans (ih hrest) (Nat.le_max_right _ _)

/-- No file has the fresh number. -/
theorem lookup?_ne_fresh (disk : Disk) (place : Location) :
    disk.lookup? place ≠ some (.file disk.fresh) := by
  intro h
  unfold lookup? at h
  split at h
  · cases h
  · obtain ⟨front, rest, hentries, -⟩ := List.lookup_eq_some_iff.1 h
    have hmem : (place, Entry.file disk.fresh) ∈ disk.entries := by
      rw [hentries]
      exact List.mem_append_right front List.mem_cons_self
    exact absurd (le_foldr_max (fun entry => entry.2.number) hmem) (Nat.not_succ_le_self _)

/-! ### One file at several places -/

theorem SameFile.symm (h : disk.SameFile place other) : disk.SameFile other place := by
  obtain ⟨number, hplace, hother⟩ := h
  exact ⟨number, hother, hplace⟩

theorem SameFile.exists_content (h : disk.SameFile place other) :
    ∃ content, disk.get? place = some (.file content) := by
  obtain ⟨number, hplace, -⟩ := h
  exact ⟨disk.contents number, by rw [get?, hplace]; rfl⟩

/-- The cases of storing: in a file that is there, or in a new one. -/
theorem store_cases (disk : Disk) (place : Location) (content : ByteArray) :
    (∃ number, disk.lookup? place = some (.file number) ∧
      disk.store place content = disk.fill number content) ∨
    (∀ number, disk.lookup? place ≠ some (.file number)) ∧
      disk.store place content = (disk.put place (.file disk.fresh)).fill disk.fresh content := by
  unfold store
  split
  · next number hfile => exact .inl ⟨number, hfile, rfl⟩
  · next hother => exact .inr ⟨hother, rfl⟩

theorem get?_fill_of_eq (content : ByteArray) {number : Nat}
    (h : disk.lookup? place = some (.file number)) :
    (disk.fill number content).get? place = some (.file content) := by
  rw [get?, show (disk.fill number content).lookup? place = disk.lookup? place from rfl, h]
  simp [inode, fill]

theorem get?_fill_of_ne (content : ByteArray) {number : Nat}
    (h : disk.lookup? place ≠ some (.file number)) :
    (disk.fill number content).get? place = disk.get? place := by
  rw [get?, get?, show (disk.fill number content).lookup? place = disk.lookup? place from rfl]
  cases hentry : disk.lookup? place with
  | none => rfl
  | some entry =>
    cases entry with
    | file other =>
      have hne : other ≠ number := fun heq => h (heq ▸ hentry)
      simp [inode, fill, hne]
    | link | directory => rfl

/-- What is stored at a place is there. -/
theorem get?_store_self (disk : Disk) (h : place ≠ []) (content : ByteArray) :
    (disk.store place content).get? place = some (.file content) := by
  rcases disk.store_cases place content with ⟨number, hfile, hstore⟩ | ⟨-, hstore⟩
  · rw [hstore, get?_fill_of_eq content hfile]
  · rw [hstore, get?_fill_of_eq content (disk.lookup?_put_self h _)]

/-- It is at the other places of the file as well. -/
theorem get?_store_of_same (content : ByteArray) (h : disk.SameFile place other) :
    (disk.store place content).get? other = some (.file content) := by
  obtain ⟨number, hplace, hother⟩ := h
  rcases disk.store_cases place content with ⟨number', hfile, hstore⟩ | ⟨hnone, -⟩
  · cases hplace.symm.trans hfile
    rw [hstore, get?_fill_of_eq content hother]
  · exact absurd hplace (hnone number)

/-- Storing changes no place but those of the file. -/
theorem get?_store_of_ne (content : ByteArray) (hne : other ≠ place)
    (h : ¬disk.SameFile place other) : (disk.store place content).get? other = disk.get? other := by
  rcases disk.store_cases place content with ⟨number, hfile, hstore⟩ | ⟨-, hstore⟩
  · rw [hstore, get?_fill_of_ne content fun hother => h ⟨number, hfile, hother⟩]
  · have hentry := disk.lookup?_put_of_ne hne (.file disk.fresh)
    rw [hstore, get?_fill_of_ne content (hentry ▸ disk.lookup?_ne_fresh other), get?, get?, hentry]
    rfl

/-- Storing gives no second name to a file. -/
theorem SameFile.of_store {stored : Location} {content : ByteArray}
    (h : (disk.store stored content).SameFile place other) (hne : place ≠ other) :
    disk.SameFile place other := by
  obtain ⟨number, hplace, hother⟩ := h
  rcases disk.store_cases stored content with ⟨number', -, hstore⟩ | ⟨-, hstore⟩
  · rw [hstore] at hplace hother
    exact ⟨number, hplace, hother⟩
  · rw [hstore] at hplace hother
    -- Only at the place itself there is the new number, and nowhere else.
    have hold : ∀ {there there' : Location}, there ≠ there' →
        (disk.put stored (.file disk.fresh)).lookup? there = some (.file number) →
        (disk.put stored (.file disk.fresh)).lookup? there' = some (.file number) →
        there ≠ stored := by
      rintro there there' hne' hthere hthere' rfl
      have hsome : there ≠ [] := by
        rintro rfl
        cases hthere
      rw [lookup?_put_self disk hsome] at hthere
      rw [lookup?_put_of_ne disk (Ne.symm hne')] at hthere'
      cases hthere
      exact disk.lookup?_ne_fresh there' hthere'
    have hplace' := hold hne hplace hother
    have hother' := hold (Ne.symm hne) hother hplace
    exact ⟨number, (disk.lookup?_put_of_ne hplace' _).symm.trans hplace,
      (disk.lookup?_put_of_ne hother' _).symm.trans hother⟩

/-- Nor does erasing. -/
theorem SameFile.of_erase {erased : Location} (h : (disk.erase erased).SameFile place other) :
    disk.SameFile place other := by
  obtain ⟨number, hplace, hother⟩ := h
  have hold : ∀ {there : Location},
      (disk.erase erased).lookup? there = some (.file number) →
      disk.lookup? there = some (.file number) := by
    intro there hthere
    have hne : there ≠ erased := by
      rintro rfl
      have hsome : there ≠ [] := by
        rintro rfl
        cases hthere
      rw [lookup?_erase_self disk hsome] at hthere
      cases hthere
    rwa [lookup?_erase_of_ne disk hne] at hthere
  exact ⟨number, hold hplace, hold hother⟩

/-! ### Below a place -/

/-- What is left of the names of `place` after those of `above`, if it begins with them. -/
def dropNames? : (above place : Location) → Option (List RawText)
  | [], place => some place
  | _ :: _, [] => none
  | a :: above, b :: place => if a = b then dropNames? above place else none

/-- What is below a place, with the names from there. -/
def below (disk : Disk) (place : Location) : List (List RawText × Inode) :=
  disk.entries.filterMap fun entry =>
    match dropNames? place entry.1 with
    | some (name :: rest) => some (name :: rest, disk.inode entry.2)
    | _ => none

end Disk

end BuildPrune
