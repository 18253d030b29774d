import BuildPrune.Proofs.Paths

/-!
# BuildPrune.Proofs.NormalizedPaths

**Whether a path still leads to the same file once it is normalized.** The steps of a joined path
are those of the base and the names of the path (`steps_join`), and taking `./` from the start of a
path leaves all of its names (`names_normalize`). What it may change is where the path starts:
behind the `./` can stand a slash, and without it the path is absolute and forgets the base
(`not_steps_join_normalize`). That is the only difference (`steps_join_normalize_iff`).
-/

namespace BuildPrune.Path

/-! ### Steps

A path leads where its steps say, and empty names and `.` are no steps. What is compared are the
steps, so nothing has to be said about a disk. -/

/-- The names of a path, and the `..` between them. -/
def names (path : RawText) : List Component :=
  (pieces path).filterMap Component.ofPiece?

/-- The steps of a path that lead anywhere: a `.` at its start does not. -/
def steps (path : RawText) : List Component :=
  (components path).filter (· ≠ .here)

theorem here_notMem_names (path : RawText) : Component.here ∉ names path := by
  intro hmem
  obtain ⟨piece, -, hpiece⟩ := List.mem_filterMap.1 hmem
  unfold Component.ofPiece? at hpiece
  split at hpiece
  · cases hpiece
  · split at hpiece <;> cases hpiece

theorem steps_eq (path : RawText) :
    steps path = (if isAbsolute path then [.root] else []) ++ names path := by
  have hnames : (names path).filter (· ≠ .here) = names path :=
    List.filter_eq_self.2 fun step hstep =>
      decide_eq_true (ne_of_mem_of_not_mem hstep (here_notMem_names path))
  unfold steps components
  split
  · next habsolute => exact congrArg (Component.root :: ·) hnames
  · next hrelative =>
      split
      · exact hnames
      · exact hnames

/-! ### Joined paths -/

/-- A slash between two paths separates their names. -/
theorem names_attach (front path : RawText) :
    names (attach front path) = names front ++ names path := by
  rw [names, pieces_attach, List.filterMap_append]
  rfl

/-- A slash at the end names nothing. -/
theorem names_slash (front : RawText) : names (attach front "") = names front := by
  rw [names_attach]
  exact List.append_nil _

/-- A joined path has the names of both, or forgets the base. -/
theorem names_join (base path : RawText) :
    names (join base path) = if isAbsolute path then names path else names base ++ names path := by
  unfold join
  split
  · rfl
  split
  · next hend =>
      rcases hend with hempty | hslash
      · obtain rfl : base = "" := congrArg RawText.mk hempty
        rfl
      · obtain ⟨front, rfl⟩ := exists_front hslash
        have hjoin : RawText.mk ((attach front "").bytes ++ path.bytes) = attach front path :=
          congrArg RawText.mk (List.append_cons _ _ _).symm
        rw [hjoin, names_attach, names_slash]
  · exact names_attach base path

theorem isAbsolute_join (base path : RawText) :
    isAbsolute (join base path) = (isAbsolute path || isAbsolute base) := by
  unfold join
  split
  · next habsolute => rw [habsolute, Bool.true_or]
  · next hrelative =>
      rw [Bool.eq_false_iff.2 hrelative, Bool.false_or]
      by_cases hbase : base.bytes = []
      · rw [if_pos (.inl hbase), hbase, List.nil_append]
        refine (Bool.eq_false_iff.2 hrelative).trans ?_
        simp [isAbsolute, hbase]
      · split
        · exact isAbsolute_append hbase _
        · exact isAbsolute_append hbase _

/-- A joined path has the steps of the base and the names of the path, unless the path is absolute.
A `.` at the start of the path is inside the joined one, where it means nothing. -/
theorem steps_join (base path : RawText) :
    steps (join base path) = if isAbsolute path then steps path else steps base ++ names path := by
  rw [steps_eq, isAbsolute_join, names_join, steps_eq, steps_eq]
  by_cases habsolute : isAbsolute path = true
  · simp [habsolute]
  · simp [Bool.eq_false_iff.2 habsolute]

/-! ### Normalized paths

A path opens with a number of `./` and goes on with something that does not. Taking them off
leaves the names, and what decides whether the path is absolute is what stands behind the last of
them. -/

/-- Taking `./` away takes no name away. -/
theorem names_normalize (path : String) : names (normalize path) = names path := by
  suffices h : ∀ chars, names (String.ofList (dropDotSlash chars)) = names (String.ofList chars) by
    rw [normalize, h, String.ofList_toList]
  intro chars
  fun_induction dropDotSlash chars with
  | case1 rest ih =>
      have hchars : RawText.ofText (String.ofList ('.' :: '/' :: rest)) =
          attach "." (String.ofList rest) := by
        simp [RawText.ofText, attach, slash]
        rfl
      rw [ih, hchars, names_attach]
      rfl
  | case2 => rfl

theorem isAbsolute_iff {path : String} :
    isAbsolute path = true ↔ ∃ rest, path.toList = '/' :: rest := by
  rw [isAbsolute, decide_eq_true_iff, RawText.ofText]
  cases path.toList with
  | nil => simp
  | cons c rest =>
      obtain ⟨byte, more, hbytes⟩ :=
        List.exists_cons_of_ne_nil (String.utf8EncodeChar_ne_nil (c := c))
      rw [List.flatMap_cons, hbytes, List.cons_append, List.head?_cons, Option.some.injEq]
      constructor
      · rintro rfl
        have hmem : slash ∈ String.utf8EncodeChar c := hbytes ▸ List.mem_cons_self
        exact ⟨rest, by rw [RawText.eq_slash_of_mem hmem]⟩
      · rintro ⟨_, hpath⟩
        cases hpath
        cases hbytes
        rfl

/-- As many `./` as are given, one behind the other. -/
def dotSlashes (n : Nat) : List Char :=
  (List.replicate n ['.', '/']).flatten

theorem dotSlashes_succ_append (n : Nat) (chars : List Char) :
    dotSlashes (n + 1) ++ chars = '.' :: '/' :: (dotSlashes n ++ chars) := by
  simp [dotSlashes, List.replicate_succ]

theorem dropDotSlash_dotSlashes (n : Nat) (chars : List Char) :
    dropDotSlash (dotSlashes n ++ chars) = dropDotSlash chars := by
  induction n with
  | zero => rfl
  | succ n ih => rw [dotSlashes_succ_append, dropDotSlash, ih]

/-- A path is some `./` and then what is left of it when it is normalized. -/
theorem exists_dotSlashes (chars : List Char) :
    ∃ n, chars = dotSlashes n ++ dropDotSlash chars := by
  fun_induction dropDotSlash chars with
  | case1 rest ih =>
      obtain ⟨n, hrest⟩ := ih
      exact ⟨n + 1, by rw [dotSlashes_succ_append, ← hrest]⟩
  | case2 => exact ⟨0, rfl⟩

/-- Behind the `./` that the path starts with, once or more often, stands a slash. -/
def HidesRoot (path : String) : Prop :=
  ∃ n rest, path.toList = dotSlashes (n + 1) ++ '/' :: rest

/-- A path that starts with `./` is relative. -/
theorem HidesRoot.isAbsolute {path : String} (h : HidesRoot path) : isAbsolute path = false := by
  obtain ⟨n, rest, hpath⟩ := h
  rw [Bool.eq_false_iff]
  intro habsolute
  obtain ⟨more, hmore⟩ := isAbsolute_iff.1 habsolute
  rw [hpath, dotSlashes_succ_append] at hmore
  cases hmore

/-- A path is absolute once it is normalized if it was, or if it hides the root. -/
theorem isAbsolute_normalize_iff (path : String) :
    isAbsolute (normalize path) = true ↔ isAbsolute path = true ∨ HidesRoot path := by
  rw [isAbsolute_iff, isAbsolute_iff, normalize, String.toList_ofList]
  constructor
  · rintro ⟨rest, hrest⟩
    obtain ⟨n, hpath⟩ := exists_dotSlashes path.toList
    rw [hrest] at hpath
    cases n with
    | zero => exact .inl ⟨rest, hpath⟩
    | succ n => exact .inr ⟨n, rest, hpath⟩
  · rintro (⟨rest, hrest⟩ | ⟨n, rest, hrest⟩)
    · exact ⟨rest, by rw [hrest, dropDotSlash]; simp⟩
    · refine ⟨rest, ?_⟩
      rw [hrest, dropDotSlash_dotSlashes, dropDotSlash]
      simp

/-- Normalizing a path changes where it leads from the base exactly if it hides the root, and the
base is not the root itself.

If it hides the root, it is joined as an absolute path, and all that is left of the base is
nothing. -/
theorem steps_join_normalize_iff (base : RawText) (path : String) :
    steps (join base (normalize path)) = steps (join base path) ↔
      (HidesRoot path → steps base = [.root]) := by
  rw [steps_join, steps_join, steps_eq (normalize path), names_normalize]
  by_cases hhides : HidesRoot path
  · -- The path was relative and is absolute now.
    have hnormal : isAbsolute (normalize path) = true :=
      (isAbsolute_normalize_iff path).2 (.inr hhides)
    rw [if_pos hnormal, if_pos hnormal, hhides.isAbsolute, if_neg Bool.false_ne_true,
      List.append_cancel_right_eq]
    exact ⟨fun hroot _ => hroot.symm, fun hroot => (hroot hhides).symm⟩
  · have hsame : isAbsolute (normalize path) = isAbsolute path := by
      rw [Bool.eq_iff_iff, isAbsolute_normalize_iff, or_iff_left hhides]
    rw [hsame, ← steps_eq]
    exact iff_of_true rfl fun h => absurd h hhides

/-- The path below the base becomes one below the root. -/
theorem not_steps_join_normalize :
    steps (join "project" (normalize ".//publish.gradle")) ≠
      steps (join "project" ".//publish.gradle") := by
  decide +kernel

end BuildPrune.Path
