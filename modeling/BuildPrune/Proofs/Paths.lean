import BuildPrune.Path
import BuildPrune.Proofs.RawTexts

/-!
# BuildPrune.Proofs.Paths

How paths are put together. The names between the slashes of a path say all about it
(`pieces_injective`), names without slashes are the pieces of the path that they make
(`pieces_ofNames`), and a canonical path that is joined to a base adds its names to those of the
base (`exists_join_eq`).

A search joins one name after the other to its base. That is the same as to join the path that they
make (`foldl_join`), and as seen from the base this is again the path of the names, as they are
shown (`relativeTo_join`).
-/

namespace BuildPrune

/-! ### Texts that are cut -/

namespace Text

variable {α : Type} [DecidableEq α]

/-- A mark ends the pieces of what precedes it. -/
theorem cut_append (mark : α) (text more : List α) :
    cut mark (text ++ mark :: more) = cut mark text ++ cut mark more := by
  induction text with
  | nil => simp [cut]
  | cons c rest ih =>
      obtain ⟨piece, pieces, hcut⟩ := List.exists_cons_of_ne_nil (cut_ne_nil mark rest)
      rw [List.cons_append, cut_cons, cut_cons, ih, hcut]
      by_cases hc : c = mark
      · simp [hc]
      · simp [hc]

theorem cut_of_notMem {mark : α} {text : List α} (h : mark ∉ text) : cut mark text = [text] := by
  induction text with
  | nil => rfl
  | cons c rest ih =>
      rw [List.mem_cons, not_or] at h
      rw [cut_cons, ih h.2, if_neg (Ne.symm h.1)]

end Text

namespace Path

/-! ### Pieces

A path is cut at its slashes into pieces, empty ones included, so that nothing of it is lost.
Names without slashes are found again in the path that they make. -/

theorem pieces_attach (front path : RawText) :
    pieces (attach front path) = pieces front ++ pieces path := by
  rw [pieces, attach, Text.cut_append, List.map_append]
  rfl

theorem pieces_ne_nil (path : RawText) : pieces path ≠ [] := by
  simp [pieces, Text.cut_ne_nil]

/-- A path is known by its pieces. So paths can be compared name by name. -/
theorem pieces_injective {path other : RawText} (h : pieces path = pieces other) :
    path = other := by
  have hcut : Text.cut slash path.bytes = Text.cut slash other.bytes :=
    (List.map_inj_right fun _ _ heq => congrArg RawText.bytes heq).1 h
  have hbytes : path.bytes = other.bytes := by
    rw [← Text.intercalate_cut slash path.bytes, hcut, Text.intercalate_cut]
  exact congrArg RawText.mk hbytes

/-- The path that names make, with slashes between them. -/
def ofNames : List RawText → RawText
  | [] => ⟨[]⟩
  | [name] => name
  | name :: next :: rest => attach name (ofNames (next :: rest))

theorem pieces_of_notMem {name : RawText} (h : slash ∉ name.bytes) : pieces name = [name] := by
  rw [pieces, Text.cut_of_notMem h, List.map_singleton]

/-- Names without slashes are the pieces of their path. -/
theorem pieces_ofNames {names : List RawText} (hsome : names ≠ [])
    (hnames : ∀ name ∈ names, slash ∉ name.bytes) : pieces (ofNames names) = names := by
  induction names with
  | nil => exact absurd rfl hsome
  | cons name rest ih =>
      obtain ⟨hname, hrest⟩ := List.forall_mem_cons.1 hnames
      cases rest with
      | nil => exact pieces_of_notMem hname
      | cons next more =>
          rw [ofNames, pieces_attach, pieces_of_notMem hname, ih (List.cons_ne_nil _ _) hrest,
            List.singleton_append]

/-! ### Canonical paths

A canonical path consists of names, with one slash between two of them. It is relative, and none
of its steps goes up, so what it leads to does not depend on where other paths lead. -/

/-- A name that goes one step down. -/
def IsName (name : RawText) : Prop :=
  name ≠ "" ∧ name ≠ "." ∧ name ≠ ".."

instance (name : RawText) : Decidable (IsName name) :=
  inferInstanceAs (Decidable (_ ∧ _ ∧ _))

/-- Every piece of the path goes one step down; so the path is relative. -/
def Canonical (path : RawText) : Prop :=
  ∀ piece ∈ pieces path, IsName piece

instance (path : RawText) : Decidable (Canonical path) :=
  inferInstanceAs (Decidable (∀ piece ∈ pieces path, IsName piece))

theorem canonical_ofNames {names : List RawText} (hsome : names ≠ [])
    (hnames : ∀ name ∈ names, IsName name ∧ slash ∉ name.bytes) : Canonical (ofNames names) := by
  rw [Canonical, pieces_ofNames hsome fun name hname => (hnames name hname).2]
  exact fun name hname => (hnames name hname).1

theorem canonical_of_isName {name : RawText} (h : IsName name ∧ slash ∉ name.bytes) :
    Canonical name := by
  rw [Canonical, pieces_of_notMem h.2]
  exact List.forall_mem_singleton.2 h.1

theorem Canonical.isAbsolute {path : RawText} (h : Canonical path) : isAbsolute path = false := by
  rw [Bool.eq_false_iff]
  intro habsolute
  obtain ⟨rest, hrest⟩ := List.head?_eq_some_iff.1 (of_decide_eq_true habsolute)
  have hpath : path = attach "" ⟨rest⟩ := congrArg RawText.mk hrest
  -- The piece in front of the first slash is empty.
  rw [hpath, Canonical, pieces_attach] at h
  exact (h "" (List.mem_append_left _ List.mem_cons_self)).1 rfl

theorem Canonical.bytes_ne_nil {path : RawText} (h : Canonical path) : path.bytes ≠ [] := by
  intro hempty
  exact (h "" (by simp [pieces, hempty, Text.cut]; rfl)).1 rfl

/-! ### Joined paths

To join a path to a base puts a slash between the two unless the base ends in one, or is empty. In
all three cases the pieces of the path are the last ones of the joined path. -/

/-- A path that ends in a slash has something in front of it. -/
theorem exists_front {path : RawText} (h : path.bytes.getLast? = some slash) :
    ∃ front, path = attach front "" := by
  obtain ⟨front, hfront⟩ := List.getLast?_eq_some_iff.1 h
  exact ⟨⟨front⟩, congrArg RawText.mk hfront⟩

/-- A slash at the end of a path is an empty piece. -/
theorem pieces_slash (front : RawText) : pieces (attach front "") = pieces front ++ [("" : RawText)] :=
  pieces_attach front ""

theorem Canonical.getLast?_ne {path : RawText} (h : Canonical path) :
    path.bytes.getLast? ≠ some slash := by
  intro hslash
  obtain ⟨front, rfl⟩ := exists_front hslash
  rw [Canonical, pieces_slash] at h
  exact (h "" (List.mem_append_right _ List.mem_cons_self)).1 rfl

theorem isAbsolute_append {base : RawText} (hbase : base.bytes ≠ []) (more : List UInt8) :
    isAbsolute ⟨base.bytes ++ more⟩ = isAbsolute base := by
  obtain ⟨byte, rest, hbytes⟩ := List.exists_cons_of_ne_nil hbase
  simp [isAbsolute, hbytes]

/-- A base is what its joined paths start with, perhaps with a slash more. The front depends on the
base only, so all canonical paths are joined to it in one way. -/
theorem exists_join_eq {base : RawText} (hbase : base ≠ "") :
    ∃ front, (pieces base = pieces front ∨ pieces base = pieces front ++ [("" : RawText)]) ∧
      ∀ path, Canonical path → isAbsolute (join base path) = isAbsolute base ∧
        pieces (join base path) = pieces front ++ pieces path := by
  have hsome : base.bytes ≠ [] := fun hempty => hbase (congrArg RawText.mk hempty)
  by_cases hslash : base.bytes.getLast? = some slash
  · obtain ⟨front, hfront⟩ := exists_front hslash
    refine ⟨front, .inr (hfront ▸ pieces_slash front), fun path hpath => ?_⟩
    have hjoin : join base path = ⟨base.bytes ++ path.bytes⟩ := by
      simp [join, hpath.isAbsolute, hslash]
    rw [hjoin]
    refine ⟨isAbsolute_append hsome _, ?_⟩
    rw [hfront, ← pieces_attach]
    simp [attach]
    rfl
  · refine ⟨base, .inl rfl, fun path hpath => ?_⟩
    have hjoin : join base path = attach base path := by
      simp [join, hpath.isAbsolute, hslash, hsome]
    rw [hjoin]
    exact ⟨isAbsolute_append hsome _, pieces_attach base path⟩

theorem join_bytes (base : RawText) {path : RawText} (hpath : isAbsolute path = false) :
    ∃ front, join base path = ⟨front ++ path.bytes⟩ := by
  unfold join
  rw [hpath, if_neg Bool.false_ne_true]
  split
  · exact ⟨base.bytes, rfl⟩
  · exact ⟨base.bytes ++ [slash], congrArg RawText.mk (List.append_cons _ _ _)⟩

theorem join_ne_empty {base path : RawText} (hpath : Canonical path) : join base path ≠ "" := by
  intro hempty
  obtain ⟨front, hjoin⟩ := join_bytes base hpath.isAbsolute
  rw [hjoin] at hempty
  exact hpath.bytes_ne_nil (List.append_eq_nil_iff.1 (congrArg RawText.bytes hempty)).2

/-- To join two paths one after the other is to join both at once. -/
theorem join_join {base path more : RawText} (hpath : Canonical path)
    (hmore : isAbsolute more = false) :
    join (join base path) more = join base (attach path more) := by
  have habsolute : isAbsolute (attach path more) = false := by
    rw [← hpath.isAbsolute]
    exact isAbsolute_append hpath.bytes_ne_nil _
  -- The first joined path ends as `path` does, and so a slash is missing.
  have hfront : join (join base path) more = attach (join base path) more := by
    obtain ⟨front, hjoin⟩ := join_bytes base hpath.isAbsolute
    have hsome : front ++ path.bytes ≠ [] :=
      List.append_ne_nil_of_right_ne_nil _ hpath.bytes_ne_nil
    have hend : (front ++ path.bytes).getLast? ≠ some slash := by
      rw [List.getLast?_append, List.getLast?_eq_some_getLast hpath.bytes_ne_nil, Option.some_or,
        ← List.getLast?_eq_some_getLast]
      exact hpath.getLast?_ne
    rw [hjoin, join, hmore, if_neg Bool.false_ne_true, if_neg (not_or.2 ⟨hsome, hend⟩)]
  rw [hfront, join, join, hpath.isAbsolute, habsolute, if_neg Bool.false_ne_true,
    if_neg Bool.false_ne_true]
  split <;> simp [attach]

/-- To join names one after the other is to join the path that they make. The search does the first,
and what is said of its paths is said of the second. -/
theorem foldl_join {names : List RawText} (hsome : names ≠ [])
    (hnames : ∀ name ∈ names, IsName name ∧ slash ∉ name.bytes) (base : RawText) :
    names.foldl join base = join base (ofNames names) := by
  induction names generalizing base with
  | nil => exact absurd rfl hsome
  | cons name rest ih =>
      obtain ⟨hname, hrest⟩ := List.forall_mem_cons.1 hnames
      cases rest with
      | nil => rfl
      | cons next more =>
          have hbelow := canonical_ofNames (List.cons_ne_nil next more) hrest
          rw [List.foldl_cons, ih (List.cons_ne_nil _ _) hrest,
            join_join (canonical_of_isName hname) hbelow.isAbsolute, ofNames]

/-! ### The steps of joined paths

The steps of the base come first. So what is shown of a path that was found below the base, which
is what is left without those steps, are the names that lead down to it. -/

theorem ofPiece?_of_isName {name : RawText} (h : IsName name) :
    Component.ofPiece? name = some (.name name) := by
  rw [Component.ofPiece?, if_neg (not_or.2 ⟨h.1, h.2.1⟩), if_neg h.2.2]

theorem Canonical.steps_eq {path : RawText} (h : Canonical path) :
    (pieces path).filterMap Component.ofPiece? = (pieces path).map .name := by
  unfold Canonical at h
  generalize pieces path = names at h ⊢
  induction names with
  | nil => rfl
  | cons name rest ih =>
      obtain ⟨hname, hrest⟩ := List.forall_mem_cons.1 h
      rw [List.filterMap_cons_some (ofPiece?_of_isName hname), ih hrest, List.map_cons]

/-- A canonical path has its names for steps. -/
theorem Canonical.components_eq {path : RawText} (h : Canonical path) :
    components path = (pieces path).map .name := by
  have hhead : (pieces path).head? ≠ some (RawText.ofText ".") := fun heq =>
    (h _ (List.mem_of_mem_head? heq)).2.1 rfl
  simp only [components, h.steps_eq, h.isAbsolute, Bool.false_eq_true, if_false, hhead]

/-- Joined to a base, it adds these to the steps of the base. -/
theorem components_join {base path : RawText} (hpath : Canonical path) :
    components (join base path) = components base ++ (pieces path).map .name := by
  by_cases hbase : base = ""
  · subst hbase
    have hjoin : join "" path = path := by
      rw [join, hpath.isAbsolute, if_neg Bool.false_ne_true, if_pos (.inl rfl)]
      rfl
    rw [hjoin, hpath.components_eq]
    rfl
  · obtain ⟨front, hfront, hjoin⟩ := exists_join_eq hbase
    obtain ⟨habsolute, hpieces⟩ := hjoin path hpath
    obtain ⟨first, more, hmore⟩ := List.exists_cons_of_ne_nil (pieces_ne_nil front)
    -- A slash at the end of the base means nothing.
    have hsteps : (pieces front).filterMap Component.ofPiece? =
        (pieces base).filterMap Component.ofPiece? := by
      rcases hfront with hfront | hfront
      · rw [hfront]
      · rw [hfront, List.filterMap_append]
        exact (List.append_nil _).symm
    have hhead : (pieces front).head? = (pieces base).head? := by
      rcases hfront with hfront | hfront
      · rw [hfront]
      · rw [hfront, hmore]
        rfl
    have hheads : (pieces front ++ pieces path).head? = (pieces base).head? := by
      rw [← hhead, hmore]
      rfl
    simp only [components, habsolute, hpieces, hheads, List.filterMap_append, hsteps,
      hpath.steps_eq]
    split
    · rfl
    · split <;> rfl

theorem dropSteps?_append (start steps : List Component) :
    dropSteps? start (start ++ steps) = some steps := by
  induction start with
  | nil => rfl
  | cons step start ih => rw [List.cons_append, dropSteps?, if_pos rfl, ih]

/-- The path of names as it is shown. -/
def shownPath (names : List RawText) : String :=
  "/".intercalate (names.map RawText.shown)

/-- Seen from its base, a joined path is the path of its names, each as it is shown. Steps are
compared here and not texts, so a slash more or less at the end of the base is of no matter. -/
theorem relativeTo_join {base path : RawText} (hpath : Canonical path) :
    relativeTo base (join base path) = shownPath (pieces path) := by
  rw [relativeTo, components_join hpath, dropSteps?_append, Option.getD_some, List.map_map,
    shownPath]
  rfl

/-- The name at the end of a canonical path is its last piece, whatever base it is joined to. -/
theorem fileName?_join {base path : RawText} (hpath : Canonical path) :
    fileName? (join base path) = (pieces path).getLast? := by
  obtain ⟨above, name, hname⟩ :=
    (List.eq_nil_or_concat (pieces path)).resolve_left (pieces_ne_nil path)
  rw [List.concat_eq_append] at hname
  rw [fileName?, components_join hpath, hname, List.map_append, ← List.append_assoc,
    List.map_singleton, List.getLast?_concat, List.getLast?_concat]

/-! ### Shown paths -/

/-- The texts of a path are put together as their bytes are. -/
theorem ofText_intercalate (texts : List String) :
    RawText.ofText ("/".intercalate texts) = ofNames (texts.map RawText.ofText) := by
  induction texts with
  | nil => rfl
  | cons text rest ih =>
      cases rest with
      | nil => rfl
      | cons next more =>
          have hjoined : "/".intercalate (text :: next :: more) =
              text ++ ("/" ++ "/".intercalate (next :: more)) := by
            apply String.toList_injective
            simp [String.toList_intercalate]
          have hbytes := RawText.ofText_append text ("/" ++ "/".intercalate (next :: more))
          rw [RawText.ofText_append "/"] at hbytes
          rw [hjoined, List.map_cons, List.map_cons, ofNames, ← List.map_cons, ← ih]
          exact congrArg RawText.mk hbytes

theorem pieces_shownPath {names : List RawText} (hsome : names ≠ [])
    (hnames : ∀ name ∈ names, slash ∉ name.bytes) :
    pieces (shownPath names) = names.map fun name => RawText.ofText name.shown := by
  rw [shownPath, ofText_intercalate, List.map_map, pieces_ofNames]
  · rfl
  · simpa using hsome
  · intro name hname
    obtain ⟨original, horiginal, rfl⟩ := List.mem_map.1 hname
    exact RawText.slash_notMem_ofText_shown (hnames original horiginal)

/-- What is no name of its own is shown as it is, so no other name is shown like it. -/
theorem isName_shown {name : RawText} (h : IsName name) : IsName (RawText.ofText name.shown) := by
  have hplain : ∀ text : String, '\uFFFD' ∉ text.toList → name ≠ RawText.ofText text →
      RawText.ofText name.shown ≠ RawText.ofText text := by
    intro text htext hne heq
    have hshown := RawText.ofText_injective heq
    rw [← hshown] at htext hne
    exact hne (RawText.ofText_shown htext).symm
  exact ⟨hplain _ (by decide) h.1, hplain _ (by decide) h.2.1, hplain _ (by decide) h.2.2⟩

/-- So the path that is shown is canonical, also for names that are no texts. -/
theorem canonical_shownPath {names : List RawText} (hsome : names ≠ [])
    (hnames : ∀ name ∈ names, IsName name ∧ slash ∉ name.bytes) : Canonical (shownPath names) := by
  rw [Canonical, pieces_shownPath hsome fun name hname => (hnames name hname).2]
  intro piece hpiece
  obtain ⟨name, hname, rfl⟩ := List.mem_map.1 hpiece
  exact isName_shown (hnames name hname).1

/-- Texts are the pieces of the path that is shown for them. -/
theorem pieces_shownPath_of_isText {names : List RawText} (hsome : names ≠ [])
    (hnames : ∀ name ∈ names, slash ∉ name.bytes) (htexts : ∀ name ∈ names, name.IsText) :
    pieces (shownPath names) = names := by
  rw [pieces_shownPath hsome hnames]
  exact (List.map_congr_left fun name hname => (htexts name hname).ofText_shown).trans
    (List.map_id names)

end Path

end BuildPrune
