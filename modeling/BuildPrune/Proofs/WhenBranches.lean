import BuildPrune.Proofs.Thinning
import BuildPrune.Proofs.WrittenTokens

/-!
# BuildPrune.Proofs.WhenBranches

`when (e) { ... }` with one branch `condition -> method()` on each line, and what pruning by the
names of calls leaves of it.

Two things stand between a branch and a statement of its own. A first condition that is no literal
is read as the parameters of the block, so its branch is only the call (`When.params`,
`When.entries`). And `else` carries the statement in front of it on, so the last two branches
are one statement (`When.groups`). What is left of the block are its parameters and the groups in
which no call is removed (`When.leftWords`).

`When.leftWords_eq_iff` compares this with the block in which each branch lives on its own.
-/

namespace BuildPrune

/-! ### Branches -/

namespace When

/-- The condition of a branch. Others than these would be expressions with a shape of their own. -/
inductive Condition
  /-- A name, or a dotted name. -/
  | name (first : String) (members : List String)
  /-- A string or a number as it is written. -/
  | literal (kind : TokenKind) (text : String)
  /-- `else` -/
  | otherwise
  deriving DecidableEq

namespace Condition

/-- The words of a condition. -/
def words : Condition → List (TokenKind × String)
  | name first members =>
    (.ident, first) :: members.flatMap fun member => [(.punct, "."), (.ident, member)]
  | literal kind text => [(kind, text)]
  | otherwise => [(.ident, "else")]

/-- Names are no keywords, and literals are strings or numbers. -/
def Fits : Condition → Prop
  | name first members => IsName first ∧ ∀ member ∈ members, IsIdentifier member
  | literal kind _ => kind = .str ∨ kind = .number
  | otherwise => True

instance : DecidablePred Fits
  | name first members =>
    inferInstanceAs (Decidable (IsName first ∧ ∀ member ∈ members, IsIdentifier member))
  | literal kind _ => inferInstanceAs (Decidable (kind = .str ∨ kind = .number))
  | otherwise => isTrue trivial

def isLiteral : Condition → Bool
  | literal _ _ => true
  | _ => false

end Condition

/-- A branch `condition -> method()`. -/
structure Branch where
  condition : Condition
  method : String
  deriving DecidableEq

/-- The words of the call `method()`. -/
def callWords (method : String) : List (TokenKind × String) :=
  [(.ident, method), (.punct, "("), (.punct, ")")]

/-- The words of a branch. -/
def Branch.words (branch : Branch) : List (TokenKind × String) :=
  branch.condition.words ++ (.punct, "->") :: callWords branch.method

/-- The words of `when (subject)` with a block. -/
def around (subject : String) (block : List (TokenKind × String)) : List (TokenKind × String) :=
  (.ident, "when") :: (.punct, "(") :: (.ident, subject) :: (.punct, ")") :: (.punct, openBrace) ::
    (block ++ [(.punct, closeBrace)])

end When

/-- `when (subject)` with a block of branches. -/
structure When where
  subject : String
  branches : List When.Branch

namespace When

/-- There are branches, what has to be a name is one, and `else` stands in the last branch only. -/
structure WellFormed (w : When) : Prop where
  nonempty : w.branches ≠ []
  subject : IsName w.subject
  methods : ∀ branch ∈ w.branches, IsName branch.method
  conditions : ∀ branch ∈ w.branches, branch.condition.Fits
  otherwise_last : ∀ branch ∈ w.branches.dropLast, branch.condition ≠ .otherwise

instance (w : When) : Decidable w.WellFormed :=
  decidable_of_iff (w.branches ≠ [] ∧ IsName w.subject ∧
      (∀ branch ∈ w.branches, IsName branch.method) ∧
      (∀ branch ∈ w.branches, branch.condition.Fits) ∧
      ∀ branch ∈ w.branches.dropLast, branch.condition ≠ .otherwise)
    ⟨fun ⟨hnonempty, hsubject, hmethods, hconditions, hlast⟩ =>
        ⟨hnonempty, hsubject, hmethods, hconditions, hlast⟩,
      fun h => ⟨h.nonempty, h.subject, h.methods, h.conditions, h.otherwise_last⟩⟩

/-- The words of what would be left if each branch lived on its own. -/
def ownWords (methods : List String) (w : When) : List (TokenKind × String) :=
  around w.subject ((w.branches.filter (·.method ∉ methods)).flatMap Branch.words)

/-! ### Entries of the block -/

/-- A branch, or the call of one whose condition is not read with it. -/
structure Entry where
  condition : Option Condition
  method : String

/-- The words of an entry. -/
def Entry.words (entry : Entry) : List (TokenKind × String) :=
  match entry.condition with
  | none => callWords entry.method
  | some condition => condition.words ++ (.punct, "->") :: callWords entry.method

/-- The branch as an entry of its own. -/
def Branch.entry (branch : Branch) : Entry :=
  ⟨some branch.condition, branch.method⟩

/-- The words in front of the first entry: a condition that is read as parameters, and its arrow. -/
def params : List Branch → List (TokenKind × String)
  | [] => []
  | branch :: _ =>
    if branch.condition.isLiteral then [] else branch.condition.words ++ [(.punct, "->")]

/-- The first entry of the block. -/
def headEntry (branch : Branch) : Entry :=
  if branch.condition.isLiteral then branch.entry else ⟨none, branch.method⟩

/-- The entries of the block. -/
def entries : List Branch → List Entry
  | [] => []
  | branch :: more => headEntry branch :: more.map Branch.entry

/-- The entries by statements: an `else` belongs to the statement in front of it. As it carries on
one entry only, a statement has one or two of them. -/
def groups : List Entry → List (List Entry)
  | [] => []
  | [entry] => [[entry]]
  | entry :: next :: more =>
    if next.condition = some .otherwise then [entry, next] :: groups more
    else [entry] :: groups (next :: more)

/-- The entries that are left: those of the groups in which no call is removed. -/
def left (methods : List String) (list : List Entry) : List Entry :=
  ((groups list).filter fun group => group.all (·.method ∉ methods)).flatten

/-- The words of what is left. -/
def leftWords (methods : List String) (w : When) : List (TokenKind × String) :=
  around w.subject (params w.branches ++ (left methods (entries w.branches)).flatMap Entry.words)

/-! ### Groups

Two entries make a group if the second is an `else`. What is left of the block is decided group by
group, and compared with what would be left if it was decided branch by branch. -/

/-- The groups hold all entries, in their order. -/
theorem flatten_groups (list : List Entry) : (groups list).flatten = list := by
  fun_induction groups list with
  | case1 => rfl
  | case2 => rfl
  | case3 entry next more _ ih => simp [ih]
  | case4 entry next more _ ih => simp [ih]

section Whole

variable {α : Type} {p : α → Bool}

/-- Of a group either all or nothing is kept. So what is kept of a group is kept of its entries one
by one as well. -/
theorem whole_sublist (group : List α) :
    (if group.all p then group else []).Sublist (group.filter p) := by
  by_cases hall : group.all p = true
  · rw [if_pos hall, List.filter_eq_self.2 (List.all_eq_true.1 hall)]
  · rw [if_neg hall]
    exact List.nil_sublist _

/-- Keeping a group as a whole is keeping its entries one by one exactly if these have the same
fate. -/
theorem whole_eq_iff {group : List α} :
    (if group.all p then group else []) = group.filter p ↔
      ∀ a ∈ group, ∀ b ∈ group, p a = p b := by
  by_cases hall : group.all p = true
  · rw [if_pos hall, List.filter_eq_self.2 (List.all_eq_true.1 hall)]
    refine iff_of_true rfl ?_
    intro a ha b hb
    rw [List.all_eq_true.1 hall a ha, List.all_eq_true.1 hall b hb]
  · rw [if_neg hall, eq_comm, List.filter_eq_nil_iff]
    obtain ⟨a, ha, hpa⟩ : ∃ a ∈ group, ¬p a = true := by simpa using hall
    constructor
    · intro hnone b hb c hc
      rw [eq_false_of_ne_true (hnone b hb), eq_false_of_ne_true (hnone c hc)]
    · intro hsame b hb
      rw [hsame b hb a ha]
      exact hpa

/-- What is kept of whole groups is kept of the entries. -/
theorem wholes_sublist (groups : List (List α)) :
    ((groups.filter (·.all p)).flatten).Sublist (groups.flatten.filter p) := by
  induction groups with
  | nil => exact .slnil
  | cons group groups ih =>
      have hhead := (whole_sublist (p := p) group).append ih
      rw [List.flatten_cons, List.filter_append, List.filter_cons]
      split at hhead
      · next hall => simpa [hall] using hhead
      · next hall => simpa [hall] using hhead

/-- Whole groups are all that is kept exactly if none is kept in part. A group that is kept in part
is missing from the one list and there in the other, and the lists have an order. -/
theorem wholes_eq_iff (groups : List (List α)) :
    (groups.filter (·.all p)).flatten = groups.flatten.filter p ↔
      ∀ group ∈ groups, ∀ a ∈ group, ∀ b ∈ group, p a = p b := by
  induction groups with
  | nil => simp
  | cons group groups ih =>
      have hsplit : ((group :: groups).filter (·.all p)).flatten =
          (if group.all p then group else []) ++ (groups.filter (·.all p)).flatten := by
        rw [List.filter_cons]
        split <;> simp_all
      rw [hsplit, List.flatten_cons, List.filter_append, List.forall_mem_cons, ← ih, ← whole_eq_iff]
      constructor
      · intro heq
        have hlength := congrArg List.length heq
        have hhead := whole_sublist (p := p) group
        have hmore := wholes_sublist (p := p) groups
        have hle := hhead.length_le
        have hle' := hmore.length_le
        simp only [List.length_append] at hlength
        exact ⟨hhead.eq_of_length (by omega), hmore.eq_of_length (by omega)⟩
      · rintro ⟨hhead, hmore⟩
        rw [hhead, hmore]

end Whole

/-- In each group the calls are removed together or stay together. -/
def Agree (methods : List String) (list : List Entry) : Prop :=
  ∀ group ∈ groups list, ∀ entry ∈ group, ∀ other ∈ group,
    (entry.method ∈ methods ↔ other.method ∈ methods)

/-- No entry is left whose call is removed. -/
theorem left_sublist (methods : List String) (list : List Entry) :
    (left methods list).Sublist (list.filter (·.method ∉ methods)) := by
  have h := wholes_sublist (p := fun entry : Entry => decide (entry.method ∉ methods)) (groups list)
  rwa [flatten_groups] at h

/-- What is left are the entries with calls that stay exactly if each group agrees. -/
theorem left_eq_filter_iff {methods : List String} {list : List Entry} :
    left methods list = list.filter (·.method ∉ methods) ↔ Agree methods list := by
  have h := wholes_eq_iff (p := fun entry : Entry => decide (entry.method ∉ methods))
    (groups list)
  rw [flatten_groups] at h
  rw [left, h, Agree]
  simp only [decide_eq_decide, not_iff_not]

/-- If `else` stands in the last entry only, the last two entries are the only ones that have to
agree. All other groups have one entry. -/
theorem agree_iff {methods : List String} {list : List Entry}
    (h : ∀ entry ∈ list.dropLast, entry.condition ≠ some .otherwise) :
    Agree methods list ↔ ∀ before entry last, list = before ++ [entry, last] →
      last.condition = some .otherwise → (entry.method ∈ methods ↔ last.method ∈ methods) := by
  unfold Agree
  fun_induction groups list with
  | case1 => simp
  | case2 entry =>
      refine iff_of_true (by simp) ?_
      intro before e last heq
      have hlength := congrArg List.length heq
      simp at hlength
  | case3 entry next more hnext ih =>
      -- `else` is in the last entry only, so the pair that it makes ends the list.
      obtain rfl : more = [] := by
        cases more with
        | nil => rfl
        | cons third more => exact absurd hnext (h next (by simp))
      constructor
      · intro hsame before e last heq hlast
        obtain ⟨rfl, hpair⟩ : before = [] ∧ [e, last] = [entry, next] := by
          cases before with
          | nil => exact ⟨rfl, heq.symm⟩
          | cons first before =>
              have hlength := congrArg List.length heq
              simp at hlength
        obtain ⟨rfl, rfl⟩ : e = entry ∧ last = next := by simpa using hpair
        exact hsame [e, last] (by simp) e (by simp) last (by simp)
      · intro hlast
        have hsame := hlast [] entry next rfl hnext
        simp [groups, hsame]
  | case4 entry next more hnext ih =>
      rw [List.forall_mem_cons, ih fun e he => h e (by simp [he])]
      constructor
      · rintro ⟨-, hlast⟩ before e last heq hcondition
        cases before with
        | nil =>
            obtain ⟨rfl, rfl, -⟩ : entry = e ∧ next = last ∧ more = [] := by simpa using heq
            exact absurd hcondition hnext
        | cons first before =>
            exact hlast before e last (List.cons.inj heq).2 hcondition
      · intro hlast
        refine ⟨by simp, fun before e last heq => hlast (entry :: before) e last ?_⟩
        rw [heq, List.cons_append]

/-! ### Counting calls and arrows

Each entry has one call, and one arrow if it has its condition. So if two lists of entries have
the same words then they agree in the numbers of both, and a branch that has lost its condition is
told from one that has not. -/

/-- Neither a parenthesis nor an arrow stands in a condition, so both count entries: a parenthesis
for each call and an arrow for each condition. -/
theorem Condition.count_words {condition : Condition} (h : condition.Fits) {text : String}
    (htext : text ∈ ["(", "->"]) : condition.words.count (.punct, text) = 0 := by
  have hpoint : text ≠ "." := by
    rintro rfl
    exact absurd htext (by decide)
  refine List.count_eq_zero.2 ?_
  intro hmem
  cases condition with
  | name first members => simp [words, hpoint] at hmem
  | literal kind literal =>
      simp only [words, List.mem_singleton, Prod.mk.injEq] at hmem
      rcases h with h | h <;> simp [h] at hmem
  | otherwise => simp [words] at hmem

/-- The condition of an entry, if it has one, is well-formed. -/
def Entry.Fits (entry : Entry) : Prop :=
  ∀ condition ∈ entry.condition, condition.Fits

/-- Each entry has one call, and one opening parenthesis by it. -/
theorem count_calls {list : List Entry} (h : ∀ entry ∈ list, entry.Fits) :
    (list.flatMap Entry.words).count (.punct, "(") = list.length := by
  induction list with
  | nil => rfl
  | cons entry list ih =>
      obtain ⟨hentry, hmore⟩ := List.forall_mem_cons.1 h
      rw [List.flatMap_cons, List.count_append, ih hmore]
      obtain ⟨condition, method⟩ := entry
      cases condition with
      | none =>
          simp [Entry.words, callWords]
          omega
      | some condition =>
          have hcount := Condition.count_words (hentry condition rfl)
            (show "(" ∈ ["(", "->"] by simp)
          simp [Entry.words, callWords, hcount]
          omega

/-- Each entry with a condition has one arrow. -/
theorem count_arrows {list : List Entry} (h : ∀ entry ∈ list, entry.Fits)
    (hconditions : ∀ entry ∈ list, entry.condition.isSome = true) :
    (list.flatMap Entry.words).count (.punct, "->") = list.length := by
  induction list with
  | nil => rfl
  | cons entry list ih =>
      obtain ⟨hentry, hmore⟩ := List.forall_mem_cons.1 h
      obtain ⟨hsome, hconditions⟩ := List.forall_mem_cons.1 hconditions
      rw [List.flatMap_cons, List.count_append, ih hmore hconditions]
      obtain ⟨condition, method⟩ := entry
      obtain ⟨condition, rfl⟩ := Option.isSome_iff_exists.1 hsome
      have hcount := Condition.count_words (hentry condition rfl) (show "->" ∈ ["(", "->"] by simp)
      simp [Entry.words, callWords, hcount]
      omega

/-- Entries are told from some of them by their words: if some were missing, so would be their
parentheses. -/
theorem words_eq_iff {some all : List Entry} (hsome : some.Sublist all)
    (h : ∀ entry ∈ all, entry.Fits) :
    some.flatMap Entry.words = all.flatMap Entry.words ↔ some = all := by
  refine ⟨fun heq => hsome.eq_of_length ?_, fun heq => by rw [heq]⟩
  rw [← count_calls h, ← heq, count_calls fun entry hentry => h entry (hsome.subset hentry)]

/-- A condition that has lost its call makes no entries with those behind it: there are more arrows
than calls. -/
theorem words_ne_of_condition {condition : Condition} (hcondition : condition.Fits)
    {some own : List Entry} (h : ∀ entry ∈ own, entry.Fits ∧ entry.condition.isSome = true)
    (hsome : some.Sublist own) :
    condition.words ++ [(.punct, "->")] ++ some.flatMap Entry.words ≠ own.flatMap Entry.words := by
  intro heq
  have hfits : ∀ entry ∈ own, entry.Fits := fun entry hentry => (h entry hentry).1
  have hconditions : ∀ entry ∈ own, entry.condition.isSome = true :=
    fun entry hentry => (h entry hentry).2
  have hfitsSome : ∀ entry ∈ some, entry.Fits := fun entry hentry =>
    hfits entry (hsome.subset hentry)
  have hconditionsSome : ∀ entry ∈ some, entry.condition.isSome = true := fun entry hentry =>
    hconditions entry (hsome.subset hentry)
  -- As many calls are on both sides, and the left one has one arrow more.
  have hcalls := congrArg (List.count (.punct, "(")) heq
  have harrows := congrArg (List.count (.punct, "->")) heq
  rw [List.count_append, List.count_append, Condition.count_words hcondition (by simp),
    count_calls hfits, count_calls hfitsSome] at hcalls
  rw [List.count_append, List.count_append, Condition.count_words hcondition (by simp),
    count_arrows hfits hconditions, count_arrows hfitsSome hconditionsSome] at harrows
  simp at hcalls harrows
  omega

/-! ### What is left -/

theorem entry_words (branch : Branch) : branch.entry.words = branch.words := rfl

/-- Blocks of the same header are told apart by what is in them. -/
theorem around_inj {subject : String} {block other : List (TokenKind × String)} :
    around subject block = around subject other ↔ block = other := by
  simp [around]

theorem headEntry_method (branch : Branch) : (headEntry branch).method = branch.method := by
  rw [headEntry]
  split <;> rfl

theorem headEntry_condition (branch : Branch) :
    (headEntry branch).condition ≠ some .otherwise := by
  rw [headEntry]
  split
  · next hliteral =>
      intro heq
      rw [Option.some.inj heq] at hliteral
      cases hliteral
  · exact nofun

/-- An entry has the call of its branch, and its condition if it has one. The first entry may be
without: its condition is read as parameters of the block. -/
theorem mem_entries {branches : List Branch} {entry : Entry} (h : entry ∈ entries branches) :
    ∃ branch ∈ branches, entry.method = branch.method ∧
      ∀ condition ∈ entry.condition, condition = branch.condition := by
  have hentry : ∀ branch : Branch, ∀ condition ∈ branch.entry.condition,
      condition = branch.condition := by
    rintro branch condition ⟨rfl⟩
    rfl
  cases branches with
  | nil => cases h
  | cons first more =>
      rcases List.mem_cons.1 h with rfl | h
      · refine ⟨first, by simp, headEntry_method first, ?_⟩
        rw [headEntry]
        split
        · exact hentry first
        · exact nofun
      · obtain ⟨branch, hbranch, rfl⟩ := List.mem_map.1 h
        exact ⟨branch, by simp [hbranch], rfl, hentry branch⟩

/-- The entries of a well-formed `when` have well-formed conditions. -/
theorem WellFormed.fits_entries {w : When} (h : w.WellFormed) :
    ∀ entry ∈ entries w.branches, entry.Fits := by
  intro entry hentry condition hcondition
  obtain ⟨branch, hbranch, -, heq⟩ := mem_entries hentry
  rw [heq condition hcondition]
  exact h.conditions branch hbranch

/-- And they call names. -/
theorem WellFormed.isName_entries {w : When} (h : w.WellFormed) :
    ∀ entry ∈ entries w.branches, IsName entry.method := by
  intro entry hentry
  obtain ⟨branch, hbranch, heq, -⟩ := mem_entries hentry
  rw [heq]
  exact h.methods branch hbranch

/-- `else` stands in the last entry only. The first entry never has one, since `else` would be read
as a parameter there. -/
theorem otherwise_entries {first : Branch} {more : List Branch}
    (h : ∀ branch ∈ (first :: more).dropLast, branch.condition ≠ .otherwise) :
    ∀ entry ∈ (entries (first :: more)).dropLast, entry.condition ≠ some .otherwise := by
  cases more with
  | nil => simp [entries]
  | cons second more =>
      have hrest : (entries (first :: second :: more)).dropLast =
          headEntry first :: (second :: more).dropLast.map Branch.entry := by
        simp [entries]
      rw [hrest]
      refine List.forall_mem_cons.2 ⟨headEntry_condition first, ?_⟩
      intro e he
      obtain ⟨branch, hbranch, rfl⟩ := List.mem_map.1 he
      exact fun heq => h branch (by simp [hbranch]) (Option.some.inj heq)

/-- The last two entries agree exactly if the last two branches do. -/
theorem agree_entries_iff {methods : List String} {first : Branch} {more : List Branch}
    (h : ∀ branch ∈ (first :: more).dropLast, branch.condition ≠ .otherwise) :
    Agree methods (entries (first :: more)) ↔ ∀ before branch method,
      first :: more = before ++ [branch, ⟨.otherwise, method⟩] →
        (branch.method ∈ methods ↔ method ∈ methods) := by
  rw [agree_iff]
  -- The entries match the branches one by one. Only the first may have lost its condition, and
  -- that is no matter, as methods alone are compared.
  · constructor
    · intro hlast before branch method heq
      cases before with
      | nil =>
          obtain ⟨rfl, rfl⟩ := List.cons.inj heq
          have hsame := hlast [] (headEntry first) (Branch.entry ⟨.otherwise, method⟩) rfl rfl
          rwa [headEntry_method] at hsame
      | cons b before =>
          obtain ⟨rfl, rfl⟩ := List.cons.inj heq
          refine hlast (headEntry first :: before.map Branch.entry) branch.entry
            (Branch.entry ⟨.otherwise, method⟩) ?_ rfl
          simp [entries]
    · intro hlast before e last heq hcondition
      cases before with
      | nil =>
          obtain ⟨rfl, hmore⟩ := List.cons.inj heq
          obtain ⟨b, _, rfl, rfl, hnil⟩ := List.map_eq_cons_iff.1 hmore
          obtain rfl := List.map_eq_nil_iff.1 hnil
          have hb : b.condition = .otherwise := Option.some.inj hcondition
          rw [headEntry_method]
          refine hlast [] first b.method ?_
          rw [← hb]
          rfl
      | cons b before =>
          obtain ⟨rfl, hmore⟩ := List.cons.inj heq
          obtain ⟨start, _, rfl, rfl, htwo⟩ := List.map_eq_append_iff.1 hmore
          obtain ⟨b, _, rfl, rfl, hone⟩ := List.map_eq_cons_iff.1 htwo
          obtain ⟨b', _, rfl, rfl, hnone⟩ := List.map_eq_cons_iff.1 hone
          obtain rfl := List.map_eq_nil_iff.1 hnone
          have hb : b'.condition = .otherwise := Option.some.inj hcondition
          refine hlast (first :: start) b b'.method ?_
          rw [← hb]
          rfl
  · exact otherwise_entries h

/-- The words of the branches that stay are those of their entries. -/
theorem flatMap_entry (methods : List String) (branches : List Branch) :
    (branches.filter (·.method ∉ methods)).flatMap Branch.words =
      ((branches.map Branch.entry).filter (·.method ∉ methods)).flatMap Entry.words := by
  rw [List.filter_map, List.flatMap_map]
  rfl

/-- What is left of a `when` is what would be left if each branch lived on its own, exactly if two
conditions hold: the first condition is a literal or its call stays, and an `else` at the end has
the same fate as the branch in front of it.

If the first condition is read as parameters, it stays without its call, and this shows in the
number of arrows. From there on the groups are compared. -/
theorem leftWords_eq_iff {methods : List String} {w : When} (h : w.WellFormed) :
    leftWords methods w = ownWords methods w ↔
      (∀ branch ∈ w.branches.head?, branch.condition.isLiteral = true ∨ branch.method ∉ methods) ∧
        ∀ before branch method, w.branches = before ++ [branch, ⟨.otherwise, method⟩] →
          (branch.method ∈ methods ↔ method ∈ methods) := by
  obtain ⟨subject, branches⟩ := w
  obtain ⟨first, more, rfl⟩ := List.exists_cons_of_ne_nil h.nonempty
  have hfits : ∀ entry ∈ entries (first :: more), entry.Fits := h.fits_entries
  have hblock : (left methods (entries (first :: more))).flatMap Entry.words =
      ((entries (first :: more)).filter (·.method ∉ methods)).flatMap Entry.words ↔
        Agree methods (entries (first :: more)) := by
    rw [words_eq_iff (left_sublist _ _) fun e he => hfits e (List.mem_of_mem_filter he),
      left_eq_filter_iff]
  rw [leftWords, ownWords, around_inj, ← agree_entries_iff h.otherwise_last, ← hblock]
  have hhead : ∀ p : Branch → Prop, (∀ branch ∈ (first :: more).head?, p branch) ↔ p first := by
    simp
  rw [hhead, params]
  by_cases hliteral : first.condition.isLiteral = true
  · rw [if_pos hliteral, flatMap_entry, entries, headEntry, if_pos hliteral]
    simp [hliteral]
  · have hhead : headEntry first = ⟨none, first.method⟩ := by rw [headEntry, if_neg hliteral]
    rw [if_neg hliteral]
    by_cases hmethod : first.method ∈ methods
    · -- The arrow of the first condition has lost its call.
      refine iff_of_false ?_ (by simp [hliteral, hmethod])
      intro heq
      have hdrop : (entries (first :: more)).filter (·.method ∉ methods) =
          (more.map Branch.entry).filter (·.method ∉ methods) := by
        rw [entries, hhead, List.filter_cons_of_neg (by simpa using hmethod)]
      have hleft := left_sublist methods (entries (first :: more))
      rw [hdrop] at hleft
      rw [List.filter_cons_of_neg (by simpa using hmethod), flatMap_entry] at heq
      refine words_ne_of_condition (h.conditions first (by simp)) ?_ hleft heq
      intro entry hentry
      have hmem := List.mem_of_mem_filter hentry
      obtain ⟨branch, -, rfl⟩ := List.mem_map.1 hmem
      exact ⟨hfits branch.entry (List.mem_cons_of_mem _ hmem), rfl⟩
    · have hown : ((first :: more).filter (·.method ∉ methods)).flatMap Branch.words =
          first.condition.words ++ [(.punct, "->")] ++
            ((entries (first :: more)).filter (·.method ∉ methods)).flatMap Entry.words := by
        rw [entries, hhead, List.filter_cons_of_pos (by simpa using hmethod),
          List.filter_cons_of_pos (by simpa using hmethod), List.flatMap_cons, List.flatMap_cons,
          flatMap_entry]
        simp [Branch.words, Entry.words]
      rw [hown, List.append_cancel_left_eq]
      simp [hmethod]

end When

end BuildPrune
