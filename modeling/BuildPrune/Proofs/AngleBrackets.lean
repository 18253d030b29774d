import BuildPrune.Proofs.Completeness

/-!
# BuildPrune.Proofs.AngleBrackets

**The type arguments that are read are those that the look-ahead has found.** Two counters run over
the angle brackets: the look-ahead counts down to the bracket that closes the first one, and the
reader counts the brackets inside, where a comma belongs to what they hold. Both are `angleDepth`,
the brackets that are open behind the tokens so far.

* `staysOpen_of_typeArgsLength`: up to the end that the look-ahead finds, a bracket is open. So that
  end is the only place that closes the bracket at the cursor (`ClosesAngle.unique`), and what is
  between the two is balanced.
* `splitTypeParams_cons`: of balanced tokens the reader's counter is the depth, it is never at zero
  in front of a closing bracket, and the tokens are divided at depth zero only.

`readsTypeArgs_of_typeArgsClose` puts them together.
-/

namespace BuildPrune

/-! ### Depth

The depth is an integer, since behind a closing bracket that nothing has opened it is below zero.
A list of tokens is balanced if the depth is zero behind it and nowhere below zero on the way, and
for a pair of brackets there is only one place to close it. -/

/-- How many more angle brackets the tokens open than they close. -/
def angleDepth (tokens : List Token) : Int :=
  tokens.countP (·.is "<") - tokens.countP (·.is ">")

theorem angleDepth_append (tokens more : List Token) :
    angleDepth (tokens ++ more) = angleDepth tokens + angleDepth more := by
  simp only [angleDepth, List.countP_append, Int.natCast_add]
  omega

theorem angleDepth_cons (t : Token) (rest : List Token) :
    angleDepth (t :: rest) = angleDepth [t] + angleDepth rest :=
  angleDepth_append [t] rest

theorem angleDepth_opening {t : Token} (h : t.is "<" = true) : angleDepth [t] = 1 := by
  simp [angleDepth, h, Token.not_is_of_is h (show "<" ≠ ">" by decide)]

theorem angleDepth_closing {t : Token} (h : t.is ">" = true) : angleDepth [t] = -1 := by
  simp [angleDepth, h, Token.not_is_of_is h (show ">" ≠ "<" by decide)]

theorem angleDepth_other {t : Token} (hopening : ¬t.is "<" = true) (hclosing : ¬t.is ">" = true) :
    angleDepth [t] = 0 := by
  simp [angleDepth, hopening, hclosing]

/-- Every angle bracket that is opened is closed, and none is closed that was not opened. -/
structure AngleBalanced (tokens : List Token) : Prop where
  depth : angleDepth tokens = 0
  fronts {front} (h : front <+: tokens) : 0 ≤ angleDepth front

/-- At depth zero, balanced tokens can be divided: the first part closes what it opens, so the
second has nothing to close for it. -/
theorem AngleBalanced.of_append {front rest : List Token} (h : AngleBalanced (front ++ rest))
    (hfront : angleDepth front = 0) : AngleBalanced front ∧ AngleBalanced rest := by
  have hdepth := h.depth
  rw [angleDepth_append, hfront] at hdepth
  refine ⟨⟨hfront, fun hpart => h.fronts (hpart.trans (List.prefix_append _ _))⟩,
    ⟨by omega, fun {part} hpart => ?_⟩⟩
  have hdown := h.fronts ((List.prefix_append_right_inj front).2 hpart)
  rw [angleDepth_append, hfront] at hdown
  omega

/-- Place `k` closes the angle bracket that the tokens start with: it is the first behind which no
bracket is open. Nothing is said of what the tokens are, so this is the notion of the text and not
of the reader. -/
structure ClosesAngle (tokens : List Token) (k : Nat) : Prop where
  opening : tokens.head?.any (·.is "<") = true
  closing : tokens[k]?.any (·.is ">") = true
  closed : angleDepth (tokens.take (k + 1)) = 0
  within {j} (hpos : 0 < j) (hj : j ≤ k) : 0 < angleDepth (tokens.take j)

/-- A bracket is closed at one place. Of two such places the smaller one would leave no bracket open
in front of the larger one. -/
theorem ClosesAngle.unique {tokens : List Token} {k l : Nat} (hk : ClosesAngle tokens k)
    (hl : ClosesAngle tokens l) : k = l := by
  have hle : ∀ {k l : Nat}, ClosesAngle tokens k → ClosesAngle tokens l → l ≤ k := by
    intro k l hk hl
    by_contra hlt
    have hopen := hl.within (Nat.succ_pos k) (by omega)
    rw [hk.closed] at hopen
    exact absurd hopen (by decide)
  exact Nat.le_antisymm (hle hl hk) (hle hk hl)

/-! ### Looking ahead

The look-ahead starts at the bracket at the cursor and goes on as long as a bracket is open. What
is proved of it is an invariant of its loop, with the depth for the counter. -/

/-- If `depth` brackets are open in front of the tokens, one at least is open all the way behind
`count` of them, and there it is one. -/
structure StaysOpen (depth : Int) (tokens : List Token) (count : Nat) : Prop where
  last : depth + angleDepth (tokens.take count) = 1
  within {j} (hj : j ≤ count) : 0 < depth + angleDepth (tokens.take j)

/-- A token in front changes the depth by what it opens or closes, and moves the end by one. -/
theorem StaysOpen.cons {depth : Int} {t : Token} {rest : List Token} {count : Nat}
    (hdepth : 0 < depth) (h : StaysOpen (depth + angleDepth [t]) rest count) :
    StaysOpen depth (t :: rest) (count + 1) := by
  refine ⟨?_, fun {j} hj => ?_⟩
  · rw [List.take_succ_cons, angleDepth_cons, ← Int.add_assoc]
    exact h.last
  · cases j with
    | zero => simpa [angleDepth] using hdepth
    | succ j =>
        rw [List.take_succ_cons, angleDepth_cons, ← Int.add_assoc]
        exact h.within (Nat.le_of_succ_le_succ hj)

/-- Up to the end that the scan finds, a bracket is open. The counter of the scan is the depth, and
the scan ends at the first bracket that would bring it to zero. -/
theorem staysOpen_of_typeArgsLength {tokens : List Token} {depth count : Nat} (hdepth : 0 < depth)
    (h : typeArgsLength depth tokens = some count) : StaysOpen depth tokens count := by
  fun_induction typeArgsLength depth tokens generalizing count with
  | case1 | case2 | case5 | case7 | case10 => cases h
  -- An inner bracket opens.
  | case3 depth t rest _ hopening ih =>
      obtain ⟨inner, hinner, rfl⟩ := Option.map_eq_some_iff.1 h
      have hrest := ih (Nat.succ_pos depth) hinner
      refine StaysOpen.cons (by omega) ?_
      rw [angleDepth_opening hopening]
      exact_mod_cast hrest
  | case4 => contradiction
  -- The scan is at the bracket that closes the outermost one.
  | case6 =>
      cases h
      exact ⟨rfl, fun hj => by simp [Nat.le_zero.1 hj, angleDepth]⟩
  -- An inner bracket closes.
  | case8 t rest _ hopening hclosing depth hmore ih =>
      obtain ⟨inner, hinner, rfl⟩ := Option.map_eq_some_iff.1 h
      have hrest := ih (Nat.pos_of_ne_zero hmore) hinner
      refine StaysOpen.cons (by omega) ?_
      rw [angleDepth_closing hclosing, Nat.succ_eq_add_one, Int.natCast_add, Int.natCast_one,
        Int.add_neg_cancel_right]
      exact hrest
  | case9 depth t rest _ hopening hclosing _ ih =>
      obtain ⟨inner, hinner, rfl⟩ := Option.map_eq_some_iff.1 h
      refine StaysOpen.cons (by omega) ?_
      rw [angleDepth_other hopening hclosing, Int.add_zero]
      exact ih hdepth hinner

namespace StaysOpen

variable {opening closing : Token} {rest : List Token} {count : Nat}

/-- What is read between a bracket and the one that closes it is balanced. -/
theorem balanced (h : StaysOpen 1 rest count) : AngleBalanced (rest.take count) := by
  have hlast := h.last
  refine ⟨by omega, fun {front} hfront => ?_⟩
  have hcount : front.length ≤ count :=
    hfront.length_le.trans (List.length_take_le count rest)
  have hopen := h.within hcount
  rw [← List.prefix_iff_eq_take.1 (hfront.trans (List.take_prefix count rest))] at hopen
  omega

/-- The bracket behind what stays open is the one that closes the bracket in front. -/
theorem closesAngle (h : StaysOpen 1 rest count) (hopening : opening.is "<" = true)
    (hclosing : rest[count]? = some closing) (hangle : closing.is ">" = true) :
    ClosesAngle (opening :: rest) (count + 1) where
  opening := by simpa using hopening
  closing := by simp [hclosing, hangle]
  closed := by
    have hlast := h.last
    rw [List.take_succ_cons, List.take_add_one, hclosing, Option.toList_some, angleDepth_cons,
      angleDepth_append, angleDepth_opening hopening, angleDepth_closing hangle]
    omega
  within {j} hpos hj := by
    obtain ⟨j, rfl⟩ := Nat.exists_eq_add_one.2 hpos
    rw [List.take_succ_cons, angleDepth_cons, angleDepth_opening hopening]
    exact h.within (Nat.le_of_succ_le_succ hj)

end StaysOpen

/-! ### Reading

The reader divides what stands between the brackets. It needs no test for a closing bracket too
many, because of balanced tokens its counter never comes below zero. -/

/-- The reader of balanced tokens divides them at a comma at depth zero, and else goes on at the
depth that the token leads to.

The reader counts with natural numbers, so a closing bracket at depth zero would leave it at zero.
In balanced tokens there is none. -/
theorem splitTypeParams_cons {depth : Nat} {current rest : List Token} {t : Token}
    (hdepth : angleDepth current = depth) (h : AngleBalanced (current ++ t :: rest)) :
    (t.is "," = true ∧ depth = 0 ∧ angleDepth (current ++ [t]) = 0 ∧
        splitTypeParams depth current (t :: rest) =
          ⟨current, some t⟩ :: splitTypeParams 0 [] rest) ∨
      ¬(t.is "," = true ∧ depth = 0) ∧ ∃ depth' : Nat, angleDepth (current ++ [t]) = depth' ∧
        splitTypeParams depth current (t :: rest) =
          splitTypeParams depth' (current ++ [t]) rest := by
  have hnext : 0 ≤ angleDepth (current ++ [t]) := by
    refine h.fronts ⟨rest, ?_⟩
    rw [List.append_assoc, List.singleton_append]
  rw [angleDepth_append, hdepth] at hnext ⊢
  rw [splitTypeParams]
  by_cases hopening : t.is "<" = true
  · have hcomma : t.is "," = false := Token.not_is_of_is hopening (by decide)
    refine .inr ⟨by simp [hcomma], depth + 1, ?_, if_pos hopening⟩
    rw [angleDepth_opening hopening]
    rfl
  rw [if_neg hopening]
  by_cases hclosing : t.is ">" = true
  · have hcomma : t.is "," = false := Token.not_is_of_is hclosing (by decide)
    rw [angleDepth_closing hclosing] at hnext ⊢
    exact .inr ⟨by simp [hcomma], depth - 1, by omega, if_pos hclosing⟩
  rw [if_neg hclosing, angleDepth_other hopening hclosing, Int.add_zero]
  by_cases hcomma : t.is "," = true ∧ depth = 0
  · obtain ⟨hcomma, rfl⟩ := hcomma
    exact .inl ⟨hcomma, rfl, rfl, by simp [hcomma]⟩
  · exact .inr ⟨hcomma, depth, rfl, if_neg (by simpa using hcomma)⟩

/-- The parameters of balanced tokens are balanced, since they are divided at depth zero only. -/
theorem balanced_splitTypeParams {tokens : List Token} {depth : Nat} {current : List Token}
    (hdepth : angleDepth current = depth) (h : AngleBalanced (current ++ tokens)) :
    ∀ p ∈ splitTypeParams depth current tokens, AngleBalanced p.tokens := by
  induction tokens generalizing depth current with
  | nil =>
      intro p hp
      rw [splitTypeParams] at hp
      split at hp
      · cases hp
      · rw [List.mem_singleton.1 hp]
        rwa [List.append_nil] at h
  | cons t rest ih =>
      have hmore : AngleBalanced ((current ++ [t]) ++ rest) := by simpa using h
      rcases splitTypeParams_cons hdepth h with
        ⟨-, rfl, hzero, hsplit⟩ | ⟨-, depth', hdepth', hsplit⟩
      · rw [hsplit]
        have hrest : AngleBalanced ([] ++ rest) := (hmore.of_append hzero).2
        exact List.forall_mem_cons.2 ⟨(h.of_append hdepth).1, ih rfl hrest⟩
      · rw [hsplit]
        exact ih hdepth' hmore

/-- Of the parameters of a list, one stands with all before it behind the tokens `front`, and its
comma is `t`. -/
def TypeParam.RecordsComma (params : List TypeParam) (front : List Token) (t : Token) : Prop :=
  ∃ before tokens after, params = before ++ ⟨tokens, some t⟩ :: after ∧
    TypeParam.listTokens before ++ tokens = front

theorem recordsComma_cons {params : List TypeParam} {tokens front : List Token} {t comma : Token} :
    TypeParam.RecordsComma (⟨tokens, some comma⟩ :: params) front t ↔
      front = tokens ∧ t = comma ∨
        ∃ more, front = tokens ++ comma :: more ∧ TypeParam.RecordsComma params more t := by
  constructor
  · rintro ⟨before, inner, after, hparams, hfront⟩
    cases before with
    | nil =>
        cases hparams
        exact .inl ⟨hfront.symm, rfl⟩
    | cons first before =>
        cases hparams
        refine .inr ⟨_, ?_, before, inner, after, rfl, rfl⟩
        rw [← hfront]
        simp [TypeParam.listTokens]
  · rintro (⟨rfl, rfl⟩ | ⟨more, rfl, before, inner, after, rfl, rfl⟩)
    · exact ⟨[], front, params, rfl, rfl⟩
    · exact ⟨⟨tokens, some comma⟩ :: before, inner, after, rfl, by simp [TypeParam.listTokens]⟩

/-- At the end of the tokens, no comma is recorded. -/
theorem not_recordsComma_nil {depth : Nat} {current place : List Token} {t : Token} :
    ¬TypeParam.RecordsComma (splitTypeParams depth current []) place t := by
  rintro ⟨before, tokens, after, hparams, -⟩
  have hmem : ⟨tokens, some t⟩ ∈ splitTypeParams depth current [] := by simp [hparams]
  rw [splitTypeParams] at hmem
  split at hmem
  · cases hmem
  · cases List.mem_singleton.1 hmem

/-- A comma that is recorded stands among the tokens, at depth zero, behind the tokens of the
parameters in front of it. -/
theorem comma_of_recordsComma {tokens : List Token} {depth : Nat} {current place : List Token}
    {t : Token} (hdepth : angleDepth current = depth) (h : AngleBalanced (current ++ tokens))
    (hrecords : TypeParam.RecordsComma (splitTypeParams depth current tokens) place t) :
    ∃ front back, place = current ++ front ∧ tokens = front ++ t :: back ∧ t.is "," = true ∧
      angleDepth place = 0 := by
  induction tokens generalizing depth current place with
  | nil => exact absurd hrecords not_recordsComma_nil
  | cons u rest ih =>
      have hmore : AngleBalanced ((current ++ [u]) ++ rest) := by simpa using h
      rcases splitTypeParams_cons hdepth h with
        ⟨hcomma, rfl, hzero, hsplit⟩ | ⟨-, depth', hdepth', hsplit⟩
      · rw [hsplit] at hrecords
        rcases recordsComma_cons.1 hrecords with ⟨rfl, rfl⟩ | ⟨more, rfl, hrest⟩
        · exact ⟨[], rest, (List.append_nil _).symm, rfl, hcomma, hdepth⟩
        · have hempty : AngleBalanced ([] ++ rest) := (hmore.of_append hzero).2
          obtain ⟨front, back, hfront, rfl, his, hplace⟩ := ih rfl hempty hrest
          rw [List.nil_append] at hfront
          refine ⟨u :: front, back, by rw [hfront], rfl, his, ?_⟩
          rw [List.append_cons, angleDepth_append, hzero, Int.zero_add]
          exact hplace
      · rw [hsplit] at hrecords
        obtain ⟨front, back, rfl, rfl, his, hplace⟩ := ih hdepth' hmore hrecords
        exact ⟨u :: front, back, (List.append_cons _ _ _).symm, rfl, his, hplace⟩

/-- A comma that stands among balanced tokens at depth zero is recorded. The induction is on the
tokens in front of it, of which each is read into the current parameter or ends it. -/
theorem recordsComma_of_comma {front back : List Token} {depth : Nat} {current : List Token}
    {t : Token} (hdepth : angleDepth current = depth)
    (h : AngleBalanced (current ++ (front ++ t :: back))) (hcomma : t.is "," = true)
    (hplace : angleDepth (current ++ front) = 0) :
    TypeParam.RecordsComma (splitTypeParams depth current (front ++ t :: back)) (current ++ front)
      t := by
  induction front generalizing depth current with
  | nil =>
      rw [List.append_nil, hdepth] at hplace
      rcases splitTypeParams_cons hdepth h with ⟨-, -, -, hsplit⟩ | ⟨hkeep, -⟩
      · rw [List.nil_append, hsplit]
        exact recordsComma_cons.2 (.inl ⟨List.append_nil _, rfl⟩)
      · exact absurd ⟨hcomma, Int.natCast_eq_zero.1 hplace⟩ hkeep
  | cons u front ih =>
      have hmore : AngleBalanced ((current ++ [u]) ++ (front ++ t :: back)) := by simpa using h
      rw [List.append_cons] at hplace
      rw [List.cons_append] at h ⊢
      rcases splitTypeParams_cons hdepth h with
        ⟨-, rfl, hzero, hsplit⟩ | ⟨-, depth', hdepth', hsplit⟩
      · have hempty : AngleBalanced ([] ++ (front ++ t :: back)) := (hmore.of_append hzero).2
        rw [angleDepth_append, hzero, Int.zero_add] at hplace
        rw [hsplit]
        exact recordsComma_cons.2 (.inr ⟨front, rfl, ih rfl hempty hplace⟩)
      · rw [hsplit, List.append_cons current u front]
        exact ih hdepth' hmore hplace

/-! ### Both -/

/-- The cursor `c` reads the type arguments `types` up to place `close`, and is `c'` then. The
place, the tokens that are taken and how they are divided are told without the reader's counter. -/
structure Cursor.ReadsTypeArgs (c : Cursor) (close : Nat) (types : TypeArgs) (c' : Cursor) :
    Prop where
  /-- That place, and no other, closes the bracket at the cursor. -/
  closes : ∀ k, ClosesAngle c.rest k ↔ k = close
  /-- What is read are the tokens from the cursor through that place. -/
  taken : types.listTokens = c.rest.take (close + 1)
  left : c'.rest = c.rest.drop (close + 1) ∧ c'.last = some types.closing
  /-- The parameters and their commas are the tokens strictly between the brackets. -/
  inner : TypeParam.listTokens types.params = (c.rest.take close).drop 1
  balanced : ∀ p ∈ types.params, AngleBalanced p.tokens
  /-- The commas are those in no bracket but the one at the cursor. -/
  commas : ∀ front t, TypeParam.RecordsComma types.params front t ↔
    (∃ back, TypeParam.listTokens types.params = front ++ t :: back) ∧ t.is "," = true ∧
      angleDepth (types.opening :: front) = 1

/-- Where the look-ahead finds type arguments, they are read up to the end that it found. That end
is the only place that closes the bracket at the cursor; the parameters are balanced, their tokens
and commas are those of the text, and the commas are exactly the ones at depth one.

The look-ahead and the reader count separately. Both counters are `angleDepth`, by
`staysOpen_of_typeArgsLength` and `splitTypeParams_cons`. -/
theorem readsTypeArgs_of_typeArgsClose {c : Cursor} {count : Nat}
    (h : c.typeArgsClose = some count) :
    ∃ types c', c.typeArgs count = some (types, c') ∧ c.ReadsTypeArgs (count + 1) types c' := by
  obtain ⟨⟨types, c'⟩, hread⟩ := Cursor.typeArgs_of_close h
  obtain ⟨rest, hrest, hopening, hparams, hmore, hclosing, hlast⟩ := Cursor.typeArgs_some hread
  have hopen := staysOpen_of_typeArgsLength Nat.one_pos (Cursor.typeArgsLength_of_close h hrest)
  have hbalanced : AngleBalanced ([] ++ rest.take count) := hopen.balanced
  have hinner : TypeParam.listTokens types.params = rest.take count := by
    rw [hparams, listTokens_splitTypeParams, List.nil_append]
  have hplace : rest[count]? = some types.closing := by
    rw [← List.head?_drop, hmore, List.head?_cons]
  have hcloses : ClosesAngle c.rest (count + 1) := by
    rw [hrest]
    exact hopen.closesAngle hopening hplace hclosing
  refine ⟨types, c', hread, fun k => ?_, ?_, ⟨?_, hlast⟩, ?_, ?_, fun front t => ?_⟩
  · exact ⟨fun hk => hk.unique hcloses, fun hk => hk ▸ hcloses⟩
  · rw [TypeArgs.listTokens, hinner, hrest, List.take_succ_cons, List.take_add_one, hplace,
      Option.toList_some, List.cons_append]
  · rw [hrest, List.drop_succ_cons, ← List.drop_drop, hmore, List.drop_succ_cons, List.drop_zero]
  · rw [hinner, hrest, List.take_succ_cons, List.drop_succ_cons, List.drop_zero]
  · rw [hparams]
    exact balanced_splitTypeParams rfl hbalanced
  · -- The bracket at the cursor is one more than the reader counts.
    have hdepth : angleDepth (types.opening :: front) = 1 ↔ angleDepth front = 0 := by
      rw [angleDepth_cons, angleDepth_opening hopening]
      omega
    rw [hdepth, hinner, hparams]
    constructor
    · intro hrecords
      obtain ⟨front', back, rfl, htokens, hcomma, hzero⟩ :=
        comma_of_recordsComma rfl hbalanced hrecords
      exact ⟨⟨back, htokens⟩, hcomma, hzero⟩
    · rintro ⟨⟨back, htokens⟩, hcomma, hzero⟩
      rw [htokens] at hbalanced ⊢
      exact recordsComma_of_comma rfl hbalanced hcomma hzero

/-- The cursor behind the name of a call whose type arguments are nested. -/
def nestedTypeArgs : Cursor :=
  ⟨none, (lex "f<A<B, C>, D>()\n").tokens.drop 1⟩

/-- The look-ahead goes past the bracket that closes the inner one. -/
theorem readsTypeArgs_of_typeArgsClose_nested :
    nestedTypeArgs.typeArgsClose = some 8 ∧ ∃ types c',
      nestedTypeArgs.typeArgs 8 = some (types, c') ∧ nestedTypeArgs.ReadsTypeArgs 9 types c' :=
  have hclose : nestedTypeArgs.typeArgsClose = some 8 := by decide +kernel
  ⟨hclose, readsTypeArgs_of_typeArgsClose hclose⟩

end BuildPrune
