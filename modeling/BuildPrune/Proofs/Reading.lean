import BuildPrune.Proofs.NodeTokens
import BuildPrune.Script.Parser

/-!
# BuildPrune.Proofs.Reading

What the steps of a cursor read. Each step answers tokens and the cursor behind them, and the tokens
are those that stood between: `c.rest = tokens ++ c'.rest`. This holds of the single token, of the
lists that are found by looking ahead (type arguments, lambda parameters) and of the dotted names of
imports and annotations, so the productions of the grammar never have to open a step.
-/

namespace BuildPrune

/-! ### Computations that succeed -/

/-- A computation in two steps that succeeds is two that succeed. Every reader of tokens is taken
apart with this, one step at a time. -/
theorem ok_of_bind {ε α β : Type} {x : Except ε α} {f : α → Except ε β} {b : β}
    (h : x >>= f = .ok b) : ∃ a, x = .ok a ∧ f a = .ok b := by
  cases x with
  | error e => simp [bind, Except.bind] at h
  | ok a => exact ⟨a, rfl, h⟩

/-- What a check says of a result it says of a result that is there. Used to evaluate a program on
given input and go on with what it answered. -/
theorem ok_of_any {ε α : Type} {x : Except ε α} {check : α → Bool}
    (h : x.toOption.any check = true) : ∃ a, x = .ok a ∧ check a = true := by
  cases x with
  | error e => cases h
  | ok a => exact ⟨a, rfl, h⟩

/-- A part that is read only if it is `present`, from the place `c`. -/
def optionally {α : Type} (present : Bool) (read : Except Fault (α × Cursor)) (c : Cursor) :
    Except Fault (Option α × Cursor) :=
  if present then read.map fun (a, c) => (some a, c) else .ok (none, c)

/-- An optional part is left out, with the cursor where it was, or it was read. -/
theorem optionally_cases {α : Type} {present : Bool} {read : Except Fault (α × Cursor)}
    {c c' : Cursor} {out : Option α} (h : optionally present read c = .ok (out, c')) :
    (present = false ∧ out = none ∧ c' = c) ∨
      ∃ a, present = true ∧ out = some a ∧ read = .ok (a, c') := by
  cases present with
  | false =>
      cases h
      exact .inl ⟨rfl, rfl, rfl⟩
  | true =>
      cases read with
      | error fault => simp [optionally, Except.map] at h
      | ok read =>
          cases h
          exact .inr ⟨read.1, rfl, rfl, rfl⟩

/-- A production that goes on behind an optional part read that part first. -/
theorem ok_of_optionally {α β : Type} {present : Bool} {read : Except Fault (α × Cursor)}
    {c : Cursor} {next : Option α × Cursor → Except Fault β} {b : β}
    (h : (if present = true then do
        let (a, c) ← read
        let part ← pure (some a, c)
        next part
      else do
        let part ← pure (none, c)
        next part) = .ok b) :
    ∃ part, optionally present read c = .ok part ∧ next part = .ok b := by
  cases present with
  | false => exact ⟨(none, c), rfl, h⟩
  | true =>
      obtain ⟨⟨a, c₁⟩, rfl, h⟩ := ok_of_bind h
      exact ⟨(some a, c₁), rfl, h⟩

namespace Cursor

variable {c c' : Cursor} {p : Token → Bool} {t : Token}

/-! ### One token -/

/-- The token that is taken is the next one, it satisfies what was asked, and the cursor remembers
it as the last. -/
theorem take?_some (h : c.take? p = some (t, c')) :
    c.rest = t :: c'.rest ∧ p t = true ∧ c'.last = some t := by
  unfold take? at h
  split at h
  · next head rest hrest =>
      split at h
      · next hp =>
          cases h
          exact ⟨hrest, hp, rfl⟩
      · simp at h
  · simp at h

theorem take?_none (h : c.take? p = none) : c.nextIs p = false := by
  unfold take? at h
  split at h
  · next head rest hrest =>
      split at h
      · simp at h
      · next hp => simpa [nextIs, next, hrest] using hp
  · next hrest => simp [nextIs, next, hrest]

theorem take_ok {problem : Problem} (h : c.take p problem = .ok (t, c')) :
    c.rest = t :: c'.rest ∧ p t = true ∧ c'.last = some t := by
  unfold take at h
  split at h
  · next read hread =>
      cases h
      exact take?_some hread
  · simp at h

theorem expect_ok {text : String} (h : c.expect text = .ok (t, c')) :
    c.rest = t :: c'.rest ∧ t.is text = true ∧ c'.last = some t :=
  take_ok h

theorem name_ok (h : c.name = .ok (t, c')) :
    c.rest = t :: c'.rest ∧ t.isIdent = true ∧ c'.last = some t :=
  take_ok h

theorem optional_some {text : String} (h : c.optional text = (some t, c')) :
    c.rest = t :: c'.rest ∧ t.is text = true ∧ c'.last = some t := by
  unfold optional at h
  split at h
  · next read c₁ hread =>
      cases h
      exact take?_some hread
  · simp at h

theorem optional_none {text : String} (h : c.optional text = (none, c')) :
    c' = c ∧ c.isAt text = false := by
  unfold optional at h
  split at h
  · simp at h
  · next hread =>
      cases h
      exact ⟨rfl, take?_none hread⟩

/-- Whether an optional token is there or not, what was read and what is left are what there was. -/
theorem optional_rest (c : Cursor) (text : String) :
    c.rest = (c.optional text).1.toList ++ (c.optional text).2.rest := by
  rcases h : c.optional text with ⟨read, c'⟩
  cases read with
  | none => rw [(optional_none h).1]; rfl
  | some t => exact (optional_some h).1

/-! ### Several tokens -/

/-- Tokens that are taken at once are those in front; none is lost if there are fewer than were
asked for. -/
theorem takeMany_rest {count : Nat} {tokens : List Token} (h : c.takeMany count = (tokens, c')) :
    c.rest = tokens ++ c'.rest := by
  induction count generalizing c tokens with
  | zero =>
      cases h
      rfl
  | succ count ih =>
      rw [takeMany] at h
      split at h
      · cases h
        rfl
      · next t rest hrest =>
          cases h
          rw [hrest, List.cons_append, ← ih rfl]

theorem takeMany_drop {count : Nat} {tokens : List Token} (h : c.takeMany count = (tokens, c')) :
    c'.rest = c.rest.drop count := by
  induction count generalizing c tokens with
  | zero =>
      cases h
      rfl
  | succ count ih =>
      rw [takeMany] at h
      split at h
      · next hrest =>
          cases h
          rw [hrest, List.drop_nil]
      · next t rest hrest =>
          cases h
          rw [hrest, List.drop_succ_cons, ih rfl]

theorem takeMany_take {count : Nat} {tokens : List Token} (h : c.takeMany count = (tokens, c')) :
    tokens = c.rest.take count := by
  have hrest := takeMany_rest h
  rw [takeMany_drop h] at hrest
  refine List.append_cancel_right (hrest.symm.trans ?_)
  rw [List.take_append_drop]

theorem importPath_rest {n : Nat} {tokens : List Token} (h : importPath n c = (tokens, c')) :
    c.rest = tokens ++ c'.rest := by
  induction n generalizing c tokens with
  | zero =>
      cases h
      rfl
  | succ n ih =>
      rw [importPath] at h
      split at h
      · rcases hsegment : c.takeMany 2 with ⟨segment, c₁⟩
        rcases hmore : importPath n c₁ with ⟨more, c₂⟩
        simp only [hsegment, hmore] at h
        cases h
        rw [takeMany_rest hsegment, ih hmore, List.append_assoc]
      · cases h
        rfl

theorem annotationPath_rest {n : Nat} {tokens : List Token}
    (h : annotationPath n c = (tokens, c')) : c.rest = tokens ++ c'.rest := by
  induction n generalizing c tokens with
  | zero =>
      cases h
      rfl
  | succ n ih =>
      rw [annotationPath] at h
      split at h
      · rcases hsegment : c.takeMany 2 with ⟨segment, c₁⟩
        rcases hmore : annotationPath n c₁ with ⟨more, c₂⟩
        simp only [hsegment, hmore] at h
        cases h
        rw [takeMany_rest hsegment, ih hmore, List.append_assoc]
      · cases h
        rfl

/-- An import takes exactly its own tokens. -/
theorem importing_rest {path : Import} (h : c.importing = .ok (path, c')) :
    c.rest = path.tokens ++ c'.rest := by
  unfold importing at h
  obtain ⟨⟨keyword, c₁⟩, hkeyword, h⟩ := ok_of_bind h
  rcases hmodifier : (if c₁.secondIs (·.is ".") then (none, c₁) else c₁.optional "static")
    with ⟨modifier, c₂⟩
  have hmodifier_rest : c₁.rest = modifier.toList ++ c₂.rest := by
    split at hmodifier
    · cases hmodifier
      rfl
    · have hrest := optional_rest c₁ "static"
      rwa [hmodifier] at hrest
  simp only [hmodifier] at h
  obtain ⟨⟨first, c₃⟩, hfirst, h⟩ := ok_of_bind h
  rcases hmore : importPath c₃.rest.length c₃ with ⟨more, c₄⟩
  simp only [hmore] at h
  split at h
  · obtain ⟨⟨as, c₅⟩, has, h⟩ := ok_of_bind h
    obtain ⟨⟨name, c₆⟩, hname, h⟩ := ok_of_bind h
    cases h
    rw [(expect_ok hkeyword).1, hmodifier_rest, (name_ok hfirst).1, importPath_rest hmore,
      (expect_ok has).1, (name_ok hname).1, optional_rest c₆ ";"]
    simp [Import.tokens]
  · cases h
    rw [(expect_ok hkeyword).1, hmodifier_rest, (name_ok hfirst).1, importPath_rest hmore,
      optional_rest c₄ ";"]
    simp [Import.tokens]

end Cursor

/-! ### Lists found by looking ahead

The look-ahead answers a number of tokens, and the reader takes so many at once. That the tokens
are those between two cursors needs nothing but that there are enough of them. -/

/-- Splitting type arguments at their commas loses no token. The current argument is collected on
the way, at any depth of angle brackets. -/
theorem listTokens_splitTypeParams (depth : Nat) (current tokens : List Token) :
    TypeParam.listTokens (splitTypeParams depth current tokens) = current ++ tokens := by
  induction tokens generalizing depth current with
  | nil =>
      unfold splitTypeParams
      split
      · next hempty => simp_all [TypeParam.listTokens]
      · simp [TypeParam.listTokens]
  | cons t rest ih =>
      unfold splitTypeParams
      split
      · simp [ih]
      · split
        · simp [ih]
        · split
          · have hrest := ih depth []
            simp only [TypeParam.listTokens, List.nil_append] at hrest
            simp [TypeParam.listTokens, hrest]
          · simp [ih]

/-- Angle brackets are read as type arguments only if arguments or a block follow on the same line.
The look-ahead has checked that. -/
theorem follows_of_typeArgsLength {tokens : List Token} {depth count : Nat}
    (h : typeArgsLength depth tokens = some count) :
    (tokens.drop (count + 1)).head?.any fun after =>
      (after.is "(" || after.is openBrace) && !after.startsLine := by
  fun_induction typeArgsLength depth tokens generalizing count with
  -- An inner bracket or a token between the brackets: the scan goes on.
  | case3 _ _ _ _ _ ih | case8 _ _ _ _ _ _ _ ih | case9 _ _ _ _ _ _ _ ih =>
      obtain ⟨inner, hinner, rfl⟩ := Option.map_eq_some_iff.1 h
      exact ih hinner
  -- The bracket that closes the outermost one.
  | case4 _ _ _ _ _ hfollows | case6 _ _ _ _ _ hfollows =>
      cases h
      exact hfollows
  | case1 | case2 | case5 | case7 | case10 => cases h

namespace Cursor

variable {c c' : Cursor}

/-- Behind the bracket at the cursor, the look-ahead has scanned the tokens at depth one. -/
theorem typeArgsLength_of_close {count : Nat} {opening : Token} {rest : List Token}
    (h : c.typeArgsClose = some count) (hrest : c.rest = opening :: rest) :
    typeArgsLength 1 rest = some count := by
  simp only [typeArgsClose, hrest] at h
  split at h
  · exact h
  · cases h

/-- All that is known of type arguments that were read: the brackets around them, the tokens
between, and where the cursor is afterwards. -/
theorem typeArgs_some {count : Nat} {types : TypeArgs} (h : c.typeArgs count = some (types, c')) :
    ∃ rest, c.rest = types.opening :: rest ∧ types.opening.is "<" = true ∧
      types.params = splitTypeParams 0 [] (rest.take count) ∧
      rest.drop count = types.closing :: c'.rest ∧ types.closing.is ">" = true ∧
      c'.last = some types.closing := by
  simp only [typeArgs, Option.bind_eq_bind, Option.bind_eq_some_iff] at h
  obtain ⟨⟨opening, c₁⟩, hopening, ⟨closing, c₂⟩, hclosing, h⟩ := h
  cases h
  obtain ⟨hrest, hopens, -⟩ := take?_some hopening
  obtain ⟨hmore, hcloses, hlast⟩ := take?_some hclosing
  rw [takeMany_drop rfl] at hmore
  exact ⟨c₁.rest, hrest, hopens, by rw [takeMany_take rfl], hmore, hcloses, hlast⟩

theorem typeArgs_rest {count : Nat} {types : TypeArgs} (h : c.typeArgs count = some (types, c')) :
    c.rest = types.listTokens ++ c'.rest := by
  obtain ⟨rest, hrest, -, hparams, hmore, -⟩ := typeArgs_some h
  rw [hrest, ← List.take_append_drop count rest, hmore, TypeArgs.listTokens, hparams,
    listTokens_splitTypeParams]
  simp

theorem typeArgs?_some {types : TypeArgs} (h : c.typeArgs? = (some types, c')) :
    ∃ count, c.typeArgsClose = some count ∧ c.typeArgs count = some (types, c') := by
  unfold typeArgs? at h
  split at h
  · next read c₁ hread =>
      cases h
      exact Option.bind_eq_some_iff.1 hread
  · cases h

theorem typeArgs?_rest {types : Option TypeArgs} (h : c.typeArgs? = (types, c')) :
    c.rest = partTokens TypeArgs.listTokens types ++ c'.rest := by
  unfold typeArgs? at h
  split at h
  · next read c₁ hread =>
      cases h
      obtain ⟨count, -, hread⟩ := Option.bind_eq_some_iff.1 hread
      exact typeArgs_rest hread
  · cases h
    rfl

/-- So a call with type arguments has arguments or a block. -/
theorem typeArgs?_follows {types : TypeArgs} (h : c.typeArgs? = (some types, c')) :
    c'.isAtOnLine "(" = true ∨ c'.isAtOnLine openBrace = true := by
  obtain ⟨count, hclose, hread⟩ := typeArgs?_some h
  obtain ⟨rest, hrest, -, -, hmore, -⟩ := typeArgs_some hread
  have hfollows := follows_of_typeArgsLength (typeArgsLength_of_close hclose hrest)
  rw [← List.drop_drop, hmore] at hfollows
  simp only [List.drop_succ_cons, List.drop_zero, Option.any_eq_true, Bool.and_eq_true,
    Bool.or_eq_true] at hfollows
  obtain ⟨after, hafter, hcall, hline⟩ := hfollows
  simpa [isAtOnLine, nextIs, next, hafter, hline] using hcall

theorem lambdaParams_rest {count : Nat} {params : LambdaParams}
    (h : c.lambdaParams count = some (params, c')) : c.rest = params.listTokens ++ c'.rest := by
  simp only [lambdaParams, Option.bind_eq_bind, Option.bind_eq_some_iff] at h
  obtain ⟨⟨arrow, c₁⟩, harrow, h⟩ := h
  cases h
  rw [takeMany_rest rfl, (take?_some harrow).1]
  simp [LambdaParams.listTokens]

/-- The parameters of a lambda take their tokens and the arrow, or nothing. -/
theorem lambdaParams?_rest {params : Option LambdaParams} (h : c.lambdaParams? = (params, c')) :
    c.rest = partTokens LambdaParams.listTokens params ++ c'.rest := by
  unfold lambdaParams? at h
  split at h
  · next read c₁ hread =>
      cases h
      obtain ⟨count, -, hread⟩ := Option.bind_eq_some_iff.1 hread
      exact lambdaParams_rest hread
  · cases h
    rfl

end Cursor

end BuildPrune
