import BuildPrune.Proofs.OuterTokens
import BuildPrune.Proofs.Separation

/-!
# BuildPrune.Proofs.Brackets

**What is accepted is well bracketed.** The parser is permissive: operators and separators that
stand alone are read as atoms, and the lists that are found by looking ahead are skipped in bulk.
Still it takes no token that the lexer could not read, and brackets only in pairs (`parse_nested`).

* `Nested` says which words of brackets are balanced. `bracketWord` is the word of a list of tokens.
* The parameters of a lambda are read up to the arrow whatever parentheses are among them, so they
  are left out (`Script.outerTokens`).
* What a production reads is `Bracketed`, that is, nested as far as its tokens are those of a text
  (`Reads.bracketed`). This is closed under all that the rules do: tokens that are no brackets are
  added at either side, lists are joined, and a list is put between a pair.
* What a production passes are known tokens (`Reads.passes`).
-/

namespace BuildPrune

/-! ### Words of brackets

A word is nested if it is empty, or opens with a pair around a nested word and goes on with
another one. The brackets are those in parentheses, square brackets and braces; angle brackets are
operators as well and do not count. -/

/-- The brackets, each with the one that closes it. -/
def bracketPairs : List (String × String) :=
  [("(", ")"), ("[", "]"), (openBrace, closeBrace)]

/-- The spellings of brackets. -/
def bracketTexts : List String :=
  ["(", ")", "[", "]", openBrace, closeBrace]

/-- The brackets are closed in pairs, the one first that was opened last. A word has one such
reading at most, since its first bracket is closed at one place only. -/
inductive Nested : List String → Prop
  | nil : Nested []
  | pair {opening closing : String} {inner rest : List String}
      (hpair : (opening, closing) ∈ bracketPairs) (hinner : Nested inner) (hrest : Nested rest) :
      Nested (opening :: inner ++ closing :: rest)

/-- Nested words are nested one behind the other. -/
theorem Nested.append {word more : List String} (h : Nested word) (hmore : Nested more) :
    Nested (word ++ more) := by
  induction h with
  | nil => exact hmore
  | @pair opening closing inner rest hpair hinner _ _ ih =>
      have hnested := Nested.pair hpair hinner ih
      rwa [← List.cons_append, ← List.append_assoc] at hnested

/-- The brackets among some tokens. -/
def bracketWord (tokens : List Token) : List String :=
  (tokens.map Token.text).filter (bracketTexts.contains ·)

theorem bracketWord_append (tokens more : List Token) :
    bracketWord (tokens ++ more) = bracketWord tokens ++ bracketWord more := by
  rw [bracketWord, List.map_append, List.filter_append]
  rfl

theorem bracketWord_cons_of_mem {t : Token} (h : t.text ∈ bracketTexts) (tokens : List Token) :
    bracketWord (t :: tokens) = t.text :: bracketWord tokens := by
  rw [bracketWord, List.map_cons, List.filter_cons_of_pos (by simpa using h)]
  rfl

/-- Only brackets count for the word; other tokens are passed over. -/
theorem bracketWord_cons_of_notMem {t : Token} (h : t.text ∉ bracketTexts) (tokens : List Token) :
    bracketWord (t :: tokens) = bracketWord tokens := by
  rw [bracketWord, List.map_cons, List.filter_cons_of_neg (by simpa using h)]
  rfl

/-! ### Tokens and lists of tokens -/

/-- The token is known, and if it is punctuation then no bracket. -/
def Token.IsPlain (t : Token) : Prop :=
  t.kind ≠ .unknown ∧ (t.kind = .punct → t.text ∉ bracketTexts)

theorem Token.known_of_is {t : Token} {text : String} (h : t.is text = true) :
    t.kind ≠ .unknown := by
  intro hkind
  simp [Token.is, hkind] at h

theorem Token.known_of_isOneOf {t : Token} {texts : List String} (h : t.isOneOf texts = true) :
    t.kind ≠ .unknown := by
  obtain ⟨text, -, his⟩ := List.any_eq_true.1 h
  exact Token.known_of_is his

/-- A token that is told by its text is known, and is plain unless the text is a bracket. -/
theorem Token.IsPlain.of_is {t : Token} {text : String} (h : t.is text = true)
    (htext : text ∉ bracketTexts) : t.IsPlain := by
  refine ⟨Token.known_of_is h, fun _ => ?_⟩
  rw [Token.text_of_is h]
  exact htext

theorem Token.IsPlain.of_isOneOf {t : Token} {texts : List String} (h : t.isOneOf texts = true)
    (htexts : ∀ text ∈ texts, text ∉ bracketTexts) : t.IsPlain := by
  obtain ⟨text, htext, his⟩ := List.any_eq_true.1 h
  exact .of_is his (htexts text htext)

theorem Token.IsPlain.of_isIdent {t : Token} (h : t.isIdent = true) : t.IsPlain := by
  have hkind : t.kind = .ident := by simpa [Token.isIdent] using h
  simp [Token.IsPlain, hkind]

/-- Names are never brackets, so a name can be passed without opening or closing anything. -/
theorem Token.IsPlain.of_isName {t : Token} (h : t.isName = true) : t.IsPlain := by
  rw [Token.isName, Bool.and_eq_true] at h
  exact .of_isIdent h.1

/-- The brackets are nested if the tokens are those of a text, where brackets are punctuation. -/
def Bracketed (tokens : List Token) : Prop :=
  (∀ t ∈ tokens, t.text ∈ bracketTexts → t.kind = .punct) → Nested (bracketWord tokens)

namespace Bracketed

variable {tokens more : List Token} {t opening closing : Token}

theorem nil : Bracketed [] :=
  fun _ => .nil

/-- What is bracketed stays so when it is joined, since every bracket is closed within its part. -/
theorem append (h : Bracketed tokens) (hmore : Bracketed more) : Bracketed (tokens ++ more) := by
  intro hpunct
  rw [List.forall_mem_append] at hpunct
  rw [bracketWord_append]
  exact (h hpunct.1).append (hmore hpunct.2)

theorem cons (ht : t.IsPlain) (h : Bracketed tokens) : Bracketed (t :: tokens) := by
  intro hpunct
  rw [List.forall_mem_cons] at hpunct
  have htext : t.text ∉ bracketTexts := fun hmem => ht.2 (hpunct.1 hmem) hmem
  rw [bracketWord_cons_of_notMem htext]
  exact h hpunct.2

theorem of_plain (h : ∀ t ∈ tokens, t.IsPlain) : Bracketed tokens := by
  induction tokens with
  | nil => exact nil
  | cons t rest ih =>
      rw [List.forall_mem_cons] at h
      exact cons h.1 (ih h.2)

/-- A pair of brackets around something bracketed is bracketed. The pair is one of the three kinds,
told by the texts of both ends. -/
theorem pair {text text' : String} (hpair : (text, text') ∈ bracketPairs)
    (hopening : opening.is text = true) (h : Bracketed tokens)
    (hclosing : closing.is text' = true) :
    Bracketed (opening :: (tokens ++ [closing])) := by
  intro hpunct
  rw [List.forall_mem_cons, List.forall_mem_append] at hpunct
  have htexts : ∀ texts ∈ bracketPairs, texts.1 ∈ bracketTexts ∧ texts.2 ∈ bracketTexts := by decide
  rw [bracketWord_cons_of_mem (Token.mem_of_is hopening (htexts _ hpair).1), bracketWord_append,
    bracketWord_cons_of_mem (Token.mem_of_is hclosing (htexts _ hpair).2),
    Token.text_of_is hopening, Token.text_of_is hclosing]
  exact .pair hpair (h hpunct.2.1) .nil

end Bracketed

/-! ### Steps of a cursor

A cursor passes tokens if all of them are known ones. Most steps take plain tokens, which are
neither brackets nor unknown; only the look-aheads skip lists in bulk, and these are told apart by
what the look-ahead has tested. -/

namespace Cursor

variable {c c' : Cursor} {tokens : List Token}

/-- From one place on to another, past known tokens only. -/
def Passes (c c' : Cursor) : Prop :=
  ∃ read, c.rest = read ++ c'.rest ∧ ∀ t ∈ read, t.kind ≠ .unknown

namespace Passes

theorem refl (c : Cursor) : c.Passes c :=
  ⟨[], rfl, by simp⟩

/-- Steps of a cursor are put together: the tokens of the first are followed by those of the
second. -/
theorem trans {c'' : Cursor} (h : c.Passes c') (h' : c'.Passes c'') : c.Passes c'' := by
  obtain ⟨read, hrest, hknown⟩ := h
  obtain ⟨more, hrest', hknown'⟩ := h'
  refine ⟨read ++ more, ?_, List.forall_mem_append.2 ⟨hknown, hknown'⟩⟩
  rw [hrest, hrest', List.append_assoc]

theorem of_one {t : Token} (hrest : c.rest = t :: c'.rest) (ht : t.kind ≠ .unknown) : c.Passes c' :=
  ⟨[t], hrest, by simpa using ht⟩

theorem of_plain (hrest : c.rest = tokens ++ c'.rest) (h : ∀ t ∈ tokens, t.IsPlain) : c.Passes c' :=
  ⟨tokens, hrest, fun t ht => (h t ht).1⟩

/-- A single token is passed if it is known. The condition under which it was taken says so. -/
theorem of_take? {p : Token → Bool} {t : Token} (h : c.take? p = some (t, c'))
    (hp : p t = true → t.kind ≠ .unknown) : c.Passes c' :=
  .of_one (take?_some h).1 (hp (take?_some h).2.1)

theorem of_expect {text : String} {t : Token} (h : c.expect text = .ok (t, c')) : c.Passes c' :=
  .of_one (expect_ok h).1 (Token.known_of_is (expect_ok h).2.1)

theorem of_name {t : Token} (h : c.name = .ok (t, c')) : c.Passes c' :=
  .of_one (name_ok h).1 (Token.IsPlain.of_isIdent (name_ok h).2.1).1

theorem of_optional {text : String} {read : Option Token} (h : c.optional text = (read, c')) :
    c.Passes c' := by
  cases read with
  | none =>
      rw [(optional_none h).1]
      exact .refl c
  | some t => exact .of_one (optional_some h).1 (Token.known_of_is (optional_some h).2.1)

end Passes

theorem take?_plain {texts : List String} {t : Token} (htexts : ∀ text ∈ texts, text ∉ bracketTexts)
    (h : c.take? (·.isOneOf texts) = some (t, c')) : t.IsPlain :=
  .of_isOneOf (take?_some h).2.1 htexts

theorem name_plain {t : Token} (h : c.name = .ok (t, c')) : t.IsPlain :=
  .of_isIdent (name_ok h).2.1

theorem member_plain {t : Token} {problem : Problem}
    (h : c.take (fun t => t.kind == .ident || t.kind == .str) problem = .ok (t, c')) :
    t.IsPlain := by
  have hkind := (take_ok h).2.1
  simp only [Bool.or_eq_true, beq_iff_eq] at hkind
  rcases hkind with hkind | hkind <;> simp [Token.IsPlain, hkind]

theorem optional_plain {text : String} {read : Option Token} (htext : text ∉ bracketTexts)
    (h : c.optional text = (read, c')) : ∀ t ∈ read.toList, t.IsPlain := by
  intro t ht
  rw [Option.mem_toList] at ht
  subst ht
  exact .of_is (optional_some h).2.1 htext

/-- Two tokens that were looked at before they were taken are plain if what was asked of them says
so. Paths are read in this way, a dot and a name at a time. -/
theorem takeMany_two {segment : List Token} (h : c.takeMany 2 = (segment, c')) {p q : Token → Bool}
    (hfirst : c.nextIs p = true) (hsecond : c.secondIs q = true)
    (hp : ∀ t, p t = true → t.IsPlain) (hq : ∀ t, q t = true → t.IsPlain) :
    ∀ t ∈ segment, t.IsPlain := by
  rw [takeMany_take h]
  obtain ⟨last, rest⟩ := c
  match rest with
  | [] => cases hfirst
  | [_] => cases hsecond
  | first :: second :: _ => simpa using ⟨hp first hfirst, hq second hsecond⟩

theorem importPath_plain {n : Nat} (h : importPath n c = (tokens, c')) :
    ∀ t ∈ tokens, t.IsPlain := by
  induction n generalizing c tokens with
  | zero =>
      cases h
      simp
  | succ n ih =>
      rw [importPath] at h
      split at h
      · next hdot =>
          rcases hsegment : c.takeMany 2 with ⟨segment, c₁⟩
          rcases hmore : importPath n c₁ with ⟨more, c₂⟩
          simp only [hsegment, hmore] at h
          cases h
          rw [Bool.and_eq_true] at hdot
          refine List.forall_mem_append.2 ⟨takeMany_two hsegment hdot.1 hdot.2 ?_ ?_, ih hmore⟩
          · intro t ht
            rw [Bool.and_eq_true] at ht
            exact .of_is ht.1 (by decide)
          · intro t ht
            rw [Bool.or_eq_true] at ht
            exact ht.elim .of_isIdent fun hstar => .of_is hstar (by decide)
      · cases h
        simp

theorem annotationPath_plain {n : Nat} (h : annotationPath n c = (tokens, c')) :
    ∀ t ∈ tokens, t.IsPlain := by
  induction n generalizing c tokens with
  | zero =>
      cases h
      simp
  | succ n ih =>
      rw [annotationPath] at h
      split at h
      · next hmark =>
          rcases hsegment : c.takeMany 2 with ⟨segment, c₁⟩
          rcases hmore : annotationPath n c₁ with ⟨more, c₂⟩
          simp only [hsegment, hmore] at h
          cases h
          rw [Bool.and_eq_true, Bool.or_eq_true] at hmark
          obtain ⟨mark, hplain, hat⟩ : ∃ mark, mark ∉ bracketTexts ∧ c.isAtAttached mark = true :=
            hmark.1.elim (fun hdot => ⟨_, by decide, hdot⟩) fun hcolon => ⟨_, by decide, hcolon⟩
          refine List.forall_mem_append.2 ⟨takeMany_two hsegment hat hmark.2 ?_ ?_, ih hmore⟩
          · intro t ht
            rw [Bool.and_eq_true] at ht
            exact .of_is ht.1 hplain
          · intro t ht
            rw [Bool.and_eq_true] at ht
            exact .of_isIdent ht.1
      · cases h
        simp

theorem forall_mem_import_tokens {path : Import} {P : Token → Prop} (hkeyword : P path.keyword)
    (hmodifier : ∀ t ∈ path.modifier.toList, P t) (hpath : ∀ t ∈ path.path, P t)
    (halias : ∀ a ∈ path.asName, P a.keyword ∧ P a.name)
    (hsemicolon : ∀ t ∈ path.semicolon.toList, P t) : ∀ t ∈ path.tokens, P t := by
  obtain ⟨keyword, modifier, names, asName, semicolon⟩ := path
  intro t ht
  cases asName with
  | none =>
      simp only [Import.tokens, List.cons_append, List.mem_cons, List.mem_append,
        List.append_nil] at ht
      rcases ht with rfl | (ht | ht) | ht
      · exact hkeyword
      · exact hmodifier t ht
      · exact hpath t ht
      · exact hsemicolon t ht
  | some a =>
      obtain ⟨has, hname⟩ := halias a rfl
      simp only [Import.tokens, List.cons_append, List.mem_cons, List.mem_append, List.not_mem_nil,
        or_false] at ht
      rcases ht with rfl | ((ht | ht) | rfl | rfl) | ht
      · exact hkeyword
      · exact hmodifier t ht
      · exact hpath t ht
      · exact has
      · exact hname
      · exact hsemicolon t ht

/-- An import has no brackets in it: keywords, names, dots and a star. -/
theorem importing_plain {path : Import} (h : c.importing = .ok (path, c')) :
    ∀ t ∈ path.tokens, t.IsPlain := by
  unfold importing at h
  obtain ⟨⟨keyword, c₁⟩, hkeyword, h⟩ := ok_of_bind h
  rcases hmodifier : (if c₁.secondIs (·.is ".") then (none, c₁) else c₁.optional "static")
    with ⟨modifier, c₂⟩
  have hmodifier_plain : ∀ t ∈ modifier.toList, t.IsPlain := by
    split at hmodifier
    · cases hmodifier
      simp
    · exact optional_plain (by decide) hmodifier
  simp only [hmodifier] at h
  obtain ⟨⟨first, c₃⟩, hfirst, h⟩ := ok_of_bind h
  rcases hmore : importPath c₃.rest.length c₃ with ⟨more, c₄⟩
  simp only [hmore] at h
  have hkeyword_plain : keyword.IsPlain := .of_is (expect_ok hkeyword).2.1 (by decide)
  split at h
  · obtain ⟨⟨as, c₅⟩, has, h⟩ := ok_of_bind h
    obtain ⟨⟨name, c₆⟩, hname, h⟩ := ok_of_bind h
    cases h
    refine forall_mem_import_tokens hkeyword_plain hmodifier_plain ?_ ?_ (optional_plain ?_ rfl)
    · exact List.forall_mem_cons.2 ⟨name_plain hfirst, importPath_plain hmore⟩
    · rintro _ ⟨⟩
      exact ⟨.of_is (expect_ok has).2.1 (by decide), name_plain hname⟩
    · decide
  · cases h
    refine forall_mem_import_tokens hkeyword_plain hmodifier_plain ?_ nofun (optional_plain ?_ rfl)
    · exact List.forall_mem_cons.2 ⟨name_plain hfirst, importPath_plain hmore⟩
    · decide

end Cursor

/-- What stands for itself as an expression is no bracket: openers and closers have been handled
before. -/
theorem Token.IsPlain.of_atom {t : Token} (hknown : t.kind ≠ .unknown)
    (hcloser : t.isCloser = false) (hopener : t.isOneOf [openBrace, "(", "["] = false) :
    t.IsPlain := by
  refine ⟨hknown, fun hkind hmem => ?_⟩
  have his : t.is t.text = true := by simp [Token.is, hkind]
  have hparts : ∀ text ∈ bracketTexts, text ∈ closers ∨ text ∈ [openBrace, "(", "["] := by decide
  rcases hparts t.text hmem with hcloses | hopens
  · rw [Token.isCloser, Token.isOneOf, List.any_eq_false] at hcloser
    exact hcloser t.text hcloses his
  · rw [Token.isOneOf, List.any_eq_false] at hopener
    exact hopener t.text hopens his

theorem Token.IsPlain.of_inTypeArgs {t : Token} (h : t.inTypeArgs = true) : t.IsPlain := by
  rw [Token.inTypeArgs, Bool.or_eq_true] at h
  exact h.elim .of_isIdent fun hone => .of_isOneOf hone (by decide)

/-- Between angle brackets there are no brackets of other kinds. The look-ahead stops at the first,
and then there are no type arguments. -/
theorem plain_of_typeArgsLength {tokens : List Token} {depth count : Nat}
    (h : typeArgsLength depth tokens = some count) : ∀ t ∈ tokens.take count, t.IsPlain := by
  fun_induction typeArgsLength depth tokens generalizing count with
  | case3 _ _ _ _ hangle ih =>
      obtain ⟨inner, hinner, rfl⟩ := Option.map_eq_some_iff.1 h
      exact List.forall_mem_cons.2 ⟨.of_is hangle (by decide), ih hinner⟩
  | case8 _ _ _ _ hangle _ _ ih =>
      obtain ⟨inner, hinner, rfl⟩ := Option.map_eq_some_iff.1 h
      exact List.forall_mem_cons.2 ⟨.of_is hangle (by decide), ih hinner⟩
  | case9 _ _ _ _ _ _ hinside ih =>
      obtain ⟨inner, hinner, rfl⟩ := Option.map_eq_some_iff.1 h
      exact List.forall_mem_cons.2 ⟨.of_inTypeArgs hinside, ih hinner⟩
  | case4 | case6 =>
      cases h
      simp
  | case1 | case2 | case5 | case7 | case10 => cases h

theorem Token.known_of_inLambdaParams {t : Token} (h : t.inLambdaParams = true) :
    t.kind ≠ .unknown := by
  rw [Token.inLambdaParams, Bool.or_eq_true] at h
  rcases h with hident | hone
  · exact (Token.IsPlain.of_isIdent hident).1
  · exact Token.known_of_isOneOf hone

/-- Up to the arrow of a lambda all tokens are known, whatever brackets are among them. The
parameters are therefore left out of the outer tokens. -/
theorem known_of_arrowAfter {tokens : List Token} {count : Nat}
    (h : arrowAfter tokens = some count) : ∀ t ∈ tokens.take count, t.kind ≠ .unknown := by
  fun_induction arrowAfter tokens generalizing count with
  | case1 | case3 => cases h
  | case2 =>
      cases h
      simp
  | case4 t rest _ hinside ih =>
      obtain ⟨inner, hinner, rfl⟩ := Option.map_eq_some_iff.1 h
      simp only [Bool.or_eq_true, Bool.not_eq_true', not_or, Bool.not_eq_false] at hinside
      exact List.forall_mem_cons.2 ⟨Token.known_of_inLambdaParams hinside.2, ih hinner⟩

namespace Cursor

variable {c c' : Cursor}

theorem typeArgs?_plain {types : Option TypeArgs} (h : c.typeArgs? = (types, c')) :
    ∀ t ∈ partTokens TypeArgs.listTokens types, t.IsPlain := by
  cases types with
  | none => simp
  | some types =>
      obtain ⟨count, hclose, hread⟩ := typeArgs?_some h
      obtain ⟨rest, hrest, hopening, hparams, -, hclosing, -⟩ := typeArgs_some hread
      have hinner := plain_of_typeArgsLength (typeArgsLength_of_close hclose hrest)
      simp only [partTokens_some, TypeArgs.listTokens, hparams, listTokens_splitTypeParams,
        List.nil_append, List.cons_append, List.forall_mem_cons, List.forall_mem_append]
      exact ⟨.of_is hopening (by decide), hinner, .of_is hclosing (by decide), by simp⟩

/-- Up to the arrow that the look-ahead finds there are known tokens only. -/
theorem known_of_lambdaArrow {count : Nat} (h : c.lambdaArrow = some count) :
    ∀ t ∈ c.rest.take count, t.kind ≠ .unknown := by
  unfold lambdaArrow at h
  split at h
  · cases h
  · next t rest hrest =>
      split at h
      · cases h
        simp
      · split at h
        · next hinside =>
            obtain ⟨inner, hinner, rfl⟩ := Option.map_eq_some_iff.1 h
            rw [hrest]
            refine List.forall_mem_cons.2 ⟨Token.known_of_inLambdaParams hinside, ?_⟩
            exact known_of_arrowAfter hinner
        · cases h

theorem lambdaParams?_passes {params : Option LambdaParams} (h : c.lambdaParams? = (params, c')) :
    c.Passes c' := by
  unfold lambdaParams? at h
  split at h
  · next read c₁ hread =>
      cases h
      obtain ⟨count, harrow, hread⟩ := Option.bind_eq_some_iff.1 hread
      simp only [lambdaParams, Option.bind_eq_bind, Option.bind_eq_some_iff] at hread
      obtain ⟨⟨arrow, c₂⟩, hclosing, hread⟩ := hread
      cases hread
      have hknown := known_of_lambdaArrow harrow
      rw [← takeMany_take rfl] at hknown
      refine .trans ⟨_, takeMany_rest rfl, hknown⟩ ?_
      exact .of_one (take?_some hclosing).1 (Token.known_of_is (take?_some hclosing).2.1)
  · cases h
    exact .refl c

end Cursor

namespace Parser

variable {mode : Mode} {task : Task} {piece : Piece} {c c' : Cursor}

/-! ### What productions pass -/

/-- A production passes only tokens that are known, and reads all that it passes.

One case for each rule; the cases differ only in the lemma about the cursor that is used. -/
theorem Reads.passes (h : Reads mode task c piece c') : c.Passes c' := by
  -- Nothing is read, or the productions that are called read it all, or some tokens are taken
  -- besides. Only the last are a matter of the single rule.
  induction h with
  | blockEnd | textEnd | tailElse | tailEnd | chainEnd | noExpression | operatorsEnd
  | operatorsStop | suffixesEnd | sequenceEnd | noArguments | itemsEnd | noLambda => exact .refl _
  | nextStatement _ _ _ _ ih ih' | statementExpr _ _ ih ih' | tailNext _ _ _ _ ih ih'
  | tailBody _ _ _ _ _ _ ih ih' | callCommand _ _ _ _ ih ih' | expression _ _ ih ih'
  | operand _ _ _ ih ih' | index _ _ _ _ ih ih' | sequence _ _ ih ih'
  | sequenceNext _ _ _ ih ih' => exact ih.trans ih'
  | plainExpression _ _ ih | noCommand _ _ _ _ ih | someExpression _ ih | group _ _ _ ih
  | annotatedExpr _ _ _ ih | someArguments _ ih | someLambda _ ih | lambdaExpr _ _ _ ih
  | list _ _ _ ih => exact ih
  | memberCommand _ _ _ _ _ _ ihmember ihitems ihchain =>
      exact (ihmember.trans ihitems).trans ihchain
  | emptyStatement hread => exact .of_take? hread Token.known_of_is
  | importStatement _ _ hread =>
      exact .of_plain (Cursor.importing_rest hread) (Cursor.importing_plain hread)
  | exprStatement _ _ _ hend ih | lastCommandItem _ hend ih | lastItem _ _ hend ih =>
      exact ih.trans (.of_optional hend)
  | command _ _ hname _ _ ih ih' | chainCall _ hname _ _ _ ih ih'
  | chainCommand _ hname _ _ _ ih ih' | infixed _ _ _ hname _ _ ih ih' =>
      exact (Cursor.Passes.of_name hname).trans (ih.trans ih')
  | nextCommandItem _ hcomma _ ih ih' | nextItem _ _ hcomma _ ih ih' =>
      exact ih.trans ((Cursor.Passes.of_optional hcomma).trans ih')
  | binary _ hop _ _ ih ih' =>
      exact (Cursor.Passes.of_take? hop Token.known_of_isOneOf).trans (ih.trans ih')
  | prefixed hop _ ih => exact (Cursor.Passes.of_take? hop Token.known_of_isOneOf).trans ih
  | postfixed _ _ hop _ ih =>
      refine (Cursor.Passes.of_take? hop fun hp => ?_).trans ih
      rw [Bool.and_eq_true] at hp
      exact Token.known_of_isOneOf hp.1
  | member hdot hname _ _ _ ih ih' | memberCall hdot hname _ _ _ ih ih' =>
      have hpassed := Cursor.Passes.of_one (Cursor.take_ok hname).1 (Cursor.member_plain hname).1
      have hdots := Cursor.Passes.of_take? hdot Token.known_of_isOneOf
      exact hdots.trans (hpassed.trans (ih.trans ih'))
  | name hhere hname _ _ ih | call hhere hname _ _ ih =>
      exact (Cursor.Passes.of_one hhere (Token.IsPlain.of_isName hname).1).trans ih
  | atom hhere hknown => exact .of_one hhere hknown
  | emptyParens hopening hclosing =>
      exact (Cursor.Passes.of_expect hopening).trans (.of_take? hclosing Token.known_of_is)
  | parens hopening _ _ hclosing ih | arguments hopening _ hclosing ih
  | brackets hopening _ hclosing ih =>
      exact (Cursor.Passes.of_expect hopening).trans (ih.trans (.of_expect hclosing))
  | callParts htypes _ _ ihargs ihlambda =>
      have hpassed := Cursor.Passes.of_plain (Cursor.typeArgs?_rest htypes)
        (Cursor.typeArgs?_plain htypes)
      exact hpassed.trans (ihargs.trans ihlambda)
  | lambda hopening hparams _ hclosing ih =>
      have hpassed := Cursor.lambdaParams?_passes hparams
      have hinner := hpassed.trans (ih.trans (.of_expect hclosing))
      exact (Cursor.Passes.of_expect hopening).trans hinner
  | annotated hmarker hname hpath _ _ ihargs ihexpr =>
      have hpassed := Cursor.Passes.of_plain (Cursor.annotationPath_rest hpath)
        (Cursor.annotationPath_plain hpath)
      exact (Cursor.Passes.of_expect hmarker).trans ((Cursor.Passes.of_name hname).trans
        (hpassed.trans (ihargs.trans ihexpr)))

/-! ### What productions read

By induction on the rules. A rule for a bracket puts what it has read between a pair of tokens,
and all other rules put words one behind the other or add tokens that are no brackets. -/

/-- The tokens of an answer without the parameters of lambdas. They are what the brackets are
counted in, as the parameters are read up to the arrow whatever they hold. -/
def Piece.outerTokens : Piece → List Token
  | .statements out => Statement.listTokensWith noParams out
  | .statement out => out.tokensWith noParams
  | .expr out => out.tokensWith noParams
  | .optionalExpr out => partTokens (Expr.tokensWith noParams) out
  | .exprs out => Expr.listTokensWith noParams out
  | .items out => Item.listTokensWith noParams out
  | .parts out =>
    partTokens TypeArgs.listTokens out.types ++
      (partTokens (Arguments.tokensWith noParams) out.args ++
        partTokens (Lambda.tokensWith noParams) out.lambda)
  | .arguments out => partTokens (Arguments.tokensWith noParams) out
  | .brackets out => out.tokensWith noParams
  | .lambda out => partTokens (Lambda.tokensWith noParams) out

/-- As `Piece.outerTokens`, of what was read before the production started. -/
def Task.outerTokens : Task → List Token
  | .statementTail _ _ before => Expr.listTokensWith noParams before
  | .commandChain target => target.tokensWith noParams
  | .operators left => left.tokensWith noParams
  | .suffixes operand => operand.tokensWith noParams
  | _ => []

theorem CallParts.outerTokens_call (parts : CallParts) (receiver : Option Receiver) (name : Token)
    (style : CallStyle) :
    (parts.call receiver name style).tokensWith noParams =
      partTokens (Receiver.tokensWith noParams) receiver ++
        name :: (Piece.parts parts).outerTokens := by
  simp [CallParts.call, Expr.tokensWith, Call.tokensWith_mk, Piece.outerTokens]

/-- What a production reads is bracketed, apart from the parameters of lambdas.

Brackets come in pairs by the rules for groups, lists, arguments and blocks; all other rules join
what is bracketed already. What a production goes on from must be bracketed as well. -/
theorem Reads.bracketed (h : Reads mode task c piece c') (htask : Bracketed task.outerTokens) :
    Bracketed piece.outerTokens := by
  -- A production that is called for a part starts from nothing; one that goes on with a part is
  -- handed tokens that are balanced by then.
  induction h with
  | blockEnd | textEnd | sequenceEnd | itemsEnd =>
      simp only [Piece.outerTokens, Statement.listTokensWith, Expr.listTokensWith,
        Item.listTokensWith]
      exact .nil
  | noExpression | noArguments | noLambda => exact .nil
  | tailElse | tailEnd | chainEnd | operatorsEnd | operatorsStop | suffixesEnd => exact htask
  | nextStatement _ _ _ _ ihfirst ihmore =>
      simp only [Piece.outerTokens, Statement.listTokensWith]
      exact (ihfirst .nil).append (ihmore .nil)
  | emptyStatement hread =>
      simp only [Piece.outerTokens, Statement.tokensWith]
      exact .cons (.of_is (Cursor.take?_some hread).2.1 (by decide)) .nil
  | importStatement _ _ hread =>
      simp only [Piece.outerTokens, Statement.tokensWith]
      exact .of_plain (Cursor.importing_plain hread)
  | exprStatement _ _ _ hend ihexpr =>
      simp only [Piece.outerTokens, Statement.tokensWith]
      exact (ihexpr .nil).append (.of_plain (Cursor.optional_plain (by decide) hend))
  | statementExpr _ _ ihhead ihtail =>
      simp only [Piece.outerTokens, Expr.tokensWith_ofSequence]
      refine (ihhead .nil).append (ihtail ?_)
      simp only [Task.outerTokens, Expr.listTokensWith]
      exact .nil
  | sequence _ _ ihhead ihtail =>
      simp only [Piece.outerTokens, Expr.tokensWith_ofSequence]
      exact (ihhead .nil).append (ihtail .nil)
  | tailNext _ _ _ _ ihexpr ihtail | tailBody _ _ _ _ _ _ ihexpr ihtail =>
      refine ihtail ?_
      simp only [Task.outerTokens, Expr.listTokensWith_append, Expr.listTokensWith, List.append_nil]
      exact htask.append (ihexpr .nil)
  | plainExpression _ _ ih | noCommand _ _ _ _ ih | group _ _ _ ih | annotatedExpr _ _ _ ih
  | someArguments _ ih | someLambda _ ih | someExpression _ ih => exact ih .nil
  | lambdaExpr _ _ _ ih | list _ _ _ ih =>
      simp only [Piece.outerTokens, Expr.tokensWith]
      exact ih .nil
  | command _ _ hname _ _ ihitems ihchain =>
      refine ihchain ?_
      simp only [Task.outerTokens, Call.tokensWith_ofItems]
      exact .cons (Cursor.name_plain hname) (ihitems .nil)
  | memberCommand _ _ _ _ _ _ ihmember ihitems ihchain =>
      refine ihchain ?_
      have hcommand := (ihmember .nil).append (ihitems .nil)
      simpa [Task.outerTokens, Piece.outerTokens, Call.tokensWith_ofItems, Receiver.tokensWith,
        Expr.tokensWith] using hcommand
  | callCommand _ _ _ _ ih ih' | expression _ _ ih ih' | operand _ _ _ ih ih' => exact ih' (ih .nil)
  | chainCall _ hname _ _ _ ihparts ihchain =>
      refine ihchain ?_
      simp only [Task.outerTokens, CallParts.outerTokens_call, partTokens_some, Receiver.tokensWith,
        Option.toList_none, List.append_nil]
      exact htask.append (.cons (Cursor.name_plain hname) (ihparts .nil))
  | chainCommand _ hname _ _ _ ihitems ihchain =>
      refine ihchain ?_
      simp only [Task.outerTokens, Call.tokensWith_ofItems, partTokens_some, Receiver.tokensWith,
        Option.toList_none, List.append_nil]
      exact htask.append (.cons (Cursor.name_plain hname) (ihitems .nil))
  | lastCommandItem _ _ ihexpr | lastItem _ _ _ ihexpr =>
      simp only [Piece.outerTokens, Item.listTokensWith, Item.tokensWith, Option.toList_none,
        List.append_nil]
      exact ihexpr .nil
  | nextCommandItem _ hcomma _ ihexpr ihmore | nextItem _ _ hcomma _ ihexpr ihmore =>
      simp only [Piece.outerTokens, Item.listTokensWith, Item.tokensWith]
      refine ((ihexpr .nil).append (.of_plain ?_)).append (ihmore .nil)
      exact Cursor.optional_plain (by decide) hcomma
  | binary _ hop _ _ ihright ihoperators =>
      refine ihoperators ?_
      simp only [Task.outerTokens, Expr.tokensWith]
      exact htask.append (.cons (Cursor.take?_plain (by decide) hop) (ihright .nil))
  | infixed _ _ _ hname _ _ ihright ihoperators =>
      refine ihoperators ?_
      simp only [Task.outerTokens, Call.tokensWith_ofItems, partTokens_some, Receiver.tokensWith,
        Item.listTokensWith, Item.tokensWith, Option.toList_none, List.append_nil]
      exact htask.append (.cons (Cursor.name_plain hname) (ihright .nil))
  | prefixed hop _ ihoperand =>
      simp only [Piece.outerTokens, Expr.tokensWith]
      exact .cons (Cursor.take?_plain (by decide) hop) (ihoperand .nil)
  | member hdot hname _ _ _ _ ihsuffixes =>
      refine ihsuffixes ?_
      simp only [Task.outerTokens, Expr.tokensWith]
      exact htask.append (.cons (Cursor.take?_plain (by decide) hdot)
        (.cons (Cursor.member_plain hname) .nil))
  | memberCall hdot hname _ _ _ ihparts ihsuffixes =>
      refine ihsuffixes ?_
      simp only [Task.outerTokens, CallParts.outerTokens_call, partTokens_some, Receiver.tokensWith,
        Option.toList_some, List.append_assoc, List.singleton_append]
      exact htask.append (.cons (Cursor.take?_plain (by decide) hdot)
        (.cons (Cursor.member_plain hname) (ihparts .nil)))
  | index _ _ _ _ ihbrackets ihsuffixes =>
      refine ihsuffixes ?_
      simp only [Task.outerTokens, Expr.tokensWith]
      exact htask.append (ihbrackets .nil)
  | postfixed _ _ hop _ ihsuffixes =>
      have hplain := (Cursor.take?_some hop).2.1
      rw [Bool.and_eq_true] at hplain
      refine ihsuffixes ?_
      simp only [Task.outerTokens, Expr.tokensWith]
      exact htask.append (.cons (.of_isOneOf hplain.1 (by decide)) .nil)
  | name _ hname =>
      simp only [Piece.outerTokens, Expr.tokensWith]
      exact .cons (.of_isName hname) .nil
  | call _ hname _ _ ihparts =>
      simp only [Piece.outerTokens, CallParts.outerTokens_call, partTokens_none, List.nil_append]
      exact .cons (.of_isName hname) (ihparts .nil)
  | atom _ hknown _ hcloser hopener =>
      simp only [Piece.outerTokens, Expr.tokensWith]
      exact .cons (.of_atom hknown hcloser hopener) .nil
  | emptyParens hopening hclosing =>
      simp only [Piece.outerTokens, Expr.tokensWith, Brackets.tokensWith, Item.listTokensWith]
      exact .pair (by decide) (Cursor.expect_ok hopening).2.1 .nil (Cursor.take?_some hclosing).2.1
  | parens hopening _ _ hclosing ihinner =>
      simp only [Piece.outerTokens, Expr.tokensWith]
      exact .pair (by decide) (Cursor.expect_ok hopening).2.1 (ihinner .nil)
        (Cursor.expect_ok hclosing).2.1
  | sequenceNext _ _ _ ihfirst ihmore =>
      simp only [Piece.outerTokens, Expr.listTokensWith]
      exact (ihfirst .nil).append (ihmore .nil)
  | callParts htypes _ _ ihargs ihlambda =>
      exact (Bracketed.of_plain (Cursor.typeArgs?_plain htypes)).append
        ((ihargs .nil).append (ihlambda .nil))
  | arguments hopening _ hclosing ihitems =>
      simp only [Piece.outerTokens, partTokens_some, Arguments.tokensWith, Option.toList_some]
      exact .pair (by decide) (Cursor.expect_ok hopening).2.1 (ihitems .nil)
        (Cursor.expect_ok hclosing).2.1
  | brackets hopening _ hclosing ihitems =>
      simp only [Piece.outerTokens, Brackets.tokensWith]
      exact .pair (by decide) (Cursor.expect_ok hopening).2.1 (ihitems .nil)
        (Cursor.expect_ok hclosing).2.1
  | lambda hopening _ _ hclosing ihbody =>
      simp only [Piece.outerTokens, partTokens_some, Lambda.tokensWith_mk, partTokens_noParams,
        List.nil_append]
      exact .pair (by decide) (Cursor.expect_ok hopening).2.1 (ihbody .nil)
        (Cursor.expect_ok hclosing).2.1
  | annotated hmarker hname hpath _ _ ihargs ihexpr =>
      simp only [Piece.outerTokens, Expr.tokensWith_annotated, List.cons_append]
      refine .cons (.of_is (Cursor.expect_ok hmarker).2.1 (by decide)) ?_
      refine .cons (Cursor.name_plain hname) ?_
      exact (Bracketed.of_plain (Cursor.annotationPath_plain hpath)).append
        ((ihargs .nil).append (ihexpr .nil))

end Parser

/-! ### Scripts -/

/-- A text that is accepted has no token that the lexer could not read. Its brackets are balanced
and nested once the parameters of lambdas are left out, and nothing else is left out. -/
theorem parse_nested {source : String} {dialect : Dialect} {script : Script}
    (h : parse source dialect = .ok script) :
    (∀ t ∈ (lex source).tokens, t.kind ≠ .unknown) ∧
      Statement.listTokensWith LambdaParams.listTokens script.statements = (lex source).tokens ∧
      Nested (bracketWord script.outerTokens) := by
  obtain ⟨-, -, c, hread⟩ := Parser.reads_of_parse h
  have htokens := (tokens_of_parse h).1
  refine ⟨?_, ?_, hread.bracketed .nil ?_⟩
  · obtain ⟨read, hall, hknown⟩ := hread.passes
    rw [hread.rest_of_statements rfl, List.append_nil] at hall
    intro t ht
    exact hknown t (hall ▸ ht)
  · have hsame : Congruent Eq LambdaParams.listTokens :=
      ⟨fun _ => rfl, fun h h' => by rw [h, h'], fun _ => rfl⟩
    exact (Statement.rel_listTokensWith hsame script.statements).trans htokens
  · -- The tokens that stay are tokens of the text, where brackets are punctuation.
    have hfewer : Congruent List.Sublist noParams :=
      ⟨List.Sublist.refl, List.Sublist.append, fun _ => List.nil_sublist _⟩
    intro t ht hbracket
    have hmem := (Statement.rel_listTokensWith hfewer script.statements).subset ht
    have hsolid : ∀ text ∈ bracketTexts, text ∈ solidTexts := by decide
    exact punct_of_solid_lex source t (htokens ▸ hmem) (hsolid _ hbracket)

/-- Parentheses among the parameters of a lambda need not match; those around it do. -/
theorem parse_nested_params :
    ∃ script, parse "f(a[0]) { (x, y -> g(x) }
" .groovy = .ok script ∧
      bracketWord (lex "f(a[0]) { (x, y -> g(x) }
").tokens =
        ["(", "[", "]", ")", openBrace, "(", "(", ")", closeBrace] ∧
      bracketWord script.outerTokens = ["(", "[", "]", ")", openBrace, "(", ")", closeBrace] ∧
      Nested (bracketWord script.outerTokens) := by
  have haccepted : (parse "f(a[0]) { (x, y -> g(x) }
" .groovy).toOption.any (fun script =>
      bracketWord script.outerTokens ==
        ["(", "[", "]", ")", openBrace, "(", ")", closeBrace]) = true := by
    decide +kernel
  obtain ⟨script, hparse, hword⟩ := ok_of_any haccepted
  exact ⟨script, hparse, by decide +kernel, by simpa using hword, (parse_nested hparse).2.2⟩

end BuildPrune
