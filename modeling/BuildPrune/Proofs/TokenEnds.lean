import Mathlib.Data.List.TakeWhile
import BuildPrune.Proofs.Spelling

/-!
# BuildPrune.Proofs.TokenEnds

Where a token ends is decided by the next character or two. `Resembles` says that one text can take
the place of another behind a token: it opens alike, or with a character that no token reaches over.
A token that ends in front of a text ends in front of every text that resembles it
(`Token.EndsBefore.of_resembles`).

This leaves out the tokens whose end depends on more than that (`Token.IsClear`): literals with a
template that is not closed, and characters that start no token.
-/

namespace BuildPrune

open Text

/-! ### Texts that look alike -/

/-- The characters that no token in front reaches over: line breaks, blanks, brackets and
separators. -/
def softCharacters : List Char :=
  ['\n', '\r', ' ', '\t', '\x0c', '\uFEFF', ')', ']', '}', ',', ';', '{']

/-- The text is empty or opens with a character that no token in front reaches over. -/
def IsSoft (text : List Char) : Prop :=
  ∀ c ∈ text.head?, c ∈ softCharacters

instance (text : List Char) : Decidable (IsSoft text) :=
  decidable_of_iff (text.head?.all softCharacters.contains = true) (by
    simp [IsSoft, Option.all_eq_true])

/-- Seen from a token in front, `after` looks like `before`. A second character counts only behind
a point, as in `1.0`. -/
def Resembles (before after : List Char) : Prop :=
  IsSoft after ∨ after.head? = before.head? ∧
    (before.head? = some '.' → IsSoft after.tail ∨ after.tail.head? = before.tail.head?)

theorem Resembles.isSoft {before after : List Char} (h : Resembles before after)
    (hbefore : IsSoft before) : IsSoft after := by
  rcases h with hafter | ⟨hhead, -⟩
  · exact hafter
  · intro c hc
    rw [hhead] at hc
    exact hbefore c hc

/-- Texts that look alike do so behind the same text. -/
theorem Resembles.append {before after : List Char} (h : Resembles before after)
    (text : List Char) : Resembles (text ++ before) (text ++ after) := by
  match text with
  | [] => exact h
  | [c] =>
      refine .inr ⟨rfl, fun _ => ?_⟩
      rcases h with hafter | ⟨hhead, -⟩
      · exact .inl hafter
      · exact .inr hhead
  | c :: d :: text => exact .inr ⟨rfl, fun _ => .inr rfl⟩

/-- What a check of a list finds holds of its members. -/
theorem forall_mem_of_all {α : Type} {P : α → Prop} [DecidablePred P] {list : List α}
    (h : list.all (fun a => decide (P a)) = true) : ∀ a ∈ list, P a :=
  fun a ha => of_decide_eq_true (List.all_eq_true.1 h a ha)

/-- What fails of every soft character fails of one. -/
theorem ne_of_soft {c d : Char} (hc : c ∈ softCharacters) (hd : d ∉ softCharacters) : c ≠ d := by
  rintro rfl
  exact hd hc

/-! ### Numbers

A number goes on with digits and letters, and with a point if a digit comes behind it. So two
characters have to be seen, where other tokens need one. -/

namespace Lexer

theorem afterNumber_of_ne {c : Char} (hc : c ≠ '.') (rest : List Char) :
    afterNumber (c :: rest) =
      if c.isAlphanum || c == '_' then afterNumber rest else c :: rest := by
  rw [afterNumber]
  exact fun _ _ hpoint _ => hc hpoint

theorem afterNumber_ne_cons {c : Char} {text rest : List Char} (h : rest <:+ text) :
    afterNumber rest ≠ c :: text := by
  intro heq
  have hlength := ((afterNumber_suffix rest).trans h).length_le
  rw [heq, List.length_cons] at hlength
  omega

/-- A number that is read to its end is read so in front of anything that ends a number. For a point
that takes two characters, as in `1.0` and `1..2`. -/
theorem afterNumber_append : ∀ {text rest : List Char}, afterNumber (text ++ rest) = rest →
    afterNumber rest = rest ∧
      ∀ rest', afterNumber rest' = rest' → afterNumber (text ++ rest') = rest'
  | [], _, h => ⟨h, fun _ h' => h'⟩
  | [c], rest, h => by
      -- A number does not end with a point: it goes on with a digit, or the point is not read.
      have hpoint : c ≠ '.' := by
        rintro rfl
        cases rest with
        | nil => simp [afterNumber] at h
        | cons d rest =>
            rw [List.singleton_append, afterNumber] at h
            split at h
            · exact absurd h (afterNumber_ne_cons List.suffix_rfl)
            · simpa using congrArg List.length h
      rw [List.singleton_append, afterNumber_of_ne hpoint] at h
      split at h
      · next hword =>
          refine ⟨h, fun rest' hrest' => ?_⟩
          rw [List.singleton_append, afterNumber_of_ne hpoint, if_pos hword]
          exact hrest'
      · simpa using congrArg List.length h
  | c :: d :: text, rest, h => by
      -- Both characters are of the number, so what follows them is not looked at.
      by_cases hpoint : c = '.'
      · subst hpoint
        rw [List.cons_append, List.cons_append, afterNumber] at h
        split at h
        · next hdigit =>
            obtain ⟨hrest, hread⟩ := afterNumber_append h
            refine ⟨hrest, fun rest' hrest' => ?_⟩
            rw [List.cons_append, List.cons_append, afterNumber, if_pos hdigit]
            exact hread rest' hrest'
        · have hlength := congrArg List.length h
          simp only [List.length_cons, List.length_append] at hlength
          omega
      · rw [List.cons_append, afterNumber_of_ne hpoint] at h
        split at h
        · next hword =>
            obtain ⟨hrest, hread⟩ := afterNumber_append h
            refine ⟨hrest, fun rest' hrest' => ?_⟩
            rw [List.cons_append, afterNumber_of_ne hpoint, if_pos hword]
            exact hread rest' hrest'
        · have hlength := congrArg List.length h
          simp only [List.length_cons, List.length_append] at hlength
          omega

theorem not_isDigit_of_soft : ∀ c ∈ softCharacters, ¬c.isDigit = true :=
  forall_mem_of_all (by decide)

theorem not_isWord_of_soft : ∀ c ∈ softCharacters, (c.isAlphanum || c == '_') = false :=
  forall_mem_of_all (by decide)

/-- What ends a number is seen from its first two characters. -/
theorem afterNumber_of_resembles {before after : List Char} (h : afterNumber before = before)
    (hlike : Resembles before after) : afterNumber after = after := by
  have hsoft : ∀ {c : Char} {rest : List Char}, c ∈ softCharacters →
      afterNumber (c :: rest) = c :: rest := by
    intro c rest hc
    have hpoint : c ≠ '.' := ne_of_soft hc (by decide)
    rw [afterNumber_of_ne hpoint, not_isWord_of_soft c hc]
    rfl
  cases after with
  | nil => rfl
  | cons c after =>
      rcases hlike with hafter | ⟨hhead, hsecond⟩
      · exact hsoft (hafter c rfl)
      · obtain ⟨rest, rfl⟩ : ∃ rest, before = c :: rest := by
          cases before with
          | nil => simp at hhead
          | cons d rest => exact ⟨rest, by simpa using hhead.symm⟩
        -- Only behind a point the second character matters.
        by_cases hpoint : c = '.'
        · subst hpoint
          cases after with
          | nil => rfl
          | cons d after =>
              have hdigit : ¬d.isDigit = true := by
                intro hdigit
                rcases hsecond rfl with hafter | hnext
                · exact not_isDigit_of_soft d (hafter d rfl) hdigit
                · obtain ⟨rest', rfl⟩ : ∃ rest', rest = d :: rest' := by
                    cases rest with
                    | nil => simp at hnext
                    | cons e rest => exact ⟨rest, by simpa using hnext.symm⟩
                  rw [afterNumber, if_pos hdigit] at h
                  exact absurd h (afterNumber_ne_cons (List.suffix_cons _ _))
              rw [afterNumber, if_neg hdigit]
        · rw [afterNumber_of_ne hpoint] at h ⊢
          split at h
          · exact absurd h (afterNumber_ne_cons List.suffix_rfl)
          · next hword => rw [if_neg hword]

/-! ### Names -/

/-- What a predicate has passed over completely, it passes over in front of whatever it stops at. -/
theorem forall_of_dropWhile_append {p : Char → Bool} {text rest : List Char}
    (h : (text ++ rest).dropWhile p = rest) : ∀ c ∈ text, p c = true := by
  intro c hc
  have hsplit := List.takeWhile_append_dropWhile (p := p) (l := text ++ rest)
  rw [h] at hsplit
  rw [← List.append_cancel_right hsplit] at hc
  exact List.mem_takeWhile_imp hc

/-- A name that is read to its end is read so in front of what looks alike. -/
theorem dropWhile_append_of_resembles {p : Char → Bool} (hsoft : ∀ c ∈ softCharacters, p c = false)
    {text before after : List Char} (h : (text ++ before).dropWhile p = before)
    (hlike : Resembles before after) : (text ++ after).dropWhile p = after := by
  have hall := forall_of_dropWhile_append h
  rw [List.dropWhile_append_of_pos hall] at h ⊢
  cases after with
  | nil => rfl
  | cons c after =>
      -- Soft text is not passed over, and `before` has stopped at the same character.
      refine List.dropWhile_cons_of_neg fun hc => ?_
      rcases hlike with hafter | ⟨hhead, -⟩
      · rw [hsoft c (hafter c rfl)] at hc
        cases hc
      · cases before with
        | nil => simp at hhead
        | cons d before =>
            obtain rfl : c = d := by simpa using hhead
            rw [List.dropWhile_cons_of_pos hc] at h
            have hlength := (List.dropWhile_suffix p (l := before)).length_le
            rw [h, List.length_cons] at hlength
            omega

/-- A name between backticks is read to its end in front of anything. -/
theorem afterBacktick_append {text rest : List Char} (h : afterBacktick (text ++ rest) = some rest)
    (rest' : List Char) : afterBacktick (text ++ rest') = some rest' := by
  unfold afterBacktick at h ⊢
  dsimp only at h ⊢
  generalize hp : (fun c => !(c == '\x60' || isLineBreak c)) = p at h ⊢
  have hstop : ¬p '\x60' = true := by
    rw [← hp]
    decide
  split at h
  · next c name after hname hafter =>
      cases h
      have hsplit := List.takeWhile_append_dropWhile (p := p) (l := text ++ rest)
      rw [hname, hafter, List.append_cons] at hsplit
      have hall : ∀ d ∈ c :: name, p d = true := by
        intro d hd
        rw [← hname] at hd
        exact List.mem_takeWhile_imp hd
      rw [← List.append_cancel_right hsplit, List.append_assoc, List.takeWhile_append_of_pos hall,
        List.dropWhile_append_of_pos hall, List.singleton_append,
        List.takeWhile_cons_of_neg hstop, List.dropWhile_cons_of_neg hstop, List.append_nil]
      rfl
  · cases h

theorem not_continues_of_soft :
    ∀ c ∈ softCharacters, (isIdentifierContinue c || c == '$') = false :=
  forall_mem_of_all (by decide +kernel)

/-! ### Punctuation

Of the spellings that fit, the lexer takes the longest. What follows a token could make a longer
one of it only if it goes on with one of a few characters, and none of the soft ones is among
them. -/

theorem punctuation_lengths :
    ∀ p ∈ punctuation, 0 < p.toList.length ∧ p.toList.length ≤ 3 :=
  forall_mem_of_all (by decide)

theorem not_mem_softCharacters_of_punctuation :
    ∀ p ∈ punctuation, ∀ c ∈ p.toList.tail, c ∉ softCharacters := by
  have hall : punctuation.all (fun p =>
      p.toList.tail.all fun c => decide (c ∉ softCharacters)) = true := by
    decide
  intro p hp
  exact forall_mem_of_all (List.all_eq_true.1 hall p hp)

/-- Of a spelling with three characters the first two are a spelling. So a longer spelling shows
itself one character at a time. -/
theorem take_two_mem_punctuation :
    ∀ p ∈ punctuation, p.toList.length = 3 → String.ofList (p.toList.take 2) ∈ punctuation :=
  forall_mem_of_all (by decide)

/-- No more of a text than `text` is a spelling of punctuation. -/
def IsLongest (text rest : List Char) : Prop :=
  ∀ n, text.length < n → n ≤ 3 → String.ofList ((text ++ rest).take n) ∉ punctuation

theorem of_punctuation? {text rest : List Char}
    (h : punctuation? (text ++ rest) = some rest) :
    String.ofList text ∈ punctuation ∧ (rest ≠ [] → IsLongest text rest) := by
  obtain ⟨n, hfind, hdrop⟩ := Option.map_eq_some_iff.1 h
  obtain ⟨hn, before, after, hlist, hbefore⟩ := List.find?_eq_some_iff_append.1 hfind
  have hlength := congrArg List.length hdrop
  rw [List.length_drop, List.length_append] at hlength
  have htake : rest = [] ∨ n = text.length := by
    cases rest with
    | nil => exact .inl rfl
    | cons c rest =>
        rw [List.length_cons] at hlength
        exact .inr (by omega)
  have hmem : String.ofList ((text ++ rest).take n) ∈ punctuation := by simpa using hn
  have htext : (text ++ rest).take n = text := by
    rcases htake with rfl | rfl
    · rw [List.append_nil]
      refine List.take_of_length_le ?_
      simp only [List.length_nil] at hlength
      omega
    · exact List.take_left
  rw [htext] at hmem
  refine ⟨hmem, fun hne m hlt hle hm => ?_⟩
  obtain rfl : n = text.length := htake.resolve_left hne
  -- Longer spellings are tried first, so `m` was tried without success.
  have hearlier : m ∈ before := by
    have hpositive : 0 < text.length := by
      have := (punctuation_lengths _ hmem).1
      rwa [String.toList_ofList] at this
    have hmlist : m ∈ [3, 2, 1] := by
      have hcases : m = 2 ∨ m = 3 := by omega
      rcases hcases with rfl | rfl <;> decide
    rw [hlist, List.mem_append, List.mem_cons] at hmlist
    rcases hmlist with hmlist | rfl | hmlist
    · exact hmlist
    · exact absurd hlt (Nat.lt_irrefl _)
    · have hsorted : List.Pairwise (· > ·) [3, 2, 1] := by decide
      rw [hlist] at hsorted
      have hgt := (List.pairwise_cons.1 (List.pairwise_append.1 hsorted).2.1).1 m hmlist
      exact absurd hgt (Nat.lt_asymm hlt)
  have hnot := hbefore m hearlier
  simp [hm] at hnot

theorem punctuation?_of_longest {text rest : List Char} (hmem : String.ofList text ∈ punctuation)
    (hlongest : rest ≠ [] → IsLongest text rest) : punctuation? (text ++ rest) = some rest := by
  obtain ⟨hpositive, hle⟩ := punctuation_lengths _ hmem
  rw [String.toList_ofList] at hpositive hle
  cases rest with
  | nil =>
      rw [List.append_nil, punctuation?, List.find?_cons_of_pos
        (by simpa [List.take_of_length_le hle] using hmem), Option.map_some,
        List.drop_of_length_le hle]
  | cons c rest =>
      have hlongest := hlongest (List.cons_ne_nil c rest)
      have hself : String.ofList ((text ++ c :: rest).take text.length) ∈ punctuation := by
        rw [List.take_left]
        exact hmem
      have hdrop : (text ++ c :: rest).drop text.length = c :: rest := List.drop_left
      have hcases : text.length = 3 ∨ text.length = 2 ∨ text.length = 1 := by omega
      rcases hcases with hlen | hlen | hlen
      · rw [hlen] at hself hdrop
        rw [punctuation?, List.find?_cons_of_pos (by simpa using hself), Option.map_some, hdrop]
      · rw [hlen] at hself hdrop
        have hthree := hlongest 3 (by omega) (by omega)
        rw [punctuation?, List.find?_cons_of_neg (by simpa using hthree),
          List.find?_cons_of_pos (by simpa using hself), Option.map_some, hdrop]
      · rw [hlen] at hself hdrop
        have hthree := hlongest 3 (by omega) (by omega)
        have htwo := hlongest 2 (by omega) (by omega)
        rw [punctuation?, List.find?_cons_of_neg (by simpa using hthree),
          List.find?_cons_of_neg (by simpa using htwo),
          List.find?_cons_of_pos (by simpa using hself), Option.map_some, hdrop]

/-- Punctuation that is read to its end is read so in front of what looks alike. The longest
spelling wins, so it has to be shown that none goes on with a soft character. -/
theorem punctuation?_of_resembles {text before after : List Char}
    (h : punctuation? (text ++ before) = some before) (hlike : Resembles before after) :
    punctuation? (text ++ after) = some after := by
  obtain ⟨hmem, hlongest⟩ := of_punctuation? h
  have hpositive : 0 < text.length := by
    have := (punctuation_lengths _ hmem).1
    rwa [String.toList_ofList] at this
  refine punctuation?_of_longest hmem fun hne n hlt hle hn => ?_
  obtain ⟨c, rest, rfl⟩ := List.exists_cons_of_ne_nil hne
  obtain ⟨m, rfl⟩ : ∃ m, n = text.length + (m + 1) := ⟨n - text.length - 1, by omega⟩
  rw [List.take_length_add_append, List.take_succ_cons] at hn
  rcases hlike with hafter | ⟨hhead, -⟩
  · refine not_mem_softCharacters_of_punctuation _ hn c ?_ (hafter c rfl)
    rw [String.toList_ofList, List.tail_append_of_ne_nil (List.length_pos_iff.1 hpositive)]
    simp
  · obtain ⟨rest', rfl⟩ : ∃ rest', before = c :: rest' := by
      cases before with
      | nil => simp at hhead
      | cons d rest' => exact ⟨rest', by simpa using hhead.symm⟩
    have hnext := hlongest (List.cons_ne_nil c rest') (text.length + 1) (by omega) (by omega)
    rw [List.take_length_add_append, List.take_succ_cons, List.take_zero] at hnext
    -- The spelling reaches over `c` alone, or it has three characters and `c` is the second.
    cases htake : rest.take m with
    | nil => exact hnext (htake ▸ hn)
    | cons d more =>
        rw [htake] at hn
        have hthree := (punctuation_lengths _ hn).2
        simp only [String.toList_ofList, List.length_append, List.length_cons] at hthree
        obtain rfl : more = [] := List.eq_nil_of_length_eq_zero (by omega)
        have hone : text.length = 1 := by
          simp only [List.length_nil] at hthree
          omega
        have htwo := take_two_mem_punctuation _ hn (by simp [hone])
        obtain ⟨e, rfl⟩ := List.length_eq_one_iff.1 hone
        exact hnext (by simpa using htwo)

/-! ### What the first character decides

Trivia, literals, numbers and names are each known by the character that they start with. So which
of them it is does not depend on what comes behind the token. -/

/-- The characters that trivia opens with. -/
def triviaStarts : List Char :=
  ['/', '\n', '\r', ' ', '\t', '\x0c', '\uFEFF']

theorem trivia?_of_not_mem {c : Char} (hc : c ∉ triviaStarts) (text : List Char) :
    trivia? (c :: text) = none := by
  simp only [triviaStarts, List.mem_cons, List.not_mem_nil, or_false, not_or] at hc
  obtain ⟨hslash, hlf, hcr, hspace, htab, hfeed, hmark⟩ := hc
  rw [trivia?]
  · simp [isLineBreak, isBlank, hlf, hcr, hspace, htab, hfeed, hmark]
  · exact fun _ h _ => hcr h
  · exact fun _ h _ => hslash h
  · exact fun _ h _ => hslash h

theorem literalBy_of_ne {c : Char} (hc : c ≠ '"' ∧ c ≠ '\'')
    (double tripleDouble : List Char → Option (List Char)) (text : List Char) :
    Literal.literalBy double tripleDouble (c :: text) = none := by
  rw [Literal.literalBy]
  · exact fun _ h => hc.1 (List.cons.inj h).1
  · exact fun _ h => hc.2 (List.cons.inj h).1
  · exact fun _ h => hc.1 (List.cons.inj h).1
  · exact fun _ h => hc.2 (List.cons.inj h).1

theorem literal?_of_ne {c : Char} (hc : c ≠ '"' ∧ c ≠ '\'') (text : List Char) :
    Literal.literal? (c :: text) = none :=
  literalBy_of_ne hc _ _ text

theorem number?_eq_none {c : Char} {text : List Char} (h : number? (c :: text) = none)
    (text' : List Char) : number? (c :: text') = none := by
  by_cases hdigit : c.isDigit = true
  · simp [number?, hdigit] at h
  · rw [number?, if_neg hdigit]

theorem identifier?_eq_none {c : Char} {text : List Char} (hc : c ≠ '\x60')
    (h : identifier? (c :: text) = none) (text' : List Char) : identifier? (c :: text') = none := by
  rw [identifier?] at h ⊢
  · split at h
    · cases h
    · next hstart => rw [if_neg hstart]
  · exact hc
  · exact hc

/-- What a token is read as, by the kinds that the lexer tries in turn: a literal, a number, a name,
punctuation, and at last a character that nothing else starts with. -/
theorem token_cases {text rest : List Char} {kind : TokenKind} (h : token text = (kind, rest)) :
    kind = .str ∧ Literal.literal? text = some rest ∨
      Literal.literal? text = none ∧
        (kind = .number ∧ number? text = some rest ∨
          number? text = none ∧
            (kind = .ident ∧ identifier? text = some rest ∨
              identifier? text = none ∧
                (kind = .punct ∧ punctuation? text = some rest ∨
                  kind = .unknown ∧ rest = text.drop 1))) := by
  unfold token at h
  split at h
  · next hread =>
      cases h
      exact .inl ⟨rfl, hread⟩
  · next hliteral =>
      refine .inr ⟨hliteral, ?_⟩
      split at h
      · next hread =>
          cases h
          exact .inl ⟨rfl, hread⟩
      · next hnumber =>
          refine .inr ⟨hnumber, ?_⟩
          split at h
          · next hread =>
              cases h
              exact .inl ⟨rfl, hread⟩
          · next hidentifier =>
              refine .inr ⟨hidentifier, ?_⟩
              split at h
              · next hread =>
                  cases h
                  exact .inl ⟨rfl, hread⟩
              · cases h
                exact .inr ⟨rfl, rfl⟩

end Lexer

/-! ### Tokens -/

/-- The literal is read to its end in front of anything but a quote. -/
def Literal.IsClosed (text : List Char) : Prop :=
  ∀ rest : List Char, (∀ c ∈ rest.head?, c ≠ '"' ∧ c ≠ '\'') → literal? (text ++ rest) = some rest

/-- Where the token ends can be seen from the next two characters, and it opens neither a comment
nor a `#!` line with them. -/
structure Token.IsClear (t : Token) (rest : List Char) : Prop where
  known : t.kind ≠ .unknown
  literal : t.kind = .str →
    Literal.IsClosed t.text.toList ∧ ∀ c ∈ rest.head?, c ≠ '"' ∧ c ≠ '\''
  comment : t.text = "/" → rest.head? ≠ some '*'
  shebang : t.text = "#" → rest.head? ≠ some '!'

/-- In front of `rest` the token is read as what it is, and one can see why. -/
structure Token.EndsBefore (t : Token) (rest : List Char) : Prop where
  stands : t.StandsBefore rest
  clear : t.IsClear rest

/-- What is seen of one text is seen of one that looks alike. -/
theorem Resembles.head_ne {before after : List Char} (h : Resembles before after) {c : Char}
    (hc : c ∉ softCharacters) (hbefore : before.head? ≠ some c) : after.head? ≠ some c := by
  rcases h with hafter | ⟨hhead, -⟩
  · exact fun heq => hc (hafter c heq)
  · rw [hhead]
    exact hbefore

theorem Token.IsClear.of_resembles {t : Token} {before after : List Char} (h : t.IsClear before)
    (hlike : Resembles before after) : t.IsClear after := by
  refine ⟨h.known, fun hkind => ⟨(h.literal hkind).1, fun c hc => ?_⟩,
    fun htext => hlike.head_ne (by decide) (h.comment htext),
    fun htext => hlike.head_ne (by decide) (h.shebang htext)⟩
  have hquotes := (h.literal hkind).2
  constructor
  · rintro rfl
    exact hlike.head_ne (by decide) (fun heq => (hquotes '"' heq).1 rfl) hc
  · rintro rfl
    exact hlike.head_ne (by decide) (fun heq => (hquotes '\'' heq).2 rfl) hc

namespace Lexer

/-- A character with a property that none has that starts trivia or a literal. -/
theorem not_mem_of_forall {property : Char → Prop} {c : Char}
    (hall : ∀ d ∈ '"' :: '\'' :: triviaStarts, ¬property d) (hc : property c) :
    c ∉ triviaStarts ∧ c ≠ '"' ∧ c ≠ '\'' := by
  refine ⟨fun hmem => ?_, ?_, ?_⟩
  · exact hall c (by simp [hmem]) hc
  · rintro rfl
    exact hall _ (by simp) hc
  · rintro rfl
    exact hall _ (by simp) hc

theorem not_mem_of_isDigit {c : Char} (hc : c.isDigit = true) :
    c ∉ triviaStarts ∧ c ≠ '"' ∧ c ≠ '\'' := by
  have hall : ∀ d ∈ '"' :: '\'' :: triviaStarts, ¬d.isDigit = true :=
    forall_mem_of_all (by decide)
  exact not_mem_of_forall hall hc

/-- A number ends where it did. What starts with a digit is neither trivia nor a literal. -/
theorem number_of_resembles {c : Char} {text before after : List Char}
    (h : number? (c :: text ++ before) = some before) (hlike : Resembles before after) :
    trivia? (c :: text ++ after) = none ∧ token (c :: text ++ after) = (.number, after) := by
  rw [List.cons_append, number?] at h
  split at h
  · next hdigit =>
      obtain ⟨hbefore, hread⟩ := afterNumber_append (Option.some.inj h)
      obtain ⟨htrivia, hquotes⟩ := not_mem_of_isDigit hdigit
      refine ⟨trivia?_of_not_mem htrivia _, ?_⟩
      rw [List.cons_append, token, literal?_of_ne hquotes, number?, if_pos hdigit,
        hread after (afterNumber_of_resembles hbefore hlike)]
  · cases h

theorem not_mem_of_startsName {c : Char}
    (hc : c = '\x60' ∨ (isIdentifierStart c || c == '_' || c == '$') = true) :
    c ∉ triviaStarts ∧ c ≠ '"' ∧ c ≠ '\'' := by
  have hall : ∀ d ∈ '"' :: '\'' :: triviaStarts,
      ¬(d = '\x60' ∨ (isIdentifierStart d || d == '_' || d == '$') = true) :=
    forall_mem_of_all (by decide +kernel)
  exact not_mem_of_forall hall hc

/-- A name ends where it did. Between backticks it ends with the second of them, whatever follows;
else with the first character that does not carry it on. -/
theorem identifier_of_resembles {c : Char} {text before after : List Char}
    (hnumber : number? (c :: text ++ before) = none)
    (h : identifier? (c :: text ++ before) = some before) (hlike : Resembles before after) :
    trivia? (c :: text ++ after) = none ∧ token (c :: text ++ after) = (.ident, after) := by
  have hread : identifier? (c :: text ++ after) = some after ∧
      (c = '\x60' ∨ (isIdentifierStart c || c == '_' || c == '$') = true) := by
    by_cases hbacktick : c = '\x60'
    · subst hbacktick
      rw [List.cons_append, identifier?] at h ⊢
      exact ⟨afterBacktick_append h after, .inl rfl⟩
    · rw [List.cons_append, identifier?] at h ⊢
      · split at h
        · next hstart =>
            refine ⟨?_, .inr hstart⟩
            rw [if_pos hstart, dropWhile_append_of_resembles not_continues_of_soft
              (Option.some.inj h) hlike]
        · cases h
      · exact hbacktick
      · exact hbacktick
  obtain ⟨htrivia, hquotes⟩ := not_mem_of_startsName hread.2
  refine ⟨trivia?_of_not_mem htrivia _, ?_⟩
  rw [token, hread.1, List.cons_append, literal?_of_ne hquotes, number?_eq_none hnumber]

theorem punctuation_starts :
    ∀ p ∈ punctuation, ∀ c ∈ p.toList.head?, c ≠ '\x60' ∧ c ≠ '"' ∧ c ≠ '\'' ∧
      (c ∈ triviaStarts → p = "/" ∨ p = "/=") := by
  have hall : punctuation.all (fun p => p.toList.head?.toList.all fun c =>
      decide (c ≠ '\x60' ∧ c ≠ '"' ∧ c ≠ '\'' ∧ (c ∈ triviaStarts → p = "/" ∨ p = "/="))) =
        true := by
    decide
  intro p hp c hc
  exact forall_mem_of_all (List.all_eq_true.1 hall p hp) c (Option.mem_toList.2 hc)

theorem trivia?_slash {rest : List Char} (hline : rest.head? ≠ some '/')
    (hblock : rest.head? ≠ some '*') : trivia? ('/' :: rest) = none := by
  rw [trivia?]
  · simp [isLineBreak, isBlank]
  · exact fun _ h _ => absurd h (by decide)
  · exact fun _ _ h => hline (by rw [h]; rfl)
  · exact fun _ _ h => hblock (by rw [h]; rfl)

/-- Punctuation ends where it did. Only a slash could open trivia, and whether it does is seen from
the next character. -/
theorem punctuation_of_resembles {c : Char} {text before after : List Char}
    (htrivia : trivia? (c :: text ++ before) = none)
    (hnumber : number? (c :: text ++ before) = none)
    (hidentifier : identifier? (c :: text ++ before) = none)
    (h : punctuation? (c :: text ++ before) = some before)
    (hcomment : String.ofList (c :: text) = "/" → before.head? ≠ some '*')
    (hlike : Resembles before after) :
    trivia? (c :: text ++ after) = none ∧ token (c :: text ++ after) = (.punct, after) := by
  obtain ⟨hmem, -⟩ := of_punctuation? h
  obtain ⟨hbacktick, hdouble, hsingle, hslash⟩ := punctuation_starts _ hmem c (by simp)
  constructor
  · by_cases hc : c ∈ triviaStarts
    · rcases hslash hc with hone | htwo
      · obtain ⟨rfl, rfl⟩ : c = '/' ∧ text = [] := by
          simpa using congrArg String.toList hone
        refine trivia?_slash ?_ (hlike.head_ne (by decide) (hcomment hone))
        refine hlike.head_ne (by decide) fun hhead => ?_
        obtain ⟨rest, rfl⟩ : ∃ rest, before = '/' :: rest := by
          cases before with
          | nil => simp at hhead
          | cons d rest => exact ⟨rest, by simpa using hhead⟩
        simp [trivia?] at htrivia
      · obtain ⟨rfl, rfl⟩ : c = '/' ∧ text = ['='] := by
          simpa using congrArg String.toList htwo
        exact trivia?_slash (by simp) (by simp)
    · exact trivia?_of_not_mem hc _
  · rw [token, punctuation?_of_resembles h hlike, List.cons_append,
      literal?_of_ne ⟨hdouble, hsingle⟩, number?_eq_none hnumber,
      identifier?_eq_none hbacktick hidentifier]

end Lexer

/-- A token that ends in front of a text ends in front of every text that looks like it. It is
proved kind by kind, in the order in which the lexer tries them. -/
theorem Token.EndsBefore.of_resembles {t : Token} {before after : List Char}
    (h : t.EndsBefore before) (hlike : Resembles before after) : t.EndsBefore after := by
  obtain ⟨⟨hne, htrivia, htoken⟩, hclear⟩ := h
  refine ⟨⟨hne, ?_⟩, hclear.of_resembles hlike⟩
  have hclear' := hclear.of_resembles hlike
  have hspelled : t.text = String.ofList t.text.toList := String.ofList_toList.symm
  obtain ⟨c, text, htext⟩ := List.exists_cons_of_ne_nil hne
  have hcomment := hclear.comment
  rw [hspelled] at hcomment
  rw [htext] at htrivia htoken hcomment ⊢
  -- The readers are tried in this order, and each can tell its end from what looks alike.
  rcases Lexer.token_cases htoken with ⟨hkind, hread⟩ | ⟨-, hrest⟩
  · obtain ⟨hclosed, hquotes⟩ := hclear'.literal hkind
    have hread' := hclosed after hquotes
    rw [htext] at hread'
    have hquote : c ∉ Lexer.triviaStarts := by
      intro hc
      have hall : ∀ d ∈ Lexer.triviaStarts, d ≠ '"' ∧ d ≠ '\'' :=
        forall_mem_of_all (by decide)
      rw [List.cons_append, Lexer.literal?_of_ne (hall c hc)] at hread
      cases hread
    refine ⟨Lexer.trivia?_of_not_mem hquote _, ?_⟩
    rw [hkind, Lexer.token, hread']
  · rcases hrest with ⟨hkind, hread⟩ | ⟨hnumber, hrest⟩
    · rw [hkind]
      exact Lexer.number_of_resembles hread hlike
    · rcases hrest with ⟨hkind, hread⟩ | ⟨hidentifier, hrest⟩
      · rw [hkind]
        exact Lexer.identifier_of_resembles hnumber hread hlike
      · rcases hrest with ⟨hkind, hread⟩ | ⟨hkind, -⟩
        · rw [hkind]
          exact Lexer.punctuation_of_resembles htrivia hnumber hidentifier hread hcomment hlike
        · exact absurd hkind hclear.known

end BuildPrune
