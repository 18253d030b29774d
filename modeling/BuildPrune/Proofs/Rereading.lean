import BuildPrune.Proofs.Rejoining
import BuildPrune.Proofs.Relexing

/-!
# BuildPrune.Proofs.Rereading

**When a visited script is read back.** The text of a visited script need not be read as its tokens:
trivia is cut at the ends of lines, also inside a block comment, and tokens that nothing separates
run into each other when what stood between them goes. These are the two ways in which it can fail,
and each is excluded by how the script is written (`Pruner.readsBack_visitScript`):

* trivia stays trivia if no block comment runs over the end of a line;
* tokens stand if literals are closed and the script leaves room for removals.
-/

namespace BuildPrune

/-! ### From tokens that stand to joined tokens and back

A token of a text stands in front of what follows it. To see what happens if something else comes
to follow it, one has to know why it ends there, and that is what being joined adds. -/

/-- Where each token ends can be seen from the next two characters. -/
def Clear : List Token → (rest : List Char) → Prop
  | [], _ => True
  | t :: tokens, rest => t.IsClear (spell tokens rest) ∧ Clear tokens rest

/-- A name, a number or a mark other than `/` and `#`. -/
def Token.isPlain (t : Token) : Bool :=
  [.ident, .number, .punct].contains t.kind && t.text != "/" && t.text != "#"

theorem Token.isClear_of_isPlain {t : Token} (h : t.isPlain = true) (rest : List Char) :
    t.IsClear rest := by
  obtain ⟨leading, kind, text, span⟩ := t
  simp only [Token.isPlain, Bool.and_eq_true, List.contains_eq_mem, decide_eq_true_eq, bne_iff_ne,
    List.mem_cons, List.not_mem_nil, or_false] at h
  obtain ⟨⟨hkind, hslash⟩, hhash⟩ := h
  refine ⟨?_, ?_, fun htext => absurd htext hslash, fun htext => absurd htext hhash⟩
  · rcases hkind with rfl | rfl | rfl <;> simp
  · rcases hkind with rfl | rfl | rfl <;> simp

theorem clear_of_isPlain : ∀ {tokens : List Token} (rest : List Char),
    tokens.all Token.isPlain = true → Clear tokens rest
  | [], _, _ => trivial
  | _ :: _, rest, h => by
      rw [List.all_cons, Bool.and_eq_true] at h
      exact ⟨Token.isClear_of_isPlain h.1 _, clear_of_isPlain rest h.2⟩

/-- Tokens that stand are joined, if it can be seen where each of them ends. -/
theorem Stand.joined : ∀ {tokens : List Token} {rest : List Char}, Stand tokens rest →
    Clear tokens rest → Joined tokens rest
  | [], _, _, _ => trivial
  | _ :: _, _, ⟨hstands, hstand⟩, ⟨hclear, hmore⟩ => ⟨⟨hstands, hclear⟩, hstand.joined hmore⟩

/-- Joined tokens stand. -/
theorem Joined.stand : ∀ {tokens : List Token} {rest : List Char}, Joined tokens rest →
    Stand tokens rest
  | [], _, _ => trivial
  | _ :: _, _, ⟨hends, hmore⟩ => ⟨hends.stands, hmore.stand⟩

/-- A token that opens with `#` is that and no more. -/
theorem Token.EndsBefore.text_of_hash {t : Token} {rest tail : List Char} (h : t.EndsBefore rest)
    (htext : t.text.toList = '#' :: tail) : tail = [] := by
  obtain ⟨⟨-, -, hread⟩, hclear⟩ := h
  rw [htext, List.cons_append, Lexer.token] at hread
  have hname : (Text.isIdentifierStart '#' || '#' == '_' || '#' == '$') = false := by
    decide
  have hidentifier : Lexer.identifier? ('#' :: (tail ++ rest)) = none := by
    rw [Lexer.identifier?, if_neg (Bool.eq_false_iff.1 hname)]
    decide
  have hnumber : Lexer.number? ('#' :: (tail ++ rest)) = none := by simp [Lexer.number?]
  -- Nothing but punctuation opens with a `#`, and of that only `#` itself.
  rw [Lexer.literal?_of_ne (by decide), hnumber, hidentifier] at hread
  have hspellings : ∀ p ∈ Lexer.punctuation, p.toList.head? = some '#' → p.toList.tail = [] :=
    forall_mem_of_all (by decide)
  cases hmark : Lexer.punctuation? ('#' :: (tail ++ rest)) with
  | none =>
      rw [hmark] at hread
      exact absurd (Prod.mk.inj hread).1.symm hclear.known
  | some behind =>
      rw [hmark] at hread
      obtain rfl := (Prod.mk.inj hread).2
      rw [← List.cons_append] at hmark
      have hmem := (Lexer.of_punctuation? hmark).1
      have htail := hspellings _ hmem (by rw [String.toList_ofList]; rfl)
      rwa [String.toList_ofList] at htail

/-- Joined tokens open no `#!` line: a `#` that ends by itself is not followed by `!`. -/
theorem Joined.opensNoShebang {tokens : List Token} {rest : List Char} (h : Joined tokens rest) :
    ∀ t ∈ tokens.head?, t.leading = "" → Lexer.shebang (spell tokens rest) = [] := by
  rintro t ht hempty
  cases tokens with
  | nil => cases ht
  | cons t' tokens =>
      obtain rfl : t' = t := by simpa using ht
      obtain ⟨hends, -⟩ := h
      rw [spell_cons, hempty, String.toList_empty, List.nil_append]
      obtain ⟨c, tail, htext⟩ := List.exists_cons_of_ne_nil hends.stands.1
      by_cases hhash : c = '#'
      · subst hhash
        obtain rfl := hends.text_of_hash htext
        have hmark := hends.clear.shebang (String.toList_inj.1 htext)
        rw [htext, List.singleton_append]
        cases hbehind : spell tokens rest with
        | nil => rfl
        | cons d behind =>
            have hd : d ≠ '!' := by
              rintro rfl
              simp [hbehind] at hmark
            rw [Lexer.shebang, Lexer.shebang?]
            exact fun _ hsame => hd (List.cons.inj (List.cons.inj hsame).2).1
      · rw [htext, List.cons_append, Lexer.shebang, Lexer.shebang?]
        exact fun _ hsame => hhash (List.cons.inj hsame).1

namespace Pruner

/-! ### Visited scripts

What is asked of the script can be checked before the visit: no block comment over several lines,
literals that are closed, and room where something can go. -/

/-- The tokens of a visited script stand if the script was read from a text with closed literals
and leaves room for removals. Both conditions are decidable, and are asked of the text before the
visit. -/
theorem tokensStand_visitScript {source : String} {dialect : Dialect} {script : Script}
    (hparse : parse source dialect = .ok script)
    (hclear : Clear (lex source).tokens (lex source).eof.toList) (hspaced : script.spaced = true)
    (p : Pruner) : (p.visitScript script).1.TokensStand := by
  obtain ⟨htokens, heof⟩ := tokens_of_parse hparse
  have hjoined : Joined script.tokens script.eof.toList := by
    rw [htokens, heof]
    exact (stand_lex source).joined hclear
  have hvisited := p.joined_visitScript (shaped_of_parse hparse) hspaced hjoined
  exact ⟨hvisited.stand, hvisited.opensNoShebang⟩

/-- Scripts of which a visit leaves a text that is read back. For every text that is parsed and
every rule, the text of the visited script is read as its tokens, each with its kind, its spelling
and the trivia in front of it,

* exactly if its tokens stand, where no block comment runs over the end of a line;
* exactly if its trivia stays trivia, where literals are closed and there is room for removals;
* and so always where both hold. -/
theorem readsBack_visitScript {source : String} {dialect : Dialect} {script : Script}
    (hparse : parse source dialect = .ok script) (p : Pruner) :
    (TidyTokens (lex source).tokens (lex source).eof →
      ((p.visitScript script).1.ReadsBack ↔ (p.visitScript script).1.TokensStand)) ∧
    (Clear (lex source).tokens (lex source).eof.toList → script.spaced = true →
      ((p.visitScript script).1.ReadsBack ↔ (p.visitScript script).1.TriviaStays)) ∧
    (TidyTokens (lex source).tokens (lex source).eof →
      Clear (lex source).tokens (lex source).eof.toList → script.spaced = true →
        (p.visitScript script).1.ReadsBack) := by
  obtain ⟨htokens, heof⟩ := tokens_of_parse hparse
  have hstays (htidy : TidyTokens (lex source).tokens (lex source).eof)
      (hstand : (p.visitScript script).1.TokensStand) : (p.visitScript script).1.TriviaStays := by
    rw [← htokens, ← heof] at htidy
    exact hstand.triviaStays (p.tidyTokens_visitScript htidy)
  refine ⟨fun htidy => ?_, fun hclear hspaced => ?_, fun htidy hclear hspaced => ?_⟩
  · rw [Script.readsBack_iff]
    exact ⟨fun h => h.2, fun hstand => ⟨hstays htidy hstand, hstand⟩⟩
  · rw [Script.readsBack_iff]
    have hstand := tokensStand_visitScript hparse hclear hspaced p
    exact ⟨fun h => h.1, fun htrivia => ⟨htrivia, hstand⟩⟩
  · have hstand := tokensStand_visitScript hparse hclear hspaced p
    exact Script.readsBack_iff.2 ⟨hstays htidy hstand, hstand⟩

/-- A statement with a comment behind it and an argument go. -/
theorem readsBack_visitScript_argument :
    ∃ script, parse "rm() // c\nkeep(a, rm(), b)\n" .groovy = .ok script ∧
      (visitScript { rules := { methods := ["rm"] } } script).1.print = "keep(a, b)\n" ∧
      (visitScript { rules := { methods := ["rm"] } } script).1.ReadsBack := by
  have hspaced : (parse "rm() // c\nkeep(a, rm(), b)\n" .groovy).toOption.any (fun script =>
      script.spaced && (visitScript { rules := { methods := ["rm"] } } script).1.print ==
        "keep(a, b)\n") = true := by
    decide +kernel
  have htidy : TidyTokens (lex "rm() // c\nkeep(a, rm(), b)\n").tokens
      (lex "rm() // c\nkeep(a, rm(), b)\n").eof := by
    decide +kernel
  have hclear : Clear (lex "rm() // c\nkeep(a, rm(), b)\n").tokens
      (lex "rm() // c\nkeep(a, rm(), b)\n").eof.toList :=
    clear_of_isPlain _ (by decide +kernel)
  cases hparse : parse "rm() // c\nkeep(a, rm(), b)\n" .groovy with
  | error fault =>
      rw [hparse] at hspaced
      cases hspaced
  | ok script =>
      rw [hparse] at hspaced
      obtain ⟨hspaced, hprint⟩ := Bool.and_eq_true_iff.1 hspaced
      exact ⟨script, rfl, beq_iff_eq.1 hprint,
        (readsBack_visitScript hparse _).2.2 htidy hclear hspaced⟩

/-- Without that, the text need not be read back: where a block comment over two lines stands in
front of a statement that goes, its first line stays and swallows what follows. -/
theorem not_readsBack_of_cut_comment :
    ¬∀ (source : String) (dialect : Dialect) (script : Script) (rules : RuleSet),
      parse source dialect = .ok script →
        (lex (visitScript { rules } script).1.print).tokens.map (fun t => (t.kind, t.text)) =
          (visitScript { rules } script).1.tokens.map fun t => (t.kind, t.text) := by
  intro h
  have hread : (parse "/* a\n b */\nrm()\nkeep()\n" .groovy).toOption.all (fun script =>
      (lex (visitScript { rules := { methods := ["rm"] } } script).1.print).tokens.map
        (fun t => (t.kind, t.text)) ==
      (visitScript { rules := { methods := ["rm"] } } script).1.tokens.map
        fun t => (t.kind, t.text)) = false := by
    decide +kernel
  cases hparse : parse "/* a\n b */\nrm()\nkeep()\n" .groovy with
  | error fault =>
      rw [hparse] at hread
      cases hread
  | ok script =>
      have hsame := h _ _ script { methods := ["rm"] } hparse
      rw [hparse] at hread
      exact absurd (beq_iff_eq.2 hsame) (by rw [Bool.not_eq_true]; exact hread)

end Pruner

end BuildPrune
