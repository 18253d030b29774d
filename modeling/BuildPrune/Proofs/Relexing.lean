import BuildPrune.Proofs.Lossless
import BuildPrune.Proofs.TriviaEdits
import BuildPrune.Proofs.TriviaScan

/-!
# BuildPrune.Proofs.Relexing

Reading the text of a visited script. A script is read back from its text if and only if its trivia
stays trivia and its tokens stand in front of what follows them (`Script.readsBack_iff`).

If no block comment of a script runs over the end of a line, what `repair` makes of its trivia is
tidy again (`Pruner.tidyTokens_visitScript`), and tidy trivia stays where tokens stand
(`Script.TokensStand.triviaStays`).
-/

namespace BuildPrune

/-! ### Trivia that stays on its line

Trivia is tidy if the automaton of `BuildPrune.Proofs.TriviaScan` reads it to the end. What counts
as tidy depends on where the trivia stands, since a `#!` line opens a text and a comment may be
left open only at its end. -/

/-- No block comment of the trivia runs over the end of its line, read from `place` on. The trivia
in front of a token is closed; a comment may stay open at the end of a list. -/
def tidyEdge (place : Trivia.Place) : Edge where
  lead text := ∃ q ∈ Trivia.scan place text.toList, q.IsClosed
  trail text := ∃ q ∈ Trivia.scan place text.toList, q.IsOutside

instance (place : Trivia.Place) : DecidablePred (tidyEdge place).lead :=
  fun text => inferInstanceAs (Decidable (∃ q ∈ Trivia.scan place text.toList, q.IsClosed))

instance (place : Trivia.Place) : DecidablePred (tidyEdge place).trail :=
  fun text => inferInstanceAs (Decidable (∃ q ∈ Trivia.scan place text.toList, q.IsOutside))

theorem tidyEdge_empty : (tidyEdge .between).lead "" :=
  ⟨.between, rfl, .inr rfl⟩

/-- Repaired trivia is scanned to where the trivia behind the removed entry was. A scan that is
outside of comments at line breaks can be cut and joined there. -/
theorem exists_scan_repair {place : Trivia.Place} (hplace : place.IsClosed)
    {accepts : Trivia.Place → Prop} (hstart : accepts .start) {removed following : String}
    (atStart atEnd : Bool) (hremoved : (tidyEdge place).lead removed)
    (hfollowing : ∃ q ∈ Trivia.scan .between following.toList, accepts q) :
    ∃ q ∈ Trivia.scan place
      (String.ofList (Trivia.repair removed.toList following.toList atStart atEnd)).toList,
      accepts q := by
  obtain ⟨r, hr, hclosed⟩ := hremoved
  obtain ⟨q, hq, haccepts⟩ := hfollowing
  obtain ⟨q', hq', hsame⟩ := Trivia.scan_repair atStart atEnd hplace hr hclosed hq
  rw [String.toList_ofList]
  refine ⟨q', hq', ?_⟩
  rcases hsame with rfl | ⟨rfl, -⟩
  · exact haccepts
  · exact hstart

/-- So trivia that is tidy stays so when it is repaired, at the start of a script as well. -/
theorem tidyEdge_repairClosed {place : Trivia.Place} (hplace : place.IsClosed) :
    RepairClosed (tidyEdge place) (tidyEdge .between) where
  lead atStart hremoved hfollowing :=
    exists_scan_repair hplace (.inl rfl) atStart false hremoved hfollowing
  trail atStart hremoved hfollowing :=
    exists_scan_repair hplace (.inl rfl) atStart true hremoved hfollowing

/-- The trivia at the end of a block is closed, as a brace follows it. -/
theorem tidyEdge_repairClosed_both :
    RepairClosed (.both (tidyEdge .between).lead) (.both (tidyEdge .between).lead) where
  lead atStart hremoved hfollowing :=
    exists_scan_repair (.inr rfl) (.inl rfl) atStart false hremoved hfollowing
  trail atStart hremoved hfollowing :=
    exists_scan_repair (.inr rfl) (.inl rfl) atStart true hremoved hfollowing

/-! ### Lists of tokens -/

/-- The trivia in front of each token has the property `later`, that of the first the property
`first`, and so has the trivia behind the tokens. -/
def TokensEdged (first later : Edge) : List Token → (eof : String) → Prop
  | [], eof => first.trail eof
  | t :: tokens, eof => first.lead t.leading ∧ TokensEdged later later tokens eof

theorem tokensEdged_iff {edge : Edge} {tokens : List Token} {eof : String} :
    TokensEdged edge edge tokens eof ↔ AllEdged edge.lead tokens ∧ edge.trail eof := by
  induction tokens with
  | nil => simp [TokensEdged]
  | cons t tokens ih => simp [TokensEdged, ih, and_assoc]

theorem tokensEdged_statements_iff {first later : Edge} {statements : List Statement}
    {eof : String} :
    TokensEdged first later (Statement.listTokens statements) eof ↔
      StatementsEdged first later statements eof ∧
        ∀ s ∈ statements, InnerEdged later.lead s.tokens := by
  cases statements with
  | nil => simp [Statement.listTokens, TokensEdged, StatementsEdged]
  | cons s rest =>
      obtain ⟨tokens, htokens, -⟩ := s.exists_tokens
      have hinner : InnerEdged later.lead s.tokens ↔ AllEdged later.lead tokens := by
        rw [htokens, innerEdged_cons]
      rw [Statement.listTokens, htokens, List.cons_append, TokensEdged, tokensEdged_iff,
        allEdged_append, allEdged_statements_iff, StatementsEdged, statementsEdged_iff,
        List.forall_mem_cons, hinner]
      show first.lead s.leading ∧ _ ↔ _
      constructor
      · rintro ⟨hlead, ⟨htokens, hleads, hinners⟩, htrail⟩
        exact ⟨⟨hlead, hleads, htrail⟩, htokens, hinners⟩
      · rintro ⟨⟨hlead, hleads, htrail⟩, htokens, hinners⟩
        exact ⟨hlead, ⟨htokens, hleads, hinners⟩, htrail⟩

instance TokensEdged.decidable (first later : Edge) [DecidablePred first.lead]
    [DecidablePred first.trail] [DecidablePred later.lead] [DecidablePred later.trail] :
    ∀ (tokens : List Token) (eof : String), Decidable (TokensEdged first later tokens eof)
  | [], eof => inferInstanceAs (Decidable (first.trail eof))
  | t :: tokens, eof =>
    have := TokensEdged.decidable later later tokens eof
    inferInstanceAs (Decidable (first.lead t.leading ∧ TokensEdged later later tokens eof))

/-- No block comment among the tokens runs over the end of a line. -/
def TidyTokens (tokens : List Token) (eof : String) : Prop :=
  TokensEdged (tidyEdge .start) (tidyEdge .between) tokens eof

instance (tokens : List Token) (eof : String) : Decidable (TidyTokens tokens eof) :=
  inferInstanceAs (Decidable (TokensEdged _ _ tokens eof))

/-! ### Trivia that stays and tokens that stand

Being read back has two sides which can be proved apart: the trivia in front of each token is read
as trivia, and each token is read as itself. The first follows from the second if the trivia is
tidy. -/

/-- Every token is read as what it is in front of what follows it. -/
def Stand : List Token → (rest : List Char) → Prop
  | [], _ => True
  | t :: tokens, rest => t.StandsBefore (spell tokens rest) ∧ Stand tokens rest

/-- The trivia in front of each token and behind the last is read as trivia, once `pending`, which
opens the first of it, has been. -/
def Skipped (pending : List Char) : List Token → (eof : String) → Prop
  | [], eof => ∃ trivia, eof.toList = pending ++ trivia ∧ Lexer.Skips trivia []
  | t :: tokens, eof =>
    (∃ trivia, t.leading.toList = pending ++ trivia ∧
      Lexer.Skips trivia (t.text.toList ++ spell tokens eof.toList)) ∧ Skipped [] tokens eof

/-- A spelling is read as its tokens if the trivia is skipped and the tokens stand. The lexer takes
turns with the two, so they can be asked for apart. -/
theorem spelledAfter_iff {pending : List Char} {tokens : List Token} {eof : String} :
    SpelledAfter pending tokens eof ↔ Skipped pending tokens eof ∧ Stand tokens eof.toList := by
  induction tokens generalizing pending with
  | nil => simp [SpelledAfter, Skipped, Stand]
  | cons t tokens ih =>
      rw [SpelledAfter, Skipped, Stand, ih]
      constructor
      · rintro ⟨htrivia, hstands, hskipped, hstand⟩
        exact ⟨⟨htrivia, hskipped⟩, hstands, hstand⟩
      · rintro ⟨⟨htrivia, hskipped⟩, hstands, hstand⟩
        exact ⟨htrivia, hstands, hskipped, hstand⟩

/-- The tokens of a text stand. -/
theorem stand_lex (source : String) : Stand (lex source).tokens (lex source).eof.toList :=
  (spelledAfter_iff.1 (spelled_lex source)).2

namespace Script

/-- The text of the script is read back: as its tokens, each with the trivia in front of it, and the
trivia behind them. -/
def ReadsBack (script : Script) : Prop :=
  (lex script.print).tokens.map Token.lexeme = script.tokens.map Token.lexeme ∧
    (lex script.print).eof = script.eof

/-- The trivia of the script is read as trivia. -/
def TriviaStays (script : Script) : Prop :=
  Skipped (Lexer.shebang (spell script.tokens script.eof.toList)) script.tokens script.eof

/-- The tokens of the script are read as what they are, and the first opens no `#!` line. A `#` in
front would turn the first line into trivia. -/
def TokensStand (script : Script) : Prop :=
  Stand script.tokens script.eof.toList ∧
    ∀ t ∈ script.tokens.head?, t.leading = "" →
      Lexer.shebang (spell script.tokens script.eof.toList) = []

theorem TriviaStays.opensNoShebang {script : Script} (h : script.TriviaStays) :
    ∀ t ∈ script.tokens.head?, t.leading = "" →
      Lexer.shebang (spell script.tokens script.eof.toList) = [] := by
  intro t ht hempty
  rw [TriviaStays] at h
  generalize Lexer.shebang (spell script.tokens script.eof.toList) = shebang at h ⊢
  cases htokens : script.tokens with
  | nil => simp [htokens] at ht
  | cons t' tokens =>
      obtain rfl : t' = t := by simpa [htokens] using ht
      rw [htokens] at h
      obtain ⟨⟨trivia, hleading, -⟩, -⟩ := h
      rw [hempty] at hleading
      exact (List.append_eq_nil_iff.1 hleading.symm).1

/-- A script is read back if and only if its trivia stays and its tokens stand. -/
theorem readsBack_iff {script : Script} :
    script.ReadsBack ↔ script.TriviaStays ∧ script.TokensStand := by
  have hspelled : script.ReadsBack ↔ Spelled script.tokens script.eof := spelled_iff.symm
  rw [hspelled, Spelled, spelledAfter_iff]
  exact ⟨fun h => ⟨h.1, h.2, TriviaStays.opensNoShebang h.1⟩, fun h => ⟨h.1, h.2.1⟩⟩

end Script

theorem Token.StandsBefore.isSharp {t : Token} {rest : List Char} (h : t.StandsBefore rest) :
    Trivia.IsSharp (t.text.toList ++ rest) := by
  intro c hc
  obtain ⟨-, htrivia, -⟩ := h
  cases htext : t.text.toList ++ rest with
  | nil => simp [htext] at hc
  | cons d text =>
      obtain rfl : d = c := by simpa [htext] using hc
      rw [htext] at htrivia
      constructor
      · by_contra hbreak
        rw [Bool.not_eq_false] at hbreak
        by_cases hpair : ∀ tail, d = '\r' → text ≠ '\n' :: tail
        · rw [Trivia.trivia?_lineBreak hbreak hpair] at htrivia
          cases htrivia
        · push Not at hpair
          obtain ⟨tail, rfl, rfl⟩ := hpair
          simp [Lexer.trivia?] at htrivia
      · by_contra hblank
        rw [Bool.not_eq_false] at hblank
        rw [Trivia.trivia?_blank hblank] at htrivia
        cases htrivia

/-- Tidy trivia between tokens that stand is read as trivia. It is skipped up to the token, which is
sharp and so stops it. -/
theorem skipped_of_stand : ∀ {tokens : List Token} {eof : String},
    TokensEdged (tidyEdge .between) (tidyEdge .between) tokens eof → Stand tokens eof.toList →
      Skipped [] tokens eof
  | [], eof, ⟨q, hq, houtside⟩, _ =>
      ⟨eof.toList, rfl, Trivia.skips_of_scan houtside (by simp [Trivia.IsSharp]) (fun _ => rfl) _ hq⟩
  | t :: tokens, eof, ⟨⟨q, hq, hclosed⟩, hmore⟩, ⟨hstands, hstand⟩ => by
      refine ⟨⟨t.leading.toList, rfl, ?_⟩, skipped_of_stand hmore hstand⟩
      refine Trivia.skips_of_scan hclosed.isOutside hstands.isSharp ?_ _ hq
      rintro rfl
      exact absurd hclosed (by decide)

/-- Tidy trivia stays where tokens stand. -/
theorem Script.TokensStand.triviaStays {script : Script} (h : script.TokensStand)
    (htidy : TidyTokens script.tokens script.eof) : script.TriviaStays := by
  obtain ⟨hstand, hshebang⟩ := h
  rw [Script.TriviaStays]
  cases htokens : script.tokens with
  | nil =>
      rw [htokens] at htidy
      obtain ⟨q, hq, houtside⟩ := htidy
      have hsharp : Trivia.IsSharp [] := by simp [Trivia.IsSharp]
      obtain ⟨trivia, htext, hskips⟩ :=
        Trivia.skips_of_scan_start houtside hsharp (fun _ => rfl) _ hq (fun _ => rfl)
      rw [List.append_nil] at htext
      rw [spell_nil]
      exact ⟨trivia, htext, hskips⟩
  | cons t tokens =>
      rw [htokens] at htidy hstand hshebang
      obtain ⟨⟨q, hq, hclosed⟩, hmore⟩ := htidy
      obtain ⟨hstands, hstand⟩ := hstand
      -- Without trivia in front of it, the first token could open a `#!` line.
      have hbare : t.leading.toList = [] →
          Lexer.shebang (t.text.toList ++ spell tokens script.eof.toList) = [] := by
        intro hempty
        have hread := hshebang t rfl (String.toList_inj.1 hempty)
        rw [spell_cons, hempty] at hread
        exact hread
      have hline : q = .line → t.text.toList ++ spell tokens script.eof.toList = [] := by
        rintro rfl
        exact absurd hclosed (by decide)
      obtain ⟨trivia, htext, hskips⟩ :=
        Trivia.skips_of_scan_start hclosed.isOutside hstands.isSharp hline _ hq hbare
      rw [spell_cons]
      exact ⟨⟨trivia, htext, hskips⟩, skipped_of_stand hmore hstand⟩

/-- A visit preserves properties of trivia that `repair` preserves, in terms of the tokens of the
script. -/
theorem Pruner.tokensEdged_visitScript {first later : Edge} (hfirst : RepairClosed first later)
    (hlater : RepairClosed later later)
    (hinner : RepairClosed (.both later.lead) (.both later.lead)) (hempty : later.lead "")
    (p : Pruner) {script : Script} (h : TokensEdged first later script.tokens script.eof) :
    TokensEdged first later (p.visitScript script).1.tokens (p.visitScript script).1.eof := by
  rw [Script.tokens, tokensEdged_statements_iff] at h ⊢
  exact edged_visitScript hfirst hlater hinner hempty p script h.1 h.2

/-- Visiting a script leaves its trivia tidy. Trivia is cut at line breaks only, and none of them is
inside a comment. -/
theorem Pruner.tidyTokens_visitScript (p : Pruner) {script : Script}
    (h : TidyTokens script.tokens script.eof) :
    TidyTokens (p.visitScript script).1.tokens (p.visitScript script).1.eof :=
  p.tokensEdged_visitScript (tidyEdge_repairClosed (.inl rfl)) (tidyEdge_repairClosed (.inr rfl))
    tidyEdge_repairClosed_both tidyEdge_empty h

end BuildPrune
