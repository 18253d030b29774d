import BuildPrune.Proofs.Lexing

/-!
# BuildPrune.Proofs.Spelling

Which lists of tokens are read back from their text. A list is spelled out if the trivia in front of
each token is read as trivia, piece by piece (`Lexer.Skips`), and the token is read as itself in
front of what follows it (`Token.StandsBefore`). The tokens of a text are spelled out
(`spelled_lex`), and a list is spelled out if and only if it is what its text is read as
(`spelled_iff`), up to the places of the tokens in the text.
-/

namespace BuildPrune

/-! ### Steps of the lexer

The lexer is a loop with fuel. One step over trivia and one over a token are all that the proofs
use of it, each with the text that is left. -/

namespace Lexer

/-- In front of `rest` the text `trivia` is read as trivia, piece by piece. What comes behind has a
say in it, as a piece may go on there. -/
inductive Skips : (trivia rest : List Char) → Prop
  | done {rest : List Char} : Skips [] rest
  | piece {piece trivia rest : List Char}
      (hpiece : trivia? (piece ++ (trivia ++ rest)) = some (trivia ++ rest))
      (hmore : Skips trivia rest) : Skips (piece ++ trivia) rest

theorem length_lt_of_trivia? {text rest : List Char} (h : trivia? text = some rest) :
    rest.length < text.length := by
  cases text with
  | nil => simp [trivia?] at h
  | cons c cs => exact Nat.lt_succ_of_le (trivia?_suffix h).length_le

theorem length_token_lt {c : Char} {cs rest : List Char} {kind : TokenKind}
    (h : token (c :: cs) = (kind, rest)) : rest.length < (c :: cs).length := by
  have hsuffix := token_suffix (c :: cs)
  rw [h] at hsuffix
  exact Nat.lt_succ_of_le hsuffix.length_le

@[simp] theorem before_self_append (piece rest : List Char) :
    before (piece ++ rest) rest = String.ofList piece := by
  simp [before]

theorem readFrom_trivia {n offset : Nat} {pending : String} {text rest : List Char}
    (h : trivia? text = some rest) :
    readFrom (n + 1) pending offset text =
      readFrom n (pending ++ before text rest) (offset + (before text rest).utf8ByteSize) rest := by
  cases text with
  | nil => simp [trivia?] at h
  | cons c cs => rw [readFrom, h]

theorem readFrom_token {n offset : Nat} {pending : String} {text rest : List Char}
    {kind : TokenKind} (hnonempty : text ≠ []) (htrivia : trivia? text = none)
    (htoken : token text = (kind, rest)) :
    readFrom (n + 1) pending offset text =
      let piece := before text rest
      let stop := offset + piece.utf8ByteSize
      let more := readFrom n "" stop rest
      ⟨⟨pending, kind, piece, ⟨offset, stop⟩⟩ :: more.tokens, more.eof⟩ := by
  cases text with
  | nil => contradiction
  | cons c cs => rw [readFrom, htrivia, htoken]

/-- Trivia that is skipped is pending afterwards: the lexer goes through it piece by piece, with as
many steps left as the rest of the text needs. -/
theorem readFrom_of_skips {trivia rest : List Char} (h : Skips trivia rest) :
    ∀ {n : Nat} (pending : String) (offset : Nat), (trivia ++ rest).length ≤ n →
      ∃ m offset', rest.length ≤ m ∧ readFrom n pending offset (trivia ++ rest) =
        readFrom m (pending ++ String.ofList trivia) offset' rest := by
  induction h with
  | done =>
      intro n pending offset hn
      exact ⟨n, offset, hn, by simp⟩
  | @piece piece trivia rest hpiece hmore ih =>
      intro n pending offset hn
      have hlt := length_lt_of_trivia? hpiece
      rw [List.append_assoc] at hn ⊢
      obtain ⟨m, rfl⟩ : ∃ m, n = m + 1 := ⟨n - 1, by omega⟩
      rw [readFrom_trivia hpiece, before_self_append]
      obtain ⟨m', offset', hm', hread⟩ := ih (n := m) (pending ++ String.ofList piece) _ (by omega)
      refine ⟨m', offset', hm', hread.trans ?_⟩
      rw [String.ofList_append, String.append_assoc]

end Lexer

/-! ### Tokens that are spelled out

To spell a list is to write each token behind its trivia. The list is spelled out if reading that
text goes over the trivia piece by piece and then finds the token, again and again. -/

/-- In front of `rest` the token is read as what it is. -/
def Token.StandsBefore (t : Token) (rest : List Char) : Prop :=
  t.text.toList ≠ [] ∧ Lexer.trivia? (t.text.toList ++ rest) = none ∧
    Lexer.token (t.text.toList ++ rest) = (t.kind, rest)

/-- What a token is, its place in the text aside. -/
def Token.lexeme (t : Token) : String × TokenKind × String :=
  (t.leading, t.kind, t.text)

/-- The text of tokens and what follows them. -/
def spell (tokens : List Token) (rest : List Char) : List Char :=
  (printTokens tokens).toList ++ rest

@[simp] theorem spell_nil (rest : List Char) : spell [] rest = rest := by
  simp [spell]

@[simp] theorem spell_cons (t : Token) (tokens : List Token) (rest : List Char) :
    spell (t :: tokens) rest = t.leading.toList ++ (t.text.toList ++ spell tokens rest) := by
  simp [spell, Token.print]

@[simp] theorem spell_append (tokens more : List Token) (rest : List Char) :
    spell (tokens ++ more) rest = spell tokens (spell more rest) := by
  simp [spell]

/-- The tokens and the trivia behind them are read from their text once `pending`, which opens the
first trivia, has been. -/
def SpelledAfter (pending : List Char) : List Token → (eof : String) → Prop
  | [], eof => ∃ trivia, eof.toList = pending ++ trivia ∧ Lexer.Skips trivia []
  | t :: tokens, eof =>
    (∃ trivia, t.leading.toList = pending ++ trivia ∧
      Lexer.Skips trivia (t.text.toList ++ spell tokens eof.toList)) ∧
    t.StandsBefore (spell tokens eof.toList) ∧ SpelledAfter [] tokens eof

namespace Lexer

theorem spell_readFrom (n : Nat) (pending : String) (offset : Nat) (text : List Char) :
    spell (readFrom n pending offset text).tokens (readFrom n pending offset text).eof.toList =
      pending.toList ++ text := by
  rw [spell, ← print_readFrom n pending offset text, String.toList_append]

/-- One more piece of pending trivia was read as trivia. The lexer collects pieces until a token
comes, so what is pending grows at its end. -/
theorem spelledAfter_of_piece {pending piece text : List Char} {tokens : List Token} {eof : String}
    (htext : spell tokens eof.toList = (pending ++ piece) ++ text)
    (hpiece : trivia? (piece ++ text) = some text) (h : SpelledAfter (pending ++ piece) tokens eof) :
    SpelledAfter pending tokens eof := by
  cases tokens with
  | nil =>
      obtain ⟨trivia, heof, hskips⟩ := h
      rw [spell_nil, heof, List.append_cancel_left_eq] at htext
      refine ⟨piece ++ trivia, by rw [heof, List.append_assoc], .piece ?_ hskips⟩
      rw [List.append_nil, htext]
      exact hpiece
  | cons t tokens =>
      obtain ⟨⟨trivia, hleading, hskips⟩, hstands, hmore⟩ := h
      rw [spell_cons, hleading, List.append_assoc, List.append_cancel_left_eq] at htext
      refine ⟨⟨piece ++ trivia, by rw [hleading, List.append_assoc], .piece ?_ hskips⟩, hstands,
        hmore⟩
      rw [htext]
      exact hpiece

/-- What is read from a text is spelled out. The induction is on the steps of the lexer, and
`pending` is the trivia that it has gone through since the last token. -/
theorem spelledAfter_readFrom (n : Nat) (pending : String) (offset : Nat) (text : List Char)
    (hn : text.length ≤ n) :
    SpelledAfter pending.toList (readFrom n pending offset text).tokens
      (readFrom n pending offset text).eof := by
  -- `pending` is the trivia already read, which belongs to the token that comes next.
  fun_induction readFrom n pending offset text with
  | case1 pending offset text =>
      obtain rfl : text = [] := List.eq_nil_of_length_eq_zero (Nat.le_zero.1 hn)
      exact ⟨[], by simp, .done⟩
  | case2 n pending offset => exact ⟨[], by simp, .done⟩
  | case3 n pending offset c cs text rest hread piece ih =>
      have hlt : rest.length < (c :: cs).length := length_lt_of_trivia? hread
      have hpiece : piece.toList ++ rest = text :=
        before_append ((trivia?_suffix hread).trans (List.tail_suffix _))
      have hmore := ih (by omega)
      rw [String.toList_append] at hmore
      refine spelledAfter_of_piece ?_ (hpiece.symm ▸ hread) hmore
      rw [spell_readFrom, String.toList_append]
  | case4 n pending offset c cs text hread kind rest htoken piece stop more ih =>
      have hlt := length_token_lt htoken
      have hpiece : piece.toList ++ rest = text := by
        have hsuffix := token_suffix text
        rw [htoken] at hsuffix
        exact before_append (hsuffix.trans (List.tail_suffix _))
      have hmore : spell more.tokens more.eof.toList = rest := spell_readFrom n "" stop rest
      refine ⟨⟨[], by simp, .done⟩, ⟨?_, ?_, ?_⟩, ih (by omega)⟩
      · intro hempty
        rw [hempty, List.nil_append] at hpiece
        rw [hpiece] at hlt
        exact Nat.lt_irrefl _ hlt
      · rw [hmore, hpiece, hread]
      · rw [hmore, hpiece, htoken]

/-- Tokens that are spelled out are read from their text, and what stands behind the last of them is
the trivia at the end. This is the converse of `spelledAfter_readFrom`. -/
theorem readFrom_of_spelledAfter : ∀ {tokens : List Token} {eof : String} (n : Nat)
    (pending : String) (offset : Nat) (text : List Char), text.length ≤ n →
      spell tokens eof.toList = pending.toList ++ text → SpelledAfter pending.toList tokens eof →
      (readFrom n pending offset text).tokens.map Token.lexeme = tokens.map Token.lexeme ∧
        (readFrom n pending offset text).eof = eof
  | [], eof, n, pending, offset, text, hn, htext, h => by
      obtain ⟨trivia, heof, hskips⟩ := h
      obtain rfl : trivia = text := by
        rw [spell_nil, heof, List.append_cancel_left_eq] at htext
        exact htext
      obtain ⟨m, offset', -, hread⟩ := readFrom_of_skips hskips pending offset (by simpa using hn)
      rw [List.append_nil] at hread
      have hend : readFrom m (pending ++ String.ofList trivia) offset' [] =
          ⟨[], pending ++ String.ofList trivia⟩ := by
        cases m with
        | zero => simp [readFrom]
        | succ m => rw [readFrom]
      rw [hread, hend]
      refine ⟨rfl, String.toList_inj.1 ?_⟩
      rw [heof, String.toList_append, String.toList_ofList]
  | t :: tokens, eof, n, pending, offset, text, hn, htext, h => by
      obtain ⟨⟨trivia, hleading, hskips⟩, ⟨hnonempty, htrivia, htoken⟩, hmore⟩ := h
      obtain rfl : trivia ++ (t.text.toList ++ spell tokens eof.toList) = text := by
        rw [spell_cons, hleading, List.append_assoc, List.append_cancel_left_eq] at htext
        exact htext
      -- The trivia is skipped first; what fuel is left is enough for the text behind it.
      obtain ⟨m, offset', hm, hread⟩ := readFrom_of_skips hskips pending offset hn
      rw [hread]
      have hpositive : 0 < t.text.toList.length := List.length_pos_iff.2 hnonempty
      rw [List.length_append] at hm
      obtain ⟨m, rfl⟩ : ∃ k, m = k + 1 := ⟨m - 1, by omega⟩
      rw [readFrom_token (by simp [hnonempty]) htrivia htoken, before_self_append,
        String.ofList_toList]
      obtain ⟨htokens, heof⟩ := readFrom_of_spelledAfter m "" (offset' + t.text.utf8ByteSize)
        (spell tokens eof.toList) (by omega) (by simp) hmore
      refine ⟨?_, heof⟩
      have hpending : pending ++ String.ofList trivia = t.leading := by
        apply String.toList_inj.1
        rw [hleading, String.toList_append, String.toList_ofList]
      simp only [List.map_cons, htokens, Token.lexeme, hpending]

/-- The `#!` line that opens a text. -/
def shebang (text : List Char) : List Char :=
  match shebang? text with
  | some rest => (before text rest).toList
  | none => []

theorem lex_eq_readFrom (source : String) :
    ∃ n rest, rest.length ≤ n ∧ shebang source.toList ++ rest = source.toList ∧
      lex source = readFrom n (String.ofList (shebang source.toList))
        (String.ofList (shebang source.toList)).utf8ByteSize rest := by
  cases hread : shebang? source.toList with
  | none =>
      refine ⟨source.toList.length, source.toList, Nat.le_refl _, ?_, ?_⟩
      · rw [shebang, hread, List.nil_append]
      · rw [shebang, hread, lex, hread, String.ofList_nil]
        rfl
  | some rest =>
      refine ⟨rest.length, rest, Nat.le_refl _, ?_, ?_⟩
      · rw [shebang, hread]
        exact before_append (shebang?_suffix hread)
      · rw [shebang, hread, lex, hread, String.ofList_toList]

end Lexer

/-! ### Whole texts -/

/-- The tokens and the trivia behind them are read from their text. -/
def Spelled (tokens : List Token) (eof : String) : Prop :=
  SpelledAfter (Lexer.shebang (spell tokens eof.toList)) tokens eof

/-- The tokens of a text are spelled out. -/
theorem spelled_lex (source : String) : Spelled (lex source).tokens (lex source).eof := by
  obtain ⟨n, rest, hn, htext, hlex⟩ := Lexer.lex_eq_readFrom source
  have hsource : spell (lex source).tokens (lex source).eof.toList = source.toList := by
    rw [spell, ← String.toList_append, print_lex]
  let pending := String.ofList (Lexer.shebang source.toList)
  have hspelled := Lexer.spelledAfter_readFrom n pending pending.utf8ByteSize rest hn
  rw [String.toList_ofList, ← hlex] at hspelled
  rw [Spelled, hsource]
  exact hspelled

theorem spell_congr : ∀ {tokens tokens' : List Token} (rest : List Char),
    tokens.map Token.lexeme = tokens'.map Token.lexeme → spell tokens rest = spell tokens' rest
  | [], [], _, _ => rfl
  | t :: tokens, t' :: tokens', rest, h => by
      simp only [List.map_cons, List.cons.injEq, Token.lexeme, Prod.mk.injEq] at h
      obtain ⟨⟨hleading, -, htext⟩, hmore⟩ := h
      rw [spell_cons, spell_cons, hleading, htext, spell_congr rest hmore]

/-- Where the tokens stand in the text is of no matter. So a list that was made by leaving tokens
out of another one can be spelled out, although its places do not fit together. -/
theorem SpelledAfter.congr : ∀ {tokens tokens' : List Token} {pending : List Char} {eof : String},
    tokens.map Token.lexeme = tokens'.map Token.lexeme → SpelledAfter pending tokens eof →
      SpelledAfter pending tokens' eof
  | [], [], _, _, _, hspelled => hspelled
  | t :: tokens, t' :: tokens', pending, eof, h, hspelled => by
      simp only [List.map_cons, List.cons.injEq, Token.lexeme, Prod.mk.injEq] at h
      obtain ⟨⟨hleading, hkind, htext⟩, hmore⟩ := h
      obtain ⟨htrivia, hstands, hrest⟩ := hspelled
      rw [spell_congr eof.toList hmore] at htrivia hstands
      rw [Token.StandsBefore, hkind, htext] at hstands
      rw [hleading, htext] at htrivia
      exact ⟨htrivia, hstands, SpelledAfter.congr hmore hrest⟩

/-- Tokens are spelled out if and only if they are the tokens of their text. What is asked of a list
token by token is therefore no more than that it can be read back. -/
theorem spelled_iff {tokens : List Token} {eof : String} :
    Spelled tokens eof ↔
      (lex (printTokens tokens ++ eof)).tokens.map Token.lexeme = tokens.map Token.lexeme ∧
        (lex (printTokens tokens ++ eof)).eof = eof := by
  have hspell : spell tokens eof.toList = (printTokens tokens ++ eof).toList := by
    rw [spell, String.toList_append]
  constructor
  · intro h
    obtain ⟨n, rest, hn, htext, hlex⟩ := Lexer.lex_eq_readFrom (printTokens tokens ++ eof)
    rw [hlex]
    refine Lexer.readFrom_of_spelledAfter n _ _ rest hn ?_ ?_
    · rw [String.toList_ofList, htext, hspell]
    · rw [String.toList_ofList, ← hspell]
      exact h
  · rintro ⟨htokens, heof⟩
    have hlex := spelled_lex (printTokens tokens ++ eof)
    rw [Spelled, heof, spell_congr eof.toList htokens] at hlex
    exact hlex.congr htokens

end BuildPrune
