import BuildPrune.Script.Lexer

/-!
# BuildPrune.Proofs.Lexing

Lexing keeps every character. A scanner answers the text behind what it recognises, so what it
answers is a suffix of what it was given (`Literal.literal?_suffix`, `Lexer.trivia?_suffix`,
`Lexer.token_suffix`), and the piece in front of the suffix is what `Lexer.before` cuts off. Hence
the tokens of a text, each behind its trivia, and the trivia at the end spell the text
(`print_lex`).
-/

namespace BuildPrune

/-! ### Printing lists of tokens -/

@[simp] theorem printTokens_nil : printTokens [] = "" := rfl

@[simp] theorem printTokens_cons (t : Token) (tokens : List Token) :
    printTokens (t :: tokens) = t.print ++ printTokens tokens := by
  simp [printTokens]

/-- Tokens print one after the other, each with the trivia in front of it. -/
@[simp] theorem printTokens_append (tokens more : List Token) :
    printTokens (tokens ++ more) = printTokens tokens ++ printTokens more := by
  simp [printTokens]

/-! ### Suffixes

The scanners for double quotes, for their templates and for the literals in there call each other,
each with less fuel. They are followed all at once: `Suffixes` collects what is known of them with
a given amount. -/

theorem suffix_cons_cons {α : Type} {rest text : List α} (a b : α) (h : rest <:+ text) :
    rest <:+ a :: b :: text :=
  (h.trans (List.suffix_cons b text)).trans (List.suffix_cons a (b :: text))

namespace Literal

theorem afterSingle_suffix {text rest : List Char} (h : afterSingle text = some rest) :
    rest <:+ text := by
  fun_induction afterSingle text with
  | case1 c text ih => exact suffix_cons_cons _ _ (ih h)
  | case2 text => cases h; exact List.suffix_cons _ _
  | case3 c text => simp at h
  | case4 c text _ _ _ ih => exact (ih h).trans (List.suffix_cons _ _)
  | case5 => simp at h

theorem afterTripleSingle_suffix {text rest : List Char} (h : afterTripleSingle text = some rest) :
    rest <:+ text := by
  fun_induction afterTripleSingle text with
  | case1 c text ih => exact suffix_cons_cons _ _ (ih h)
  | case2 text => cases h; exact suffix_cons_cons _ _ (List.suffix_cons _ _)
  | case3 c text _ _ ih => exact (ih h).trans (List.suffix_cons _ _)
  | case4 => simp at h

/-- What is behind a literal is a proper suffix, whatever reads the two kinds of double quoted
literals. These call the lexer of templates, so they are left open here and closed by induction. -/
theorem literalBy_suffix {double tripleDouble : List Char → Option (List Char)}
    (hdouble : ∀ {text rest}, double text = some rest → rest <:+ text)
    (htriple : ∀ {text rest}, tripleDouble text = some rest → rest <:+ text)
    {text rest : List Char} (h : literalBy double tripleDouble text = some rest) :
    rest <:+ text.tail := by
  unfold literalBy at h
  split at h
  · next text =>
      rcases hread : tripleDouble text with _ | read
      · rw [hread] at h
        cases h
        exact List.suffix_cons _ _
      · rw [hread] at h
        cases h
        exact suffix_cons_cons _ _ (htriple hread)
  · next text =>
      rcases hread : afterTripleSingle text with _ | read
      · rw [hread] at h
        cases h
        exact List.suffix_cons _ _
      · rw [hread] at h
        cases h
        exact suffix_cons_cons _ _ (afterTripleSingle_suffix hread)
  · exact hdouble h
  · exact afterSingle_suffix h
  · simp at h

/-- At depth `n` the scanners that hold templates answer suffixes. -/
structure Suffixes (n : Nat) : Prop where
  double {text rest} (h : afterDouble n text = some rest) : rest <:+ text
  tripleDouble {text rest} (h : afterTripleDouble n text = some rest) : rest <:+ text
  body (text) : templateBody n text <:+ text

namespace Suffixes

variable {n : Nat} {text rest : List Char}

/-- Inside double quotes a template may open, and then what its body leaves is read on. The body has
one level less. -/
theorem double_succ (ih : Suffixes n) (h : afterDouble (n + 1) text = some rest) :
    rest <:+ text := by
  unfold afterDouble at h
  split at h
  · contradiction
  · next heq =>
      cases heq
      exact suffix_cons_cons _ _ (ih.double h)
  · cases h
    exact List.suffix_cons _ _
  · next text heq =>
      cases heq
      split at h
      · next after hbody =>
          have hafter : '}' :: after <:+ text := hbody ▸ ih.body text
          exact suffix_cons_cons _ _
            ((ih.double h).trans ((List.suffix_cons _ _).trans hafter))
      · exact (ih.double h).trans (List.suffix_cons _ _)
  · next heq =>
      cases heq
      split at h
      · contradiction
      · exact (ih.double h).trans (List.suffix_cons _ _)
  · contradiction

theorem tripleDouble_succ (ih : Suffixes n) (h : afterTripleDouble (n + 1) text = some rest) :
    rest <:+ text := by
  unfold afterTripleDouble at h
  split at h
  · contradiction
  · cases h
    exact suffix_cons_cons _ _ ((List.dropWhile_suffix _).trans (List.suffix_cons _ _))
  · next text heq =>
      cases heq
      split at h
      · next after hbody =>
          have hafter : '}' :: after <:+ text := hbody ▸ ih.body text
          exact suffix_cons_cons _ _
            ((ih.tripleDouble h).trans ((List.suffix_cons _ _).trans hafter))
      · exact (ih.tripleDouble h).trans (List.suffix_cons _ _)
  · next heq =>
      cases heq
      exact (ih.tripleDouble h).trans (List.suffix_cons _ _)
  · contradiction

/-- The body of a template reads literals, blocks and single characters up to its closing brace. -/
theorem body_succ (ih : Suffixes n) (text : List Char) : templateBody (n + 1) text <:+ text := by
  unfold templateBody
  split
  · next rest hread =>
      exact (ih.body rest).trans
        ((literalBy_suffix ih.double ih.tripleDouble hread).trans (List.tail_suffix text))
  · split
    · next rest _ =>
        split
        · next after hbody =>
            have hafter : '}' :: after <:+ rest := hbody ▸ ih.body rest
            exact (ih.body after).trans
              ((List.suffix_cons _ _).trans (hafter.trans (List.suffix_cons _ _)))
        · exact List.suffix_rfl
    · exact List.suffix_rfl
    · exact (ih.body _).trans (List.suffix_cons _ _)
    · exact List.suffix_rfl

end Suffixes

/-- All three readers of templates only go forward. They call each other, so this is one induction
on the depth. -/
theorem suffixes (n : Nat) : Suffixes n := by
  induction n with
  | zero =>
      refine ⟨fun h => ?_, fun h => ?_, fun text => ?_⟩
      · simp [afterDouble] at h
      · simp [afterTripleDouble] at h
      · have hzero : templateBody 0 text = text := by rw [templateBody]
        exact hzero.symm ▸ List.suffix_rfl
  | succ n ih => exact ⟨ih.double_succ, ih.tripleDouble_succ, ih.body_succ⟩

/-- A literal takes at least its first quote. -/
theorem literal?_suffix {text rest : List Char} (h : literal? text = some rest) :
    rest <:+ text.tail :=
  literalBy_suffix (suffixes _).double (suffixes _).tripleDouble h

end Literal

namespace Lexer

/-! ### Pieces of trivia and tokens -/

theorem afterBlockComment_suffix {text rest : List Char} (h : afterBlockComment text = some rest) :
    rest <:+ text := by
  fun_induction afterBlockComment text with
  | case1 text => cases h; exact suffix_cons_cons _ _ List.suffix_rfl
  | case2 c text _ ih => exact (ih h).trans (List.suffix_cons _ _)
  | case3 => simp at h

/-- A piece of trivia takes at least one character, so the scan comes to its end. -/
theorem trivia?_suffix {text rest : List Char} (h : trivia? text = some rest) :
    rest <:+ text.tail := by
  unfold trivia? at h
  split at h
  · cases h
    exact List.suffix_cons _ _
  · cases h
    exact (List.dropWhile_suffix _).trans (List.suffix_cons _ _)
  · exact (afterBlockComment_suffix h).trans (List.suffix_cons _ _)
  · split at h
    · cases h
      exact List.suffix_rfl
    · split at h
      · cases h
        exact List.dropWhile_suffix _
      · simp at h
  · simp at h

theorem shebang?_suffix {text rest : List Char} (h : shebang? text = some rest) :
    rest <:+ text := by
  unfold shebang? at h
  split at h
  · cases h
    exact suffix_cons_cons _ _ (List.dropWhile_suffix _)
  · simp at h

theorem afterNumber_suffix (text : List Char) : afterNumber text <:+ text := by
  fun_induction afterNumber text with
  | case1 c text _ ih => exact suffix_cons_cons _ _ ih
  | case2 => exact List.suffix_rfl
  | case3 c text _ _ ih => exact ih.trans (List.suffix_cons _ _)
  | case4 => exact List.suffix_rfl
  | case5 => exact List.suffix_rfl

theorem number?_suffix {text rest : List Char} (h : number? text = some rest) :
    rest <:+ text.tail := by
  unfold number? at h
  split at h
  · split at h
    · cases h
      exact afterNumber_suffix _
    · simp at h
  · simp at h

theorem afterBacktick_suffix {text rest : List Char} (h : afterBacktick text = some rest) :
    rest <:+ text := by
  unfold afterBacktick at h
  dsimp only at h
  split at h
  · next after _ hafter =>
      cases h
      exact (List.suffix_cons _ _).trans (hafter ▸ List.dropWhile_suffix _)
  · simp at h

theorem identifier?_suffix {text rest : List Char} (h : identifier? text = some rest) :
    rest <:+ text.tail := by
  unfold identifier? at h
  split at h
  · exact afterBacktick_suffix h
  · split at h
    · cases h
      exact List.dropWhile_suffix _
    · simp at h
  · simp at h

theorem punctuation?_suffix {text rest : List Char} (h : punctuation? text = some rest) :
    rest <:+ text.tail := by
  obtain ⟨n, hn, rfl⟩ := Option.map_eq_some_iff.1 h
  have hpositive : n = n - 1 + 1 := by
    have := List.mem_of_find?_eq_some hn
    grind
  rw [hpositive, ← List.drop_tail]
  exact List.drop_suffix (n - 1) text.tail

/-- A token takes at least one character. Whatever no other rule reads is a token of its own. -/
theorem token_suffix (text : List Char) : (token text).2 <:+ text.tail := by
  unfold token
  split
  · next hread => exact Literal.literal?_suffix hread
  · split
    · next hread => exact number?_suffix hread
    · split
      · next hread => exact identifier?_suffix hread
      · split
        · next hread => exact punctuation?_suffix hread
        · exact List.drop_one ▸ List.suffix_rfl

/-! ### The whole text

At each step the lexer cuts a piece off the text and adds it to the trivia that is pending or to a
token. Nothing that was cut off is lost, since what a token has in front is all that was pending.
-/

/-- What was read and what is left are the text again. -/
theorem before_append {text rest : List Char} (h : rest <:+ text) :
    (before text rest).toList ++ rest = text := by
  obtain ⟨front, rfl⟩ := h
  simp [before]

/-- From any place the lexer loses nothing: the trivia that are pending, the tokens that it reads
and the trivia at the end are the text from there.

The induction is on the bound of the lexer, which is the length of the text at first; `token_suffix`
and `trivia?_suffix` keep the text within it. -/
theorem print_readFrom (n : Nat) (pending : String) (offset : Nat) (text : List Char) :
    (printTokens (readFrom n pending offset text).tokens ++
      (readFrom n pending offset text).eof).toList = pending.toList ++ text := by
  fun_induction readFrom n pending offset text with
  | case1 pending offset text => simp
  | case2 n pending offset => simp
  | case3 n pending offset c cs text rest hread piece ih =>
      rw [ih, String.toList_append, List.append_assoc,
        before_append ((trivia?_suffix hread).trans (List.tail_suffix _))]
  | case4 n pending offset c cs text hread kind rest htoken piece stop more ih =>
      have hpiece : piece.toList ++ rest = c :: cs := by
        have hsuffix := token_suffix (c :: cs)
        rw [htoken] at hsuffix
        exact before_append (hsuffix.trans (List.tail_suffix _))
      have hmore : (printTokens more.tokens).toList ++ more.eof.toList = rest := by simpa using ih
      rw [printTokens_cons, Token.print]
      simp only [String.toList_append, List.append_assoc]
      rw [hmore, hpiece]

end Lexer

/-- The tokens of a text, printed with their trivia, and the trivia at its end are the text. -/
theorem print_lex (source : String) :
    printTokens (lex source).tokens ++ (lex source).eof = source := by
  apply String.toList_inj.1
  unfold lex
  dsimp only
  split
  · next rest hread =>
      rw [Lexer.print_readFrom, Lexer.before_append (Lexer.shebang?_suffix hread)]
  · rw [Lexer.print_readFrom, String.toList_empty, List.nil_append]

end BuildPrune
