import BuildPrune.Proofs.Relexing
import BuildPrune.Proofs.TokenEnds

/-!
# BuildPrune.Proofs.TokenTails

What a token ends with. A scanner that answers what follows a piece of text has read a character in
front of it that is no line break (`StopsOnLine`): a literal ends with its quote, and of the other
tokens no part is a line break. So no token ends with a line break, in particular not between the
two characters of one (`Token.StandsBefore.last_ne`).
-/

namespace BuildPrune

open Text

/-- What follows a piece of the text that ends with no line break is `rest`. -/
def StopsOnLine (text rest : List Char) : Prop :=
  ∃ c, isLineBreak c = false ∧ c :: rest <:+ text

namespace StopsOnLine

variable {text more rest : List Char}

/-- A character that is no line break can be the last one that is read. -/
theorem here {c : Char} (hc : isLineBreak c = false) (rest : List Char) :
    StopsOnLine (c :: rest) rest :=
  ⟨c, hc, List.suffix_rfl⟩

/-- A scan that goes on from further back ends where it ended. -/
theorem of_suffix (h : StopsOnLine more rest) (hsuffix : more <:+ text) : StopsOnLine text rest := by
  obtain ⟨c, hc, hmore⟩ := h
  exact ⟨c, hc, hmore.trans hsuffix⟩

/-- A character more in front is no matter of how the scan ends. -/
theorem cons (c : Char) (h : StopsOnLine text rest) : StopsOnLine (c :: text) rest :=
  h.of_suffix (List.suffix_cons c text)

/-- A run of characters that are no line breaks ends with one of them, and with the character in
front of the run if that is empty. -/
theorem dropWhile {p : Char → Bool} (hp : ∀ c, p c = true → isLineBreak c = false) {c : Char}
    (hc : isLineBreak c = false) (text : List Char) :
    StopsOnLine (c :: text) (text.dropWhile p) := by
  induction text generalizing c with
  | nil => exact here hc []
  | cons d text ih =>
      rw [List.dropWhile_cons]
      split
      · next hd => exact (ih (hp d hd)).cons c
      · exact here hc _

/-- Of a text in front of `rest`, the last character is no line break. The text is the piece that
was read, because a list has one suffix of each length. -/
theorem last_ne (h : StopsOnLine (text ++ rest) rest) : ∀ c ∈ text.getLast?, isLineBreak c = false := by
  obtain ⟨c, hc, hsuffix⟩ := h
  have hlast : [c] <:+ text := List.suffix_append_self_iff.1 hsuffix
  obtain ⟨front, rfl⟩ := hlast
  intro d hd
  obtain rfl : c = d := by simpa using hd
  exact hc

end StopsOnLine

/-! ### Literals -/

namespace Literal

variable {text rest : List Char}

/-- Between single quotes the scan ends behind a quote, and an escaped character does not end it. -/
theorem afterSingle_stops (h : afterSingle text = some rest) : StopsOnLine text rest := by
  fun_induction afterSingle text with
  | case1 c text ih => exact ((ih h).cons c).cons _
  | case2 text =>
      cases h
      exact .here rfl _
  | case3 c text => simp at h
  | case4 c text _ _ _ ih => exact (ih h).cons c
  | case5 => simp at h

/-- Between triple single quotes, which may hold line breaks, the scan ends behind three quotes. -/
theorem afterTripleSingle_stops (h : afterTripleSingle text = some rest) :
    StopsOnLine text rest := by
  fun_induction afterTripleSingle text with
  | case1 c text ih => exact ((ih h).cons c).cons _
  | case2 text =>
      cases h
      exact ((StopsOnLine.here rfl _).cons _).cons _
  | case3 c text _ _ ih => exact (ih h).cons c
  | case4 => simp at h

/-- Behind a template, a literal goes on: the body ends in front of its brace, and the scan ends
further on. -/
theorem stops_behind_template {n : Nat} {after : List Char} (hbody : templateBody n text = '}' :: after)
    (h : StopsOnLine after rest) : StopsOnLine ('$' :: '{' :: text) rest := by
  have hafter : '}' :: after <:+ text := hbody ▸ (suffixes n).body text
  exact ((h.of_suffix ((List.suffix_cons _ _).trans hafter)).cons _).cons _

/-- Between double quotes the scan ends behind a quote. Templates inside are passed as a whole, with
what they hold. -/
theorem afterDouble_stops (n : Nat) (h : afterDouble n text = some rest) :
    StopsOnLine text rest := by
  induction n generalizing text with
  | zero => simp [afterDouble] at h
  | succ n ih =>
      unfold afterDouble at h
      split at h
      · contradiction
      · next heq =>
          cases heq
          exact ((ih h).cons _).cons _
      · cases h
        exact .here rfl _
      · next heq =>
          cases heq
          split at h
          · next hbody => exact stops_behind_template hbody (ih h)
          · exact (ih h).cons _
      · next heq =>
          cases heq
          split at h
          · contradiction
          · exact (ih h).cons _
      · contradiction

/-- Between triple double quotes the scan ends behind the last quote of a run, since a run of quotes
is taken to its end. -/
theorem afterTripleDouble_stops (n : Nat) (h : afterTripleDouble n text = some rest) :
    StopsOnLine text rest := by
  induction n generalizing text with
  | zero => simp [afterTripleDouble] at h
  | succ n ih =>
      unfold afterTripleDouble at h
      split at h
      · contradiction
      · cases h
        -- Quotes directly behind the closing ones belong to the literal.
        have hquote : ∀ c, (c == '"') = true → isLineBreak c = false := by
          intro c hc
          rw [beq_iff_eq.1 hc]
          rfl
        exact ((StopsOnLine.dropWhile hquote rfl _).cons _).cons _
      · next heq =>
          cases heq
          split at h
          · next hbody => exact stops_behind_template hbody (ih h)
          · exact (ih h).cons _
      · next heq =>
          cases heq
          exact (ih h).cons _
      · contradiction

/-- A literal ends with a quote, in whichever of its forms. -/
theorem literal?_stops (h : literal? text = some rest) : StopsOnLine text rest := by
  unfold literal? literalBy at h
  split at h
  · next text =>
      rcases hread : afterTripleDouble _ text with _ | read
      · rw [hread] at h
        cases h
        exact (StopsOnLine.here rfl _).cons _
      · rw [hread] at h
        cases h
        exact (((afterTripleDouble_stops _ hread).cons _).cons _).cons _
  · next text =>
      rcases hread : afterTripleSingle text with _ | read
      · rw [hread] at h
        cases h
        exact (StopsOnLine.here rfl _).cons _
      · rw [hread] at h
        cases h
        exact (((afterTripleSingle_stops hread).cons _).cons _).cons _
  · exact (afterDouble_stops _ h).cons _
  · exact (afterSingle_stops h).cons _
  · simp at h

end Literal

/-! ### Other tokens -/

namespace Lexer

variable {c : Char} {text rest : List Char}

/-- Every line break is a soft character. -/
theorem isLineBreak_of_not_mem (h : c ∉ softCharacters) : isLineBreak c = false := by
  by_contra hc
  rw [Bool.not_eq_false, isLineBreak, Bool.or_eq_true, beq_iff_eq, beq_iff_eq] at hc
  rcases hc with rfl | rfl <;> exact h (by decide)

/-- What no soft character is, no line break is. The tests for digits and for letters are of this
kind. -/
theorem isLineBreak_of_soft {p : Char → Bool} (hp : ∀ c ∈ softCharacters, p c = false) (c : Char)
    (hc : p c = true) : isLineBreak c = false :=
  isLineBreak_of_not_mem fun hsoft => Bool.false_ne_true ((hp c hsoft).symm.trans hc)

/-- A number ends with a digit, a letter or an underscore. A dot is read with the digit behind
it. -/
theorem afterNumber_stops (hc : isLineBreak c = false) (text : List Char) :
    StopsOnLine (c :: text) (afterNumber text) := by
  have hword := isLineBreak_of_soft not_isWord_of_soft
  fun_induction afterNumber text generalizing c with
  | case1 d text hd ih =>
      have hdigit := hword d (by simp [Char.isAlphanum, hd])
      exact ((ih hdigit).cons _).cons c
  | case2 | case4 | case5 => exact .here hc _
  | case3 d text _ hd ih => exact (ih (hword d hd)).cons c

theorem number?_stops (hc : isLineBreak c = false) (h : number? (c :: text) = some rest) :
    StopsOnLine (c :: text) rest := by
  rw [number?] at h
  split at h
  · cases h
    exact afterNumber_stops hc text
  · cases h

/-- A name in backticks ends with the backtick, and cannot hold a line break. -/
theorem afterBacktick_stops (h : afterBacktick text = some rest) : StopsOnLine text rest := by
  unfold afterBacktick at h
  dsimp only at h
  split at h
  · next hafter =>
      cases h
      exact (StopsOnLine.here (c := '\x60') rfl _).of_suffix (hafter ▸ List.dropWhile_suffix _)
  · cases h

theorem identifier?_stops (hc : isLineBreak c = false) (h : identifier? (c :: text) = some rest) :
    StopsOnLine (c :: text) rest := by
  by_cases hbacktick : c = '\x60'
  · subst hbacktick
    rw [identifier?] at h
    exact (afterBacktick_stops h).cons _
  · rw [identifier?] at h
    · split at h
      · cases h
        exact StopsOnLine.dropWhile (isLineBreak_of_soft not_continues_of_soft) hc text
      · cases h
    · exact hbacktick

/-- The lexer knows all marks, and none of them is spelled with a line break. -/
theorem punctuation?_last_ne (hc : isLineBreak c = false)
    (h : punctuation? (c :: text ++ rest) = some rest) :
    ∀ d ∈ (c :: text).getLast?, isLineBreak d = false := by
  have htail := not_mem_softCharacters_of_punctuation _ (of_punctuation? h).1
  rw [String.toList_ofList, List.tail_cons] at htail
  intro d hd
  rcases List.mem_cons.1 (List.mem_of_getLast? hd) with rfl | hmem
  · exact hc
  · exact isLineBreak_of_not_mem (htail d hmem)

end Lexer

/-- No token ends with a line break. So a line ending in two characters is never split between a
token and the trivia behind it. -/
theorem Token.StandsBefore.last_ne {t : Token} {rest : List Char} (h : t.StandsBefore rest) :
    ∀ c ∈ t.text.toList.getLast?, isLineBreak c = false := by
  have hsharp := h.isSharp
  obtain ⟨hne, -, hread⟩ := h
  obtain ⟨c, text, htext⟩ := List.exists_cons_of_ne_nil hne
  rw [htext] at hread hsharp ⊢
  have hc := (hsharp c rfl).1
  obtain ⟨-, hliteral⟩ | ⟨hliteral, hmore⟩ := Lexer.token_cases hread
  · exact (Literal.literal?_stops hliteral).last_ne
  obtain ⟨-, hnumber⟩ | ⟨hnumber, hmore⟩ := hmore
  · exact (Lexer.number?_stops hc hnumber).last_ne
  obtain ⟨-, hname⟩ | ⟨hname, hmore⟩ := hmore
  · exact (Lexer.identifier?_stops hc hname).last_ne
  obtain ⟨-, hmark⟩ | ⟨-, hrest⟩ := hmore
  · exact Lexer.punctuation?_last_ne hc hmark
  · -- A character that starts nothing else is a token of its own.
    have hlast : StopsOnLine (c :: text ++ rest) rest := by
      rw [List.drop_one, List.cons_append, List.tail_cons] at hrest
      rw [List.cons_append, ← hrest]
      exact .here hc rest
    exact hlast.last_ne

end BuildPrune
