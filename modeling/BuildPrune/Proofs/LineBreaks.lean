import BuildPrune.Proofs.TriviaEdits
import BuildPrune.Proofs.TriviaScan

/-!
# BuildPrune.Proofs.LineBreaks

Where lines start after a removal. A statement or an argument that goes hands its trivia on to what
follows it. If it starts a line, so does the statement that takes its place
(`Trivia.hasLineBreak_repair`); an argument that takes a place starts a line if it did, or if the
one before it did (`Item.startsLine_takeOver`).
-/

namespace BuildPrune

namespace Trivia

open Text

/-- A line break in a text is in the one part or in the other. -/
theorem hasLineBreak_append (text more : List Char) :
    hasLineBreak (text ++ more) = (hasLineBreak text || hasLineBreak more) :=
  List.any_append

/-- Cutting a text at its first line break keeps that line break. -/
theorem hasLineBreak_fromLineBreak {text : List Char} (h : hasLineBreak text = true) :
    hasLineBreak (fromLineBreak text) = true := by
  obtain ⟨c, rest, hc, hfrom, -⟩ := exists_lineBreak h
  simp [hfrom, hasLineBreak, hc]

/-- Trimming blanks makes no line breaks. -/
theorem hasLineBreak_trimBlanks {text : List Char} (h : hasLineBreak text = false) :
    hasLineBreak (trimBlanks text) = false := by
  rw [hasLineBreak, List.any_eq_false] at h ⊢
  exact fun c hc => h c ((List.dropWhile_sublist _).subset hc)

/-- Where a removed statement starts a line, so does what takes its place. Either the removed trivia
stays as a whole, or it is cut and goes on with the line break of what follows or with line endings
of its own. -/
theorem hasLineBreak_repair {removed : List Char} (h : hasLineBreak removed = true)
    (following : List Char) (atStart atEnd : Bool) :
    hasLineBreak (repair removed following atStart atEnd) = true := by
  unfold repair
  split
  · rw [hasLineBreak_append, h, Bool.true_or]
  · next hbreak =>
      have hrest : hasLineBreak (fromLineBreak following) = true :=
        hasLineBreak_fromLineBreak (by simpa using hbreak)
      simp only [h, Bool.not_true, Bool.false_eq_true, if_false]
      split
      · rw [hasLineBreak_append, hrest, Bool.or_true]
      · next before _ =>
          cases hgap : max (lineFeeds (fromLineBreak following))
              (if atEnd = true then 0
                else lineFeeds (List.drop (Text.trimEnd before).length removed)) with
          | zero =>
              -- No line feed opens what follows, so it stays as it is.
              have hfeeds : lineFeeds (fromLineBreak following) = 0 := by omega
              rw [dropBlankLines_of_lineFeeds hfeeds, hasLineBreak_append, hrest, Bool.or_true]
          | succ n =>
              have hending : hasLineBreak (lineEnding following) = true := by
                rcases lineEnding_cases following with hending | hending <;> rw [hending] <;> rfl
              simp [List.replicate_succ, hasLineBreak_append, hending]

end Trivia

theorem Token.startsLine_eq (t : Token) :
    t.startsLine = Trivia.hasLineBreak t.leading.toList := rfl

/-- Whether an expression starts a line is decided by the trivia in front of it. -/
theorem Expr.startsLine_withLeading (e : Expr) (leading : String) :
    (e.withLeading leading).firstToken.startsLine = Trivia.hasLineBreak leading.toList := by
  rw [Token.startsLine_eq, ← Expr.leading, Expr.leading_withLeading]

/-- Whether a statement starts a line is decided by the trivia in front of it. -/
theorem Statement.startsLine_withLeading (s : Statement) (leading : String) :
    (s.withLeading leading).firstToken.startsLine = Trivia.hasLineBreak leading.toList := by
  rw [Token.startsLine_eq, ← Statement.leading, Statement.leading_withLeading]

/-- An argument that takes the place of a removed one starts a line if one of the two did. It keeps
its own line break, so it can start a line in the middle of a command. -/
theorem Item.startsLine_takeOver (removed next : Item) :
    (takeOver removed next).expr.firstToken.startsLine =
      (removed.expr.firstToken.startsLine || next.expr.firstToken.startsLine) := by
  unfold takeOver
  split
  · next hline => rw [hline, Bool.or_true]
  · next hline =>
      rw [Bool.not_eq_true] at hline
      have hblanks : Trivia.hasLineBreak (Trivia.trimBlanks next.expr.leading.toList) = false :=
        Trivia.hasLineBreak_trimBlanks hline
      rw [Expr.startsLine_withLeading, String.toList_append, String.toList_ofList,
        Trivia.hasLineBreak_append, hblanks, hline]
      rfl

end BuildPrune
