import BuildPrune.Proofs.Lexing
import BuildPrune.Proofs.NodeTokens

/-!
# BuildPrune.Proofs.LeadingTrivia

The trivia in front of a node is that of the token which the node is printed from. Three walks over
the tree have to find the same token: `firstToken`, `withLeading` and `tokens`, the order in which a
node is printed. `Statement.exists_tokens` says that they do; so printing adds the trivia of the
first token to the printed form, and other trivia in front shows in front and nowhere else
(`print_eq_leading_append`).
-/

namespace BuildPrune

/-! ### Trivia over trivia

Trivia that is put in front of a node replaces what was there before. So what a node had in front
is of no matter as soon as it has been handed other trivia. -/

mutual

/-- Of two trivia that are put in front of an expression, the second stays. The recursion is that of
`withLeading`, down to the first token. -/
@[simp] theorem Expr.withLeading_withLeading (first second : String) : ∀ e : Expr,
    (e.withLeading first).withLeading second = e.withLeading second
  | .atom _ | .lambda ⟨_, _, _, _⟩ | .annotated _ _ _ _ | .paren _ _ _ | .prefixed _ _
  | .list ⟨_, _, _⟩ => rfl
  | .call call => congrArg Expr.call (Call.withLeading_withLeading first second call)
  | .field target _ _ | .index target _ | .binary target _ _ | .postfixed target _
  | .sequence target _ => by
      simp only [Expr.withLeading, Expr.withLeading_withLeading first second target]

/-- The same for calls, whose first token is that of the receiver, if there is one. -/
theorem Call.withLeading_withLeading (first second : String) : ∀ c : Call,
    (c.withLeading first).withLeading second = c.withLeading second
  | ⟨none, _, _, _, _, _⟩ => rfl
  | ⟨some ⟨target, _⟩, _, _, _, _, _⟩ => by
      simp only [Call.withLeading, Receiver.withLeading,
        Expr.withLeading_withLeading first second target]

end

/-- So a statement with its old trivia put back is the statement it was. -/
@[simp] theorem Statement.withLeading_withLeading (s : Statement) (first second : String) :
    (s.withLeading first).withLeading second = s.withLeading second := by
  cases s with
  | importing path => rfl
  | expression expr semicolon => simp [Statement.withLeading]
  | empty semicolon => rfl

/-- The printed form of an expression has no trivia in front of it, so it does not change with
them. -/
@[simp] theorem Expr.printed_withLeading (e : Expr) (leading : String) :
    (e.withLeading leading).printed = e.printed := by
  obtain ⟨rest, htokens, hwith⟩ := e.exists_tokens
  rw [Expr.printed, Expr.printed, hwith, htokens, printTrimmed_withLeading]

/-- The printed form of a statement does not change with the trivia in front of it. -/
@[simp] theorem Statement.printed_withLeading (s : Statement) (leading : String) :
    (s.withLeading leading).printed = s.printed := by
  obtain ⟨rest, htokens, hwith⟩ := s.exists_tokens
  rw [Statement.printed, Statement.printed, hwith, htokens, printTrimmed_withLeading]

/-! ### Printing -/

/-- The text of an expression. -/
def Expr.print (e : Expr) : String :=
  printTokens e.tokens

/-- Printing tokens starts with the trivia of the first; the rest is what printing without these
gives. -/
theorem printTokens_eq (t : Token) (rest : List Token) :
    printTokens (t :: rest) = t.leading ++ printTrimmed (t :: rest) := by
  rw [printTokens_cons, Token.print, printTrimmed, String.append_assoc]

/-- An expression prints as the trivia of its first token and its printed form. -/
theorem Expr.print_eq (e : Expr) : e.print = e.firstToken.leading ++ e.printed := by
  obtain ⟨rest, htokens, -⟩ := e.exists_tokens
  rw [Expr.print, Expr.printed, htokens, printTokens_eq]

/-- A statement prints as the trivia of its first token and its printed form. -/
theorem Statement.print_eq (s : Statement) : s.print = s.firstToken.leading ++ s.printed := by
  obtain ⟨rest, htokens, -⟩ := s.exists_tokens
  rw [Statement.print, Statement.printed, htokens, printTokens_eq]

/-- A statement that is given other trivia prints as these and the same printed form. -/
theorem Statement.print_withLeading (s : Statement) (leading : String) :
    (s.withLeading leading).print = leading ++ s.printed := by
  obtain ⟨rest, htokens, hwith⟩ := s.exists_tokens
  rw [Statement.print, hwith, printTokens_eq, printTrimmed_withLeading, ← htokens]
  rfl

/-- A node prints as the trivia of its first token and its printed form. A statement that is given
other trivia prints as these and the same printed form; of its tokens the first has changed, in its
trivia, and with the old trivia back it is the statement it was. -/
theorem print_eq_leading_append :
    (∀ e : Expr, e.print = e.firstToken.leading ++ e.printed) ∧
      ∀ s : Statement, s.print = s.firstToken.leading ++ s.printed ∧
        ∀ leading,
          (s.withLeading leading).print = leading ++ s.printed ∧
          (s.withLeading leading).printed = s.printed ∧
          (∃ rest, s.tokens = s.firstToken :: rest ∧
            (s.withLeading leading).tokens = s.firstToken.withLeading leading :: rest) ∧
          (s.withLeading leading).withLeading s.leading = s := by
  refine ⟨Expr.print_eq, fun s => ⟨s.print_eq, fun leading => ?_⟩⟩
  obtain ⟨rest, htokens, hwith⟩ := s.exists_tokens
  refine ⟨s.print_withLeading leading, s.printed_withLeading leading,
    ⟨rest, htokens, hwith leading⟩, ?_⟩
  rw [Statement.withLeading_withLeading, Statement.withLeading_leading]

end BuildPrune
