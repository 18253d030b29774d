import BuildPrune.Script.Tree

/-!
# BuildPrune.Proofs.NodeTokens

The tokens of a node. A part that may be missing has the tokens `partTokens` gives it. Every node
starts with its `firstToken`, and `withLeading` changes the trivia in front of that token and
nothing else (`Expr.exists_tokens`, `Statement.exists_tokens`), so it does not show in the printed
form, from which the trivia in front is cut away (`Call.printed_withLeading`).
-/

namespace BuildPrune

/-! ### Optional parts -/

/-- The tokens of a part that may be missing. -/
def partTokens {α : Type} (tokens : α → List Token) (part : Option α) : List Token :=
  part.elim [] tokens

@[simp] theorem partTokens_none {α : Type} (tokens : α → List Token) :
    partTokens tokens none = [] := rfl

@[simp] theorem partTokens_some {α : Type} (tokens : α → List Token) (a : α) :
    partTokens tokens (some a) = tokens a := rfl

/-- The tokens of a call with any receiver, arguments and block. Later proofs rewrite with this
instead of splitting the optional parts. -/
theorem Call.tokens_mk (receiver : Option Receiver) (name : Token) (types : Option TypeArgs)
    (args : Option Arguments) (lambda : Option Lambda) (style : CallStyle) :
    Call.tokens ⟨receiver, name, types, args, lambda, style⟩ =
      partTokens Receiver.tokens receiver ++ name ::
        (partTokens TypeArgs.listTokens types ++ (partTokens Arguments.tokens args ++
          partTokens Lambda.tokens lambda)) := by
  cases receiver <;> cases types <;> cases args <;> cases lambda <;> simp [Call.tokens]

theorem Expr.tokens_annotated (marker : Token) (name : List Token) (args : Option Arguments)
    (expr : Option Expr) :
    (Expr.annotated marker name args expr).tokens =
      marker :: (name ++ (partTokens Arguments.tokens args ++ partTokens Expr.tokens expr)) := by
  cases args <;> cases expr <;> simp [Expr.tokens]

theorem Lambda.tokens_mk (opening : Token) (params : Option LambdaParams)
    (body : List Statement) (closing : Token) :
    Lambda.tokens ⟨opening, params, body, closing⟩ =
      opening :: (partTokens LambdaParams.listTokens params ++
        (Statement.listTokens body ++ [closing])) := by
  cases params <;> simp [Lambda.tokens]

/-! ### The first token

`firstToken` and `withLeading` walk down to the leftmost token in the same way. That `tokens`
begins with it is said with the rest of the list, which is the same whatever trivia the node is
given. -/

mutual

/-- Every expression has a first token, and trivia in front of the expression are in front of that
token. The other tokens are the same ones.

An edit of trivia is therefore an edit of one token. -/
theorem Expr.exists_tokens : ∀ e : Expr, ∃ rest, e.tokens = e.firstToken :: rest ∧
    ∀ leading, (e.withLeading leading).tokens = e.firstToken.withLeading leading :: rest
  | .atom token => ⟨[], by simp [Expr.tokens, Expr.firstToken], fun _ => by
      simp [Expr.withLeading, Expr.tokens, Expr.firstToken]⟩
  | .call call => by
      obtain ⟨rest, htokens, hwith⟩ := Call.exists_tokens call
      refine ⟨rest, ?_, fun leading => ?_⟩
      · simpa [Expr.tokens, Expr.firstToken] using htokens
      · simpa [Expr.withLeading, Expr.tokens, Expr.firstToken] using hwith leading
  | .lambda ⟨opening, params, body, closing⟩ => by
      simp [Expr.withLeading, Expr.tokens, Expr.firstToken, Lambda.tokens_mk]
  | .annotated marker name args expr => by
      simp [Expr.withLeading, Expr.tokens_annotated, Expr.firstToken]
  | .field target dot name => by
      obtain ⟨rest, htokens, hwith⟩ := Expr.exists_tokens target
      refine ⟨rest ++ [dot, name], ?_, fun leading => ?_⟩
      · simp [Expr.tokens, Expr.firstToken, htokens]
      · simp [Expr.withLeading, Expr.tokens, Expr.firstToken, hwith]
  | .paren opening inner closing => by
      simp [Expr.withLeading, Expr.tokens, Expr.firstToken]
  | .index target brackets => by
      obtain ⟨rest, htokens, hwith⟩ := Expr.exists_tokens target
      refine ⟨rest ++ brackets.tokens, ?_, fun leading => ?_⟩
      · simp [Expr.tokens, Expr.firstToken, htokens]
      · simp [Expr.withLeading, Expr.tokens, Expr.firstToken, hwith]
  | .binary left op right => by
      obtain ⟨rest, htokens, hwith⟩ := Expr.exists_tokens left
      refine ⟨rest ++ op :: right.tokens, ?_, fun leading => ?_⟩
      · simp [Expr.tokens, Expr.firstToken, htokens]
      · simp [Expr.withLeading, Expr.tokens, Expr.firstToken, hwith]
  | .prefixed op operand => by simp [Expr.withLeading, Expr.tokens, Expr.firstToken]
  | .postfixed operand op => by
      obtain ⟨rest, htokens, hwith⟩ := Expr.exists_tokens operand
      refine ⟨rest ++ [op], ?_, fun leading => ?_⟩
      · simp [Expr.tokens, Expr.firstToken, htokens]
      · simp [Expr.withLeading, Expr.tokens, Expr.firstToken, hwith]
  | .list ⟨opening, items, closing⟩ => by
      simp [Expr.withLeading, Expr.tokens, Expr.firstToken, Brackets.tokens]
  | .sequence head tail => by
      obtain ⟨rest, htokens, hwith⟩ := Expr.exists_tokens head
      refine ⟨rest ++ Expr.listTokens tail, ?_, fun leading => ?_⟩
      · simp [Expr.tokens, Expr.firstToken, htokens]
      · simp [Expr.withLeading, Expr.tokens, Expr.firstToken, hwith]

/-- The first token of a call is that of its receiver, and its name if there is none. -/
theorem Call.exists_tokens : ∀ c : Call, ∃ rest, c.tokens = c.firstToken :: rest ∧
    ∀ leading, (c.withLeading leading).tokens = c.firstToken.withLeading leading :: rest
  | ⟨none, name, types, args, lambda, style⟩ => by
      simp [Call.tokens_mk, Call.firstToken, Call.withLeading]
  | ⟨some receiver, name, types, args, lambda, style⟩ => by
      obtain ⟨rest, htokens, hwith⟩ := Receiver.exists_tokens receiver
      simp [Call.tokens_mk, Call.firstToken, Call.withLeading, htokens, hwith]

theorem Receiver.exists_tokens : ∀ r : Receiver, ∃ rest, r.tokens = r.firstToken :: rest ∧
    ∀ leading, (r.withLeading leading).tokens = r.firstToken.withLeading leading :: rest
  | ⟨target, dot⟩ => by
      obtain ⟨rest, htokens, hwith⟩ := Expr.exists_tokens target
      refine ⟨rest ++ dot.toList, ?_, fun leading => ?_⟩
      · simp [Receiver.tokens, Receiver.firstToken, htokens]
      · simp [Receiver.withLeading, Receiver.tokens, Receiver.firstToken, hwith]

end

/-- The same for statements; a lone semicolon is its own first token. -/
theorem Statement.exists_tokens (s : Statement) : ∃ rest, s.tokens = s.firstToken :: rest ∧
    ∀ leading, (s.withLeading leading).tokens = s.firstToken.withLeading leading :: rest := by
  cases s with
  | importing path => simp [Statement.tokens, Statement.firstToken, Statement.withLeading,
      Import.tokens]
  | expression expr semicolon =>
      obtain ⟨rest, htokens, hwith⟩ := Expr.exists_tokens expr
      refine ⟨rest ++ semicolon.toList, ?_, fun leading => ?_⟩
      · simp [Statement.tokens, Statement.firstToken, htokens]
      · simp [Statement.withLeading, Statement.tokens, Statement.firstToken, hwith]
  | empty semicolon => simp [Statement.tokens, Statement.firstToken, Statement.withLeading]

/-! ### Printed forms -/

/-- Printed forms leave out the trivia in front, so they do not change if these do. -/
theorem printTrimmed_withLeading (t : Token) (leading : String) (rest : List Token) :
    printTrimmed (t.withLeading leading :: rest) = printTrimmed (t :: rest) := rfl

@[simp] theorem Call.printed_withLeading (c : Call) (leading : String) :
    (c.withLeading leading).printed = c.printed := by
  obtain ⟨rest, htokens, hwith⟩ := c.exists_tokens
  rw [Call.printed, Call.printed, hwith, htokens, printTrimmed_withLeading]

/-! ### The trivia that a node has -/

@[simp] theorem Token.withLeading_leading (t : Token) : t.withLeading t.leading = t := rfl

mutual

/-- To give an expression the trivia that it has changes nothing. -/
theorem Expr.withLeading_firstToken : ∀ e : Expr, e.withLeading e.firstToken.leading = e
  | .atom _ | .lambda ⟨_, _, _, _⟩ | .annotated _ _ _ _ | .paren _ _ _ | .prefixed _ _
  | .list ⟨_, _, _⟩ => by simp [Expr.withLeading, Expr.firstToken]
  | .call call => by
      simp [Expr.withLeading, Expr.firstToken, Call.withLeading_firstToken call]
  | .field target _ _ | .index target _ | .binary target _ _ | .postfixed target _
  | .sequence target _ => by
      simp [Expr.withLeading, Expr.firstToken, Expr.withLeading_firstToken target]

/-- In a call these are the trivia of the receiver, and of the name if there is none. -/
theorem Call.withLeading_firstToken : ∀ c : Call, c.withLeading c.firstToken.leading = c
  | ⟨none, _, _, _, _, _⟩ => by simp [Call.withLeading, Call.firstToken]
  | ⟨some receiver, _, _, _, _, _⟩ => by
      simp [Call.withLeading, Call.firstToken, Receiver.withLeading_firstToken receiver]

theorem Receiver.withLeading_firstToken : ∀ r : Receiver, r.withLeading r.firstToken.leading = r
  | ⟨target, _⟩ => by
      simp [Receiver.withLeading, Receiver.firstToken, Expr.withLeading_firstToken target]

end

@[simp] theorem Expr.withLeading_leading (e : Expr) : e.withLeading e.leading = e :=
  e.withLeading_firstToken

@[simp] theorem Statement.withLeading_leading (s : Statement) : s.withLeading s.leading = s := by
  cases s with
  | importing path => simp [Statement.withLeading, Statement.leading, Statement.firstToken]
  | expression expr semicolon =>
      simp [Statement.withLeading, Statement.leading, Statement.firstToken,
        Expr.withLeading_firstToken]
  | empty semicolon => simp [Statement.withLeading, Statement.leading, Statement.firstToken]

end BuildPrune
