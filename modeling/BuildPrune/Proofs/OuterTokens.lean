import BuildPrune.Proofs.Lossless

/-!
# BuildPrune.Proofs.OuterTokens

The tokens of a tree with other tokens in the place of the parameters of each lambda. These are read
up to the arrow whatever they are, so a statement about the structure of a text leaves them out:
`Script.outerTokens`.

That nothing else is left out, or added, is `Statement.rel_listTokensWith`: whatever relates what is
kept of the parameters to the parameters, and respects lists that are joined, relates these tokens
to those of the tree. With equality for the relation, a tree of which all parameters are kept has
its tokens; with sublists, one without parameters has some of them.
-/

namespace BuildPrune

mutual

/-- The tokens of an expression, with what is `kept` of the parameters of each lambda. -/
def Expr.tokensWith (kept : LambdaParams → List Token) : Expr → List Token
  | .atom token => [token]
  | .call call => call.tokensWith kept
  | .lambda lambda => lambda.tokensWith kept
  | .annotated marker name args expr =>
    marker :: name ++
      (match args with
        | none => []
        | some args => args.tokensWith kept) ++
      (match expr with
        | none => []
        | some expr => expr.tokensWith kept)
  | .field target dot name => target.tokensWith kept ++ [dot, name]
  | .paren opening inner closing => opening :: inner.tokensWith kept ++ [closing]
  | .index target brackets => target.tokensWith kept ++ brackets.tokensWith kept
  | .binary left op right => left.tokensWith kept ++ op :: right.tokensWith kept
  | .prefixed op operand => op :: operand.tokensWith kept
  | .postfixed operand op => operand.tokensWith kept ++ [op]
  | .list brackets => brackets.tokensWith kept
  | .sequence head tail => head.tokensWith kept ++ Expr.listTokensWith kept tail

def Expr.listTokensWith (kept : LambdaParams → List Token) : List Expr → List Token
  | [] => []
  | expr :: rest => expr.tokensWith kept ++ Expr.listTokensWith kept rest

def Call.tokensWith (kept : LambdaParams → List Token) : Call → List Token
  | ⟨receiver, name, types, args, lambda, _⟩ =>
    (match receiver with
      | none => []
      | some receiver => receiver.tokensWith kept) ++
    name ::
    (match types with
      | none => []
      | some types => types.listTokens) ++
    (match args with
      | none => []
      | some args => args.tokensWith kept) ++
    (match lambda with
      | none => []
      | some lambda => lambda.tokensWith kept)

def Receiver.tokensWith (kept : LambdaParams → List Token) : Receiver → List Token
  | ⟨target, dot⟩ => target.tokensWith kept ++ dot.toList

def Arguments.tokensWith (kept : LambdaParams → List Token) : Arguments → List Token
  | ⟨opening, items, closing⟩ =>
    opening.toList ++ Item.listTokensWith kept items ++ closing.toList

def Brackets.tokensWith (kept : LambdaParams → List Token) : Brackets → List Token
  | ⟨opening, items, closing⟩ => opening :: Item.listTokensWith kept items ++ [closing]

def Item.tokensWith (kept : LambdaParams → List Token) : Item → List Token
  | ⟨expr, comma⟩ => expr.tokensWith kept ++ comma.toList

def Item.listTokensWith (kept : LambdaParams → List Token) : List Item → List Token
  | [] => []
  | item :: rest => item.tokensWith kept ++ Item.listTokensWith kept rest

def Lambda.tokensWith (kept : LambdaParams → List Token) : Lambda → List Token
  | ⟨opening, params, body, closing⟩ =>
    opening ::
    (match params with
      | none => []
      | some params => kept params) ++
    Statement.listTokensWith kept body ++ [closing]

def Statement.tokensWith (kept : LambdaParams → List Token) : Statement → List Token
  | .importing path => path.tokens
  | .expression expr semicolon => expr.tokensWith kept ++ semicolon.toList
  | .empty semicolon => [semicolon]

def Statement.listTokensWith (kept : LambdaParams → List Token) : List Statement → List Token
  | [] => []
  | statement :: rest => statement.tokensWith kept ++ Statement.listTokensWith kept rest

end

section

variable (kept : LambdaParams → List Token)

/-- The tokens of a call are those of its parts in the order in which they stand. Parts that are
missing have none, so all calls are one case from here on. -/
theorem Call.tokensWith_mk (receiver : Option Receiver) (name : Token) (types : Option TypeArgs)
    (args : Option Arguments) (lambda : Option Lambda) (style : CallStyle) :
    Call.tokensWith kept ⟨receiver, name, types, args, lambda, style⟩ =
      partTokens (Receiver.tokensWith kept) receiver ++ name ::
        (partTokens TypeArgs.listTokens types ++ (partTokens (Arguments.tokensWith kept) args ++
          partTokens (Lambda.tokensWith kept) lambda)) := by
  cases receiver <;> cases types <;> cases args <;> cases lambda <;> simp [Call.tokensWith]

theorem Expr.tokensWith_annotated (marker : Token) (name : List Token) (args : Option Arguments)
    (expr : Option Expr) :
    (Expr.annotated marker name args expr).tokensWith kept =
      marker :: (name ++ (partTokens (Arguments.tokensWith kept) args ++
        partTokens (Expr.tokensWith kept) expr)) := by
  cases args <;> cases expr <;> simp [Expr.tokensWith]

theorem Lambda.tokensWith_mk (opening : Token) (params : Option LambdaParams)
    (body : List Statement) (closing : Token) :
    Lambda.tokensWith kept ⟨opening, params, body, closing⟩ =
      opening :: (partTokens kept params ++ (Statement.listTokensWith kept body ++ [closing])) := by
  cases params <;> simp [Lambda.tokensWith]

theorem Expr.listTokensWith_append (exprs more : List Expr) :
    Expr.listTokensWith kept (exprs ++ more) =
      Expr.listTokensWith kept exprs ++ Expr.listTokensWith kept more := by
  induction exprs with
  | nil => simp [Expr.listTokensWith]
  | cons expr rest ih => simp [Expr.listTokensWith, ih]

/-- A sequence of one expression is that expression. The tokens are the same either way. -/
theorem Expr.tokensWith_ofSequence (head : Expr) (tail : List Expr) :
    (Expr.ofSequence head tail).tokensWith kept =
      head.tokensWith kept ++ Expr.listTokensWith kept tail := by
  unfold Expr.ofSequence
  split
  · next hempty =>
      rw [List.isEmpty_iff.1 hempty]
      simp [Expr.listTokensWith]
  · rw [Expr.tokensWith]

theorem Call.tokensWith_ofItems (receiver : Option Receiver) (name : Token) (items : List Item)
    (style : CallStyle) :
    (Call.ofItems receiver name items style).tokensWith kept =
      partTokens (Receiver.tokensWith kept) receiver ++ name :: Item.listTokensWith kept items := by
  simp [Call.ofItems, Expr.tokensWith, Call.tokensWith_mk, Arguments.tokensWith]

end

section

/-- A relation of lists of tokens that holds of joined lists if it holds of the parts, and of what
is kept of the parameters of a lambda and the parameters. -/
structure Congruent (R : List Token → List Token → Prop) (kept : LambdaParams → List Token) :
    Prop where
  refl : ∀ tokens, R tokens tokens
  append : ∀ {tokens tokens' more more'}, R tokens tokens' → R more more' →
    R (tokens ++ more) (tokens' ++ more')
  params : ∀ params, R (kept params) params.listTokens

variable {R : List Token → List Token → Prop} {kept : LambdaParams → List Token}

mutual

/-- A relation between lists of tokens that is kept by joining them, and that holds between what is
kept of parameters and the parameters, holds between what is kept of a node and the node.

With the parameters left out or kept as they are, this compares two walks over one tree. The
induction takes all kinds of nodes together. -/
theorem Expr.rel_tokensWith (h : Congruent R kept) : ∀ e : Expr, R (e.tokensWith kept) e.tokens
  | .atom token => by
      rw [Expr.tokensWith, Expr.tokens]
      exact h.refl [token]
  | .call call => by
      rw [Expr.tokensWith, Expr.tokens]
      exact Call.rel_tokensWith h call
  | .lambda lambda => by
      rw [Expr.tokensWith, Expr.tokens]
      exact Lambda.rel_tokensWith h lambda
  | .annotated marker name args expr => by
      have hargs : R (partTokens (Arguments.tokensWith kept) args)
          (partTokens Arguments.tokens args) :=
        match args with
        | none => h.refl []
        | some a => Arguments.rel_tokensWith h a
      have hexpr : R (partTokens (Expr.tokensWith kept) expr) (partTokens Expr.tokens expr) :=
        match expr with
        | none => h.refl []
        | some e => Expr.rel_tokensWith h e
      rw [Expr.tokensWith_annotated, Expr.tokens_annotated]
      exact h.append (h.refl [marker]) (h.append (h.refl name) (h.append hargs hexpr))
  | .field target dot name => by
      rw [Expr.tokensWith, Expr.tokens]
      exact h.append (Expr.rel_tokensWith h target) (h.refl [dot, name])
  | .paren opening inner closing => by
      rw [Expr.tokensWith, Expr.tokens]
      exact h.append (h.append (h.refl [opening]) (Expr.rel_tokensWith h inner)) (h.refl [closing])
  | .index target brackets => by
      rw [Expr.tokensWith, Expr.tokens]
      exact h.append (Expr.rel_tokensWith h target) (Brackets.rel_tokensWith h brackets)
  | .binary left op right => by
      rw [Expr.tokensWith, Expr.tokens]
      exact h.append (Expr.rel_tokensWith h left)
        (h.append (h.refl [op]) (Expr.rel_tokensWith h right))
  | .prefixed op operand => by
      rw [Expr.tokensWith, Expr.tokens]
      exact h.append (h.refl [op]) (Expr.rel_tokensWith h operand)
  | .postfixed operand op => by
      rw [Expr.tokensWith, Expr.tokens]
      exact h.append (Expr.rel_tokensWith h operand) (h.refl [op])
  | .list brackets => by
      rw [Expr.tokensWith, Expr.tokens]
      exact Brackets.rel_tokensWith h brackets
  | .sequence head tail => by
      rw [Expr.tokensWith, Expr.tokens]
      exact h.append (Expr.rel_tokensWith h head) (Expr.rel_listTokensWith h tail)

theorem Expr.rel_listTokensWith (h : Congruent R kept) : ∀ exprs : List Expr,
    R (Expr.listTokensWith kept exprs) (Expr.listTokens exprs)
  | [] => by
      rw [Expr.listTokensWith, Expr.listTokens]
      exact h.refl []
  | expr :: rest => by
      rw [Expr.listTokensWith, Expr.listTokens]
      exact h.append (Expr.rel_tokensWith h expr) (Expr.rel_listTokensWith h rest)

theorem Call.rel_tokensWith (h : Congruent R kept) : ∀ c : Call, R (c.tokensWith kept) c.tokens
  | ⟨receiver, name, types, args, lambda, style⟩ => by
      have hreceiver : R (partTokens (Receiver.tokensWith kept) receiver)
          (partTokens Receiver.tokens receiver) :=
        match receiver with
        | none => h.refl []
        | some r => Receiver.rel_tokensWith h r
      have hargs : R (partTokens (Arguments.tokensWith kept) args)
          (partTokens Arguments.tokens args) :=
        match args with
        | none => h.refl []
        | some a => Arguments.rel_tokensWith h a
      have hlambda : R (partTokens (Lambda.tokensWith kept) lambda)
          (partTokens Lambda.tokens lambda) :=
        match lambda with
        | none => h.refl []
        | some l => Lambda.rel_tokensWith h l
      rw [Call.tokensWith_mk, Call.tokens_mk]
      exact h.append hreceiver
        (h.append (h.refl [name]) (h.append (h.refl _) (h.append hargs hlambda)))

theorem Receiver.rel_tokensWith (h : Congruent R kept) :
    ∀ r : Receiver, R (r.tokensWith kept) r.tokens
  | ⟨target, dot⟩ => by
      rw [Receiver.tokensWith, Receiver.tokens]
      exact h.append (Expr.rel_tokensWith h target) (h.refl dot.toList)

theorem Arguments.rel_tokensWith (h : Congruent R kept) :
    ∀ a : Arguments, R (a.tokensWith kept) a.tokens
  | ⟨opening, items, closing⟩ => by
      rw [Arguments.tokensWith, Arguments.tokens]
      exact h.append (h.append (h.refl _) (Item.rel_listTokensWith h items)) (h.refl _)

theorem Brackets.rel_tokensWith (h : Congruent R kept) :
    ∀ b : Brackets, R (b.tokensWith kept) b.tokens
  | ⟨opening, items, closing⟩ => by
      rw [Brackets.tokensWith, Brackets.tokens]
      exact h.append (h.append (h.refl [opening]) (Item.rel_listTokensWith h items))
        (h.refl [closing])

theorem Item.rel_tokensWith (h : Congruent R kept) :
    ∀ item : Item, R (item.tokensWith kept) item.tokens
  | ⟨expr, comma⟩ => by
      rw [Item.tokensWith, Item.tokens]
      exact h.append (Expr.rel_tokensWith h expr) (h.refl comma.toList)

theorem Item.rel_listTokensWith (h : Congruent R kept) : ∀ items : List Item,
    R (Item.listTokensWith kept items) (Item.listTokens items)
  | [] => by
      rw [Item.listTokensWith, Item.listTokens]
      exact h.refl []
  | item :: rest => by
      rw [Item.listTokensWith, Item.listTokens]
      exact h.append (Item.rel_tokensWith h item) (Item.rel_listTokensWith h rest)

theorem Lambda.rel_tokensWith (h : Congruent R kept) : ∀ l : Lambda, R (l.tokensWith kept) l.tokens
  | ⟨opening, params, body, closing⟩ => by
      have hparams : R (partTokens kept params) (partTokens LambdaParams.listTokens params) :=
        match params with
        | none => h.refl []
        | some p => h.params p
      rw [Lambda.tokensWith_mk, Lambda.tokens_mk]
      exact h.append (h.refl [opening])
        (h.append hparams (h.append (Statement.rel_listTokensWith h body) (h.refl [closing])))

/-- Statements are where the induction comes back to blocks: an import has its tokens either way,
and an expression is done already. -/
theorem Statement.rel_tokensWith (h : Congruent R kept) :
    ∀ s : Statement, R (s.tokensWith kept) s.tokens
  | .importing path => by
      rw [Statement.tokensWith, Statement.tokens]
      exact h.refl path.tokens
  | .expression expr semicolon => by
      rw [Statement.tokensWith, Statement.tokens]
      exact h.append (Expr.rel_tokensWith h expr) (h.refl semicolon.toList)
  | .empty semicolon => by
      rw [Statement.tokensWith, Statement.tokens]
      exact h.refl [semicolon]

theorem Statement.rel_listTokensWith (h : Congruent R kept) : ∀ statements : List Statement,
    R (Statement.listTokensWith kept statements) (Statement.listTokens statements)
  | [] => by
      rw [Statement.listTokensWith, Statement.listTokens]
      exact h.refl []
  | statement :: rest => by
      rw [Statement.listTokensWith, Statement.listTokens]
      exact h.append (Statement.rel_tokensWith h statement) (Statement.rel_listTokensWith h rest)

end

end

/-- Nothing is kept of the parameters of lambdas. -/
def noParams (_ : LambdaParams) : List Token := []

/-- Where parameters are left out, they have no tokens. -/
theorem partTokens_noParams (params : Option LambdaParams) : partTokens noParams params = [] := by
  cases params <;> rfl

/-- The tokens of a script without the parameters of lambdas. -/
def Script.outerTokens (script : Script) : List Token :=
  Statement.listTokensWith noParams script.statements

end BuildPrune
