import BuildPrune.Rules
import BuildPrune.Script.Control
import BuildPrune.Script.Removal

/-!
# BuildPrune.Pruning

Removes from a script what a rule set is against.

A node is visited to an `Outcome`: what is left of it, or nothing if it has to go, and how many
entries of lists were removed on the way. A removed call takes with it everything that cannot stand
without it: the chain it is the receiver of, the operator it is an operand of, the statement it is
part of. It is dropped alone only where it is an entry of a list, that is, a statement of a block,
an argument, or the body of a control statement.
-/

namespace BuildPrune

/-! ### Outcomes -/

/-- What is left of a visited node, and how many entries of lists were removed in it. The count
stands also when nothing is left. -/
structure Outcome (α : Type) where
  node : Option α
  removed : Nat
  deriving Repr

namespace Outcome

/-- The node has to go. -/
def gone {α : Type} : Outcome α :=
  ⟨none, 0⟩

/-- The node goes on to `f`, unless it is gone; what was removed adds up. -/
def andThen {α β : Type} (x : Outcome α) (f : α → Outcome β) : Outcome β :=
  match x.node with
  | none => ⟨none, x.removed⟩
  | some a =>
    let y := f a
    ⟨y.node, x.removed + y.removed⟩

instance : Monad Outcome where
  pure a := ⟨some a, 0⟩
  bind := andThen

/-- Counts `n` removed entries. -/
def count (n : Nat) : Outcome Unit :=
  ⟨some (), n⟩

/-- The entries removed in visiting a list of which `outcomes` are the visited entries: those gone,
and those removed inside. -/
def total {α : Type} (outcomes : List (Outcome α)) : Nat :=
  outcomes.foldr (fun outcome n => outcome.removed + n) 0 + outcomes.countP (·.node.isNone)

end Outcome

/-! ### Visiting -/

/-- What a visit goes by. -/
structure Pruner where
  rules : RuleSet
  /-- Which statements of lambdas inside a `plugins` block stay. -/
  keepsInPlugins : Statement → Bool := fun _ => true

/-- What the ancestors of a node tell it. -/
structure Context where
  /-- The node is inside a `plugins` block. -/
  inPlugins : Bool := false
  deriving DecidableEq, Repr

/-- The context of what is inside `call`. -/
def Context.entering (ctx : Context) (call : Call) : Context :=
  if call.name.text == "plugins" then ⟨true⟩ else ctx

/-- `{}`, in the place of a removed body. -/
def Lambda.hollow (leading : String) : Lambda :=
  ⟨(Token.bare .punct openBrace).withLeading leading, none, [], Token.bare .punct closeBrace⟩

/-- The place of the last `else` in a list. -/
def lastElse? (exprs : List Expr) : Option Nat :=
  (exprs.reverse.findIdx? (·.isAtom "else")).map (exprs.length - 1 - ·)

/-- The call, unless there is a reason to remove it. -/
def Pruner.spare (p : Pruner) (call : Call) : Outcome Call :=
  if (call.removalReason p.rules).isSome then .gone else pure call

namespace Pruner

mutual

/-- Visits an expression. -/
def visitExpr (p : Pruner) (ctx : Context) : Expr → Outcome Expr
  | .atom token => pure (.atom token)
  | .call call => return .call (← visitCall p ctx call)
  | .lambda lambda => return .lambda (← visitLambda p ctx lambda)
  | .annotated marker name args expr =>
    match expr with
    | none => pure (.annotated marker name args none)
    | some expr => return .annotated marker name args (some (← visitExpr p ctx expr))
  | .field target dot name => return .field (← visitExpr p ctx target) dot name
  | .paren opening inner closing => return .paren opening (← visitExpr p ctx inner) closing
  | .index target brackets =>
    return .index (← visitExpr p ctx target) (← visitBrackets p ctx brackets)
  | .binary left op right => return .binary (← visitExpr p ctx left) op (← visitExpr p ctx right)
  | .prefixed op operand => return .prefixed op (← visitExpr p ctx operand)
  | .postfixed operand op => return .postfixed (← visitExpr p ctx operand) op
  | .list brackets => return .list (← visitBrackets p ctx brackets)
  | .sequence head tail => do
    let visited ← visitExpr p ctx head
    return .sequence visited (← visitTail p ctx head [] [] tail)

/-- Visits the expressions of a sequence behind `head`. `before` have been visited, and `visited` is
what is left of them. A body that goes leaves `{}` where more follows; the last body takes its
`else` with it. Anything else that goes takes the sequence with it. -/
def visitTail (p : Pruner) (ctx : Context) (head : Expr) (before visited : List Expr) :
    List Expr → Outcome (List Expr)
  | [] => pure visited
  | expr :: rest =>
    let outcome := visitExpr p ctx expr
    match outcome.node with
    | some node => do
      Outcome.count outcome.removed
      visitTail p ctx head (before ++ [expr]) (visited ++ [node]) rest
    | none => do
      Outcome.count outcome.removed
      if !isControlBody head before then .gone
      else
        Outcome.count 1
        if rest.isEmpty then
          match lastElse? before with
          | none => .gone
          | some branch => pure (visited.take branch)
        else
          visitTail p ctx head (before ++ [expr])
            (visited ++ [.lambda (Lambda.hollow expr.leading)]) rest

/-- Visits a call. It goes if there is a reason to remove it before or after its parts were visited,
and if it has no parentheses and loses its last argument. -/
def visitCall (p : Pruner) (ctx : Context) : Call → Outcome Call
  | ⟨receiver, name, types, args, lambda, style⟩ => do
    let call ← p.spare ⟨receiver, name, types, args, lambda, style⟩
    let inner := ctx.entering call
    let receiver ←
      match receiver with
      | none => pure none
      | some receiver => some <$> visitReceiver p inner receiver
    let args ←
      match args with
      | none => pure none
      | some args => some <$> visitArguments p inner args
    if style != .regular && args.any (·.items.isEmpty) then .gone
    else
      let lambda ←
        match lambda with
        | none => pure none
        | some lambda => some <$> visitLambda p inner lambda
      p.spare ⟨receiver, name, types, args, lambda, style⟩

/-- Visits what a call is made on. -/
def visitReceiver (p : Pruner) (ctx : Context) : Receiver → Outcome Receiver
  | ⟨target, dot⟩ => return ⟨← visitExpr p ctx target, dot⟩

/-- Visits the arguments of a call and drops those that go. -/
def visitArguments (p : Pruner) (ctx : Context) : Arguments → Outcome Arguments
  | ⟨opening, items, closing⟩ => do
    let outcomes := visitItems p ctx items
    Outcome.count (Outcome.total outcomes)
    return ⟨opening, Item.sweep [] (outcomes.map Outcome.node) items, closing⟩

/-- Visits a bracketed list and drops the items that go. -/
def visitBrackets (p : Pruner) (ctx : Context) : Brackets → Outcome Brackets
  | ⟨opening, items, closing⟩ => do
    let outcomes := visitItems p ctx items
    Outcome.count (Outcome.total outcomes)
    return ⟨opening, Item.sweep [] (outcomes.map Outcome.node) items, closing⟩

/-- Visits the expression of each item on its own. -/
def visitItems (p : Pruner) (ctx : Context) : List Item → List (Outcome Expr)
  | [] => []
  | ⟨expr, _⟩ :: rest => visitExpr p ctx expr :: visitItems p ctx rest

/-- Visits the body of a lambda and drops the statements that go. Inside a `plugins` block those
that the pruner does not keep there are dropped first. -/
def visitLambda (p : Pruner) (ctx : Context) : Lambda → Outcome Lambda
  | ⟨opening, params, body, closing⟩ => do
    let outcomes := visitStatements p ctx body
    let keep := fun statement => !ctx.inPlugins || p.keepsInPlugins statement
    let (kept, siftedBody, trailer) := Statement.sift keep true outcomes body closing.leading
    Outcome.count (outcomes.length - kept.length + Outcome.total kept)
    let (swept, trailer) := Statement.sweep true (kept.map Outcome.node) siftedBody trailer
    return ⟨opening, params, swept, closing.withLeading trailer⟩

/-- Visits a statement. -/
def visitStatement (p : Pruner) (ctx : Context) : Statement → Outcome Statement
  | .importing path =>
    if p.rules.imports.contains path.qualifiedName then .gone else pure (.importing path)
  | .expression expr semicolon => return .expression (← visitExpr p ctx expr) semicolon
  | .empty semicolon => pure (.empty semicolon)

/-- Visits each statement of a list on its own. -/
def visitStatements (p : Pruner) (ctx : Context) : List Statement → List (Outcome Statement)
  | [] => []
  | statement :: rest => visitStatement p ctx statement :: visitStatements p ctx rest

end

/-- The script without what has to go, and the number of entries removed. -/
def visitScript (p : Pruner) (script : Script) : Script × Nat :=
  let outcomes := p.visitStatements {} script.statements
  let (statements, eof) :=
    Statement.sweep true (outcomes.map Outcome.node) script.statements script.eof
  (⟨script.dialect, statements, eof⟩, Outcome.total outcomes)

end Pruner

end BuildPrune
