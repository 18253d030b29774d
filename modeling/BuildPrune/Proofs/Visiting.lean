import BuildPrune.Proofs.Sweep
import BuildPrune.Pruning

/-!
# BuildPrune.Proofs.Visiting

What a visit can do to a node that stays. `Outcome` is a lawful monad, and `Pruner.Keeps` describes
its results without it: there is one rule for each way in which a node is kept, with the conditions
that the visit has checked on the way. `keeps_expr` and its siblings say that a visit which leaves
something of a node follows these rules, so that a property of what is left is an induction on
`Keeps`.
-/

namespace BuildPrune

/-! ### Outcomes -/

namespace Outcome

variable {α β : Type}

@[ext] theorem ext {x y : Outcome α} (hnode : x.node = y.node) (hremoved : x.removed = y.removed) :
    x = y := by
  cases x
  cases y
  cases hnode
  cases hremoved
  rfl

@[simp] theorem node_pure (a : α) : (pure a : Outcome α).node = some a := rfl

@[simp] theorem removed_pure (a : α) : (pure a : Outcome α).removed = 0 := rfl

@[simp] theorem node_count (n : Nat) : (count n).node = some () := rfl

@[simp] theorem removed_count (n : Nat) : (count n).removed = n := rfl

/-- A visit in parts has a node only if each part has one. A part that goes takes the whole with it,
as the early return of a visitor does. -/
@[simp] theorem node_bind (x : Outcome α) (f : α → Outcome β) :
    (x >>= f).node = x.node.bind fun a => (f a).node := by
  obtain ⟨node, removed⟩ := x
  cases node <;> rfl

/-- The counts of the parts add up as far as the visit comes. What would have come after a part that
goes is not counted. -/
@[simp] theorem removed_bind (x : Outcome α) (f : α → Outcome β) :
    (x >>= f).removed = x.removed + x.node.elim 0 fun a => (f a).removed := by
  obtain ⟨node, removed⟩ := x
  cases node <;> rfl

/-- Visits in parts are put together in any grouping; the law is stated here for the outcomes
themselves, since these have a count. -/
theorem bind_assoc' {γ : Type} (x : Outcome α) (f : α → Outcome β) (g : β → Outcome γ) :
    x >>= f >>= g = x >>= fun a => f a >>= g := by
  ext1
  · simp only [node_bind, Option.bind_assoc]
  · cases hx : x.node with
    | none => simp [hx]
    | some a => simp [hx, Nat.add_assoc]

theorem id_map' (x : Outcome α) : id <$> x = x := by
  obtain ⟨node, removed⟩ := x
  cases node <;> rfl

instance : LawfulMonad Outcome := LawfulMonad.mk' Outcome id_map'
  (fun a f => Outcome.ext (by simp) (by simp)) bind_assoc'

@[simp] theorem node_map (f : α → β) (x : Outcome α) : (f <$> x).node = x.node.map f := by
  rw [← bind_pure_comp, node_bind]
  cases x.node <;> rfl

end Outcome

namespace Pruner

/-! ### The visit of a call, part by part -/

/-- Visits a part that may be missing. -/
def visitPart {α : Type} (visit : α → Outcome α) : Option α → Outcome (Option α)
  | none => pure none
  | some part => some <$> visit part

/-- A call goes through the rules twice, before and after the visit of its parts. In between, a call
without parentheses goes if its arguments are all gone, and its block is then not visited. -/
theorem visitCall_eq (p : Pruner) (ctx : Context) (c : Call) :
    p.visitCall ctx c = (do
      let call ← p.spare c
      let inner := ctx.entering call
      let receiver ← visitPart (p.visitReceiver inner) c.receiver
      let args ← visitPart (p.visitArguments inner) c.args
      if c.style != .regular && args.any (·.items.isEmpty) then Outcome.gone
      else
        let lambda ← visitPart (p.visitLambda inner) c.lambda
        p.spare ⟨receiver, c.name, c.types, args, lambda, c.style⟩) := by
  obtain ⟨receiver, name, types, args, lambda, style⟩ := c
  cases receiver <;> cases args <;> cases lambda <;> simp [visitCall, visitPart]

/-- A call that is spared is handed on as it is, and no rule removes it. -/
theorem spare_node {p : Pruner} {c c' : Call} (h : (p.spare c).node = some c') :
    c' = c ∧ c.removalReason p.rules = none := by
  unfold spare at h
  split at h
  · cases h
  · next hreason =>
      rw [Outcome.node_pure, Option.some.injEq] at h
      exact ⟨h.symm, by simpa using hreason⟩

/-! ### The rules

The rules are named for the node and for what becomes of it. `Entry` and `Remains` put all kinds
of nodes and of what is left of them in one type each, so that there is a single induction for the
whole tree. -/

/-- What is entered by a visit: a node, an optional part of one, or a list. -/
inductive Entry
  | expr (expr : Expr)
  /-- The rest of a sequence, with what precedes it and what is left of that. -/
  | tail (head : Expr) (before visited rest : List Expr)
  | call (call : Call)
  | receiver (receiver : Option Receiver)
  | args (args : Option Arguments)
  | items (items : List Item)
  | lambda (lambda : Lambda)
  | block (lambda : Option Lambda)
  | statement (statement : Statement)
  | statements (statements : List Statement)

/-- What a visit leaves: a node or, of a list, a decision for each entry. Sweeping the list comes
later. -/
inductive Remains
  | expr (expr : Expr)
  | exprs (exprs : List Expr)
  | call (call : Call)
  | receiver (receiver : Option Receiver)
  | args (args : Option Arguments)
  | items (decisions : List (Option Expr))
  | lambda (lambda : Lambda)
  | block (lambda : Option Lambda)
  | statement (statement : Statement)
  | statements (decisions : List (Option Statement))

/-- The statement may stand where it does: a `plugins` block holds what the pruner keeps there. -/
def admits (p : Pruner) (ctx : Context) (statement : Statement) : Bool :=
  !ctx.inPlugins || p.keepsInPlugins statement

/-- `p.Keeps ctx entry remains`: the visit of `entry` in `ctx` leaves `remains`. There is one rule
for each way in which a node is kept, and none for those in which it goes. -/
inductive Keeps (p : Pruner) : Context → Entry → Remains → Prop
  | atom {ctx : Context} {token : Token} :
      Keeps p ctx (.expr (.atom token)) (.expr (.atom token))
  | callExpr {ctx : Context} {c c' : Call} (hcall : Keeps p ctx (.call c) (.call c')) :
      Keeps p ctx (.expr (.call c)) (.expr (.call c'))
  | lambdaExpr {ctx : Context} {l l' : Lambda} (hlambda : Keeps p ctx (.lambda l) (.lambda l')) :
      Keeps p ctx (.expr (.lambda l)) (.expr (.lambda l'))
  | annotatedNothing {ctx : Context} {marker : Token} {name : List Token}
      {args : Option Arguments} :
      Keeps p ctx (.expr (.annotated marker name args none))
        (.expr (.annotated marker name args none))
  | annotated {ctx : Context} {marker : Token} {name : List Token} {args : Option Arguments}
      {e e' : Expr} (hexpr : Keeps p ctx (.expr e) (.expr e')) :
      Keeps p ctx (.expr (.annotated marker name args (some e)))
        (.expr (.annotated marker name args (some e')))
  | field {ctx : Context} {e e' : Expr} {dot name : Token}
      (htarget : Keeps p ctx (.expr e) (.expr e')) :
      Keeps p ctx (.expr (.field e dot name)) (.expr (.field e' dot name))
  | paren {ctx : Context} {opening closing : Token} {e e' : Expr}
      (hinner : Keeps p ctx (.expr e) (.expr e')) :
      Keeps p ctx (.expr (.paren opening e closing)) (.expr (.paren opening e' closing))
  | index {ctx : Context} {e e' : Expr} {opening closing : Token} {items : List Item}
      {decisions : List (Option Expr)} (htarget : Keeps p ctx (.expr e) (.expr e'))
      (hitems : Keeps p ctx (.items items) (.items decisions)) :
      Keeps p ctx (.expr (.index e ⟨opening, items, closing⟩))
        (.expr (.index e' ⟨opening, Item.sweep [] decisions items, closing⟩))
  | binary {ctx : Context} {left left' right right' : Expr} {op : Token}
      (hleft : Keeps p ctx (.expr left) (.expr left'))
      (hright : Keeps p ctx (.expr right) (.expr right')) :
      Keeps p ctx (.expr (.binary left op right)) (.expr (.binary left' op right'))
  | prefixed {ctx : Context} {op : Token} {e e' : Expr}
      (hoperand : Keeps p ctx (.expr e) (.expr e')) :
      Keeps p ctx (.expr (.prefixed op e)) (.expr (.prefixed op e'))
  | postfixed {ctx : Context} {op : Token} {e e' : Expr}
      (hoperand : Keeps p ctx (.expr e) (.expr e')) :
      Keeps p ctx (.expr (.postfixed e op)) (.expr (.postfixed e' op))
  | list {ctx : Context} {opening closing : Token} {items : List Item}
      {decisions : List (Option Expr)}
      (hitems : Keeps p ctx (.items items) (.items decisions)) :
      Keeps p ctx (.expr (.list ⟨opening, items, closing⟩))
        (.expr (.list ⟨opening, Item.sweep [] decisions items, closing⟩))
  | sequence {ctx : Context} {head head' : Expr} {tail tail' : List Expr}
      (hhead : Keeps p ctx (.expr head) (.expr head'))
      (htail : Keeps p ctx (.tail head [] [] tail) (.exprs tail')) :
      Keeps p ctx (.expr (.sequence head tail)) (.expr (.sequence head' tail'))
  | tailEnd {ctx : Context} {head : Expr} {before visited : List Expr} :
      Keeps p ctx (.tail head before visited []) (.exprs visited)
  | tailNext {ctx : Context} {head e e' : Expr} {before visited rest tail' : List Expr}
      (hexpr : Keeps p ctx (.expr e) (.expr e'))
      (hrest : Keeps p ctx (.tail head (before ++ [e]) (visited ++ [e']) rest) (.exprs tail')) :
      Keeps p ctx (.tail head before visited (e :: rest)) (.exprs tail')
  /-- A body goes and more follows. -/
  | tailHollow {ctx : Context} {head e : Expr} {before visited rest tail' : List Expr}
      (hgone : (p.visitExpr ctx e).node = none) (hbody : isControlBody head before = true)
      (hmore : rest ≠ [])
      (hrest : Keeps p ctx (.tail head (before ++ [e])
        (visited ++ [.lambda (Lambda.hollow e.leading)]) rest) (.exprs tail')) :
      Keeps p ctx (.tail head before visited (e :: rest)) (.exprs tail')
  /-- The last body goes, and its `else` with it. -/
  | tailCut {ctx : Context} {head e : Expr} {before visited : List Expr} {branch : Nat}
      (hgone : (p.visitExpr ctx e).node = none) (hbody : isControlBody head before = true)
      (helse : lastElse? before = some branch) :
      Keeps p ctx (.tail head before visited [e]) (.exprs (visited.take branch))
  | call {ctx : Context} {c : Call} {receiver : Option Receiver} {args : Option Arguments}
      {lambda : Option Lambda} (hbefore : c.removalReason p.rules = none)
      (hreceiver : Keeps p (ctx.entering c) (.receiver c.receiver) (.receiver receiver))
      (hargs : Keeps p (ctx.entering c) (.args c.args) (.args args))
      (hstyle : c.style ≠ .regular → ∀ a ∈ args, a.items ≠ [])
      (hlambda : Keeps p (ctx.entering c) (.block c.lambda) (.block lambda))
      (hafter : Call.removalReason ⟨receiver, c.name, c.types, args, lambda, c.style⟩ p.rules =
        none) :
      Keeps p ctx (.call c) (.call ⟨receiver, c.name, c.types, args, lambda, c.style⟩)
  | noReceiver {ctx : Context} : Keeps p ctx (.receiver none) (.receiver none)
  | receiver {ctx : Context} {e e' : Expr} {dot : Option Token}
      (htarget : Keeps p ctx (.expr e) (.expr e')) :
      Keeps p ctx (.receiver (some ⟨e, dot⟩)) (.receiver (some ⟨e', dot⟩))
  | noArgs {ctx : Context} : Keeps p ctx (.args none) (.args none)
  | args {ctx : Context} {opening closing : Option Token} {items : List Item}
      {decisions : List (Option Expr)}
      (hitems : Keeps p ctx (.items items) (.items decisions)) :
      Keeps p ctx (.args (some ⟨opening, items, closing⟩))
        (.args (some ⟨opening, Item.sweep [] decisions items, closing⟩))
  | itemsEnd {ctx : Context} : Keeps p ctx (.items []) (.items [])
  | itemKept {ctx : Context} {e e' : Expr} {comma : Option Token} {items : List Item}
      {decisions : List (Option Expr)} (hexpr : Keeps p ctx (.expr e) (.expr e'))
      (hitems : Keeps p ctx (.items items) (.items decisions)) :
      Keeps p ctx (.items (⟨e, comma⟩ :: items)) (.items (some e' :: decisions))
  | itemGone {ctx : Context} {e : Expr} {comma : Option Token} {items : List Item}
      {decisions : List (Option Expr)} (hgone : (p.visitExpr ctx e).node = none)
      (hitems : Keeps p ctx (.items items) (.items decisions)) :
      Keeps p ctx (.items (⟨e, comma⟩ :: items)) (.items (none :: decisions))
  | noBlock {ctx : Context} : Keeps p ctx (.block none) (.block none)
  | block {ctx : Context} {l l' : Lambda} (hlambda : Keeps p ctx (.lambda l) (.lambda l')) :
      Keeps p ctx (.block (some l)) (.block (some l'))
  | lambda {ctx : Context} {opening closing : Token} {params : Option LambdaParams}
      {body sifted swept : List Statement} {decisions kept : List (Option Statement)}
      {siftedTrailer trailer : String}
      (hbody : Keeps p ctx (.statements body) (.statements decisions))
      (hsift : Statement.sift (p.admits ctx) true decisions body closing.leading =
        (kept, sifted, siftedTrailer))
      (hsweep : Statement.sweep true kept sifted siftedTrailer = (swept, trailer)) :
      Keeps p ctx (.lambda ⟨opening, params, body, closing⟩)
        (.lambda ⟨opening, params, swept, closing.withLeading trailer⟩)
  | importing {ctx : Context} {path : Import}
      (hrules : p.rules.imports.contains path.qualifiedName = false) :
      Keeps p ctx (.statement (.importing path)) (.statement (.importing path))
  | expression {ctx : Context} {e e' : Expr} {semicolon : Option Token}
      (hexpr : Keeps p ctx (.expr e) (.expr e')) :
      Keeps p ctx (.statement (.expression e semicolon)) (.statement (.expression e' semicolon))
  | empty {ctx : Context} {semicolon : Token} :
      Keeps p ctx (.statement (.empty semicolon)) (.statement (.empty semicolon))
  | statementsEnd {ctx : Context} : Keeps p ctx (.statements []) (.statements [])
  | statementKept {ctx : Context} {s s' : Statement} {statements : List Statement}
      {decisions : List (Option Statement)}
      (hstatement : Keeps p ctx (.statement s) (.statement s'))
      (hstatements : Keeps p ctx (.statements statements) (.statements decisions)) :
      Keeps p ctx (.statements (s :: statements)) (.statements (some s' :: decisions))
  | statementGone {ctx : Context} {s : Statement} {statements : List Statement}
      {decisions : List (Option Statement)} (hgone : (p.visitStatement ctx s).node = none)
      (hstatements : Keeps p ctx (.statements statements) (.statements decisions)) :
      Keeps p ctx (.statements (s :: statements)) (.statements (none :: decisions))

/-! ### Visits follow the rules

A visit that leaves something has gone through its tests with success, and these are the premises
of the rule. One lemma for each kind of node, by recursion on the tree. -/

mutual

/-- What a visit leaves of an expression follows the rules of `Keeps`. The visitor is opened in this
mutual induction and nowhere else. -/
theorem keeps_expr (p : Pruner) (ctx : Context) : ∀ (e : Expr) {e' : Expr},
    (p.visitExpr ctx e).node = some e' → p.Keeps ctx (.expr e) (.expr e')
  | .atom token, _, h => by
      rw [visitExpr, Outcome.node_pure, Option.some.injEq] at h
      subst h
      exact .atom
  | .call call, _, h => by
      simp only [visitExpr, bind_pure_comp, Outcome.node_map, Option.map_eq_some_iff] at h
      obtain ⟨call', hcall, rfl⟩ := h
      exact .callExpr (keeps_call p ctx call hcall)
  | .lambda lambda, _, h => by
      simp only [visitExpr, bind_pure_comp, Outcome.node_map, Option.map_eq_some_iff] at h
      obtain ⟨lambda', hlambda, rfl⟩ := h
      exact .lambdaExpr (keeps_lambda p ctx lambda hlambda)
  | .annotated marker name args none, _, h => by
      rw [visitExpr, Outcome.node_pure, Option.some.injEq] at h
      subst h
      exact .annotatedNothing
  | .annotated marker name args (some expr), _, h => by
      simp only [visitExpr, bind_pure_comp, Outcome.node_map, Option.map_eq_some_iff] at h
      obtain ⟨expr', hexpr, rfl⟩ := h
      exact .annotated (keeps_expr p ctx expr hexpr)
  | .field target dot name, _, h => by
      simp only [visitExpr, bind_pure_comp, Outcome.node_map, Option.map_eq_some_iff] at h
      obtain ⟨target', htarget, rfl⟩ := h
      exact .field (keeps_expr p ctx target htarget)
  | .paren opening inner closing, _, h => by
      simp only [visitExpr, bind_pure_comp, Outcome.node_map, Option.map_eq_some_iff] at h
      obtain ⟨inner', hinner, rfl⟩ := h
      exact .paren (keeps_expr p ctx inner hinner)
  | .index target ⟨opening, items, closing⟩, _, h => by
      simp only [visitExpr, visitBrackets, Outcome.node_bind, Outcome.node_count,
        Outcome.node_pure, Option.bind_some, Option.bind_eq_some_iff, Option.some.injEq] at h
      obtain ⟨target', htarget, rfl⟩ := h
      exact .index (keeps_expr p ctx target htarget) (keeps_items p ctx items)
  | .binary left op right, _, h => by
      simp only [visitExpr, Outcome.node_bind, Outcome.node_pure, Option.bind_eq_some_iff,
        Option.some.injEq] at h
      obtain ⟨left', hleft, right', hright, rfl⟩ := h
      exact .binary (keeps_expr p ctx left hleft) (keeps_expr p ctx right hright)
  | .prefixed op operand, _, h => by
      simp only [visitExpr, bind_pure_comp, Outcome.node_map, Option.map_eq_some_iff] at h
      obtain ⟨operand', hoperand, rfl⟩ := h
      exact .prefixed (keeps_expr p ctx operand hoperand)
  | .postfixed operand op, _, h => by
      simp only [visitExpr, bind_pure_comp, Outcome.node_map, Option.map_eq_some_iff] at h
      obtain ⟨operand', hoperand, rfl⟩ := h
      exact .postfixed (keeps_expr p ctx operand hoperand)
  | .list ⟨opening, items, closing⟩, _, h => by
      simp only [visitExpr, visitBrackets, Outcome.node_bind, Outcome.node_count,
        Outcome.node_pure, Option.bind_some, Option.some.injEq] at h
      subst h
      exact .list (keeps_items p ctx items)
  | .sequence head tail, _, h => by
      simp only [visitExpr, Outcome.node_bind, Outcome.node_pure, Option.bind_eq_some_iff,
        Option.some.injEq] at h
      obtain ⟨head', hhead, tail', htail, rfl⟩ := h
      exact .sequence (keeps_expr p ctx head hhead) (keeps_tail p ctx head [] [] tail htail)
termination_by structural node => node

/-- The entries of a sequence are decided from the left. Those in front of an entry, as they were
written, tell whether it is a body; a body that goes is emptied if more follows, and else it goes
with its `else`. -/
theorem keeps_tail (p : Pruner) (ctx : Context) (head : Expr) (before visited : List Expr) :
    ∀ (tail : List Expr) {tail' : List Expr},
      (p.visitTail ctx head before visited tail).node = some tail' →
        p.Keeps ctx (.tail head before visited tail) (.exprs tail')
  | [], _, h => by
      rw [visitTail, Outcome.node_pure, Option.some.injEq] at h
      subst h
      exact .tailEnd
  | expr :: rest, tail', h => by
      rw [visitTail] at h
      split at h
      · next expr' hexpr =>
          simp only [Outcome.node_bind, Outcome.node_count, Option.bind_some] at h
          exact .tailNext (keeps_expr p ctx expr hexpr) (keeps_tail p ctx head _ _ rest h)
      · next hgone =>
          simp only [Outcome.node_bind, Outcome.node_count, Option.bind_some] at h
          split at h
          · cases h
          · next hbody =>
              simp only [Bool.not_eq_true', Bool.not_eq_false] at hbody
              simp only [Outcome.node_bind, Outcome.node_count, Option.bind_some] at h
              split at h
              · next hlast =>
                  rw [List.isEmpty_iff] at hlast
                  subst hlast
                  split at h
                  · cases h
                  · next branch helse =>
                      rw [Outcome.node_pure, Option.some.injEq] at h
                      subst h
                      exact .tailCut hgone hbody helse
              · next hmore =>
                  rw [List.isEmpty_iff] at hmore
                  exact .tailHollow hgone hbody hmore (keeps_tail p ctx head _ _ rest h)
termination_by structural node => node

/-- A call is kept if it is spared, its parts are kept, and it did not lose all of its arguments.
The cases are those of `visitCall_eq`. -/
theorem keeps_call (p : Pruner) (ctx : Context) : ∀ (c : Call) {c' : Call},
    (p.visitCall ctx c).node = some c' → p.Keeps ctx (.call c) (.call c')
  | ⟨receiver, name, types, args, lambda, style⟩, c', h => by
      rw [visitCall_eq] at h
      simp only [Outcome.node_bind, Option.bind_eq_some_iff] at h
      obtain ⟨call, hspare, receiver', hreceiver, args', hargs, h⟩ := h
      obtain ⟨rfl, hbefore⟩ := spare_node hspare
      split at h
      · cases h
      · next hstyle =>
          simp only [Outcome.node_bind, Option.bind_eq_some_iff] at h
          obtain ⟨lambda', hlambda, h⟩ := h
          obtain ⟨rfl, hafter⟩ := spare_node h
          refine .call hbefore ?_ ?_ ?_ ?_ hafter
          · exact keeps_receiver p _ receiver hreceiver
          · exact keeps_args p _ args hargs
          · intro hregular arguments harguments hitems
            rw [Option.mem_def] at harguments
            simp [hregular, harguments, hitems] at hstyle
          · exact keeps_block p _ lambda hlambda
termination_by structural node => node

theorem keeps_receiver (p : Pruner) (ctx : Context) : ∀ (r : Option Receiver) {r'},
    (visitPart (p.visitReceiver ctx) r).node = some r' → p.Keeps ctx (.receiver r) (.receiver r')
  | none, _, h => by
      rw [visitPart, Outcome.node_pure, Option.some.injEq] at h
      subst h
      exact .noReceiver
  | some ⟨target, dot⟩, _, h => by
      simp only [visitPart, visitReceiver, bind_pure_comp, Outcome.node_map,
        Option.map_eq_some_iff] at h
      obtain ⟨_, ⟨target', htarget, rfl⟩, rfl⟩ := h
      exact .receiver (keeps_expr p ctx target htarget)
termination_by structural node => node

theorem keeps_args (p : Pruner) (ctx : Context) : ∀ (a : Option Arguments) {a'},
    (visitPart (p.visitArguments ctx) a).node = some a' → p.Keeps ctx (.args a) (.args a')
  | none, _, h => by
      rw [visitPart, Outcome.node_pure, Option.some.injEq] at h
      subst h
      exact .noArgs
  | some ⟨opening, items, closing⟩, _, h => by
      simp only [visitPart, visitArguments, Outcome.node_map, Outcome.node_bind,
        Outcome.node_count, Outcome.node_pure, Option.bind_some, Option.map_some,
        Option.some.injEq] at h
      subst h
      exact .args (keeps_items p ctx items)
termination_by structural node => node

/-- Every item has a decision of its own, so the rule for items asks only that the decisions are
those of the single visits. -/
theorem keeps_items (p : Pruner) (ctx : Context) : ∀ items : List Item,
    p.Keeps ctx (.items items) (.items ((p.visitItems ctx items).map Outcome.node))
  | [] => by
      rw [visitItems]
      exact .itemsEnd
  | ⟨expr, comma⟩ :: items => by
      rw [visitItems, List.map_cons]
      cases hexpr : (p.visitExpr ctx expr).node with
      | none => exact .itemGone hexpr (keeps_items p ctx items)
      | some expr' => exact .itemKept (keeps_expr p ctx expr hexpr) (keeps_items p ctx items)
termination_by structural node => node

theorem keeps_block (p : Pruner) (ctx : Context) : ∀ (l : Option Lambda) {l'},
    (visitPart (p.visitLambda ctx) l).node = some l' → p.Keeps ctx (.block l) (.block l')
  | none, _, h => by
      rw [visitPart, Outcome.node_pure, Option.some.injEq] at h
      subst h
      exact .noBlock
  | some lambda, _, h => by
      simp only [visitPart, Outcome.node_map, Option.map_eq_some_iff] at h
      obtain ⟨lambda', hlambda, rfl⟩ := h
      exact .block (keeps_lambda p ctx lambda hlambda)
termination_by structural node => node

/-- A block keeps its braces and parameters. Its body is what is left of its statements, with the
trivia that the gone ones hand on. -/
theorem keeps_lambda (p : Pruner) (ctx : Context) : ∀ (l : Lambda) {l' : Lambda},
    (p.visitLambda ctx l).node = some l' → p.Keeps ctx (.lambda l) (.lambda l')
  | ⟨opening, params, body, closing⟩, _, h => by
      simp only [visitLambda, Outcome.node_bind, Outcome.node_count, Outcome.node_pure,
        Option.bind_some, Option.some.injEq] at h
      subst h
      refine .lambda (keeps_statements p ctx body) (Statement.sift_map _ _ _ _ _) ?_
      rfl
termination_by structural node => node

/-- An import goes if a rule names it, a statement goes if its expression goes, and a lone semicolon
stays. -/
theorem keeps_statement (p : Pruner) (ctx : Context) : ∀ (s : Statement) {s' : Statement},
    (p.visitStatement ctx s).node = some s' → p.Keeps ctx (.statement s) (.statement s')
  | .importing path, _, h => by
      rw [visitStatement] at h
      split at h
      · cases h
      · next hrules =>
          rw [Outcome.node_pure, Option.some.injEq] at h
          subst h
          exact .importing (by simpa using hrules)
  | .expression expr semicolon, _, h => by
      simp only [visitStatement, bind_pure_comp, Outcome.node_map, Option.map_eq_some_iff] at h
      obtain ⟨expr', hexpr, rfl⟩ := h
      exact .expression (keeps_expr p ctx expr hexpr)
  | .empty semicolon, _, h => by
      rw [visitStatement, Outcome.node_pure, Option.some.injEq] at h
      subst h
      exact .empty
termination_by structural node => node

theorem keeps_statements (p : Pruner) (ctx : Context) : ∀ statements : List Statement,
    p.Keeps ctx (.statements statements)
      (.statements ((p.visitStatements ctx statements).map Outcome.node))
  | [] => by
      rw [visitStatements]
      exact .statementsEnd
  | statement :: statements => by
      rw [visitStatements, List.map_cons]
      cases hstatement : (p.visitStatement ctx statement).node with
      | none => exact .statementGone hstatement (keeps_statements p ctx statements)
      | some statement' =>
          exact .statementKept (keeps_statement p ctx statement hstatement)
            (keeps_statements p ctx statements)
termination_by structural node => node

end

/-! ### A decision for each entry

A list of decisions has as many entries as the list that was visited. The filter of a `plugins`
block takes statements away from both at the same places. -/

/-- How many entries a list has that is entered. -/
def Entry.length : Entry → Nat
  | .items list => list.length
  | .statements list => list.length
  | _ => 0

/-- How many decisions a visit leaves. -/
def Remains.length : Remains → Nat
  | .items decisions => decisions.length
  | .statements decisions => decisions.length
  | _ => 0

/-- A visit of a list leaves one decision for each entry, so lists and decisions are walked side by
side from here on. -/
theorem Keeps.length_eq {p : Pruner} {ctx : Context} {entry : Entry} {remains : Remains}
    (h : p.Keeps ctx entry remains) : remains.length = entry.length := by
  induction h <;> simp_all [Entry.length, Remains.length]

/-- The filter of a block only chooses among the decisions, and keeps a statement for each of them.
So the statements that it admits are swept by the decisions that it left. -/
theorem Keeps.sifted {p : Pruner} {ctx : Context} {body sifted : List Statement}
    {decisions kept : List (Option Statement)} {trailer siftedTrailer : String}
    (h : p.Keeps ctx (.statements body) (.statements decisions))
    (hsift : Statement.sift (p.admits ctx) true decisions body trailer =
      (kept, sifted, siftedTrailer)) :
    kept.Sublist decisions ∧ kept.length = sifted.length := by
  have hlength : decisions.length = body.length := h.length_eq
  have hkept := Statement.sift_sublist (p.admits ctx) decisions true body trailer hlength
  have hsifted := Statement.length_sift (p.admits ctx) decisions true body trailer hlength
  rw [hsift] at hkept hsifted
  exact ⟨hkept, hsifted⟩

end Pruner

end BuildPrune
