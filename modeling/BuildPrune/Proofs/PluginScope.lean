import BuildPrune.Proofs.ElseBranches
import BuildPrune.Proofs.Siblings

/-!
# BuildPrune.Proofs.PluginScope

**What a pruner keeps in `plugins` blocks is no matter outside them**
(`Pruner.plugin_filter_scoped`). Two pruners with the same rules are compared. The context that a
call passes on is that of its own surroundings unless the call is named `plugins`, so in a tree
without such calls the filter is asked for nothing, and the two visits are equal, counts and all
(`visitExpr_eq_of_noPlugins` and its siblings).

Next to a `plugins` block the two visits differ, and a statement that is filtered out there hands
its trivia on. This stays inside the block; and if the whole block goes, only the trivia in front of
the next statement changes. `Pruner.StandsFor` finds the place of a statement in what is left of a
script, whatever is left of those around it.
-/

namespace BuildPrune

/-! ### Trees without `plugins`

Where no call is named `plugins`, the context stays what it was. Both pruners are then asked the
same questions, and the answers depend on the rules alone. -/

/-- The call opens a `plugins` block. -/
def Call.opensPlugins (call : Call) : Bool :=
  call.name.text == "plugins"

/-- None of these calls opens a `plugins` block. -/
def NoPlugins (calls : List Call) : Prop :=
  ∀ call ∈ calls, call.opensPlugins = false

section

variable {call : Call} {calls more : List Call}

@[simp] theorem noPlugins_nil : NoPlugins [] := nofun

@[simp] theorem noPlugins_cons :
    NoPlugins (call :: calls) ↔ call.opensPlugins = false ∧ NoPlugins calls :=
  List.forall_mem_cons

@[simp] theorem noPlugins_append :
    NoPlugins (calls ++ more) ↔ NoPlugins calls ∧ NoPlugins more :=
  List.forall_mem_append

/-- The calls inside a call are those of its receiver, its arguments and its block, so each part is
asked for `plugins` by itself. -/
theorem noPlugins_innerCalls : NoPlugins call.innerCalls ↔
    (∀ r ∈ call.receiver, NoPlugins r.calls) ∧ (∀ a ∈ call.args, NoPlugins a.calls) ∧
      ∀ l ∈ call.lambda, NoPlugins l.calls := by
  obtain ⟨receiver, name, types, args, lambda, style⟩ := call
  cases receiver <;> cases args <;> cases lambda <;> simp [Call.innerCalls]

/-- Such a call leaves the context as it is. This is the one place where the name of a call matters
to what surrounds it. -/
theorem Context.entering_eq_self (ctx : Context) (h : call.opensPlugins = false) :
    ctx.entering call = ctx := by
  rw [Context.entering]
  exact if_neg (ne_true_of_eq_false h)

end

@[simp] theorem Outcome.gone_bind {α β : Type} (f : α → Outcome β) :
    (Outcome.gone >>= f) = Outcome.gone := rfl

namespace Pruner

/-! ### Two pruners with the same rules

One lemma for each kind of node, by recursion on the tree. The outcomes are equal as a whole, so
it need not be said which parts were removed. -/

variable {p q : Pruner}

/-- Whether a call is spared is a matter of the rules. The filter has no part in it. -/
theorem spare_eq_of_rules (hrules : p.rules = q.rules) (c : Call) : p.spare c = q.spare c := by
  rw [spare, spare, hrules]

/-- A call that opens no `plugins` block passes its context on, so it is visited alike if its parts
are. The filter is asked in a `plugins` context only, and there is none here. -/
theorem visitCall_eq_of_parts (hrules : p.rules = q.rules) {c : Call}
    (hname : c.opensPlugins = false)
    (hreceiver : visitPart (p.visitReceiver {}) c.receiver =
      visitPart (q.visitReceiver {}) c.receiver)
    (hargs : visitPart (p.visitArguments {}) c.args = visitPart (q.visitArguments {}) c.args)
    (hlambda : visitPart (p.visitLambda {}) c.lambda = visitPart (q.visitLambda {}) c.lambda) :
    p.visitCall {} c = q.visitCall {} c := by
  rw [visitCall_eq, visitCall_eq, spare_eq_of_rules hrules]
  by_cases hreason : (c.removalReason q.rules).isSome = true
  · rw [spare, if_pos hreason, Outcome.gone_bind, Outcome.gone_bind]
  · rw [spare, if_neg hreason, pure_bind, pure_bind]
    simp only [Context.entering_eq_self {} hname, hreceiver, hargs, hlambda,
      spare_eq_of_rules hrules]

-- The filter is asked in `visitLambda` alone, and there only inside a `plugins` block.

mutual

/-- Outside `plugins` blocks the rules alone say what is left of an expression. The induction takes
all kinds of nodes together, in the order in which they are visited; for most of them the calls of a
node are those of its parts. -/
theorem visitExpr_eq_of_noPlugins (hrules : p.rules = q.rules) : ∀ e : Expr, NoPlugins e.calls →
    p.visitExpr {} e = q.visitExpr {} e
  | .atom _, _ => by rw [visitExpr, visitExpr]
  | .call call, h => by
      rw [Expr.calls, noPlugins_cons] at h
      rw [visitExpr, visitExpr, visitCall_eq_of_noPlugins hrules call h.1 h.2]
  | .lambda lambda, h => by
      rw [Expr.calls] at h
      rw [visitExpr, visitExpr, visitLambda_eq_of_noPlugins hrules lambda h]
  | .annotated _ _ _ none, _ => by rw [visitExpr, visitExpr]
  | .annotated _ _ _ (some expr), h => by
      rw [Expr.calls] at h
      rw [visitExpr, visitExpr, visitExpr_eq_of_noPlugins hrules expr h]
  | .field target _ _, h => by
      rw [Expr.calls] at h
      rw [visitExpr, visitExpr, visitExpr_eq_of_noPlugins hrules target h]
  | .paren _ inner _, h => by
      rw [Expr.calls] at h
      rw [visitExpr, visitExpr, visitExpr_eq_of_noPlugins hrules inner h]
  | .index target brackets, h => by
      rw [Expr.calls, noPlugins_append] at h
      rw [visitExpr, visitExpr, visitExpr_eq_of_noPlugins hrules target h.1,
        visitBrackets_eq_of_noPlugins hrules brackets h.2]
  | .binary left _ right, h => by
      rw [Expr.calls, noPlugins_append] at h
      rw [visitExpr, visitExpr, visitExpr_eq_of_noPlugins hrules left h.1,
        visitExpr_eq_of_noPlugins hrules right h.2]
  | .prefixed _ operand, h => by
      rw [Expr.calls] at h
      rw [visitExpr, visitExpr, visitExpr_eq_of_noPlugins hrules operand h]
  | .postfixed operand _, h => by
      rw [Expr.calls] at h
      rw [visitExpr, visitExpr, visitExpr_eq_of_noPlugins hrules operand h]
  | .list brackets, h => by
      rw [Expr.calls] at h
      rw [visitExpr, visitExpr, visitBrackets_eq_of_noPlugins hrules brackets h]
  | .sequence head tail, h => by
      rw [Expr.calls, noPlugins_append] at h
      rw [visitExpr, visitExpr, visitExpr_eq_of_noPlugins hrules head h.1,
        visitTail_eq_of_noPlugins hrules head [] [] tail h.2]

/-- The rest of a sequence is visited with what was left of its front, and that is the same for both
pruners already. -/
theorem visitTail_eq_of_noPlugins (hrules : p.rules = q.rules) (head : Expr)
    (before visited : List Expr) : ∀ tail : List Expr, NoPlugins (Expr.listCalls tail) →
      p.visitTail {} head before visited tail = q.visitTail {} head before visited tail
  | [], _ => by rw [visitTail, visitTail]
  | expr :: rest, h => by
      rw [Expr.listCalls, noPlugins_append] at h
      have hrest := fun node =>
        visitTail_eq_of_noPlugins hrules head (before ++ [expr]) (visited ++ [node]) rest h.2
      rw [visitTail, visitTail, visitExpr_eq_of_noPlugins hrules expr h.1]
      simp only [hrest]

/-- A call is visited alike if it does not open a `plugins` block itself and none is opened
inside. -/
theorem visitCall_eq_of_noPlugins (hrules : p.rules = q.rules) : ∀ c : Call,
    c.opensPlugins = false → NoPlugins c.innerCalls → p.visitCall {} c = q.visitCall {} c
  | ⟨receiver, name, types, args, lambda, style⟩, hname, h => by
      obtain ⟨hreceiver, hargs, hlambda⟩ := noPlugins_innerCalls.1 h
      exact visitCall_eq_of_parts hrules hname
        (visitReceiver_eq_of_noPlugins hrules receiver hreceiver)
        (visitArguments_eq_of_noPlugins hrules args hargs)
        (visitBlock_eq_of_noPlugins hrules lambda hlambda)

theorem visitReceiver_eq_of_noPlugins (hrules : p.rules = q.rules) : ∀ receiver : Option Receiver,
    (∀ r ∈ receiver, NoPlugins r.calls) →
      visitPart (p.visitReceiver {}) receiver = visitPart (q.visitReceiver {}) receiver
  | none, _ => rfl
  | some ⟨target, dot⟩, h => by
      have htarget : NoPlugins target.calls := h ⟨target, dot⟩ rfl
      rw [visitPart, visitPart, visitReceiver, visitReceiver,
        visitExpr_eq_of_noPlugins hrules target htarget]

theorem visitArguments_eq_of_noPlugins (hrules : p.rules = q.rules) : ∀ args : Option Arguments,
    (∀ a ∈ args, NoPlugins a.calls) →
      visitPart (p.visitArguments {}) args = visitPart (q.visitArguments {}) args
  | none, _ => rfl
  | some ⟨opening, items, closing⟩, h => by
      have hitems : NoPlugins (Item.listCalls items) := h ⟨opening, items, closing⟩ rfl
      rw [visitPart, visitPart, visitArguments, visitArguments,
        visitItems_eq_of_noPlugins hrules items hitems]

theorem visitBrackets_eq_of_noPlugins (hrules : p.rules = q.rules) : ∀ brackets : Brackets,
    NoPlugins brackets.calls → p.visitBrackets {} brackets = q.visitBrackets {} brackets
  | ⟨opening, items, closing⟩, h => by
      rw [Brackets.calls] at h
      rw [visitBrackets, visitBrackets, visitItems_eq_of_noPlugins hrules items h]

theorem visitItems_eq_of_noPlugins (hrules : p.rules = q.rules) : ∀ items : List Item,
    NoPlugins (Item.listCalls items) → p.visitItems {} items = q.visitItems {} items
  | [], _ => by rw [visitItems, visitItems]
  | ⟨expr, comma⟩ :: rest, h => by
      rw [Item.listCalls, Item.calls, noPlugins_append] at h
      rw [visitItems, visitItems, visitExpr_eq_of_noPlugins hrules expr h.1,
        visitItems_eq_of_noPlugins hrules rest h.2]

theorem visitBlock_eq_of_noPlugins (hrules : p.rules = q.rules) : ∀ lambda : Option Lambda,
    (∀ l ∈ lambda, NoPlugins l.calls) →
      visitPart (p.visitLambda {}) lambda = visitPart (q.visitLambda {}) lambda
  | none, _ => rfl
  | some lambda, h => by
      rw [visitPart, visitPart, visitLambda_eq_of_noPlugins hrules lambda (h lambda rfl)]

/-- A block outside `plugins` is visited statement by statement and then swept; the filter admits
everything there. -/
theorem visitLambda_eq_of_noPlugins (hrules : p.rules = q.rules) : ∀ lambda : Lambda,
    NoPlugins lambda.calls → p.visitLambda {} lambda = q.visitLambda {} lambda
  | ⟨opening, params, body, closing⟩, h => by
      rw [Lambda.calls] at h
      rw [visitLambda, visitLambda, visitStatements_eq_of_noPlugins hrules body h]
      simp only [Bool.not_false, Bool.true_or]

/-- An import is looked up in the rules; an expression was compared already. -/
theorem visitStatement_eq_of_noPlugins (hrules : p.rules = q.rules) : ∀ s : Statement,
    NoPlugins s.calls → p.visitStatement {} s = q.visitStatement {} s
  | .importing path, _ => by rw [visitStatement, visitStatement, hrules]
  | .expression expr semicolon, h => by
      rw [Statement.calls] at h
      rw [visitStatement, visitStatement, visitExpr_eq_of_noPlugins hrules expr h]
  | .empty _, _ => by rw [visitStatement, visitStatement]

theorem visitStatements_eq_of_noPlugins (hrules : p.rules = q.rules) :
    ∀ statements : List Statement, NoPlugins (Statement.listCalls statements) →
      p.visitStatements {} statements = q.visitStatements {} statements
  | [], _ => by rw [visitStatements, visitStatements]
  | statement :: rest, h => by
      rw [Statement.listCalls, noPlugins_append] at h
      rw [visitStatements, visitStatements, visitStatement_eq_of_noPlugins hrules statement h.1,
        visitStatements_eq_of_noPlugins hrules rest h.2]

end

/-! ### The place of a statement in what is left

A statement is found again by the number of those in front of it that are left. Its printed form
does not show trivia, so it is the same under both filters although a neighbour may have handed on
more. -/

/-- In `out`, which is left of the statements `before ++ s :: after` of a script, `here` is what
stands for `s`: in front of it is what is left of `before`, behind it what is left of `after`. -/
def StandsFor (p : Pruner) (before : List Statement) (s : Statement) (after out : List Statement)
    (here : Option Statement) : Prop :=
  ∃ before' after', out = before' ++ here.toList ++ after' ∧
    Statement.LeftOf (fun s => (p.visitStatement {} s).node) before before' ∧
    Statement.LeftOf (fun s => (p.visitStatement {} s).node) [s] here.toList ∧
    Statement.LeftOf (fun s => (p.visitStatement {} s).node) after after'

variable {before after out : List Statement} {s : Statement}

/-- There is one such place: how much is left of the statements in front of `s` tells where it is.
So `StandsFor` is a function of the outcome, and two pruners can be compared by it. -/
theorem StandsFor.unique {here here' : Option Statement} (h : p.StandsFor before s after out here)
    (h' : p.StandsFor before s after out here') : here = here' := by
  obtain ⟨before₁, after₁, rfl, hbefore₁, hhere₁, -⟩ := h
  obtain ⟨before₂, after₂, hout, hbefore₂, hhere₂, -⟩ := h'
  rw [List.append_assoc, List.append_assoc] at hout
  have hrest := List.append_inj_right hout (hbefore₁.length_eq.trans hbefore₂.length_eq.symm)
  have hlist := List.append_inj_left hrest (hhere₁.length_eq.trans hhere₂.length_eq.symm)
  cases here <;> cases here' <;> simp_all

/-- What stands for a statement is what a visit of it alone leaves, behind other trivia. A statement
that a visit removes has nothing that stands for it. -/
theorem StandsFor.printed_eq {here : Option Statement} (h : p.StandsFor before s after out here) :
    here.map Statement.printed = (p.visitStatement {} s).node.map Statement.printed := by
  obtain ⟨-, -, -, -, hhere, -⟩ := h
  cases here with
  | none =>
      cases hhere with
      | gone hleft => rw [hleft, Option.map_none]
  | some here =>
      cases hhere with
      | kept hleft hplaced =>
          obtain ⟨leading, rfl⟩ := hplaced
          rw [hleft, Option.map_some, Option.map_some, Statement.printed_withLeading]
      | gone _ hrest => cases hrest

/-- In what is left of a script there is a place for each of its statements. The list of decisions
is split where the statement is, and sweeping respects the split. -/
theorem exists_standsFor (p : Pruner) (dialect : Dialect) (before : List Statement) (s : Statement)
    (after : List Statement) (eof : String) :
    ∃ here, p.StandsFor before s after
      (p.visitScript ⟨dialect, before ++ s :: after, eof⟩).1.statements here := by
  obtain ⟨before', rest', hout, hbefore, hrest⟩ :=
    (leftOf_sweep p {} (before ++ s :: after) eof).append_left
  cases hrest with
  | @kept _ decided here _ after' hleft hplaced hafter =>
      refine ⟨some here, before', after', ?_, hbefore, .kept hleft hplaced .nil, hafter⟩
      rw [List.append_assoc]
      exact hout
  | gone hleft hafter =>
      refine ⟨none, before', rest', ?_, hbefore, .gone hleft .nil, hafter⟩
      rw [Option.toList_none, List.append_nil]
      exact hout

/-- Where no call opens a `plugins` block, what a pruner keeps in such blocks does not matter: a
visit of the statement alone is that of any pruner with the same rules, and so is, in a visit of a
script, whether the statement stays and how it is printed, whatever stands around it. -/
theorem plugin_filter_scoped (hrules : p.rules = q.rules) {s : Statement}
    (hs : ∀ call ∈ s.calls, call.opensPlugins = false) :
    p.visitStatement {} s = q.visitStatement {} s ∧
      ∀ (dialect : Dialect) (before after : List Statement) (eof : String), ∃ here here',
        p.StandsFor before s after
          (p.visitScript ⟨dialect, before ++ s :: after, eof⟩).1.statements here ∧
        q.StandsFor before s after
          (q.visitScript ⟨dialect, before ++ s :: after, eof⟩).1.statements here' ∧
        here.isSome = here'.isSome ∧
        here.map Statement.printed = here'.map Statement.printed := by
  have hvisit := visitStatement_eq_of_noPlugins hrules s hs
  refine ⟨hvisit, fun dialect before after eof => ?_⟩
  obtain ⟨here, hhere⟩ := exists_standsFor p dialect before s after eof
  obtain ⟨here', hhere'⟩ := exists_standsFor q dialect before s after eof
  have hprinted : here.map Statement.printed = here'.map Statement.printed := by
    rw [hhere.printed_eq, hhere'.printed_eq, hvisit]
  refine ⟨here, here', hhere, hhere', ?_, hprinted⟩
  simpa using congrArg Option.isSome hprinted

/-- The statement behind a block that loses all of its statements to the filter. -/
theorem plugin_filter_scoped_behind_block :
    ∃ block s, parse "plugins \x7b a() \x7d\nb(c())\n" .groovy =
        .ok ⟨.groovy, [block] ++ [s], "\n"⟩ ∧
      block.calls.any Call.opensPlugins = true ∧
      (∀ call ∈ s.calls, call.opensPlugins = false) ∧
      ∃ here here',
        StandsFor ⟨{ methods := ["c"] }, fun _ => false⟩ [block] s []
          (visitScript ⟨{ methods := ["c"] }, fun _ => false⟩
            ⟨.groovy, [block] ++ [s], "\n"⟩).1.statements here ∧
        StandsFor ⟨{ methods := ["c"] }, fun _ => true⟩ [block] s []
          (visitScript ⟨{ methods := ["c"] }, fun _ => true⟩
            ⟨.groovy, [block] ++ [s], "\n"⟩).1.statements here' ∧
        here.isSome = here'.isSome ∧
        here.map Statement.printed = here'.map Statement.printed := by
  have hchecked : (parse "plugins \x7b a() \x7d\nb(c())\n" .groovy).toOption.any (fun script =>
      decide (script.dialect = .groovy ∧ script.eof = "\n" ∧ script.statements.length = 2 ∧
        (∀ block ∈ script.statements.head?, block.calls.any Call.opensPlugins = true) ∧
        ∀ s ∈ script.statements.tail, ∀ call ∈ s.calls, call.opensPlugins = false)) = true := by
    decide +kernel
  obtain ⟨⟨dialect, statements, eof⟩, hparse, hchecked⟩ := ok_of_any hchecked
  obtain ⟨rfl, rfl, htwo, hblock, hplain⟩ := of_decide_eq_true hchecked
  obtain ⟨block, s, rfl⟩ := List.length_eq_two.1 htwo
  have hs := hplain s (List.mem_singleton_self s)
  have hrules : (⟨{ methods := ["c"] }, fun _ => false⟩ : Pruner).rules =
      (⟨{ methods := ["c"] }, fun _ => true⟩ : Pruner).rules := rfl
  exact ⟨block, s, hparse, hblock block rfl, hs,
    (plugin_filter_scoped hrules hs).2 .groovy [block] [] "\n"⟩

end Pruner

end BuildPrune
