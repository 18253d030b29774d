import Mathlib.Algebra.GroupWithZero.Nat
import BuildPrune.Proofs.LeadingTrivia
import BuildPrune.Proofs.Occurrences
import BuildPrune.Proofs.Settled
import BuildPrune.Proofs.TriviaEdits
import BuildPrune.Proofs.Visiting

/-!
# BuildPrune.Proofs.Siblings

**The entries of a list do not influence each other.** A list can be visited in place: each entry
has its turn, and one that goes hands its trivia on to the next, which is visited with that trivia
in front (`Pruner.visitInPlace`, `Pruner.visitItemsInPlace`). No visit looks at the trivia in front
of a node, it only carries it along (`Pruner.visitExpr_withLeading`), so the outcome is that of
visiting every entry on its own and sweeping the list afterwards.

`Pruner.siblings_apart` says so of the two loops, and that scripts, lambdas and the lists of items
are visited by them.
-/

namespace BuildPrune

/-! ### Control bodies -/

/-- Which elements of a sequence are control bodies does not depend on the trivia in front. -/
theorem isControlBody_withLeading (head : Expr) (leading : String) (before : List Expr) :
    isControlBody (head.withLeading leading) before = isControlBody head before := by
  have hopens : (head.withLeading leading).opensControl = head.opensControl := by
    cases head <;> rfl
  have hkeyword : ∀ keywords,
      (head.withLeading leading).endsWithKeyword keywords = head.endsWithKeyword keywords := by
    intro keywords
    cases head <;> rfl
  unfold isControlBody endsControlHeader
  rw [hopens]
  cases before.reverse with
  | nil => simp only [hkeyword]
  | cons last earlier => cases earlier <;> simp only [List.headD_nil, List.headD_cons, hkeyword]

namespace Pruner

/-! ### A visit carries the trivia in front along

A visit that is started with other trivia in front of its node leaves the same, with that trivia
in front. One lemma for each kind of node, from the parts to the whole. -/

variable (p : Pruner) (leading : String)

/-- The rules judge a call alike behind other trivia. -/
theorem spare_withLeading (c : Call) :
    p.spare (c.withLeading leading) = (·.withLeading leading) <$> p.spare c := by
  unfold spare
  rw [Call.removalReason_withLeading]
  split
  · rfl
  · rw [map_pure]

/-- The visit of the arguments and the lambda of a call, from which `build` makes the call. The
receiver has been visited by then, and is in what `build` holds. -/
def visitParts (inner : Context) (style : CallStyle) (args : Option Arguments)
    (lambda : Option Lambda) (build : Option Arguments → Option Lambda → Call) : Outcome Call := do
  let args ← visitPart (p.visitArguments inner) args
  if style != .regular && args.any (·.items.isEmpty) then Outcome.gone
  else
    let lambda ← visitPart (p.visitLambda inner) lambda
    p.spare (build args lambda)

/-- The receiver of a call holds the first token, and the other parts come behind it. Set apart,
they are visited alike whatever is in front. -/
theorem visitCall_eq_visitParts (ctx : Context) (c : Call) :
    p.visitCall ctx c = (do
      let call ← p.spare c
      let inner := ctx.entering call
      let receiver ← visitPart (p.visitReceiver inner) c.receiver
      p.visitParts inner c.style c.args c.lambda fun args lambda =>
        ⟨receiver, c.name, c.types, args, lambda, c.style⟩) :=
  visitCall_eq p ctx c

/-- Trivia in front of the call goes through the visit of its other parts. -/
theorem visitParts_withLeading (inner : Context) (style : CallStyle) (args : Option Arguments)
    (lambda : Option Lambda) (build : Option Arguments → Option Lambda → Call) :
    p.visitParts inner style args lambda (fun a l => (build a l).withLeading leading) =
      (·.withLeading leading) <$> p.visitParts inner style args lambda build := by
  unfold visitParts
  rw [map_bind]
  congr 1
  funext args'
  split
  · rfl
  · simp only [map_bind, spare_withLeading]

/-- The entries behind the head of a sequence do not see the trivia in front of it. -/
theorem visitTail_withLeading (ctx : Context) (head : Expr) : ∀ tail before visited : List Expr,
    p.visitTail ctx (head.withLeading leading) before visited tail =
      p.visitTail ctx head before visited tail
  | [], before, visited => by rw [visitTail, visitTail]
  | expr :: rest, before, visited => by
      rw [visitTail, visitTail]
      simp only [isControlBody_withLeading, visitTail_withLeading ctx head rest]

mutual

/-- Other trivia in front of an expression is in front of what a visit leaves of it, and changes
nothing else. The recursion goes down the first children, as `withLeading` does. -/
theorem visitExpr_withLeading (ctx : Context) : ∀ e : Expr,
    p.visitExpr ctx (e.withLeading leading) = (·.withLeading leading) <$> p.visitExpr ctx e
  | .atom token => by simp [Expr.withLeading, visitExpr]
  | .call call => by
      simp [Expr.withLeading, visitExpr, visitCall_withLeading ctx call]
  | .lambda ⟨opening, params, body, closing⟩ => by
      simp [Expr.withLeading, visitExpr, visitLambda]
  | .annotated marker name args none => by simp [Expr.withLeading, visitExpr]
  | .annotated marker name args (some expr) => by simp [Expr.withLeading, visitExpr]
  | .field target dot name => by
      simp [Expr.withLeading, visitExpr, visitExpr_withLeading ctx target]
  | .paren opening inner closing => by simp [Expr.withLeading, visitExpr]
  | .index target brackets => by
      simp [Expr.withLeading, visitExpr, visitExpr_withLeading ctx target]
  | .binary left op right => by
      simp [Expr.withLeading, visitExpr, visitExpr_withLeading ctx left]
  | .prefixed op operand => by simp [Expr.withLeading, visitExpr]
  | .postfixed operand op => by
      simp [Expr.withLeading, visitExpr, visitExpr_withLeading ctx operand]
  | .list ⟨opening, items, closing⟩ => by
      simp [Expr.withLeading, visitExpr, visitBrackets]
  | .sequence head tail => by
      simp [Expr.withLeading, visitExpr, visitExpr_withLeading ctx head, visitTail_withLeading]

theorem visitCall_withLeading (ctx : Context) : ∀ c : Call,
    p.visitCall ctx (c.withLeading leading) = (·.withLeading leading) <$> p.visitCall ctx c
  | ⟨none, name, types, args, lambda, style⟩ => by
      rw [visitCall_eq_visitParts, visitCall_eq_visitParts, spare_withLeading, bind_map_left,
        map_bind]
      simp only [Context.entering_withLeading, Call.withLeading, visitPart, pure_bind,
        ← visitParts_withLeading]
  | ⟨some ⟨target, dot⟩, name, types, args, lambda, style⟩ => by
      rw [visitCall_eq_visitParts, visitCall_eq_visitParts, spare_withLeading, bind_map_left,
        map_bind]
      simp only [Context.entering_withLeading, Call.withLeading, Receiver.withLeading, visitPart,
        visitReceiver, visitExpr_withLeading _ target, bind_pure_comp, Functor.map_map, map_bind,
        bind_map_left, ← visitParts_withLeading]

end

theorem visitStatement_withLeading (ctx : Context) (s : Statement) :
    p.visitStatement ctx (s.withLeading leading) =
      (·.withLeading leading) <$> p.visitStatement ctx s := by
  cases s with
  | importing path =>
      rw [Statement.withLeading, visitStatement, visitStatement]
      by_cases hrules : p.rules.imports.contains path.qualifiedName = true
      · rw [if_pos hrules]
        exact if_pos hrules
      · rw [if_neg hrules, map_pure]
        exact if_neg hrules
  | expression expr semicolon =>
      simp [Statement.withLeading, visitStatement, visitExpr_withLeading]
  | empty semicolon => rfl

end Pruner

/-! ### Visiting a list in place

An entry that stays is put back as it was left, with the trivia that it had when its turn came. An
entry that goes is removed from the list, which hands its trivia on before the next one has its
turn. -/

/-- Goes through a list in place. Each of the `left` entries from `index` on has its turn: it is
replaced by what a visit leaves of it, or removed. The answer holds the list, what stands behind it,
and the number of entries removed, those inside others included. -/
def takeTurns {α σ : Type} (visit : α → Outcome α) (remove : List α → Nat → σ → List α × σ) :
    (left index : Nat) → List α → σ → (List α × σ) × Nat
  | 0, _, entries, behind => ((entries, behind), 0)
  | left + 1, index, entries, behind =>
    match entries[index]? with
    | none => ((entries, behind), 0)
    | some entry =>
      let outcome := visit entry
      match outcome.node with
      | some node =>
        let entries := entries.set index node
        let (list, removed) := takeTurns visit remove left (index + 1) entries behind
        (list, outcome.removed + removed)
      | none =>
        let (entries, behind) := remove entries index behind
        let (list, removed) := takeTurns visit remove left index entries behind
        (list, outcome.removed + 1 + removed)

section

variable {α σ : Type} {visit : α → Outcome α} {remove : List α → Nat → σ → List α × σ}

/-- An entry that stays is done, and the next one has its turn. What was removed inside of it is
counted. -/
theorem takeTurns_stays {entry node : α} (hnode : (visit entry).node = some node) (left : Nat)
    (done rest : List α) (behind : σ) :
    takeTurns visit remove (left + 1) done.length (done ++ entry :: rest) behind =
      let turns :=
        takeTurns visit remove left (done ++ [node]).length (done ++ [node] ++ rest) behind
      (turns.1, (visit entry).removed + turns.2) := by
  simp [takeTurns, hnode]

/-- An entry that goes leaves its place to the next one. It is counted, with what was removed inside
of it. -/
theorem takeTurns_goes {entry : α} (hnode : (visit entry).node = none) (left : Nat)
    (done rest : List α) (behind : σ) :
    takeTurns visit remove (left + 1) done.length (done ++ entry :: rest) behind =
      let removed := remove (done ++ entry :: rest) done.length behind
      let turns := takeTurns visit remove left done.length removed.1 removed.2
      (turns.1, (visit entry).removed + 1 + turns.2) := by
  simp [takeTurns, hnode]

end

@[simp] theorem Outcome.removed_map {α β : Type} (f : α → β) (x : Outcome α) :
    (f <$> x).removed = x.removed := by
  obtain ⟨node, removed⟩ := x
  cases node <;> rfl

/-- The count of a list is that of its entries, and one for each that goes. -/
theorem Outcome.total_cons {α : Type} (outcome : Outcome α) (outcomes : List (Outcome α)) :
    total (outcome :: outcomes) =
      outcome.removed + (if outcome.node.isNone then 1 else 0) + total outcomes := by
  simp only [total, List.foldr_cons, List.countP_cons]
  omega

/-- To remove a statement behind those that are done leaves these as they are: it hands its trivia
on. -/
theorem Statement.remove_append (done : List Statement) (s : Statement) (rest : List Statement)
    (trailer : String) :
    Statement.remove (done ++ s :: rest) done.length trailer =
      (done ++ (Statement.handOn (done.length == 0) s rest trailer).1,
        (Statement.handOn (done.length == 0) s rest trailer).2) := by
  simp [Statement.remove]

/-- The same for items, where the comma of the last one is handed back to those that are done. -/
theorem Item.remove_append (done : List Item) (item : Item) (rest : List Item) :
    Item.remove (done ++ item :: rest) done.length =
      (Item.handOn done item rest).1 ++ (Item.handOn done item rest).2 := by
  simp [Item.remove]

namespace Pruner

variable (p : Pruner) (ctx : Context)

/-- Visits the statements of a list one after another, each with the trivia that the removals before
it have left in front of it. -/
def visitInPlace (statements : List Statement) (trailer : String) :
    (List Statement × String) × Nat :=
  takeTurns (p.visitStatement ctx) Statement.remove statements.length 0 statements trailer

/-- Visits the expression of an item. -/
def visitItem (item : Item) : Outcome Item :=
  (fun expr => { item with expr }) <$> p.visitExpr ctx item.expr

/-- Visits the items of a list one after another, each with the trivia that the removals before it
have left in front of it. -/
def visitItemsInPlace (items : List Item) : List Item × Nat :=
  let turns := takeTurns (p.visitItem ctx)
    (fun items index behind => (Item.remove items index, behind)) items.length 0 items ()
  (turns.1.1, turns.2)

/-! ### Statements -/

/-- The statement that comes next is handed trivia, and no other is touched. So all of them are
still the statements they were, behind other trivia. -/
theorem placed_handOn (isFirst : Bool) (removed : Statement) {statements rest : List Statement}
    (h : List.Forall₂ Statement.Placed statements rest) (trailer : String) :
    List.Forall₂ Statement.Placed statements
      (Statement.handOn isFirst removed rest trailer).1 := by
  refine List.Forall₂.flip (Statement.forall₂_handOn ?_ isFirst removed trailer h.flip)
  rintro s leading' decided ⟨leading, rfl⟩
  exact ⟨_, Statement.withLeading_withLeading _ _ _⟩

/-- The turns of statements that have other trivia in front of them come to a sweep that goes by
visits of the statements as they were.

The induction is on the statements that are left. It needs this generality: once an entry went, the
next has trivia that it did not have in the list. -/
theorem takeTurns_statements : ∀ {statements rest : List Statement},
    List.Forall₂ Statement.Placed statements rest → ∀ (done : List Statement) (trailer : String),
      takeTurns (p.visitStatement ctx) Statement.remove rest.length done.length (done ++ rest)
          trailer =
        let swept := Statement.sweep (done.length == 0)
          ((p.visitStatements ctx statements).map Outcome.node) rest trailer
        ((done ++ swept.1, swept.2), Outcome.total (p.visitStatements ctx statements))
  | [], [], .nil, done, trailer => by
      simp [takeTurns, visitStatements, Statement.sweep_nil, Outcome.total]
  -- `statements` are as they were written, `rest` is what the removals so far have made of them.
  | s :: statements, _ :: rest, .cons ⟨leading, rfl⟩ hrest, done, trailer => by
      have hvisit := visitStatement_withLeading p leading ctx s
      rw [List.length_cons, visitStatements, List.map_cons, Outcome.total_cons]
      cases hnode : (p.visitStatement ctx s).node with
      | none =>
          have hgone : (p.visitStatement ctx (s.withLeading leading)).node = none := by
            rw [hvisit, Outcome.node_map, hnode, Option.map_none]
          have hplaced := placed_handOn (done.length == 0) (s.withLeading leading) hrest trailer
          rw [takeTurns_goes hgone, Statement.remove_append, Statement.sweep_none]
          simp only
          rw [← Statement.length_handOn (done.length == 0) (s.withLeading leading) rest trailer,
            takeTurns_statements hplaced, hvisit, Outcome.removed_map]
          rfl
      | some node =>
          have hstays : (p.visitStatement ctx (s.withLeading leading)).node =
              some (node.withLeading leading) := by
            rw [hvisit, Outcome.node_map, hnode, Option.map_some]
          rw [takeTurns_stays hstays, Statement.sweep_some, takeTurns_statements hrest, hvisit,
            Outcome.removed_map]
          simp [Statement.leading_withLeading]

/-! ### Items -/

/-- The item that comes next takes trivia over, and keeps its expression. -/
theorem placed_takeOver (removed : Item) {item next : Item}
    (h : Expr.Placed item.expr next.expr) :
    Expr.Placed item.expr (Item.takeOver removed next).expr := by
  obtain ⟨leading, hnext⟩ := h
  unfold Item.takeOver
  split
  · exact ⟨leading, hnext⟩
  · exact ⟨_, (congrArg (Expr.withLeading _) hnext).trans (Expr.withLeading_withLeading _ _ _)⟩

/-- The turns of items that have other trivia in front of them come to a sweep that goes by visits
of the items as they were, by the same induction. -/
theorem takeTurns_items : ∀ {items rest : List Item},
    List.Forall₂ (fun item next => Expr.Placed item.expr next.expr) items rest →
      ∀ done : List Item,
        takeTurns (p.visitItem ctx) (fun items index behind => (Item.remove items index, behind))
            rest.length done.length (done ++ rest) () =
          ((Item.sweep done ((p.visitItems ctx items).map Outcome.node) rest, ()),
            Outcome.total (p.visitItems ctx items))
  | [], [], .nil, done => by
      simp [takeTurns, visitItems, Item.sweep_nil, Outcome.total]
  | ⟨expr, comma⟩ :: items, ⟨placed, comma'⟩ :: rest, .cons ⟨leading, hexpr⟩ hrest, done => by
      obtain rfl : placed = expr.withLeading leading := hexpr
      have hvisit := visitExpr_withLeading p leading ctx expr
      have hremoved : (p.visitItem ctx ⟨expr.withLeading leading, comma'⟩).removed =
          (p.visitExpr ctx expr).removed := by
        rw [visitItem, Outcome.removed_map, hvisit, Outcome.removed_map]
      rw [List.length_cons, visitItems, List.map_cons, Outcome.total_cons]
      cases hnode : (p.visitExpr ctx expr).node with
      | none =>
          have hgone : (p.visitItem ctx ⟨expr.withLeading leading, comma'⟩).node = none := by
            rw [visitItem, Outcome.node_map, hvisit, Outcome.node_map, hnode]
            rfl
          rw [takeTurns_goes hgone, Item.remove_append, hremoved]
          cases hrest with
          | nil =>
              simp [takeTurns, visitItems, Item.handOn, Item.sweep_last, Outcome.total]
          | @cons item next items rest hplaced hmore =>
              have hturns := takeTurns_items
                (.cons (placed_takeOver ⟨expr.withLeading leading, comma'⟩ hplaced) hmore) done
              rw [List.length_cons] at hturns
              simp only [Item.handOn, List.length_cons]
              rw [hturns, Item.sweep_next]
              rfl
      | some node =>
          have hstays : (p.visitItem ctx ⟨expr.withLeading leading, comma'⟩).node =
              some ⟨node.withLeading leading, comma'⟩ := by
            rw [visitItem, Outcome.node_map, hvisit, Outcome.node_map, hnode]
            rfl
          rw [takeTurns_stays hstays, Item.sweep_some, takeTurns_items hrest, hremoved]
          simp [Expr.leading_withLeading]

/-! ### Lists are visited in place

The visit of a list decides for all entries first and removes some of them afterwards. Both ways
leave the same list, and count the same. -/

theorem visitStatements_eq_map (statements : List Statement) :
    p.visitStatements ctx statements = statements.map (p.visitStatement ctx) := by
  induction statements with
  | nil => rw [visitStatements, List.map_nil]
  | cons s rest ih => rw [visitStatements, ih, List.map_cons]

theorem visitItems_eq_map (items : List Item) :
    p.visitItems ctx items = items.map fun item => p.visitExpr ctx item.expr := by
  induction items with
  | nil => rw [visitItems, List.map_nil]
  | cons item rest ih =>
      obtain ⟨expr, comma⟩ := item
      rw [visitItems, ih, List.map_cons]

/-- So a list that is visited in place is swept by the visits of its statements on their own, and
the counts are the same. -/
theorem visitInPlace_eq_sweep {statements placed : List Statement}
    (h : List.Forall₂ Statement.Placed statements placed) (trailer : String) :
    p.visitInPlace ctx placed trailer =
      (Statement.sweep true ((p.visitStatements ctx statements).map Outcome.node) placed trailer,
        Outcome.total (p.visitStatements ctx statements)) :=
  takeTurns_statements p ctx h [] trailer

/-- The same for items. -/
theorem visitItemsInPlace_eq_sweep (items : List Item) :
    p.visitItemsInPlace ctx items =
      (Item.sweep [] ((p.visitItems ctx items).map Outcome.node) items,
        Outcome.total (p.visitItems ctx items)) := by
  have hself : List.Forall₂ (fun item next : Item => Expr.Placed item.expr next.expr) items items :=
    List.forall₂_same.2 fun item _ => ⟨item.expr.leading, item.expr.withLeading_leading.symm⟩
  have hturns := takeTurns_items p ctx hself []
  rw [List.nil_append, List.length_nil] at hturns
  rw [visitItemsInPlace, hturns]

/-- Statements behind other trivia are still those that were sifted along with them. -/
theorem placed_sift (keep : Statement → Bool) : ∀ {statements placed : List Statement},
    List.Forall₂ Statement.Placed statements placed → ∀ (isFirst : Bool) (trailer : String),
      List.Forall₂ Statement.Placed (Statement.sift keep isFirst statements placed trailer).1
        (Statement.sift keep isFirst statements placed trailer).2.1
  | [], [], .nil, isFirst, trailer => .nil
  | s :: statements, s' :: placed, .cons hplaced hrest, isFirst, trailer => by
      by_cases hkeep : keep s' = true
      · rw [Statement.sift_keep hkeep]
        exact .cons hplaced (placed_sift keep hrest false trailer)
      · rw [Statement.sift_drop hkeep]
        exact placed_sift keep (placed_handOn isFirst s' hrest trailer) isFirst _

theorem placed_self (statements : List Statement) :
    List.Forall₂ Statement.Placed statements statements :=
  List.forall₂_same.2 fun s _ => ⟨s.leading, s.withLeading_leading.symm⟩

/-- A script is visited in place. -/
theorem visitScript_eq_inPlace (script : Script) :
    p.visitScript script =
      let visited := p.visitInPlace {} script.statements script.eof
      (⟨script.dialect, visited.1.1, visited.1.2⟩, visited.2) := by
  rw [visitInPlace_eq_sweep p {} (placed_self script.statements)]
  rfl

/-- A lambda is sifted and then visited in place. The statements that the filter of a `plugins`
block takes out are counted as removed. -/
theorem visitLambda_eq_inPlace (opening closing : Token) (params : Option LambdaParams)
    (body : List Statement) :
    p.visitLambda ctx ⟨opening, params, body, closing⟩ =
      let sifted := Statement.sift (p.admits ctx) true body body closing.leading
      let visited := p.visitInPlace ctx sifted.2.1 sifted.2.2
      ⟨some ⟨opening, params, visited.1.1, closing.withLeading visited.1.2⟩,
        body.length - sifted.2.1.length + visited.2⟩ := by
  have hplaced := placed_sift (p.admits ctx) (placed_self body) true closing.leading
  have hlength := hplaced.length_eq
  have hvisit : p.visitLambda ctx ⟨opening, params, body, closing⟩ =
      let outcomes := p.visitStatements ctx body
      let sifted := Statement.sift (p.admits ctx) true outcomes body closing.leading
      let swept := Statement.sweep true (sifted.1.map Outcome.node) sifted.2.1 sifted.2.2
      ⟨some ⟨opening, params, swept.1, closing.withLeading swept.2⟩,
        outcomes.length - sifted.1.length + Outcome.total sifted.1⟩ := rfl
  rw [hvisit]
  -- The outcomes are sifted like the statements they are of.
  simp only [visitInPlace_eq_sweep p ctx hplaced, visitStatements_eq_map, Statement.sift_map,
    List.length_map, hlength]

theorem visitArguments_eq_inPlace (opening closing : Option Token) (items : List Item) :
    p.visitArguments ctx ⟨opening, items, closing⟩ =
      let visited := p.visitItemsInPlace ctx items
      ⟨some ⟨opening, visited.1, closing⟩, visited.2⟩ := by
  rw [visitItemsInPlace_eq_sweep]
  rfl

theorem visitBrackets_eq_inPlace (opening closing : Token) (items : List Item) :
    p.visitBrackets ctx ⟨opening, items, closing⟩ =
      let visited := p.visitItemsInPlace ctx items
      ⟨some ⟨opening, visited.1, closing⟩, visited.2⟩ := by
  rw [visitItemsInPlace_eq_sweep]
  rfl

/-! ### Each entry on its own -/

/-- The count of a list of visits is the sum of their counts and the number of entries that go. -/
theorem total_map {α β : Type} (visit : α → Outcome β) (entries : List α) :
    Outcome.total (entries.map visit) =
      (entries.map fun entry => (visit entry).removed).sum +
        entries.countP fun entry => (visit entry).node.isNone := by
  induction entries with
  | nil => rfl
  | cons entry rest ih =>
      rw [List.map_cons, Outcome.total_cons, ih, List.map_cons, List.sum_cons, List.countP_cons]
      omega

/-- What does not change with the trivia in front is the same for the decisions and for what is
left. -/
theorem map_of_placed {α β : Type} {placed : α → α → Prop} {printed : α → β}
    (hprinted : ∀ a b, placed a b → printed b = printed a) {decided kept : List α}
    (h : List.Forall₂ placed decided kept) : kept.map printed = decided.map printed := by
  induction h with
  | nil => rfl
  | cons hplaced _ ih => rw [List.map_cons, List.map_cons, hprinted _ _ hplaced, ih]

/-- The statements that stay in place are those that stay on their own, with their printed forms. -/
theorem printed_visitInPlace (statements : List Statement) (trailer : String) :
    (p.visitInPlace ctx statements trailer).1.1.map Statement.printed =
      (statements.filterMap fun s => (p.visitStatement ctx s).node).map Statement.printed := by
  have hplaced := Statement.placed_sweep ((p.visitStatements ctx statements).map Outcome.node)
    true statements trailer (by rw [visitStatements_eq_map, List.length_map, List.length_map])
  rw [visitInPlace_eq_sweep p ctx (placed_self statements)]
  rw [visitStatements_eq_map, List.map_map, List.filterMap_map] at hplaced
  rw [visitStatements_eq_map, List.map_map]
  refine map_of_placed ?_ hplaced
  intro decided s h
  obtain ⟨leading, rfl⟩ := h
  exact decided.printed_withLeading leading

/-- The items that stay in place are those that stay on their own, with their printed forms. -/
theorem printed_visitItemsInPlace (items : List Item) :
    ((p.visitItemsInPlace ctx items).1.map Item.expr).map Expr.printed =
      (items.filterMap fun item => (p.visitExpr ctx item.expr).node).map Expr.printed := by
  obtain ⟨exprs, hexprs, hplaced⟩ := Item.placed_sweep
    ((p.visitItems ctx items).map Outcome.node) [] items
    (by rw [visitItems_eq_map, List.length_map, List.length_map])
  rw [List.map_nil, List.nil_append] at hexprs
  rw [visitItems_eq_map, List.map_map, List.filterMap_map] at hplaced
  rw [visitItemsInPlace_eq_sweep, hexprs]
  refine map_of_placed ?_ hplaced
  intro decided e h
  obtain ⟨leading, rfl⟩ := h
  exact decided.printed_withLeading leading

/-- Whether an entry of a list stays, and what is left of it, does not depend on its siblings. The
statements that a visit in place keeps are those of which a visit on their own leaves something, in
their order and with the printed form of that; the number of removals is the sum of those on their
own and of the statements that went. The same holds of items. Scripts, the bodies of lambdas,
arguments and bracketed lists are visited in place. -/
theorem siblings_apart (p : Pruner) (ctx : Context) :
    (∀ (statements : List Statement) (trailer : String),
      (p.visitInPlace ctx statements trailer).1.1.map Statement.printed =
        (statements.filterMap fun s => (p.visitStatement ctx s).node).map Statement.printed ∧
      (p.visitInPlace ctx statements trailer).2 =
        (statements.map fun s => (p.visitStatement ctx s).removed).sum +
          statements.countP fun s => (p.visitStatement ctx s).node.isNone) ∧
    (∀ items : List Item,
      ((p.visitItemsInPlace ctx items).1.map Item.expr).map Expr.printed =
        (items.filterMap fun item => (p.visitExpr ctx item.expr).node).map Expr.printed ∧
      (p.visitItemsInPlace ctx items).2 =
        (items.map fun item => (p.visitExpr ctx item.expr).removed).sum +
          items.countP fun item => (p.visitExpr ctx item.expr).node.isNone) ∧
    (∀ script : Script, p.visitScript script =
      let visited := p.visitInPlace {} script.statements script.eof
      (⟨script.dialect, visited.1.1, visited.1.2⟩, visited.2)) ∧
    (∀ (opening closing : Token) (params : Option LambdaParams) (body : List Statement),
      p.visitLambda ctx ⟨opening, params, body, closing⟩ =
        let sifted := Statement.sift (p.admits ctx) true body body closing.leading
        let visited := p.visitInPlace ctx sifted.2.1 sifted.2.2
        ⟨some ⟨opening, params, visited.1.1, closing.withLeading visited.1.2⟩,
          body.length - sifted.2.1.length + visited.2⟩) ∧
    (∀ (opening closing : Option Token) (items : List Item),
      p.visitArguments ctx ⟨opening, items, closing⟩ =
        let visited := p.visitItemsInPlace ctx items
        ⟨some ⟨opening, visited.1, closing⟩, visited.2⟩) ∧
    (∀ (opening closing : Token) (items : List Item),
      p.visitBrackets ctx ⟨opening, items, closing⟩ =
        let visited := p.visitItemsInPlace ctx items
        ⟨some ⟨opening, visited.1, closing⟩, visited.2⟩) := by
  refine ⟨fun statements trailer => ⟨printed_visitInPlace p ctx statements trailer, ?_⟩,
    fun items => ⟨printed_visitItemsInPlace p ctx items, ?_⟩, visitScript_eq_inPlace p,
    visitLambda_eq_inPlace p ctx, visitArguments_eq_inPlace p ctx, visitBrackets_eq_inPlace p ctx⟩
  · rw [visitInPlace_eq_sweep p ctx (placed_self statements), visitStatements_eq_map]
    exact total_map _ statements
  · rw [visitItemsInPlace_eq_sweep, visitItems_eq_map]
    exact total_map _ items

end Pruner

end BuildPrune
