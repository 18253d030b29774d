import BuildPrune.Proofs.Siblings
import BuildPrune.Proofs.VisitRules

/-!
# BuildPrune.Proofs.RemovalCounts

**The number of removals tells whether a visit has changed anything**
(`Pruner.removed_eq_zero_iff_unchanged`). A visit counts in three places, and what it removes
elsewhere goes up to the next of them: to an entry of a list, to a body that becomes `{}`, or to an
`else` that is cut off. Each of these leaves a list that is shorter or a node of another kind, so
that no later edit brings back what was there.

* `Outcome.TellsChange`: the count of an outcome is zero exactly if what is left is the node itself.
  Outcomes that tell so of the parts of a node tell so of the node (`TellsChange.map`,
  `TellsChange.andThen`), and `total_eq_zero_iff` goes from the entries of a list to the list.
* `Statement.sweep_eq_self`, `Item.sweep_eq_self`: a list that comes out of a sweep as it was has
  been decided for throughout, entry by entry.
-/

namespace BuildPrune

/-! ### Counts that tell -/

namespace Outcome

variable {α β γ : Type}

/-- If anything is left of `a`, then `a` itself is, exactly if nothing was removed in it. -/
def TellsChange (a : α) (x : Outcome α) : Prop :=
  ∀ left ∈ x.node, x.removed = 0 ↔ left = a

theorem tellsChange_pure (a : α) : TellsChange a (pure a) := by
  intro left hleft
  obtain rfl := Option.some.inj hleft
  simp

theorem tellsChange_gone (a : α) : TellsChange a gone := nofun

/-- What is left of `a` goes on. If it is `a`, the rest tells; if it is not, the rest does not make
up for that. -/
theorem TellsChange.andThen {a : α} {b : β} {x : Outcome α} {f : α → Outcome β}
    (hx : x.TellsChange a) (hsame : x.node = some a → (f a).TellsChange b)
    (hother : ∀ left ∈ x.node, left ≠ a → ∀ more ∈ (f left).node, more ≠ b) :
    (x >>= f).TellsChange b := by
  intro more hmore
  obtain ⟨left, hleft, hmore⟩ := Option.bind_eq_some_iff.1 ((node_bind x f).symm.trans hmore)
  rw [removed_bind, hleft, Option.elim_some, Nat.add_eq_zero_iff, hx left hleft]
  by_cases heq : left = a
  · subst heq
    rw [eq_self, true_and]
    exact hsame hleft more hmore
  · exact iff_of_false (fun h => heq h.1) (hother left hleft heq more hmore)

/-- A node with one part. The constructor of the node is injective, so another part makes another
node. -/
theorem TellsChange.map {a : α} {x : Outcome α} (hx : x.TellsChange a) {f : α → β}
    (hf : Function.Injective f) : (f <$> x).TellsChange (f a) := by
  rw [← bind_pure_comp]
  refine hx.andThen (fun _ => tellsChange_pure (f a)) ?_
  intro left _ hne more hmore
  obtain rfl := Option.some.inj hmore
  exact hf.ne hne

/-- A node with two parts, told apart in the same way. -/
theorem TellsChange.map₂ {a : α} {b : β} {x : Outcome α} {y : Outcome β} (hx : x.TellsChange a)
    (hy : y.TellsChange b) {f : α → β → γ} (hf : Function.Injective2 f) :
    (x >>= fun a => f a <$> y).TellsChange (f a b) := by
  refine hx.andThen (fun _ => hy.map (hf.right a)) ?_
  intro left _ hne more hmore heq
  rw [node_map] at hmore
  obtain ⟨_, -, rfl⟩ := Option.map_eq_some_iff.1 hmore
  exact hne (hf heq).1

/-- Nothing was removed from a list exactly if each of its entries is left as it was. An entry that
goes counts by itself. -/
theorem total_eq_zero_iff {entries : List α} {outcomes : List (Outcome α)}
    (h : List.Forall₂ TellsChange entries outcomes) :
    total outcomes = 0 ↔ outcomes.map node = entries.map some := by
  induction h with
  | nil => exact iff_of_true rfl rfl
  | @cons entry outcome entries outcomes houtcome _ ih =>
      rw [total_cons, Nat.add_eq_zero_iff, Nat.add_eq_zero_iff, ih, List.map_cons, List.map_cons,
        List.cons.injEq]
      refine and_congr_left fun _ => ?_
      cases hnode : outcome.node with
      | none => simp
      | some left => simp [houtcome left hnode]

end Outcome

/-! ### Lists that come out as they were

A sweep hands trivia on, so an entry could come to look like the one that went. But the list would
be shorter, and no list comes out of a sweep unchanged unless each entry was decided for as it is.
-/

/-- What was decided for stands where the entry stood, behind the same trivia. -/
def Statement.StaysPut (s : Statement) (decision : Option Statement) : Prop :=
  ∀ decided ∈ decision, decided.leading = s.leading

/-- What was decided for stands where the item stood, behind the same trivia. -/
def Item.StaysPut (item : Item) (decision : Option Expr) : Prop :=
  ∀ decided ∈ decision, decided.leading = item.expr.leading

namespace Statement

/-- A list that has kept its length has lost none of its statements, and each is the decided one
with the trivia that it had before. -/
theorem sweep_eq_self : ∀ {statements : List Statement} {decisions : List (Option Statement)},
    List.Forall₂ StaysPut statements decisions → ∀ {isFirst : Bool} {trailer : String},
      (sweep isFirst decisions statements trailer).1 = statements →
        decisions = statements.map some
  | [], [], .nil, _, _, _ => rfl
  | s :: statements, some decided :: decisions, .cons hdecided hrest, isFirst, trailer, heq => by
      rw [sweep_some] at heq
      obtain ⟨hhead, htail⟩ := List.cons.inj heq
      rw [← hdecided decided rfl, withLeading_leading] at hhead
      rw [List.map_cons, hhead, sweep_eq_self hrest htail]
  | s :: statements, none :: decisions, .cons _ hrest, isFirst, trailer, heq => by
      have hlength := (placed_sweep (none :: decisions) isFirst (s :: statements) trailer
        (congrArg Nat.succ hrest.length_eq.symm)).length_eq
      have hkept := List.length_filterMap_le id decisions
      rw [heq, List.filterMap_cons_none rfl, List.length_cons] at hlength
      have := hrest.length_eq
      omega

/-- Sifting that leaves all companions leaves all statements. -/
theorem sift_eq_self {α : Type} {keep : Statement → Bool} : ∀ {companions : List α}
    {isFirst : Bool} {statements : List Statement} {trailer : String},
      companions.length = statements.length →
      (sift keep isFirst companions statements trailer).1.length = companions.length →
        sift keep isFirst companions statements trailer = (companions, statements, trailer)
  | [], _, [], _, _, _ => rfl
  | companion :: companions, isFirst, statement :: rest, trailer, hlength, hkept => by
      have hrest : companions.length = rest.length := Nat.succ.inj hlength
      by_cases hkeep : keep statement = true
      · rw [sift_keep hkeep] at hkept ⊢
        rw [sift_eq_self hrest (Nat.succ.inj hkept)]
      · have hsublist := (sift_sublist keep companions isFirst
          (handOn isFirst statement rest trailer).1 (handOn isFirst statement rest trailer).2
          (by rw [length_handOn, hrest])).length_le
        rw [sift_drop hkeep, List.length_cons] at hkept
        omega

end Statement

namespace Item

theorem sweep_eq_self : ∀ {items : List Item} {decisions : List (Option Expr)},
    List.Forall₂ StaysPut items decisions → ∀ {before : List Item},
      sweep before decisions items = before ++ items →
        decisions = (items.map Item.expr).map some
  | [], [], .nil, _, _ => rfl
  | ⟨expr, comma⟩ :: items, some decided :: decisions, .cons hdecided hrest, before, heq => by
      have hleading : decided.leading = expr.leading := hdecided decided rfl
      rw [sweep_some] at heq
      simp only [← hleading, Expr.withLeading_leading] at heq
      obtain ⟨exprs, hexprs, hplaced⟩ :=
        placed_sweep decisions (before ++ [⟨decided, comma⟩]) items hrest.length_eq.symm
      have hexpr : expr = decided := by
        rw [heq] at hexprs
        simp only [List.map_append, List.map_cons, List.map_nil, List.append_assoc,
          List.append_cancel_left_eq, List.singleton_append] at hexprs
        exact (List.cons.inj hexprs).1
      subst hexpr
      have hrest' := sweep_eq_self hrest (heq.trans (List.append_cons before _ items))
      rw [List.map_cons, List.map_cons, hrest']
  | item :: items, none :: decisions, .cons _ hrest, before, heq => by
      obtain ⟨exprs, hexprs, hplaced⟩ := placed_sweep (none :: decisions) before (item :: items)
        (congrArg Nat.succ hrest.length_eq.symm)
      have hlength := hplaced.length_eq
      have hkept := List.length_filterMap_le id decisions
      have hsame := congrArg List.length hexprs
      rw [heq, List.map_append, List.length_append, List.length_append, List.length_map,
        List.length_map, List.length_cons] at hsame
      rw [List.filterMap_cons_none rfl] at hlength
      have := hrest.length_eq
      omega

end Item

namespace Pruner

open Outcome

variable {p : Pruner} {ctx : Context}

/-! ### Places of nodes -/

/-- A visit leaves the trivia in front of an expression as it is. -/
theorem leading_of_visitExpr {e e' : Expr} (h : (p.visitExpr ctx e).node = some e') :
    e'.leading = e.leading := by
  have hfirst := (keeps_expr p ctx e h).firstToken?_eq
  exact congrArg Token.leading (Option.some.inj hfirst)

theorem leading_of_visitStatement {s s' : Statement}
    (h : (p.visitStatement ctx s).node = some s') : s'.leading = s.leading := by
  have hfirst := (keeps_statement p ctx s h).firstToken?_eq
  exact congrArg Token.leading (Option.some.inj hfirst)

/-- So what was decided for an item would stand where the item stood, if no other went. -/
theorem staysPut_items (items : List Item) :
    List.Forall₂ Item.StaysPut items ((p.visitItems ctx items).map Outcome.node) := by
  rw [visitItems_eq_map, List.map_map, List.forall₂_map_right_iff]
  exact List.forall₂_same.2 fun item _ decided h => leading_of_visitExpr h

/-- The same for statements. -/
theorem staysPut_statements (statements : List Statement) :
    List.Forall₂ Statement.StaysPut statements
      ((p.visitStatements ctx statements).map Outcome.node) := by
  rw [visitStatements_eq_map, List.map_map, List.forall₂_map_right_iff]
  exact List.forall₂_same.2 fun s _ decided h => leading_of_visitStatement h

/-! ### Parts of nodes

Some parts have counts of their own: bodies that become `{}`, an `else` that is cut off,
statements that a filter takes. Each is compared with what it was by its size or by its kind. -/

theorem tellsChange_spare (c : Call) : (p.spare c).TellsChange c := by
  rw [spare]
  split
  · exact tellsChange_gone c
  · exact tellsChange_pure c

/-- What has been visited of a sequence stays where it is, unless the sequence gets shorter. -/
theorem prefix_of_keeps_tail {head : Expr} : ∀ {tail before visited left : List Expr},
    p.Keeps ctx (.tail head before visited tail) (.exprs left) →
      visited <+: left ∨ left.length < visited.length + tail.length
  | [], _, _, _, .tailEnd => .inl List.prefix_rfl
  | e :: rest, _, visited, left, h => by
      have hlater : ∀ e', visited ++ [e'] <+: left ∨
          left.length < (visited ++ [e']).length + rest.length →
          visited <+: left ∨ left.length < visited.length + (e :: rest).length := by
        intro e' hleft
        refine hleft.imp (List.prefix_append visited [e']).trans ?_
        simp only [List.length_append, List.length_cons, List.length_nil]
        omega
      cases h with
      | tailNext _ hrest => exact hlater _ (prefix_of_keeps_tail hrest)
      | tailHollow _ _ _ hrest => exact hlater _ (prefix_of_keeps_tail hrest)
      | tailCut =>
          refine .inr ?_
          simp only [List.length_take, List.length_cons, List.length_nil]
          omega

/-- Another element in the place of one is there to stay. So a change in front cannot be undone by
what happens behind it. -/
theorem ne_of_keeps_tail {head e e' : Expr} {before visited rest left : List Expr} (hne : e' ≠ e)
    (h : p.Keeps ctx (.tail head before (visited ++ [e']) rest) (.exprs left)) :
    left ≠ visited ++ e :: rest := by
  rintro rfl
  rcases prefix_of_keeps_tail h with ⟨more, hmore⟩ | hshorter
  · rw [List.append_assoc, List.append_cancel_left_eq, List.singleton_append] at hmore
    exact hne (List.cons.inj hmore).1
  · simp only [List.length_append, List.length_cons, List.length_nil] at hshorter
    omega

/-- A lambda is never removed, so `{}` is never what was there. -/
theorem hollow_ne_of_gone {e : Expr} (hgone : (p.visitExpr ctx e).node = none)
    (leading : String) : Expr.lambda (Lambda.hollow leading) ≠ e := by
  rintro rfl
  simp [visitExpr, visitLambda, Lambda.hollow] at hgone

/-- A list of items from which `build` makes a node: the count tells of the items, and the sweep
leaves them as they were exactly if all were decided for as they are. -/
theorem tellsChange_swept {α : Type} {items : List Item} {outcomes : List (Outcome Expr)}
    (houtcomes : List.Forall₂ TellsChange (items.map Item.expr) outcomes)
    (hput : List.Forall₂ Item.StaysPut items (outcomes.map Outcome.node)) {build : List Item → α}
    (hbuild : Function.Injective build) :
    (do
      Outcome.count (total outcomes)
      return build (Item.sweep [] (outcomes.map Outcome.node) items)).TellsChange
      (build items) := by
  intro left hleft
  obtain rfl := Option.some.inj hleft
  have hremoved : (do
      Outcome.count (total outcomes)
      return build (Item.sweep [] (outcomes.map Outcome.node) items)).removed =
        total outcomes := rfl
  rw [hremoved, total_eq_zero_iff houtcomes, hbuild.eq_iff]
  constructor
  · intro hall
    rw [hall, Item.sweep_self, List.nil_append]
  · intro hsame
    exact Item.sweep_eq_self hput hsame

/-- What is left of a list of statements that was sifted and then swept is the list itself exactly
if none of them was sifted out and none was removed. -/
theorem sifted_swept_eq_iff (keep : Statement → Bool) {body : List Statement} (trailer : String)
    {outcomes : List (Outcome Statement)} (houtcomes : List.Forall₂ TellsChange body outcomes)
    (hput : List.Forall₂ Statement.StaysPut body (outcomes.map Outcome.node)) :
    let sifted := Statement.sift keep true outcomes body trailer
    let swept := Statement.sweep true (sifted.1.map Outcome.node) sifted.2.1 sifted.2.2
    (outcomes.length - sifted.1.length + total sifted.1 = 0 ↔ swept = (body, trailer)) ∧
      (swept.1 = body → swept = (body, trailer)) := by
  intro sifted swept
  have hlength : outcomes.length = body.length := houtcomes.length_eq.symm
  have hkept : sifted.1.length ≤ outcomes.length :=
    (Statement.sift_sublist keep outcomes true body trailer hlength).length_le
  -- Both ways of saying that nothing has changed tell that nothing was sifted out.
  have hall : sifted.1.length = outcomes.length →
      sifted = (outcomes, body, trailer) := Statement.sift_eq_self hlength
  have hsame : swept.1 = body → sifted.1.length = outcomes.length := by
    intro hbody
    have hplaced := (Statement.placed_sweep (sifted.1.map Outcome.node) true sifted.2.1 sifted.2.2
      (by rw [List.length_map, Statement.length_sift keep outcomes true body trailer hlength])
      ).length_eq
    have hchosen := List.length_filterMap_le id (sifted.1.map Outcome.node)
    rw [List.length_map] at hchosen
    rw [show (Statement.sweep _ _ _ _).1 = body from hbody] at hplaced
    omega
  have hdecided : sifted = (outcomes, body, trailer) →
      swept = Statement.sweep true (outcomes.map Outcome.node) body trailer := by
    intro h
    simp only [swept, h]
  have hback : swept.1 = body → outcomes.map Outcome.node = body.map some := by
    intro hbody
    rw [hdecided (hall (hsame hbody))] at hbody
    exact Statement.sweep_eq_self hput hbody
  have hforth : sifted = (outcomes, body, trailer) → outcomes.map Outcome.node = body.map some →
      swept = (body, trailer) := by
    intro hsifted hnodes
    rw [hdecided hsifted, hnodes, Statement.sweep_self]
  refine ⟨⟨?_, ?_⟩, fun hbody => hforth (hall (hsame hbody)) (hback hbody)⟩
  · intro hzero
    have hsifted := hall (by omega)
    simp only [hsifted, Nat.sub_self, Nat.zero_add] at hzero
    exact hforth hsifted ((total_eq_zero_iff houtcomes).1 hzero)
  · intro hswept
    have hbody : swept.1 = body := congrArg Prod.fst hswept
    rw [hall (hsame hbody), Nat.sub_self, Nat.zero_add, total_eq_zero_iff houtcomes]
    exact hback hbody

theorem exists_of_visitParts {style : CallStyle} {args : Option Arguments}
    {lambda : Option Lambda} {build : Option Arguments → Option Lambda → Call} {c : Call}
    (h : (p.visitParts ctx style args lambda build).node = some c) :
    ∃ args' lambda', c = build args' lambda' := by
  rw [visitParts, node_bind] at h
  obtain ⟨args', -, h⟩ := Option.bind_eq_some_iff.1 h
  split at h
  · cases h
  · rw [node_bind] at h
    obtain ⟨lambda', -, h⟩ := Option.bind_eq_some_iff.1 h
    exact ⟨args', lambda', (spare_node h).1⟩

/-- The arguments and the lambda of a call, from which `build` makes the call. -/
theorem tellsChange_visitParts {style : CallStyle} {args : Option Arguments}
    {lambda : Option Lambda} {build : Option Arguments → Option Lambda → Call}
    (hbuild : Function.Injective2 build)
    (hargs : (visitPart (p.visitArguments ctx) args).TellsChange args)
    (hlambda : (visitPart (p.visitLambda ctx) lambda).TellsChange lambda) :
    (p.visitParts ctx style args lambda build).TellsChange (build args lambda) := by
  refine hargs.andThen (fun _ => ?_) ?_
  · split
    · exact tellsChange_gone _
    · refine hlambda.andThen (fun _ => tellsChange_spare _) ?_
      intro left _ hne more hmore
      rw [(spare_node hmore).1]
      exact (hbuild.right args).ne hne
  · intro left _ hne more hmore
    split at hmore
    · cases hmore
    · simp only [Option.mem_def, node_bind, Option.bind_eq_some_iff] at hmore
      obtain ⟨lambda', -, hmore⟩ := hmore
      rw [(spare_node hmore).1]
      exact fun heq => hne (hbuild heq).1

/-! ### Nodes

One lemma for each kind of node, by recursion on the tree. Where nothing is counted on the way,
the count of a node is that of its parts. -/

mutual

/-- The count of the visit of an expression tells whether it has changed. The induction takes all
kinds of nodes together, and for each of them puts the counts of its parts together. -/
theorem tellsChange_expr (p : Pruner) (ctx : Context) : ∀ e : Expr,
    (p.visitExpr ctx e).TellsChange e
  | .atom token => by
      rw [visitExpr]
      exact tellsChange_pure _
  | .call call => by
      rw [visitExpr, bind_pure_comp]
      exact (tellsChange_call p ctx call).map fun _ _ => Expr.call.inj
  | .lambda lambda => by
      rw [visitExpr, bind_pure_comp]
      exact (tellsChange_lambda p ctx lambda).map fun _ _ => Expr.lambda.inj
  | .annotated marker name args none => by
      rw [visitExpr]
      exact tellsChange_pure _
  | .annotated marker name args (some expr) => by
      rw [visitExpr, bind_pure_comp]
      exact (tellsChange_expr p ctx expr).map fun _ _ h => by simpa using h
  | .field target dot name => by
      rw [visitExpr, bind_pure_comp]
      exact (tellsChange_expr p ctx target).map fun _ _ h => by simpa using h
  | .paren opening inner closing => by
      rw [visitExpr, bind_pure_comp]
      exact (tellsChange_expr p ctx inner).map fun _ _ h => by simpa using h
  | .index target brackets => by
      simp only [visitExpr, bind_pure_comp]
      exact (tellsChange_expr p ctx target).map₂ (tellsChange_brackets p ctx brackets)
        fun _ _ _ _ h => by simpa using h
  | .binary left op right => by
      simp only [visitExpr, bind_pure_comp]
      exact (tellsChange_expr p ctx left).map₂ (f := fun left right => Expr.binary left op right)
        (tellsChange_expr p ctx right) fun _ _ _ _ h => by simpa using h
  | .prefixed op operand => by
      rw [visitExpr, bind_pure_comp]
      exact (tellsChange_expr p ctx operand).map fun _ _ h => by simpa using h
  | .postfixed operand op => by
      rw [visitExpr, bind_pure_comp]
      exact (tellsChange_expr p ctx operand).map fun _ _ h => by simpa using h
  | .list brackets => by
      rw [visitExpr, bind_pure_comp]
      exact (tellsChange_brackets p ctx brackets).map fun _ _ => Expr.list.inj
  | .sequence head tail => by
      simp only [visitExpr, bind_pure_comp]
      exact (tellsChange_expr p ctx head).map₂ (tellsChange_tail p ctx head [] [] tail)
        fun _ _ _ _ h => by simpa using h

/-- Of a sequence, a body that is emptied and an `else` that is cut off count by themselves. -/
theorem tellsChange_tail (p : Pruner) (ctx : Context) (head : Expr)
    (before visited : List Expr) : ∀ tail : List Expr,
      (p.visitTail ctx head before visited tail).TellsChange (visited ++ tail)
  | [] => by
      rw [visitTail, List.append_nil]
      exact tellsChange_pure visited
  | e :: rest => by
      have he := tellsChange_expr p ctx e
      have hrest := fun e' => tellsChange_tail p ctx head (before ++ [e]) (visited ++ [e']) rest
      intro left hleft
      cases keeps_tail p ctx head before visited (e :: rest) hleft with
      | @tailNext _ _ _ e' _ _ _ _ hexpr hnext =>
          have hnode : (p.visitExpr ctx e).node = some e' := hexpr.leaves
          rw [visitTail, hnode] at hleft ⊢
          simp only [removed_bind, removed_count, node_count, Option.elim_some, node_bind,
            Option.bind_some] at hleft ⊢
          rw [Nat.add_eq_zero_iff, he e' hnode, hrest e' left hleft, List.append_assoc]
          -- An element that has changed has been counted and is there to stay.
          by_cases heq : e' = e
          · rw [heq, eq_self, true_and, List.singleton_append]
          · exact iff_of_false (fun h => heq h.1) (ne_of_keeps_tail heq hnext)
      | tailHollow hgone hbody hmore hnext =>
          -- A body that goes is counted, and the block in its place is not what stood there.
          refine iff_of_false ?_ (ne_of_keeps_tail (hollow_ne_of_gone hgone _) hnext)
          simp [visitTail, hgone, hbody]
      | @tailCut _ _ _ _ _ branch hgone hbody helse =>
          refine iff_of_false ?_ ?_
          · simp [visitTail, hgone, hbody]
          · -- The branch is cut off, with at least the body that went.
            intro heq
            have hlength := congrArg List.length heq
            simp only [List.length_take, List.length_append, List.length_cons,
              List.length_nil] at hlength
            omega

/-- A call goes or tells by its parts; nothing in it is counted twice, as the second look at the
rules counts only a call that goes. -/
theorem tellsChange_call (p : Pruner) (ctx : Context) : ∀ c : Call,
    (p.visitCall ctx c).TellsChange c
  | ⟨receiver, name, types, args, lambda, style⟩ => by
      rw [visitCall_eq_visitParts]
      refine (tellsChange_spare _).andThen (fun _ => ?_) ?_
      · refine (tellsChange_receiver p _ receiver).andThen (fun _ => ?_) ?_
        · exact tellsChange_visitParts (fun _ _ _ _ h => by simpa using h)
            (tellsChange_arguments p _ args) (tellsChange_block p _ lambda)
        · intro left _ hne more hmore
          obtain ⟨args', lambda', rfl⟩ := exists_of_visitParts hmore
          exact fun heq => hne (congrArg Call.receiver heq)
      · intro left hleft hne
        exact absurd (spare_node hleft).1 hne

theorem tellsChange_receiver (p : Pruner) (ctx : Context) : ∀ r : Option Receiver,
    (visitPart (p.visitReceiver ctx) r).TellsChange r
  | none => tellsChange_pure none
  | some ⟨target, dot⟩ => by
      rw [visitPart, visitReceiver, bind_pure_comp, Functor.map_map]
      exact (tellsChange_expr p ctx target).map fun _ _ h => by simpa using h

theorem tellsChange_arguments (p : Pruner) (ctx : Context) : ∀ a : Option Arguments,
    (visitPart (p.visitArguments ctx) a).TellsChange a
  | none => tellsChange_pure none
  | some ⟨opening, items, closing⟩ => by
      have hargs : (p.visitArguments ctx ⟨opening, items, closing⟩).TellsChange
          ⟨opening, items, closing⟩ := by
        have hbuild : Function.Injective fun items => Arguments.mk opening items closing :=
          fun _ _ => congrArg Arguments.items
        rw [visitArguments]
        exact tellsChange_swept (tellsChange_items p ctx items) (staysPut_items items) hbuild
      exact hargs.map fun _ _ => Option.some.inj

theorem tellsChange_brackets (p : Pruner) (ctx : Context) : ∀ b : Brackets,
    (p.visitBrackets ctx b).TellsChange b
  | ⟨opening, items, closing⟩ => by
      have hbuild : Function.Injective fun items => Brackets.mk opening items closing :=
        fun _ _ => congrArg Brackets.items
      rw [visitBrackets]
      exact tellsChange_swept (tellsChange_items p ctx items) (staysPut_items items) hbuild

theorem tellsChange_items (p : Pruner) (ctx : Context) : ∀ items : List Item,
    List.Forall₂ TellsChange (items.map Item.expr) (p.visitItems ctx items)
  | [] => by
      rw [visitItems]
      exact .nil
  | ⟨expr, comma⟩ :: items => by
      rw [visitItems]
      exact .cons (tellsChange_expr p ctx expr) (tellsChange_items p ctx items)

theorem tellsChange_block (p : Pruner) (ctx : Context) : ∀ l : Option Lambda,
    (visitPart (p.visitLambda ctx) l).TellsChange l
  | none => tellsChange_pure none
  | some lambda => (tellsChange_lambda p ctx lambda).map fun _ _ => Option.some.inj

/-- A block counts the statements that the filter takes out and those that go, each of which makes
it shorter. -/
theorem tellsChange_lambda (p : Pruner) (ctx : Context) : ∀ l : Lambda,
    (p.visitLambda ctx l).TellsChange l
  | ⟨opening, params, body, closing⟩ => by
      intro left hleft
      obtain rfl := Option.some.inj hleft
      obtain ⟨hremoved, hbody⟩ := sifted_swept_eq_iff (p.admits ctx) closing.leading
        (tellsChange_statements p ctx body)
        (staysPut_statements body)
      refine hremoved.trans ⟨?_, ?_⟩
      · intro hswept
        exact congrArg (fun swept : List Statement × String =>
          Lambda.mk opening params swept.1 (closing.withLeading swept.2)) hswept
      · intro hsame
        exact hbody (congrArg Lambda.body hsame)

theorem tellsChange_statement (p : Pruner) (ctx : Context) : ∀ s : Statement,
    (p.visitStatement ctx s).TellsChange s
  | .importing path => by
      rw [visitStatement]
      split
      · exact tellsChange_gone _
      · exact tellsChange_pure _
  | .expression expr semicolon => by
      rw [visitStatement, bind_pure_comp]
      exact (tellsChange_expr p ctx expr).map fun _ _ h => by simpa using h
  | .empty semicolon => by
      rw [visitStatement]
      exact tellsChange_pure _

theorem tellsChange_statements (p : Pruner) (ctx : Context) : ∀ statements : List Statement,
    List.Forall₂ TellsChange statements (p.visitStatements ctx statements)
  | [] => by
      rw [visitStatements]
      exact .nil
  | statement :: rest => by
      rw [visitStatements]
      exact .cons (tellsChange_statement p ctx statement) (tellsChange_statements p ctx rest)

end

/-! ### Scripts -/

/-- A visit has counted nothing exactly if the script comes out of it as it was, for every pruner
and every script. So the number that a visit answers can stand for a comparison of the two trees. -/
theorem removed_eq_zero_iff_unchanged (p : Pruner) (script : Script) :
    (p.visitScript script).2 = 0 ↔ (p.visitScript script).1 = script := by
  have houtcomes := tellsChange_statements p {} script.statements
  show total (p.visitStatements {} script.statements) = 0 ↔ _
  rw [total_eq_zero_iff houtcomes]
  constructor
  · intro hnodes
    rw [visitScript, hnodes, Statement.sweep_self]
  · intro hsame
    exact Statement.sweep_eq_self (staysPut_statements script.statements)
      (congrArg Script.statements hsame)

end Pruner

end BuildPrune
