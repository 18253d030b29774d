import Mathlib.Data.List.Forall2
import BuildPrune.Proofs.NodeTokens
import BuildPrune.Script.Removal

/-!
# BuildPrune.Proofs.Sweep

What is left of a list that has been swept. The entries that were decided for stay, in their order,
and a removal changes no more than the trivia in front of them (`Statement.Placed`, `Expr.Placed`)
and the commas behind. If there is a decision for every entry and each is for the entry as it is,
the list stays as it is.
-/

namespace BuildPrune

/-- `s` is the statement `decided`, with the trivia of the place where it stands. -/
def Statement.Placed (decided s : Statement) : Prop :=
  ∃ leading, s = decided.withLeading leading

/-- `e` is the expression `decided`, with the trivia of the place where it stands. -/
def Expr.Placed (decided e : Expr) : Prop :=
  ∃ leading, e = decided.withLeading leading

/-- What is related to an entry of one list is in the other. -/
theorem exists_of_forall₂ {α β : Type} {R : α → β → Prop} {xs : List α} {ys : List β}
    (h : List.Forall₂ R xs ys) {y : β} (hy : y ∈ ys) : ∃ x ∈ xs, R x y := by
  induction h with
  | nil => cases hy
  | @cons x y' xs ys hR _ ih =>
      rcases List.mem_cons.1 hy with rfl | hy
      · exact ⟨x, List.mem_cons_self, hR⟩
      · obtain ⟨x', hx', hR'⟩ := ih hy
        exact ⟨x', List.mem_cons_of_mem x hx', hR'⟩

/-! ### Statements

A sweep goes from left to right and hands trivia on as it goes, so the list that it works on
changes. The equations for each step are what later proofs use, with the decisions for the entries
beside it. -/

namespace Statement

@[simp] theorem length_handOn (isFirst : Bool) (removed : Statement) (following : List Statement)
    (trailer : String) :
    (handOn isFirst removed following trailer).1.length = following.length := by
  cases following <;> rfl

/-- Handing trivia on keeps each relation that does not look at the trivia of its place. The first
of the following statements is the one that gets other trivia. -/
theorem forall₂_handOn {β : Type} {R : Statement → β → Prop}
    (hplaced : ∀ s leading b, R s b → R (s.withLeading leading) b) (isFirst : Bool)
    (removed : Statement) {following : List Statement} {bs : List β} (trailer : String)
    (h : List.Forall₂ R following bs) :
    List.Forall₂ R (handOn isFirst removed following trailer).1 bs := by
  cases h with
  | nil => exact .nil
  | cons hnext hrest => exact .cons (hplaced _ _ _ hnext) hrest

theorem sweep_nil (isFirst : Bool) (statements : List Statement) (trailer : String) :
    sweep isFirst [] statements trailer = (statements, trailer) := by
  rw [sweep] <;> simp

theorem sweep_some (isFirst : Bool) (decided statement : Statement)
    (decisions : List (Option Statement)) (rest : List Statement) (trailer : String) :
    sweep isFirst (some decided :: decisions) (statement :: rest) trailer =
      (decided.withLeading statement.leading :: (sweep false decisions rest trailer).1,
        (sweep false decisions rest trailer).2) := rfl

theorem sweep_none (isFirst : Bool) (statement : Statement) (decisions : List (Option Statement))
    (rest : List Statement) (trailer : String) :
    sweep isFirst (none :: decisions) (statement :: rest) trailer =
      sweep isFirst decisions (handOn isFirst statement rest trailer).1
        (handOn isFirst statement rest trailer).2 := rfl

/-- What is left of a list of statements are the decisions that keep one, in their order, each with
the trivia of its place.

The induction is on the decisions. Each step of the sweep puts the next decision in place, or hands
trivia on to the statements that are still to come. -/
theorem placed_sweep : ∀ (decisions : List (Option Statement)) (isFirst : Bool)
    (statements : List Statement) (trailer : String), decisions.length = statements.length →
      List.Forall₂ Placed (decisions.filterMap id) (sweep isFirst decisions statements trailer).1
  | [], isFirst, [], trailer, _ => by
      rw [sweep_nil]
      exact .nil
  | some decided :: decisions, isFirst, statement :: rest, trailer, hlength => by
      rw [sweep_some]
      refine .cons ⟨_, rfl⟩ (placed_sweep decisions false rest trailer ?_)
      exact Nat.succ.inj hlength
  | none :: decisions, isFirst, statement :: rest, trailer, hlength => by
      rw [sweep_none]
      refine placed_sweep decisions isFirst _ _ ?_
      rw [length_handOn]
      exact Nat.succ.inj hlength

/-- What holds of the decisions wherever they are placed holds of what is left of the list. -/
theorem forall_mem_sweep {P : Statement → Prop}
    (hplaced : ∀ s leading, P s → P (s.withLeading leading)) (isFirst : Bool)
    {decisions : List (Option Statement)} {statements : List Statement} (trailer : String)
    (hlength : decisions.length = statements.length) (h : ∀ s ∈ decisions.filterMap id, P s) :
    ∀ s ∈ (sweep isFirst decisions statements trailer).1, P s := by
  intro s hs
  obtain ⟨decided, hdecided, leading, rfl⟩ :=
    exists_of_forall₂ (placed_sweep decisions isFirst statements trailer hlength) hs
  exact hplaced decided leading (h decided hdecided)

/-- Statements that are all decided for as they are stay as they are, and so does the trivia behind
them. A visit that removes nothing changes nothing by this. -/
theorem sweep_self : ∀ (isFirst : Bool) (statements : List Statement) (trailer : String),
    sweep isFirst (statements.map some) statements trailer = (statements, trailer)
  | isFirst, [], trailer => sweep_nil isFirst [] trailer
  | isFirst, statement :: rest, trailer => by
      rw [List.map_cons, sweep_some, sweep_self false rest trailer, withLeading_leading]

section Sift

variable {α : Type} {keep : Statement → Bool}

theorem sift_keep {statement : Statement} (hkeep : keep statement = true) (isFirst : Bool)
    (companion : α) (companions : List α) (rest : List Statement) (trailer : String) :
    sift keep isFirst (companion :: companions) (statement :: rest) trailer =
      (companion :: (sift keep false companions rest trailer).1,
        statement :: (sift keep false companions rest trailer).2.1,
        (sift keep false companions rest trailer).2.2) := by
  rw [sift, if_pos hkeep]

theorem sift_drop {statement : Statement} (hkeep : ¬keep statement = true) (isFirst : Bool)
    (companion : α) (companions : List α) (rest : List Statement) (trailer : String) :
    sift keep isFirst (companion :: companions) (statement :: rest) trailer =
      sift keep isFirst companions (handOn isFirst statement rest trailer).1
        (handOn isFirst statement rest trailer).2 := by
  rw [sift, if_neg hkeep]

/-- Sifting removes companions and statements at the same places, so the two lists go on side by
side. -/
theorem length_sift (keep : Statement → Bool) : ∀ (companions : List α) (isFirst : Bool)
    (statements : List Statement) (trailer : String), companions.length = statements.length →
      (sift keep isFirst companions statements trailer).1.length =
        (sift keep isFirst companions statements trailer).2.1.length
  | [], isFirst, [], trailer, _ => rfl
  | companion :: companions, isFirst, statement :: rest, trailer, hlength => by
      have hrest : companions.length = rest.length := Nat.succ.inj hlength
      by_cases hkeep : keep statement = true
      · rw [sift_keep hkeep, List.length_cons, List.length_cons]
        exact congrArg Nat.succ (length_sift keep companions false rest trailer hrest)
      · rw [sift_drop hkeep]
        refine length_sift keep companions isFirst _ _ ?_
        rw [length_handOn]
        exact hrest

/-- The companions that are left are some of those there were, in their order. -/
theorem sift_sublist (keep : Statement → Bool) : ∀ (companions : List α) (isFirst : Bool)
    (statements : List Statement) (trailer : String), companions.length = statements.length →
      (sift keep isFirst companions statements trailer).1.Sublist companions
  | [], isFirst, [], trailer, _ => .slnil
  | companion :: companions, isFirst, statement :: rest, trailer, hlength => by
      have hrest : companions.length = rest.length := Nat.succ.inj hlength
      by_cases hkeep : keep statement = true
      · rw [sift_keep hkeep]
        exact (sift_sublist keep companions false rest trailer hrest).cons_cons companion
      · rw [sift_drop hkeep]
        refine (sift_sublist keep companions isFirst _ _ ?_).cons companion
        rw [length_handOn]
        exact hrest

/-- Sifting does not look at the companions. Decisions can so be replaced by what is known of
them. -/
theorem sift_map {β : Type} (f : α → β) : ∀ (companions : List α) (isFirst : Bool)
    (statements : List Statement) (trailer : String),
      sift keep isFirst (companions.map f) statements trailer =
        ((sift keep isFirst companions statements trailer).1.map f,
          (sift keep isFirst companions statements trailer).2)
  | [], isFirst, statements, trailer => rfl
  | companion :: companions, isFirst, [], trailer => rfl
  | companion :: companions, isFirst, statement :: rest, trailer => by
      rw [List.map_cons]
      by_cases hkeep : keep statement = true
      · rw [sift_keep hkeep, sift_keep hkeep, sift_map f companions, List.map_cons]
      · rw [sift_drop hkeep, sift_drop hkeep, sift_map f companions]

/-- Where everything is kept, sifting does nothing. This is the case outside `plugins` blocks. -/
theorem sift_of_keep (hkeep : ∀ s, keep s = true) : ∀ (companions : List α) (isFirst : Bool)
    (statements : List Statement) (trailer : String), companions.length = statements.length →
      sift keep isFirst companions statements trailer = (companions, statements, trailer)
  | [], isFirst, [], trailer, _ => rfl
  | companion :: companions, isFirst, statement :: rest, trailer, hlength => by
      have hrest : companions.length = rest.length := Nat.succ.inj hlength
      rw [sift_keep (hkeep statement), sift_of_keep hkeep companions false rest trailer hrest]

end Sift

end Statement

/-! ### Items

Items have their commas as well. That the last item keeps none is a matter of where it stands, so
the sweep of items holds what was kept so far. -/

namespace Item

@[simp] theorem map_expr_closeWith (comma : Option Token) : ∀ items : List Item,
    (closeWith comma items).map Item.expr = items.map Item.expr
  | [] => rfl
  | [_] => rfl
  | item :: next :: rest => congrArg (item.expr :: ·) (map_expr_closeWith comma (next :: rest))

/-- Closing a list changes the comma behind its last item and nothing else. -/
theorem closeWith_append (comma : Option Token) (last : Item) : ∀ items : List Item,
    closeWith comma (items ++ [last]) = items ++ [{ last with comma }]
  | [] => rfl
  | [_] => rfl
  | item :: next :: rest => congrArg (item :: ·) (closeWith_append comma last (next :: rest))

@[simp] theorem comma_takeOver (removed next : Item) : (takeOver removed next).comma = next.comma := by
  unfold takeOver
  split <;> rfl

theorem sweep_nil (before items : List Item) : sweep before [] items = before ++ items := by
  rw [sweep] <;> simp

theorem sweep_some (before : List Item) (decided : Expr) (item : Item)
    (decisions : List (Option Expr)) (rest : List Item) :
    sweep before (some decided :: decisions) (item :: rest) =
      sweep (before ++ [{ item with expr := decided.withLeading item.expr.leading }]) decisions
        rest := rfl

/-- An item in the middle goes: the next one takes its place and its trivia. -/
theorem sweep_next (before : List Item) (item next : Item) (decisions : List (Option Expr))
    (rest : List Item) :
    sweep before (none :: decisions) (item :: next :: rest) =
      sweep before decisions (takeOver item next :: rest) := rfl

/-- The last item goes: its comma, or that it has none, is handed back. -/
theorem sweep_last (before : List Item) (last : Item) :
    sweep before [none] [last] = closeWith last.comma before := by
  show sweep (closeWith last.comma before) [] [] = closeWith last.comma before
  rw [sweep_nil, List.append_nil]

/-- What is left of a list of items are those before it and the decisions that keep one, in their
order. -/
theorem placed_sweep : ∀ (decisions : List (Option Expr)) (before items : List Item),
    decisions.length = items.length → ∃ exprs,
      (sweep before decisions items).map Item.expr = before.map Item.expr ++ exprs ∧
        List.Forall₂ Expr.Placed (decisions.filterMap id) exprs
  | [], before, [], _ => ⟨[], by simp [sweep_nil], .nil⟩
  | some decided :: decisions, before, item :: rest, hlength => by
      obtain ⟨exprs, hsweep, hplaced⟩ := placed_sweep decisions
        (before ++ [{ item with expr := decided.withLeading item.expr.leading }]) rest
        (Nat.succ.inj hlength)
      refine ⟨decided.withLeading item.expr.leading :: exprs, ?_, ?_⟩
      · rw [sweep_some, hsweep]
        simp
      · exact .cons ⟨_, rfl⟩ hplaced
  | none :: decisions, before, [last], hlength => by
      obtain rfl : decisions = [] := List.eq_nil_of_length_eq_zero (Nat.succ.inj hlength)
      exact ⟨[], by simp [sweep_last], .nil⟩
  | none :: decisions, before, item :: next :: rest, hlength => by
      obtain ⟨exprs, hsweep, hplaced⟩ := placed_sweep decisions before (takeOver item next :: rest)
        (Nat.succ.inj hlength)
      rw [sweep_next]
      exact ⟨exprs, hsweep, hplaced⟩

/-- What holds of the decisions wherever they are placed holds of the expressions that are left. -/
theorem forall_mem_sweep {P : Expr → Prop}
    (hplaced : ∀ e leading, P e → P (e.withLeading leading)) {decisions : List (Option Expr)}
    {items : List Item} (hlength : decisions.length = items.length)
    (h : ∀ e ∈ decisions.filterMap id, P e) :
    ∀ item ∈ sweep [] decisions items, P item.expr := by
  obtain ⟨exprs, hsweep, hexprs⟩ := placed_sweep decisions [] items hlength
  rw [List.map_nil, List.nil_append] at hsweep
  intro item hitem
  have hexpr : item.expr ∈ exprs := hsweep ▸ List.mem_map_of_mem hitem
  obtain ⟨decided, hdecided, leading, heq⟩ := exists_of_forall₂ hexprs hexpr
  rw [heq]
  exact hplaced decided leading (h decided hdecided)

/-- Items that are all decided for as they are stay as they are. -/
theorem sweep_self : ∀ before items : List Item,
    sweep before ((items.map Item.expr).map some) items = before ++ items
  | before, [] => sweep_nil before []
  | before, ⟨expr, comma⟩ :: rest => by
      rw [List.map_cons, List.map_cons, sweep_some, Expr.withLeading_leading, sweep_self,
        List.append_assoc]
      rfl

end Item

end BuildPrune
