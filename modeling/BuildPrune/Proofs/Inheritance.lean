import BuildPrune.Proofs.Occurrences
import BuildPrune.Proofs.Visiting

/-!
# BuildPrune.Proofs.Inheritance

From every expression of a script to every expression of what a visit leaves of it. Each expression
of a visited tree is what is left of one that the visit entered, or one that it copied without
entering, or a `{}` that it has put in the place of a body; it may have been given other trivia
since. What has to be known of these cases is a `Pruner.Hereditary`, and `Keeps.every` carries it
through the whole tree.
-/

namespace BuildPrune.Pruner

/-- If `P` holds all over a tree, `Q` holds all over what a visit leaves of it: for each way in
which an expression can come into the result. It is what is left of an expression that the visit
entered, a copy of one inside the arguments of an annotation, or an empty block; and it may have
other trivia in front. -/
structure Hereditary (p : Pruner) (P Q : Option Context → Expr → Prop) : Prop where
  /-- What is left of an expression. -/
  visited : ∀ {ctx e e'}, p.Keeps ctx (.expr e) (.expr e') → P (some ctx) e → Q (some ctx) e'
  /-- An expression in the arguments of an annotation. -/
  copied : ∀ ctx e, P ctx e → Q ctx e
  /-- An expression that moves up when one in front of it goes. -/
  placed : ∀ {ctx e} leading, Q ctx e → Q ctx (e.withLeading leading)
  /-- What stands in the place of a body. -/
  hollow : ∀ {ctx} leading, Q (some ctx) (.lambda (Lambda.hollow leading))

variable {p : Pruner} {P Q : Option Context → Expr → Prop}

/-- `P` holds of what is still to be visited, and `Q` of what has been visited before. -/
def Entry.Every (P Q : Option Context → Expr → Prop) (ctx : Context) : Entry → Prop
  | .expr e => e.Every P (some ctx)
  | .tail _ _ visited rest =>
    (∀ e ∈ visited, e.Every Q (some ctx)) ∧ ∀ e ∈ rest, e.Every P (some ctx)
  | .call c => c.EveryInner P (some (ctx.entering c))
  | .receiver r? => ∀ r ∈ r?, r.target.Every P (some ctx)
  | .args a? => ∀ a ∈ a?, Item.ListEvery P (some ctx) a.items
  | .items list => Item.ListEvery P (some ctx) list
  | .lambda l => l.Every P (some ctx)
  | .block l? => ∀ l ∈ l?, l.Every P (some ctx)
  | .statement s => s.Every P (some ctx)
  | .statements list => ∀ s ∈ list, s.Every P (some ctx)

/-- `Q` holds of everything that is left. -/
def Remains.Every (Q : Option Context → Expr → Prop) (ctx : Context) : Remains → Prop
  | .expr e => e.Every Q (some ctx)
  | .exprs es => ∀ e ∈ es, e.Every Q (some ctx)
  | .call c => c.EveryInner Q (some (ctx.entering c))
  | .receiver r? => ∀ r ∈ r?, r.target.Every Q (some ctx)
  | .args a? => ∀ a ∈ a?, Item.ListEvery Q (some ctx) a.items
  | .items decisions => ∀ e ∈ decisions.filterMap id, e.Every Q (some ctx)
  | .lambda l => l.Every Q (some ctx)
  | .block l? => ∀ l ∈ l?, l.Every Q (some ctx)
  | .statement s => s.Every Q (some ctx)
  | .statements decisions => ∀ s ∈ decisions.filterMap id, s.Every Q (some ctx)

namespace Hereditary

variable (H : p.Hereditary P Q)

include H

theorem withLeading {e : Expr} {ctx : Option Context} (leading : String) (h : e.Every Q ctx) :
    (e.withLeading leading).Every Q ctx :=
  Expr.Every.withLeading (fun _ _ leading => H.placed leading) leading e h

theorem sweepItems {decisions : List (Option Expr)} {items : List Item} {ctx : Option Context}
    (hlength : decisions.length = items.length)
    (h : ∀ e ∈ decisions.filterMap id, e.Every Q ctx) :
    Item.ListEvery Q ctx (Item.sweep [] decisions items) := by
  exact Item.forall_mem_sweep (fun _ leading he => H.withLeading leading he) hlength h

theorem sweepStatements (isFirst : Bool) {decisions : List (Option Statement)}
    {statements : List Statement} (trailer : String) {ctx : Option Context}
    (hlength : decisions.length = statements.length)
    (h : ∀ s ∈ decisions.filterMap id, s.Every Q ctx) :
    ∀ s ∈ (Statement.sweep isFirst decisions statements trailer).1, s.Every Q ctx := by
  exact Statement.forall_mem_sweep
    (fun _ leading hs => hs.withLeading (fun _ _ leading => H.placed leading) leading)
    isFirst trailer hlength h

end Hereditary

/-- What a visit leaves of a tree all over which `P` holds is a tree all over which `Q` holds. The
induction is on `Keeps`, once for all properties; a property has to give what `Hereditary` asks for
each kind of node and no more. -/
theorem Keeps.every (H : p.Hereditary P Q) {ctx : Context} {entry : Entry} {remains : Remains}
    (h : p.Keeps ctx entry remains) (hentry : entry.Every P Q ctx) : remains.Every Q ctx := by
  -- In the cases of an expression `hnode` is about the node itself; what is inside it is visited by
  -- rules of its own or, in the arguments of an annotation, copied.
  induction h with
  | atom => exact Expr.every_atom.2 (H.visited .atom hentry.self)
  | callExpr hcall ih =>
      have hnode := H.visited (.callExpr hcall) hentry.self
      simp only [Entry.Every, Expr.every_call] at hentry
      exact Expr.every_call.2 ⟨hnode, ih hentry.2⟩
  | lambdaExpr hlambda ih =>
      have hnode := H.visited (.lambdaExpr hlambda) hentry.self
      simp only [Entry.Every, Expr.every_lambda] at hentry
      exact Expr.every_lambda.2 ⟨hnode, ih hentry.2⟩
  | annotatedNothing =>
      have hnode := H.visited .annotatedNothing hentry.self
      simp only [Entry.Every, Expr.every_annotated] at hentry
      exact Expr.every_annotated.2
        ⟨hnode, fun a ha => (hentry.2.1 a ha).mono H.copied, by simp⟩
  | annotated hexpr ih =>
      have hnode := H.visited (.annotated hexpr) hentry.self
      simp only [Entry.Every, Expr.every_annotated, Option.mem_some, forall_eq'] at hentry
      refine Expr.every_annotated.2 ⟨hnode, fun a ha => (hentry.2.1 a ha).mono H.copied, ?_⟩
      intro e he
      obtain rfl := Option.mem_some.1 he
      exact ih hentry.2.2
  | field htarget ih =>
      have hnode := H.visited (.field htarget) hentry.self
      simp only [Entry.Every, Expr.every_field] at hentry
      exact Expr.every_field.2 ⟨hnode, ih hentry.2⟩
  | paren hinner ih =>
      have hnode := H.visited (.paren hinner) hentry.self
      simp only [Entry.Every, Expr.every_paren] at hentry
      exact Expr.every_paren.2 ⟨hnode, ih hentry.2⟩
  | index htarget hitems ihtarget ihitems =>
      have hnode := H.visited (.index htarget hitems) hentry.self
      simp only [Entry.Every, Expr.every_index] at hentry
      exact Expr.every_index.2 ⟨hnode, ihtarget hentry.2.1,
        H.sweepItems hitems.length_eq (ihitems hentry.2.2)⟩
  | binary hleft hright ihleft ihright =>
      have hnode := H.visited (.binary hleft hright) hentry.self
      simp only [Entry.Every, Expr.every_binary] at hentry
      exact Expr.every_binary.2 ⟨hnode, ihleft hentry.2.1, ihright hentry.2.2⟩
  | prefixed hoperand ih =>
      have hnode := H.visited (.prefixed hoperand) hentry.self
      simp only [Entry.Every, Expr.every_prefixed] at hentry
      exact Expr.every_prefixed.2 ⟨hnode, ih hentry.2⟩
  | postfixed hoperand ih =>
      have hnode := H.visited (.postfixed hoperand) hentry.self
      simp only [Entry.Every, Expr.every_postfixed] at hentry
      exact Expr.every_postfixed.2 ⟨hnode, ih hentry.2⟩
  | list hitems ih =>
      have hnode := H.visited (.list hitems) hentry.self
      simp only [Entry.Every, Expr.every_list] at hentry
      exact Expr.every_list.2 ⟨hnode, H.sweepItems hitems.length_eq (ih hentry.2)⟩
  | sequence hhead htail ihhead ihtail =>
      have hnode := H.visited (.sequence hhead htail) hentry.self
      simp only [Entry.Every, Expr.every_sequence] at hentry
      exact Expr.every_sequence.2 ⟨hnode, ihhead hentry.2.1, ihtail ⟨by simp, hentry.2.2⟩⟩
  | tailEnd => exact hentry.1
  | tailNext _ _ ihexpr ihrest =>
      obtain ⟨hvisited, htail⟩ := hentry
      obtain ⟨hexpr, hrest⟩ := List.forall_mem_cons.1 htail
      exact ihrest
        ⟨List.forall_mem_append.2 ⟨hvisited, List.forall_mem_singleton.2 (ihexpr hexpr)⟩, hrest⟩
  | tailHollow _ _ _ _ ihrest =>
      obtain ⟨hvisited, htail⟩ := hentry
      obtain ⟨-, hrest⟩ := List.forall_mem_cons.1 htail
      refine ihrest ⟨List.forall_mem_append.2 ⟨hvisited, List.forall_mem_singleton.2 ?_⟩, hrest⟩
      exact Expr.every_lambda.2 ⟨H.hollow _, by simp [Lambda.Every, Lambda.hollow]⟩
  | tailCut => exact fun e he => hentry.1 e (List.mem_of_mem_take he)
  | call _ _ _ _ _ _ ihreceiver ihargs ihlambda =>
      exact ⟨ihreceiver hentry.receiver, ihargs hentry.args, ihlambda hentry.lambda⟩
  | noReceiver | noArgs | noBlock | itemsEnd | statementsEnd => simp [Remains.Every]
  | receiver _ ih | block _ ih =>
      simp only [Entry.Every, Remains.Every, Option.mem_some, forall_eq'] at hentry ⊢
      exact ih hentry
  | args hitems ih =>
      simp only [Entry.Every, Remains.Every, Option.mem_some, forall_eq'] at hentry ⊢
      exact H.sweepItems hitems.length_eq (ih hentry)
  | itemKept _ _ ihexpr ihitems =>
      obtain ⟨hexpr, hitems⟩ := List.forall_mem_cons.1 hentry
      exact List.forall_mem_cons.2 ⟨ihexpr hexpr, ihitems hitems⟩
  | itemGone _ _ ihitems => exact ihitems (List.forall_mem_cons.1 hentry).2
  | @lambda _ _ _ _ _ _ _ _ _ trailer _ hbody hsift hsweep ih =>
      -- Both the filter and the sweep only choose among the decisions.
      obtain ⟨hkept, hlength⟩ := hbody.sifted hsift
      have hswept := H.sweepStatements true trailer hlength
        fun s hs => ih hentry s ((hkept.filterMap id).subset hs)
      rw [hsweep] at hswept
      exact hswept
  | importing => exact Statement.every_importing
  | expression _ ih => exact Statement.every_expression.2 (ih (Statement.every_expression.1 hentry))
  | empty => exact Statement.every_empty
  | statementKept _ _ ihstatement ihstatements =>
      obtain ⟨hstatement, hstatements⟩ := List.forall_mem_cons.1 hentry
      exact List.forall_mem_cons.2 ⟨ihstatement hstatement, ihstatements hstatements⟩
  | statementGone _ _ ihstatements => exact ihstatements (List.forall_mem_cons.1 hentry).2

/-- The whole script: if `P` holds of each of its expressions, `Q` holds of each that a visit
leaves. -/
theorem Hereditary.visitScript (H : p.Hereditary P Q) {script : Script} (h : script.Every P) :
    (p.visitScript script).1.Every Q := by
  have hdecisions := (keeps_statements p {} script.statements).every H (Script.every_iff.1 h)
  refine Script.every_iff.2 ?_
  exact H.sweepStatements true script.eof (keeps_statements p {} script.statements).length_eq
    hdecisions

end BuildPrune.Pruner
