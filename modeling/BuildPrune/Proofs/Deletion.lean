import BuildPrune.Proofs.Settled
import BuildPrune.Proofs.Visiting
import BuildPrune.Script.Parser

/-!
# BuildPrune.Proofs.Deletion

A visit removes everything that has to go. The rules look at a call twice, so the second look sees
the call as it is left; what happens to it afterwards changes only the trivia in front of it, and
that no rule can see. By induction on `Pruner.Keeps` what is left of any node is settled.
-/

namespace BuildPrune.Pruner

/-! ### What is left is settled

A call is looked at before its parts are visited and once more afterwards. What is done to it
later puts trivia in front of it, so the second look is the last word. -/

/-- What has been visited before the entry is settled. -/
def Entry.Settled (rules : RuleSet) : Entry → Prop
  | .tail _ _ visited _ => ∀ e ∈ visited, e.Settled rules
  | _ => True

/-- What is left is settled. -/
def Remains.Settled (rules : RuleSet) : Remains → Prop
  | .expr e => e.Settled rules
  | .exprs es => ∀ e ∈ es, e.Settled rules
  | .call c => c.Stays rules ∧ c.InnerSettled rules
  | .receiver r? => ∀ r ∈ r?, r.target.Settled rules
  | .args a? => ∀ a ∈ a?, ∀ item ∈ a.items, item.expr.Settled rules
  | .items decisions => ∀ e ∈ decisions.filterMap id, e.Settled rules
  | .lambda l => l.Settled rules
  | .block l? => ∀ l ∈ l?, l.Settled rules
  | .statement s => s.Settled rules
  | .statements decisions => ∀ s ∈ decisions.filterMap id, s.Settled rules

variable {p : Pruner} {ctx : Context} {rules : RuleSet}

theorem settled_sweepItems {decisions : List (Option Expr)} {items : List Item}
    (hlength : decisions.length = items.length)
    (h : ∀ e ∈ decisions.filterMap id, e.Settled rules) :
    ∀ item ∈ Item.sweep [] decisions items, item.expr.Settled rules := by
  refine Item.forall_mem_sweep (fun e leading hsettled => ?_) hlength h
  rw [Expr.settled_withLeading]
  exact hsettled

theorem settled_sweepStatements (isFirst : Bool) {decisions : List (Option Statement)}
    {statements : List Statement} (trailer : String) (hlength : decisions.length = statements.length)
    (h : ∀ s ∈ decisions.filterMap id, s.Settled rules) :
    ∀ s ∈ (Statement.sweep isFirst decisions statements trailer).1, s.Settled rules := by
  refine Statement.forall_mem_sweep (fun s leading hsettled => ?_) isFirst trailer hlength h
  rw [Statement.settled_withLeading]
  exact hsettled

/-- What a visit leaves of a node is settled. A call has been judged as it was left; its parts are
settled by induction; and what sweeping does to it afterwards is a matter of trivia. -/
theorem Keeps.settled {entry : Entry} {remains : Remains} (h : p.Keeps ctx entry remains)
    (hentry : entry.Settled p.rules) : remains.Settled p.rules := by
  induction h with
  | atom => exact Expr.settled_atom
  | callExpr _ ih => exact Expr.settled_call.2 (ih trivial)
  | lambdaExpr _ ih => exact Expr.settled_lambda.2 (ih trivial)
  | annotatedNothing => exact Expr.settled_annotated.2 (by simp)
  | annotated _ ih => exact Expr.settled_annotated.2 (by simpa [Remains.Settled] using ih trivial)
  | field _ ih => exact Expr.settled_field.2 (ih trivial)
  | paren _ ih => exact Expr.settled_paren.2 (ih trivial)
  | index _ hitems ihtarget ihitems =>
      exact Expr.settled_index.2
        ⟨ihtarget trivial, settled_sweepItems hitems.length_eq (ihitems trivial)⟩
  | binary _ _ ihleft ihright => exact Expr.settled_binary.2 ⟨ihleft trivial, ihright trivial⟩
  | prefixed _ ih => exact Expr.settled_prefixed.2 (ih trivial)
  | postfixed _ ih => exact Expr.settled_postfixed.2 (ih trivial)
  | list hitems ih =>
      exact Expr.settled_list.2 (settled_sweepItems hitems.length_eq (ih trivial))
  | sequence _ _ ihhead ihtail =>
      refine Expr.settled_sequence.2 ⟨ihhead trivial, ihtail ?_⟩
      simp [Entry.Settled]
  | tailEnd => exact hentry
  | tailNext _ _ ihexpr ihrest =>
      refine ihrest fun e he => ?_
      rcases List.mem_append.1 he with he | he
      · exact hentry e he
      · rw [List.mem_singleton.1 he]
        exact ihexpr trivial
  | tailHollow _ _ _ _ ihrest =>
      refine ihrest fun e he => ?_
      rcases List.mem_append.1 he with he | he
      · exact hentry e he
      · rw [List.mem_singleton.1 he, Expr.settled_lambda]
        simp [Lambda.Settled, Lambda.hollow]
  | tailCut _ _ _ => exact fun e he => hentry e (List.mem_of_mem_take he)
  | call _ _ _ hstyle _ hafter ihreceiver ihargs ihlambda =>
      exact ⟨⟨hafter, hstyle⟩, ⟨ihreceiver trivial, ihargs trivial, ihlambda trivial⟩⟩
  | noReceiver | noArgs | noBlock | itemsEnd | statementsEnd => simp [Remains.Settled]
  | receiver _ ih => simpa [Remains.Settled] using ih trivial
  | args hitems ih =>
      rintro _ ⟨⟩
      exact settled_sweepItems hitems.length_eq (ih trivial)
  | itemKept _ _ ihexpr ihitems =>
      exact List.forall_mem_cons.2 ⟨ihexpr trivial, ihitems trivial⟩
  | itemGone _ _ ihitems => exact ihitems trivial
  | block _ ih => simpa [Remains.Settled] using ih trivial
  | @lambda _ _ _ _ _ _ _ _ _ trailer _ hbody hsift hsweep ih =>
      -- Both the filter and the sweep only choose among the decisions.
      obtain ⟨hkept, hlength⟩ := hbody.sifted hsift
      have hswept := settled_sweepStatements true trailer hlength
        fun s hs => ih trivial s ((hkept.filterMap id).subset hs)
      rw [hsweep] at hswept
      exact hswept
  | importing hrules => exact Statement.settled_importing.2 hrules
  | expression _ ih => exact Statement.settled_expression.2 (ih trivial)
  | empty => exact Statement.settled_empty
  | statementKept _ _ ihstatement ihstatements =>
      exact List.forall_mem_cons.2 ⟨ihstatement trivial, ihstatements trivial⟩
  | statementGone _ _ ihstatements => exact ihstatements trivial

theorem settled_visitStatements (p : Pruner) (ctx : Context) (statements : List Statement) :
    ∀ s ∈ ((p.visitStatements ctx statements).map Outcome.node).filterMap id, s.Settled p.rules :=
  (keeps_statements p ctx statements).settled trivial

theorem length_visitStatements (p : Pruner) (ctx : Context) (statements : List Statement) :
    ((p.visitStatements ctx statements).map Outcome.node).length = statements.length :=
  (keeps_statements p ctx statements).length_eq

/-- Every statement of a visited script is settled, at whatever depth its parts are. -/
theorem settled_visitScript (p : Pruner) (script : Script) :
    ∀ s ∈ (p.visitScript script).1.statements, s.Settled p.rules :=
  settled_sweepStatements true script.eof (length_visitStatements p {} script.statements)
    (settled_visitStatements p {} script.statements)

/-! ### Nothing that has to go is left

Calls and imports are searched at any depth, but not in the arguments of annotations, which no
visit enters. A call in there stays whatever the rules are. -/

/-- A visited script has no call with a reason to be removed and, outside the arguments of
annotations, no import that a rule is against, at any depth.

The calls of a script leave the arguments of annotations out, so for these the statement says
nothing of calls either: no visit enters them. -/
theorem visitScript_complete (p : Pruner) (script : Script) :
    (∀ call ∈ (p.visitScript script).1.calls, call.removalReason p.rules = none) ∧
      ∀ path ∈ (p.visitScript script).1.deepImports false,
        p.rules.imports.contains path.qualifiedName = false := by
  obtain ⟨hcalls, himports⟩ := settled_statements_iff.2 (settled_visitScript p script)
  exact ⟨fun call hcall => (hcalls call hcall).1, himports⟩

/-- The arguments of an annotation are not visited: an import in a lambda that is one of them
stays. -/
theorem not_visitScript_complete_in_annotations :
    ¬∀ (p : Pruner) (script : Script),
      (∀ call ∈ (p.visitScript script).1.calls, call.removalReason p.rules = none) ∧
        ∀ path ∈ (p.visitScript script).1.deepImports true,
          p.rules.imports.contains path.qualifiedName = false := by
  intro h
  have hkept : (parse "@A(\x7b import x.y \x7d)\nfoo()\n" .kotlin).toOption.map (fun script =>
      ((visitScript { rules := { imports := ["x.y"] } } script).1.deepImports true).map
        Import.qualifiedName) = some ["x.y"] := by
    decide +kernel
  obtain ⟨script, -, hnames⟩ := Option.map_eq_some_iff.1 hkept
  obtain ⟨path, hpath, hname⟩ := List.mem_map.1 (hnames ▸ List.mem_singleton.2 rfl)
  have hrules := (h { rules := { imports := ["x.y"] } } script).2 path hpath
  rw [hname] at hrules
  exact absurd hrules (by decide)

end BuildPrune.Pruner
