import BuildPrune.Proofs.Visiting

/-!
# BuildPrune.Proofs.VisitRules

The rules of `Pruner.Keeps` say exactly what a visit leaves: `keeps_expr` and its siblings show that
a visit follows them, and here what they derive is what the visit answers (`Keeps.leaves`). So a
node of which the rules keep something is one that stays.
-/

namespace BuildPrune.Pruner

/-- The visit of the entry answers what remains. A node of which nothing is left has no remains, so
this says also that something is left. -/
def Entry.Leaves (p : Pruner) (ctx : Context) : Entry → Remains → Prop
  | .expr e, .expr e' => (p.visitExpr ctx e).node = some e'
  | .tail head before visited rest, .exprs es =>
    (p.visitTail ctx head before visited rest).node = some es
  | .call c, .call c' => (p.visitCall ctx c).node = some c'
  | .receiver r, .receiver r' => (visitPart (p.visitReceiver ctx) r).node = some r'
  | .args a, .args a' => (visitPart (p.visitArguments ctx) a).node = some a'
  | .items list, .items decisions => (p.visitItems ctx list).map Outcome.node = decisions
  | .lambda l, .lambda l' => (p.visitLambda ctx l).node = some l'
  | .block l, .block l' => (visitPart (p.visitLambda ctx) l).node = some l'
  | .statement s, .statement s' => (p.visitStatement ctx s).node = some s'
  | .statements list, .statements decisions =>
    (p.visitStatements ctx list).map Outcome.node = decisions
  | _, _ => False

variable {p : Pruner} {ctx : Context}

theorem spare_of_removalReason {c : Call} (h : c.removalReason p.rules = none) :
    p.spare c = pure c := by
  rw [spare, h]
  rfl

/-- The visit sifts and sweeps outcomes, the rule for lambdas their nodes. Both leave the same,
since neither looks at the counts. -/
theorem node_visitLambda {opening closing : Token} {params : Option LambdaParams}
    {body sifted swept : List Statement} {kept : List (Option Statement)}
    {siftedTrailer trailer : String}
    (hsift : Statement.sift (p.admits ctx) true ((p.visitStatements ctx body).map Outcome.node) body
      closing.leading = (kept, sifted, siftedTrailer))
    (hsweep : Statement.sweep true kept sifted siftedTrailer = (swept, trailer)) :
    (p.visitLambda ctx ⟨opening, params, body, closing⟩).node =
      some ⟨opening, params, swept, closing.withLeading trailer⟩ := by
  rcases hout : Statement.sift (p.admits ctx) true (p.visitStatements ctx body) body closing.leading
    with ⟨outcomes, sifted', trailer'⟩
  rw [Statement.sift_map, hout] at hsift
  cases hsift
  rw [show p.admits ctx = fun s => !ctx.inPlugins || p.keepsInPlugins s from rfl] at hout
  simp [visitLambda, hout, hsweep]

/-- What the rules keep is what the visit leaves. The proof is by induction on the rules, one case
for each, where the visit takes the branch that the rule describes. -/
theorem Keeps.leaves {entry : Entry} {remains : Remains} (h : p.Keeps ctx entry remains) :
    entry.Leaves p ctx remains := by
  induction h with
  | atom => simp [Entry.Leaves, visitExpr]
  | annotatedNothing => simp [Entry.Leaves, visitExpr]
  | callExpr _ ih | lambdaExpr _ ih | annotated _ ih | field _ ih | paren _ ih | prefixed _ ih
  | postfixed _ ih =>
      simp only [Entry.Leaves] at ih
      simp [Entry.Leaves, visitExpr, ih]
  | index _ _ ihtarget ihitems =>
      simp only [Entry.Leaves] at ihtarget ihitems
      simp [Entry.Leaves, visitExpr, visitBrackets, ihtarget, ihitems]
  | binary _ _ ihleft ihright =>
      simp only [Entry.Leaves] at ihleft ihright
      simp [Entry.Leaves, visitExpr, ihleft, ihright]
  | list _ ih =>
      simp only [Entry.Leaves] at ih
      simp [Entry.Leaves, visitExpr, visitBrackets, ih]
  | sequence _ _ ihhead ihtail =>
      simp only [Entry.Leaves] at ihhead ihtail
      simp [Entry.Leaves, visitExpr, ihhead, ihtail]
  | tailEnd => simp [Entry.Leaves, visitTail]
  | tailNext _ _ ihexpr ihrest =>
      simp only [Entry.Leaves] at ihexpr ihrest
      simp [Entry.Leaves, visitTail, ihexpr, ihrest]
  | tailHollow hgone hbody hmore _ ihrest =>
      simp only [Entry.Leaves] at ihrest
      simp [Entry.Leaves, visitTail, hgone, hbody, hmore, ihrest]
  | tailCut hgone hbody helse => simp [Entry.Leaves, visitTail, hgone, hbody, helse]
  | call hbefore _ _ hstyle _ hafter ihreceiver ihargs ihlambda =>
      simp only [Entry.Leaves] at ihreceiver ihargs ihlambda
      simp only [Entry.Leaves, visitCall_eq, spare_of_removalReason hbefore, pure_bind,
        Outcome.node_bind, ihreceiver, ihargs, Option.bind_some]
      -- A regular call that loses all its arguments goes, and this one stays.
      rw [if_neg]
      · simp [ihlambda, spare_of_removalReason hafter]
      · intro hempty
        simp only [Bool.and_eq_true, bne_iff_ne, Option.any_eq_true, List.isEmpty_iff] at hempty
        obtain ⟨hregular, a, ha, hitems⟩ := hempty
        exact hstyle hregular a ha hitems
  | noReceiver | noArgs | noBlock => simp [Entry.Leaves, visitPart]
  | receiver _ ih =>
      simp only [Entry.Leaves] at ih
      simp [Entry.Leaves, visitPart, visitReceiver, ih]
  | args _ ih =>
      simp only [Entry.Leaves] at ih
      simp [Entry.Leaves, visitPart, visitArguments, ih]
  | itemsEnd => simp [Entry.Leaves, visitItems]
  | itemKept _ _ ihexpr ihitems =>
      simp only [Entry.Leaves] at ihexpr ihitems
      simp [Entry.Leaves, visitItems, ihexpr, ihitems]
  | itemGone hgone _ ihitems =>
      simp only [Entry.Leaves] at ihitems
      simp [Entry.Leaves, visitItems, hgone, ihitems]
  | block _ ih =>
      simp only [Entry.Leaves] at ih
      simp [Entry.Leaves, visitPart, ih]
  | lambda _ hsift hsweep ih =>
      simp only [Entry.Leaves] at ih
      -- The sift is over the decisions in the rule and over the outcomes in the visit.
      rw [← ih] at hsift
      exact node_visitLambda hsift hsweep
  | importing hrules =>
      rw [Entry.Leaves, visitStatement, hrules]
      rfl
  | expression _ ih =>
      simp only [Entry.Leaves] at ih
      simp [Entry.Leaves, visitStatement, ih]
  | empty => simp [Entry.Leaves, visitStatement]
  | statementsEnd => simp [Entry.Leaves, visitStatements]
  | statementKept _ _ ihstatement ihstatements =>
      simp only [Entry.Leaves] at ihstatement ihstatements
      simp [Entry.Leaves, visitStatements, ihstatement, ihstatements]
  | statementGone hgone _ ihstatements =>
      simp only [Entry.Leaves] at ihstatements
      simp [Entry.Leaves, visitStatements, hgone, ihstatements]

end BuildPrune.Pruner
