import BuildPrune.Proofs.Deletion

/-!
# BuildPrune.Proofs.Idempotence

A second visit finds nothing to do. A settled tree comes out of a visit as it went in, and nothing
is counted, provided that the pruner keeps all statements of a `plugins` block
(`visitStatements_of_settled`). What a visit leaves is settled, so that one visit is enough.
-/

namespace BuildPrune.Pruner

variable {p : Pruner}

/-! ### Parts of a visit that find nothing

An outcome that counts nothing and keeps its node is `pure`. The visit of a node is put together
with `bind` and `map` from the visits of its parts, and those of `pure` outcomes are `pure`. -/

/-- A call that stays is passed on without being counted. -/
theorem spare_of_stays {c : Call} (h : c.Stays p.rules) : p.spare c = pure c := by
  rw [spare, h.1]
  rfl

/-- Where nothing goes, nothing is counted. -/
theorem total_pure {α : Type} (nodes : List α) :
    Outcome.total (nodes.map (pure : α → Outcome α)) = 0 := by
  induction nodes with
  | nil => rfl
  | cons node nodes ih =>
      rw [Outcome.total, Nat.add_eq_zero_iff] at ih ⊢
      simpa using ih

theorem node_pure_map {α : Type} (nodes : List α) :
    (nodes.map (pure : α → Outcome α)).map Outcome.node = nodes.map some := by
  rw [List.map_map]
  rfl

theorem count_zero_bind {α : Type} (x : Outcome α) : (Outcome.count 0 >>= fun _ => x) = x :=
  pure_bind () fun _ => x

/-! ### Settled trees

By recursion on the tree, one lemma for each kind of node. At lists the sweep has a decision for
every entry, and each is for the entry as it is. -/

mutual

/-- A visit of a settled expression gives back the expression and counts nothing, in every context.

The induction takes all kinds of nodes together, each with what settledness says about its parts.
That every plugin block keeps its statements is asked once, of the pruner. -/
theorem visitExpr_of_settled (hkeep : ∀ s, p.keepsInPlugins s = true) (ctx : Context) :
    ∀ e : Expr, e.Settled p.rules → p.visitExpr ctx e = pure e
  | .atom token, _ => by rw [visitExpr]
  | .call call, h => by
      obtain ⟨hstays, hinner⟩ := Expr.settled_call.1 h
      rw [visitExpr, visitCall_of_settled hkeep ctx call hstays hinner, pure_bind]
  | .lambda lambda, h => by
      rw [visitExpr, visitLambda_of_settled hkeep ctx lambda (Expr.settled_lambda.1 h), pure_bind]
  | .annotated marker name args none, _ => by rw [visitExpr]
  | .annotated marker name args (some expr), h => by
      have hexpr : expr.Settled p.rules := Expr.settled_annotated.1 h expr rfl
      rw [visitExpr, visitExpr_of_settled hkeep ctx expr hexpr, pure_bind]
  | .field target dot name, h => by
      rw [visitExpr, visitExpr_of_settled hkeep ctx target (Expr.settled_field.1 h), pure_bind]
  | .paren opening inner closing, h => by
      rw [visitExpr, visitExpr_of_settled hkeep ctx inner (Expr.settled_paren.1 h), pure_bind]
  | .index target ⟨opening, items, closing⟩, h => by
      obtain ⟨htarget, hitems⟩ := Expr.settled_index.1 h
      rw [visitExpr, visitExpr_of_settled hkeep ctx target htarget, pure_bind,
        visitBrackets_of_settled hkeep ctx ⟨opening, items, closing⟩ hitems, pure_bind]
  | .binary left op right, h => by
      obtain ⟨hleft, hright⟩ := Expr.settled_binary.1 h
      rw [visitExpr, visitExpr_of_settled hkeep ctx left hleft, pure_bind,
        visitExpr_of_settled hkeep ctx right hright, pure_bind]
  | .prefixed op operand, h => by
      rw [visitExpr, visitExpr_of_settled hkeep ctx operand (Expr.settled_prefixed.1 h), pure_bind]
  | .postfixed operand op, h => by
      rw [visitExpr, visitExpr_of_settled hkeep ctx operand (Expr.settled_postfixed.1 h), pure_bind]
  | .list brackets, h => by
      rw [visitExpr, visitBrackets_of_settled hkeep ctx brackets (Expr.settled_list.1 h), pure_bind]
  | .sequence head tail, h => by
      obtain ⟨hhead, htail⟩ := Expr.settled_sequence.1 h
      rw [visitExpr, visitExpr_of_settled hkeep ctx head hhead, pure_bind,
        visitTail_of_settled hkeep ctx head [] [] tail htail, pure_bind, List.nil_append]

theorem visitTail_of_settled (hkeep : ∀ s, p.keepsInPlugins s = true) (ctx : Context) (head : Expr)
    (before visited : List Expr) : ∀ tail : List Expr, (∀ e ∈ tail, e.Settled p.rules) →
      p.visitTail ctx head before visited tail = pure (visited ++ tail)
  | [], _ => by rw [visitTail, List.append_nil]
  | expr :: rest, h => by
      obtain ⟨hexpr, hrest⟩ := List.forall_mem_cons.1 h
      rw [visitTail, visitExpr_of_settled hkeep ctx expr hexpr]
      simp only [Outcome.node_pure, Outcome.removed_pure, count_zero_bind]
      rw [visitTail_of_settled hkeep ctx head _ _ rest hrest, List.append_assoc]
      rfl

/-- A settled call stays by itself. It still has all of its arguments after the visit, so it does
not go for having lost them. -/
theorem visitCall_of_settled (hkeep : ∀ s, p.keepsInPlugins s = true) (ctx : Context) :
    ∀ c : Call, c.Stays p.rules → c.InnerSettled p.rules → p.visitCall ctx c = pure c
  | ⟨receiver, name, types, args, lambda, style⟩, hstays, hinner => by
      have hstyle : ¬(style != .regular && args.any (·.items.isEmpty)) = true := by
        intro hempty
        simp only [Bool.and_eq_true, bne_iff_ne, Option.any_eq_true, List.isEmpty_iff] at hempty
        obtain ⟨hregular, arguments, harguments, hitems⟩ := hempty
        exact hstays.2 hregular arguments harguments hitems
      rw [visitCall_eq, spare_of_stays hstays, pure_bind]
      simp only
      rw [visitReceiver_of_settled hkeep _ receiver hinner.receiver, pure_bind,
        visitArguments_of_settled hkeep _ args hinner.args, pure_bind, if_neg hstyle,
        visitBlock_of_settled hkeep _ lambda hinner.lambda, pure_bind, spare_of_stays hstays]

theorem visitReceiver_of_settled (hkeep : ∀ s, p.keepsInPlugins s = true) (ctx : Context) :
    ∀ receiver : Option Receiver, (∀ r ∈ receiver, r.target.Settled p.rules) →
      visitPart (p.visitReceiver ctx) receiver = pure receiver
  | none, _ => rfl
  | some ⟨target, dot⟩, h => by
      have htarget : target.Settled p.rules := h ⟨target, dot⟩ rfl
      rw [visitPart, visitReceiver, visitExpr_of_settled hkeep ctx target htarget, pure_bind,
        map_pure]

theorem visitArguments_of_settled (hkeep : ∀ s, p.keepsInPlugins s = true) (ctx : Context) :
    ∀ args : Option Arguments, (∀ a ∈ args, ∀ item ∈ a.items, item.expr.Settled p.rules) →
      visitPart (p.visitArguments ctx) args = pure args
  | none, _ => rfl
  | some ⟨opening, items, closing⟩, h => by
      have hitems : ∀ item ∈ items, item.expr.Settled p.rules := h ⟨opening, items, closing⟩ rfl
      rw [visitPart, visitArguments, visitItems_of_settled hkeep ctx items hitems]
      simp only [total_pure, node_pure_map, count_zero_bind, map_pure]
      rw [Item.sweep_self, List.nil_append]

theorem visitBrackets_of_settled (hkeep : ∀ s, p.keepsInPlugins s = true) (ctx : Context) :
    ∀ brackets : Brackets, (∀ item ∈ brackets.items, item.expr.Settled p.rules) →
      p.visitBrackets ctx brackets = pure brackets
  | ⟨opening, items, closing⟩, h => by
      rw [visitBrackets, visitItems_of_settled hkeep ctx items h]
      simp only [total_pure, node_pure_map, count_zero_bind]
      rw [Item.sweep_self, List.nil_append]

theorem visitItems_of_settled (hkeep : ∀ s, p.keepsInPlugins s = true) (ctx : Context) :
    ∀ items : List Item, (∀ item ∈ items, item.expr.Settled p.rules) →
      p.visitItems ctx items = (items.map Item.expr).map pure
  | [], _ => by
      rw [visitItems]
      rfl
  | ⟨expr, comma⟩ :: rest, h => by
      obtain ⟨hexpr, hrest⟩ := List.forall_mem_cons.1 h
      rw [visitItems, visitExpr_of_settled hkeep ctx expr hexpr,
        visitItems_of_settled hkeep ctx rest hrest]
      rfl

theorem visitBlock_of_settled (hkeep : ∀ s, p.keepsInPlugins s = true) (ctx : Context) :
    ∀ lambda : Option Lambda, (∀ l ∈ lambda, l.Settled p.rules) →
      visitPart (p.visitLambda ctx) lambda = pure lambda
  | none, _ => rfl
  | some lambda, h => by
      rw [visitPart, visitLambda_of_settled hkeep ctx lambda (h lambda rfl), map_pure]

/-- In a block nothing goes, so no trivia are handed on and its end stays where it was. -/
theorem visitLambda_of_settled (hkeep : ∀ s, p.keepsInPlugins s = true) (ctx : Context) :
    ∀ lambda : Lambda, lambda.Settled p.rules → p.visitLambda ctx lambda = pure lambda
  | ⟨opening, params, body, closing⟩, h => by
      have hall : ∀ s, (!ctx.inPlugins || p.keepsInPlugins s) = true := fun s => by
        rw [hkeep s, Bool.or_true]
      rw [visitLambda, visitStatements_of_settled hkeep ctx body h]
      simp only
      rw [Statement.sift_of_keep hall _ _ _ _ (List.length_map _)]
      simp only [total_pure, node_pure_map, Statement.sweep_self, Nat.sub_self, Nat.add_zero,
        count_zero_bind, Token.withLeading_leading]

theorem visitStatement_of_settled (hkeep : ∀ s, p.keepsInPlugins s = true) (ctx : Context) :
    ∀ s : Statement, s.Settled p.rules → p.visitStatement ctx s = pure s
  | .importing path, h => by
      have hrules : p.rules.imports.contains path.qualifiedName = false :=
        Statement.settled_importing.1 h
      rw [visitStatement, hrules]
      rfl
  | .expression expr semicolon, h => by
      rw [visitStatement, visitExpr_of_settled hkeep ctx expr (Statement.settled_expression.1 h),
        pure_bind]
  | .empty semicolon, _ => by rw [visitStatement]

/-- The statements are visited one by one, and each comes back as it was. -/
theorem visitStatements_of_settled (hkeep : ∀ s, p.keepsInPlugins s = true) (ctx : Context) :
    ∀ statements : List Statement, (∀ s ∈ statements, s.Settled p.rules) →
      p.visitStatements ctx statements = statements.map pure
  | [], _ => by
      rw [visitStatements]
      rfl
  | statement :: rest, h => by
      obtain ⟨hstatement, hrest⟩ := List.forall_mem_cons.1 h
      rw [visitStatements, visitStatement_of_settled hkeep ctx statement hstatement,
        visitStatements_of_settled hkeep ctx rest hrest]
      rfl

end

/-! ### Scripts -/

/-- A script of settled statements is left alone by a pruner with its rules. -/
theorem visitScript_of_settled (hkeep : ∀ s, p.keepsInPlugins s = true) (script : Script)
    (h : ∀ s ∈ script.statements, s.Settled p.rules) : p.visitScript script = (script, 0) := by
  rw [visitScript, visitStatements_of_settled hkeep {} script.statements h]
  simp only [total_pure, node_pure_map, Statement.sweep_self]

/-- A second visit with the same rules finds nothing: it gives back the same script and removes
nothing.

What a first visit leaves is settled (`settled_visitScript`), and settled scripts are left alone. -/
theorem visitScript_idempotent (rules : RuleSet) (script : Script) :
    visitScript { rules } (visitScript { rules } script).1 =
      ((visitScript { rules } script).1, 0) :=
  visitScript_of_settled (fun _ => rfl) _ (settled_visitScript _ script)

end BuildPrune.Pruner
