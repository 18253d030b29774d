import BuildPrune.Proofs.NodeTokens
import BuildPrune.Pruning

/-!
# BuildPrune.Proofs.Settled

Trees in which a rule set finds nothing more to remove. A tree is settled if each of its calls stays
and each of its imports does, at any depth; this says nothing of how the tree was visited.

* `Expr.imports` and its siblings collect the imports at any depth, as `Expr.calls` collects the
  calls. The arguments of annotations, which no visit enters, are searched on request only.
* `Call.Stays`, `Import.Stays`: there is no reason to remove the call, nor has it lost the arguments
  that its style needs; the import is in no rule.
* `Expr.settled_withLeading`: rules do not look at the trivia in front of a node, so a settled node
  stays settled whatever trivia it is given.
-/

namespace BuildPrune

/-! ### Imports at any depth

Imports are statements, and so they can stand in every block. They are collected like calls, by
recursion on the tree. -/

/-- The imports of a place, if it is searched. -/
def importsIf (searched : Bool) (imports : List Import) : List Import :=
  if searched then imports else []

@[simp] theorem importsIf_false (imports : List Import) : importsIf false imports = [] := rfl

mutual

/-- The imports in an expression. `inAnnotations` says whether the arguments of annotations are
searched. -/
def Expr.imports (inAnnotations : Bool) : Expr → List Import
  | .atom _ => []
  | .call call => call.imports inAnnotations
  | .lambda lambda => lambda.imports inAnnotations
  | .annotated _ _ args expr =>
    (match args with
      | none => []
      | some args => importsIf inAnnotations (args.imports inAnnotations)) ++
    (match expr with
      | none => []
      | some expr => expr.imports inAnnotations)
  | .field target _ _ => target.imports inAnnotations
  | .paren _ inner _ => inner.imports inAnnotations
  | .index target brackets => target.imports inAnnotations ++ brackets.imports inAnnotations
  | .binary left _ right => left.imports inAnnotations ++ right.imports inAnnotations
  | .prefixed _ operand => operand.imports inAnnotations
  | .postfixed operand _ => operand.imports inAnnotations
  | .list brackets => brackets.imports inAnnotations
  | .sequence head tail => head.imports inAnnotations ++ Expr.listImports inAnnotations tail

/-- The imports in expressions side by side. -/
def Expr.listImports (inAnnotations : Bool) : List Expr → List Import
  | [] => []
  | expr :: rest => expr.imports inAnnotations ++ Expr.listImports inAnnotations rest

/-- The imports in the receiver, the arguments and the lambda of a call. -/
def Call.imports (inAnnotations : Bool) : Call → List Import
  | ⟨receiver, _, _, args, lambda, _⟩ =>
    (match receiver with
      | none => []
      | some receiver => receiver.imports inAnnotations) ++
    (match args with
      | none => []
      | some args => args.imports inAnnotations) ++
    (match lambda with
      | none => []
      | some lambda => lambda.imports inAnnotations)

/-- The imports in a receiver. -/
def Receiver.imports (inAnnotations : Bool) : Receiver → List Import
  | ⟨target, _⟩ => target.imports inAnnotations

/-- The imports in an argument list. -/
def Arguments.imports (inAnnotations : Bool) : Arguments → List Import
  | ⟨_, items, _⟩ => Item.listImports inAnnotations items

/-- The imports in a bracketed list. -/
def Brackets.imports (inAnnotations : Bool) : Brackets → List Import
  | ⟨_, items, _⟩ => Item.listImports inAnnotations items

/-- The imports in an item. -/
def Item.imports (inAnnotations : Bool) : Item → List Import
  | ⟨expr, _⟩ => expr.imports inAnnotations

/-- The imports in a list of items. -/
def Item.listImports (inAnnotations : Bool) : List Item → List Import
  | [] => []
  | item :: rest => item.imports inAnnotations ++ Item.listImports inAnnotations rest

/-- The imports in the body of a lambda. -/
def Lambda.imports (inAnnotations : Bool) : Lambda → List Import
  | ⟨_, _, body, _⟩ => Statement.listImports inAnnotations body

/-- The imports in a statement, itself among them. -/
def Statement.imports (inAnnotations : Bool) : Statement → List Import
  | .importing path => [path]
  | .expression expr _ => expr.imports inAnnotations
  | .empty _ => []

/-- The imports in a list of statements. -/
def Statement.listImports (inAnnotations : Bool) : List Statement → List Import
  | [] => []
  | statement :: rest =>
    statement.imports inAnnotations ++ Statement.listImports inAnnotations rest

end

/-- Every import in a script, at any depth. -/
def Script.deepImports (inAnnotations : Bool) (script : Script) : List Import :=
  Statement.listImports inAnnotations script.statements

/-! ### What stays -/

/-- There is no reason to remove the call and, if it has no parentheses, it has an argument. -/
def Call.Stays (rules : RuleSet) (call : Call) : Prop :=
  call.removalReason rules = none ∧
    (call.style ≠ .regular → ∀ args ∈ call.args, args.items ≠ [])

/-- No rule is against the import. -/
def Import.Stays (rules : RuleSet) (path : Import) : Prop :=
  rules.imports.contains path.qualifiedName = false

/-- These calls and imports all stay. -/
def Settled (rules : RuleSet) (calls : List Call) (imports : List Import) : Prop :=
  (∀ call ∈ calls, call.Stays rules) ∧ ∀ path ∈ imports, path.Stays rules

namespace Settled

variable {rules : RuleSet} {calls moreCalls : List Call} {imports moreImports : List Import}

/-- Where there are no calls and no imports, nothing is to be removed. -/
@[simp] theorem nil : Settled rules [] [] := by
  simp [Settled]

/-- Two parts of a tree are settled together if each is. So settledness is told from the parts of a
node, and each part can be visited by itself. -/
@[simp] theorem append_iff :
    Settled rules (calls ++ moreCalls) (imports ++ moreImports) ↔
      Settled rules calls imports ∧ Settled rules moreCalls moreImports := by
  simp only [Settled, List.forall_mem_append]
  constructor
  · rintro ⟨⟨hcalls, hmoreCalls⟩, himports, hmoreImports⟩
    exact ⟨⟨hcalls, himports⟩, hmoreCalls, hmoreImports⟩
  · rintro ⟨⟨hcalls, himports⟩, hmoreCalls, hmoreImports⟩
    exact ⟨⟨hcalls, hmoreCalls⟩, himports, hmoreImports⟩

/-- A call in front of others stays for a reason of its own, whatever the others are. -/
@[simp] theorem cons_call_iff {call : Call} :
    Settled rules (call :: calls) imports ↔ call.Stays rules ∧ Settled rules calls imports := by
  simp [Settled, and_assoc]

end Settled

/-- The expression holds nothing that has to go. -/
def Expr.Settled (rules : RuleSet) (e : Expr) : Prop :=
  BuildPrune.Settled rules e.calls (e.imports false)

/-- The statement holds nothing that has to go. -/
def Statement.Settled (rules : RuleSet) (s : Statement) : Prop :=
  BuildPrune.Settled rules s.calls (s.imports false)

variable {rules : RuleSet}

/-! ### Settled lists -/

/-- A list of items is settled if the expression of each is. Together with its siblings for
expressions and statements, this turns the collected calls and imports back into the lists of the
tree. -/
theorem settled_items_iff {items : List Item} :
    Settled rules (Item.listCalls items) (Item.listImports false items) ↔
      ∀ item ∈ items, item.expr.Settled rules := by
  induction items with
  | nil => simp [Item.listCalls, Item.listImports]
  | cons item rest ih =>
      obtain ⟨expr, comma⟩ := item
      simp [Item.listCalls, Item.listImports, Item.calls, Item.imports, ih, Expr.Settled]

theorem settled_exprs_iff {exprs : List Expr} :
    Settled rules (Expr.listCalls exprs) (Expr.listImports false exprs) ↔
      ∀ expr ∈ exprs, expr.Settled rules := by
  induction exprs with
  | nil => simp [Expr.listCalls, Expr.listImports]
  | cons expr rest ih => simp [Expr.listCalls, Expr.listImports, ih, Expr.Settled]

theorem settled_statements_iff {statements : List Statement} :
    Settled rules (Statement.listCalls statements) (Statement.listImports false statements) ↔
      ∀ statement ∈ statements, statement.Settled rules := by
  induction statements with
  | nil => simp [Statement.listCalls, Statement.listImports]
  | cons statement rest ih =>
      simp [Statement.listCalls, Statement.listImports, ih, Statement.Settled]

/-! ### Settled nodes

For each kind of node, that it is settled is what has to be known of the node and the same of its
parts. Proofs about visits rewrite with these and do not look at the lists of calls and imports.
-/

attribute [local simp] Expr.calls Expr.imports

/-- A lambda is settled if the statements of its body are. -/
def Lambda.Settled (rules : RuleSet) (lambda : Lambda) : Prop :=
  ∀ statement ∈ lambda.body, statement.Settled rules

/-- What is inside a call is settled: its receiver, its arguments and its lambda. The call itself is
another matter. -/
structure Call.InnerSettled (rules : RuleSet) (call : Call) : Prop where
  receiver : ∀ receiver ∈ call.receiver, receiver.target.Settled rules
  args : ∀ args ∈ call.args, ∀ item ∈ args.items, item.expr.Settled rules
  lambda : ∀ lambda ∈ call.lambda, lambda.Settled rules

/-- A block is settled if the statements of its body are: its parameters hold neither calls nor
imports. -/
theorem settled_lambda_iff {lambda : Lambda} :
    Settled rules lambda.calls (lambda.imports false) ↔ lambda.Settled rules := by
  obtain ⟨opening, params, body, closing⟩ := lambda
  rw [Lambda.calls, Lambda.imports, settled_statements_iff, Lambda.Settled]

/-- What is inside a call is settled apart from the call itself: its receiver, its arguments and its
block. -/
theorem innerSettled_iff {call : Call} :
    Settled rules call.innerCalls (call.imports false) ↔ call.InnerSettled rules := by
  obtain ⟨receiver, name, types, args, lambda, style⟩ := call
  have hreceiver : ∀ r : Receiver, Settled rules r.calls (r.imports false) ↔
      r.target.Settled rules := by
    rintro ⟨target, dot⟩
    rw [Receiver.calls, Receiver.imports, Expr.Settled]
  have hargs : ∀ a : Arguments, Settled rules a.calls (a.imports false) ↔
      ∀ item ∈ a.items, item.expr.Settled rules := by
    rintro ⟨opening, items, closing⟩
    rw [Arguments.calls, Arguments.imports, settled_items_iff]
  have hfields : Call.InnerSettled rules ⟨receiver, name, types, args, lambda, style⟩ ↔
      (∀ r ∈ receiver, r.target.Settled rules) ∧
        (∀ a ∈ args, ∀ item ∈ a.items, item.expr.Settled rules) ∧
        ∀ l ∈ lambda, l.Settled rules := by
    constructor
    · rintro ⟨hr, ha, hl⟩
      exact ⟨hr, ha, hl⟩
    · rintro ⟨hr, ha, hl⟩
      exact ⟨hr, ha, hl⟩
  rw [hfields]
  cases receiver <;> cases args <;> cases lambda <;>
    simp [Call.innerCalls, Call.imports, hreceiver, hargs, settled_lambda_iff]

namespace Expr

@[simp] theorem settled_atom {token : Token} : (Expr.atom token).Settled rules := by
  simp [Expr.Settled]

/-- A call is settled if no rule removes it and what is inside is settled. This is the one node for
which the rules are asked. -/
@[simp] theorem settled_call {call : Call} :
    (Expr.call call).Settled rules ↔ call.Stays rules ∧ call.InnerSettled rules := by
  simp [Expr.Settled, innerSettled_iff]

@[simp] theorem settled_lambda {lambda : Lambda} :
    (Expr.lambda lambda).Settled rules ↔ lambda.Settled rules := by
  rw [Expr.Settled, Expr.calls, Expr.imports, settled_lambda_iff]

/-- The arguments of an annotation are not visited, so they are settled whatever is in them; only
the annotated expression counts. -/
@[simp] theorem settled_annotated {marker : Token} {name : List Token} {args : Option Arguments}
    {expr : Option Expr} :
    (Expr.annotated marker name args expr).Settled rules ↔ ∀ e ∈ expr, e.Settled rules := by
  cases args <;> cases expr <;> simp [Expr.Settled]

@[simp] theorem settled_field {target : Expr} {dot name : Token} :
    (Expr.field target dot name).Settled rules ↔ target.Settled rules := by
  simp [Expr.Settled]

@[simp] theorem settled_paren {opening closing : Token} {inner : Expr} :
    (Expr.paren opening inner closing).Settled rules ↔ inner.Settled rules := by
  simp [Expr.Settled]

@[simp] theorem settled_list {brackets : Brackets} :
    (Expr.list brackets).Settled rules ↔ ∀ item ∈ brackets.items, item.expr.Settled rules := by
  obtain ⟨opening, items, closing⟩ := brackets
  simp [Expr.Settled, Brackets.calls, Brackets.imports, settled_items_iff]

@[simp] theorem settled_index {target : Expr} {brackets : Brackets} :
    (Expr.index target brackets).Settled rules ↔
      target.Settled rules ∧ ∀ item ∈ brackets.items, item.expr.Settled rules := by
  obtain ⟨opening, items, closing⟩ := brackets
  simp [Expr.Settled, Brackets.calls, Brackets.imports, settled_items_iff]

@[simp] theorem settled_binary {left right : Expr} {op : Token} :
    (Expr.binary left op right).Settled rules ↔ left.Settled rules ∧ right.Settled rules := by
  simp [Expr.Settled]

@[simp] theorem settled_prefixed {op : Token} {operand : Expr} :
    (Expr.prefixed op operand).Settled rules ↔ operand.Settled rules := by
  simp [Expr.Settled]

@[simp] theorem settled_postfixed {op : Token} {operand : Expr} :
    (Expr.postfixed operand op).Settled rules ↔ operand.Settled rules := by
  simp [Expr.Settled]

/-- A sequence is settled entry by entry. Whether an entry is the body of a header makes no
difference to that. -/
@[simp] theorem settled_sequence {head : Expr} {tail : List Expr} :
    (Expr.sequence head tail).Settled rules ↔
      head.Settled rules ∧ ∀ expr ∈ tail, expr.Settled rules := by
  rw [Expr.Settled, Expr.calls, Expr.imports, Settled.append_iff, settled_exprs_iff, ← Expr.Settled]

end Expr

namespace Statement

@[simp] theorem settled_importing {path : Import} :
    (Statement.importing path).Settled rules ↔ path.Stays rules := by
  simp [Statement.Settled, Statement.calls, Statement.imports, BuildPrune.Settled]

@[simp] theorem settled_expression {expr : Expr} {semicolon : Option Token} :
    (Statement.expression expr semicolon).Settled rules ↔ expr.Settled rules := by
  simp [Statement.Settled, Statement.calls, Statement.imports, Expr.Settled]

@[simp] theorem settled_empty {semicolon : Token} :
    (Statement.empty semicolon).Settled rules := by
  simp [Statement.Settled, Statement.calls, Statement.imports]

end Statement

/-! ### Trivia in front of a node does not count

A rule looks at the name of a call, at what it is made on and at its first argument. It compares
texts of tokens, and trivia is none of them. -/

theorem Expr.call?_withLeading (e : Expr) (leading : String) :
    (e.withLeading leading).call? = e.call?.map (·.withLeading leading) := by
  cases e <;> simp [Expr.withLeading, Expr.call?]

theorem Call.items_withLeading (c : Call) (leading : String) :
    (c.withLeading leading).items = c.items := by
  obtain ⟨receiver, name, types, args, lambda, style⟩ := c
  cases receiver <;> simp [Call.withLeading, Call.items]

theorem Call.firstArgumentIn_withLeading (c : Call) (leading : String) (texts : List String) :
    (c.withLeading leading).firstArgumentIn texts = c.firstArgumentIn texts := by
  rw [Call.firstArgumentIn, Call.firstArgumentIn, Call.items_withLeading]

/-- Trivia in front of a call are in front of its receiver, so the call on which it is made has them
too. -/
theorem Call.receiverCall?_withLeading (c : Call) (leading : String) :
    (c.withLeading leading).receiverCall? = c.receiverCall?.map (·.withLeading leading) := by
  obtain ⟨receiver, name, types, args, lambda, style⟩ := c
  cases receiver with
  | none => rfl
  | some receiver =>
      obtain ⟨target, dot⟩ := receiver
      simp [Call.withLeading, Call.receiverCall?, Receiver.withLeading, Expr.call?_withLeading]

/-- No rule looks at trivia in front of a call: names, arguments and types are compared without
them.

An edit that hands trivia on to the next entry therefore changes no decision about that entry. -/
@[simp] theorem Call.removalReason_withLeading (c : Call) (leading : String) (rules : RuleSet) :
    (c.withLeading leading).removalReason rules = c.removalReason rules := by
  have hname : (c.withLeading leading).name.text = c.name.text := by
    obtain ⟨receiver, name, types, args, lambda, style⟩ := c
    cases receiver <;> rfl
  have htypes : (c.withLeading leading).typeParameters = c.typeParameters := by
    obtain ⟨receiver, name, types, args, lambda, style⟩ := c
    cases receiver <;> rfl
  simp [Call.removalReason, hname, htypes, Call.firstArgumentIn_withLeading,
    Call.receiverCall?_withLeading, Option.any_map]

@[simp] theorem Call.stays_withLeading {c : Call} {leading : String} :
    (c.withLeading leading).Stays rules ↔ c.Stays rules := by
  obtain ⟨receiver, name, types, args, lambda, style⟩ := c
  rw [Call.Stays, Call.removalReason_withLeading]
  cases receiver <;> rfl

mutual

/-- Other trivia in front of an expression leave it settled or not. The induction goes down the
first child of each node, which is the one that has the trivia. -/
theorem Expr.settled_withLeading (leading : String) : ∀ e : Expr,
    (e.withLeading leading).Settled rules ↔ e.Settled rules
  | .atom _ => by simp [Expr.withLeading]
  | .call call => by
      simp [Expr.withLeading, Call.innerSettled_withLeading leading call]
  | .lambda ⟨_, _, _, _⟩ => by simp [Expr.withLeading, Lambda.Settled]
  | .annotated _ _ _ _ => by simp [Expr.withLeading]
  | .paren _ _ _ => by simp [Expr.withLeading]
  | .prefixed _ _ => by simp [Expr.withLeading]
  | .list ⟨_, _, _⟩ => by simp [Expr.withLeading]
  | .field target _ _ | .index target _ | .binary target _ _ | .postfixed target _
  | .sequence target _ => by
      simp [Expr.withLeading, Expr.settled_withLeading leading target]

theorem Call.innerSettled_withLeading (leading : String) : ∀ c : Call,
    (c.withLeading leading).InnerSettled rules ↔ c.InnerSettled rules
  | ⟨none, _, _, _, _, _⟩ =>
      ⟨fun h => ⟨h.receiver, h.args, h.lambda⟩, fun h => ⟨h.receiver, h.args, h.lambda⟩⟩
  | ⟨some ⟨target, dot⟩, _, _, _, _, _⟩ => by
      have htarget := Expr.settled_withLeading leading target
      constructor
      · intro h
        refine ⟨?_, h.args, h.lambda⟩
        rintro receiver ⟨⟩
        exact htarget.1 (h.receiver _ rfl)
      · intro h
        refine ⟨?_, h.args, h.lambda⟩
        rintro receiver ⟨⟩
        exact htarget.2 (h.receiver _ rfl)

end

theorem Statement.settled_withLeading (leading : String) (s : Statement) :
    (s.withLeading leading).Settled rules ↔ s.Settled rules := by
  cases s with
  | importing path => simp [Statement.withLeading, Import.Stays, Import.qualifiedName]
  | expression expr semicolon => simp [Statement.withLeading, Expr.settled_withLeading]
  | empty semicolon => simp [Statement.withLeading]

end BuildPrune
