import BuildPrune.Proofs.NodeTokens
import BuildPrune.Pruning

/-!
# BuildPrune.Proofs.Occurrences

The expressions of a tree, each where it stands. `Expr.occurrences` lists an expression and all that
is inside it, the arguments of annotations not left out, and says for each the context in which a
visit enters it. A property of a tree is then one of its occurrences (`Expr.Every`), and it is taken
apart constructor by constructor (`Expr.every_call` and its siblings), so that proofs about trees do
not open the list.
-/

namespace BuildPrune

/-- An expression of a tree and the context in which a visit enters it. There is none inside the
arguments of an annotation: no visit enters these. -/
structure Occurrence where
  within : Option Context
  expr : Expr

mutual

/-- The expression where it stands, and then all that is inside it, in the order of the text. In the
arguments of an annotation there is no context, as no visit enters them. -/
@[simp] def Expr.occurrences (ctx : Option Context) : Expr → List Occurrence
  | .atom token => [⟨ctx, .atom token⟩]
  | .call call => ⟨ctx, .call call⟩ :: call.occurrences (ctx.map (·.entering call))
  | .lambda lambda => ⟨ctx, .lambda lambda⟩ :: lambda.occurrences ctx
  | .annotated marker name args expr =>
    ⟨ctx, .annotated marker name args expr⟩ ::
      ((match args with
        | none => []
        | some args => args.occurrences none) ++
      (match expr with
        | none => []
        | some expr => expr.occurrences ctx))
  | .field target dot name => ⟨ctx, .field target dot name⟩ :: target.occurrences ctx
  | .paren opening inner closing => ⟨ctx, .paren opening inner closing⟩ :: inner.occurrences ctx
  | .index target brackets =>
    ⟨ctx, .index target brackets⟩ :: (target.occurrences ctx ++ brackets.occurrences ctx)
  | .binary left op right =>
    ⟨ctx, .binary left op right⟩ :: (left.occurrences ctx ++ right.occurrences ctx)
  | .prefixed op operand => ⟨ctx, .prefixed op operand⟩ :: operand.occurrences ctx
  | .postfixed operand op => ⟨ctx, .postfixed operand op⟩ :: operand.occurrences ctx
  | .list brackets => ⟨ctx, .list brackets⟩ :: brackets.occurrences ctx
  | .sequence head tail =>
    ⟨ctx, .sequence head tail⟩ :: (head.occurrences ctx ++ Expr.listOccurrences ctx tail)

/-- What is inside expressions side by side. -/
@[simp] def Expr.listOccurrences (ctx : Option Context) : List Expr → List Occurrence
  | [] => []
  | expr :: rest => expr.occurrences ctx ++ Expr.listOccurrences ctx rest

/-- What is inside a call. -/
@[simp] def Call.occurrences (ctx : Option Context) : Call → List Occurrence
  | ⟨receiver, _, _, args, lambda, _⟩ =>
    (match receiver with
      | none => []
      | some receiver => receiver.occurrences ctx) ++
    (match args with
      | none => []
      | some args => args.occurrences ctx) ++
    (match lambda with
      | none => []
      | some lambda => lambda.occurrences ctx)

/-- What is inside a receiver. -/
@[simp] def Receiver.occurrences (ctx : Option Context) : Receiver → List Occurrence
  | ⟨target, _⟩ => target.occurrences ctx

/-- What is inside an argument list. -/
@[simp] def Arguments.occurrences (ctx : Option Context) : Arguments → List Occurrence
  | ⟨_, items, _⟩ => Item.listOccurrences ctx items

/-- What is inside a bracketed list. -/
@[simp] def Brackets.occurrences (ctx : Option Context) : Brackets → List Occurrence
  | ⟨_, items, _⟩ => Item.listOccurrences ctx items

/-- What is inside a list of items. -/
@[simp] def Item.listOccurrences (ctx : Option Context) : List Item → List Occurrence
  | [] => []
  | ⟨expr, _⟩ :: rest => expr.occurrences ctx ++ Item.listOccurrences ctx rest

/-- What is inside a lambda. -/
@[simp] def Lambda.occurrences (ctx : Option Context) : Lambda → List Occurrence
  | ⟨_, _, body, _⟩ => Statement.listOccurrences ctx body

/-- What is inside a statement. -/
@[simp] def Statement.occurrences (ctx : Option Context) : Statement → List Occurrence
  | .importing _ => []
  | .expression expr _ => expr.occurrences ctx
  | .empty _ => []

/-- What is inside a list of statements. -/
@[simp] def Statement.listOccurrences (ctx : Option Context) : List Statement → List Occurrence
  | [] => []
  | statement :: rest => statement.occurrences ctx ++ Statement.listOccurrences ctx rest

end

/-- Every expression of a script, where it stands. -/
def Script.occurrences (script : Script) : List Occurrence :=
  Statement.listOccurrences (some {}) script.statements

/-! ### Properties of all occurrences

For each kind of node, that a property holds everywhere in it is the property of the node and the
same for its parts. These lemmas are rewritten with, so that the lists of occurrences stay closed.
-/

variable {P Q : Option Context → Expr → Prop} {ctx : Option Context}

/-- The property holds of the expression where it stands, and of all that is inside it. -/
def Expr.Every (P : Option Context → Expr → Prop) (ctx : Option Context) (e : Expr) : Prop :=
  ∀ o ∈ e.occurrences ctx, P o.within o.expr

/-- The property holds of everything in the statement. -/
def Statement.Every (P : Option Context → Expr → Prop) (ctx : Option Context) (s : Statement) :
    Prop :=
  ∀ o ∈ s.occurrences ctx, P o.within o.expr

/-- The property holds of everything in the items. -/
def Item.ListEvery (P : Option Context → Expr → Prop) (ctx : Option Context) (items : List Item) :
    Prop :=
  ∀ item ∈ items, item.expr.Every P ctx

/-- The property holds of everything in the body of the lambda. -/
def Lambda.Every (P : Option Context → Expr → Prop) (ctx : Option Context) (lambda : Lambda) :
    Prop :=
  ∀ s ∈ lambda.body, s.Every P ctx

/-- The property holds of everything in the parts of a call: what it is made on, its arguments and
its lambda. -/
structure Call.EveryInner (P : Option Context → Expr → Prop) (ctx : Option Context) (call : Call) :
    Prop where
  receiver : ∀ receiver ∈ call.receiver, receiver.target.Every P ctx
  args : ∀ args ∈ call.args, Item.ListEvery P ctx args.items
  lambda : ∀ lambda ∈ call.lambda, lambda.Every P ctx

/-- The property holds of everything in the script. -/
def Script.Every (P : Option Context → Expr → Prop) (script : Script) : Prop :=
  ∀ o ∈ script.occurrences, P o.within o.expr

/-- What holds of all occurrences in a list of expressions holds in each of them. From here on
properties are taken apart along the tree, and the list of occurrences is not opened again. -/
theorem Expr.forall_mem_listOccurrences {exprs : List Expr} :
    (∀ o ∈ Expr.listOccurrences ctx exprs, P o.within o.expr) ↔ ∀ e ∈ exprs, e.Every P ctx := by
  induction exprs with
  | nil => simp [Expr.listOccurrences]
  | cons expr rest ih =>
      rw [Expr.listOccurrences, List.forall_mem_append, ih, List.forall_mem_cons, ← Expr.Every]

theorem Item.forall_mem_listOccurrences {items : List Item} :
    (∀ o ∈ Item.listOccurrences ctx items, P o.within o.expr) ↔ Item.ListEvery P ctx items := by
  induction items with
  | nil => simp [Item.listOccurrences, Item.ListEvery]
  | cons item rest ih =>
      obtain ⟨expr, comma⟩ := item
      rw [Item.listOccurrences, List.forall_mem_append, ih, Item.ListEvery, Item.ListEvery,
        List.forall_mem_cons, ← Expr.Every]

/-- Imports and lone semicolons have no occurrences, so for a list of statements only the
expressions count. -/
theorem Statement.forall_mem_listOccurrences {statements : List Statement} :
    (∀ o ∈ Statement.listOccurrences ctx statements, P o.within o.expr) ↔
      ∀ s ∈ statements, s.Every P ctx := by
  induction statements with
  | nil => simp [Statement.listOccurrences]
  | cons statement rest ih =>
      rw [Statement.listOccurrences, List.forall_mem_append, ih, List.forall_mem_cons,
        ← Statement.Every]

/-- In a script the statements are in the context in which a visit starts. -/
theorem Script.every_iff {script : Script} :
    script.Every P ↔ ∀ s ∈ script.statements, s.Every P (some {}) := by
  rw [Script.Every, Script.occurrences, Statement.forall_mem_listOccurrences]

theorem Lambda.forall_mem_occurrences {lambda : Lambda} :
    (∀ o ∈ lambda.occurrences ctx, P o.within o.expr) ↔ lambda.Every P ctx := by
  obtain ⟨opening, params, body, closing⟩ := lambda
  rw [Lambda.occurrences, Statement.forall_mem_listOccurrences, Lambda.Every]

theorem Arguments.forall_mem_occurrences {args : Arguments} :
    (∀ o ∈ args.occurrences ctx, P o.within o.expr) ↔ Item.ListEvery P ctx args.items := by
  obtain ⟨opening, items, closing⟩ := args
  rw [Arguments.occurrences, Item.forall_mem_listOccurrences]

theorem Brackets.forall_mem_occurrences {brackets : Brackets} :
    (∀ o ∈ brackets.occurrences ctx, P o.within o.expr) ↔
      Item.ListEvery P ctx brackets.items := by
  obtain ⟨opening, items, closing⟩ := brackets
  rw [Brackets.occurrences, Item.forall_mem_listOccurrences]

theorem Receiver.forall_mem_occurrences {receiver : Receiver} :
    (∀ o ∈ receiver.occurrences ctx, P o.within o.expr) ↔ receiver.target.Every P ctx := by
  obtain ⟨target, dot⟩ := receiver
  rw [Receiver.occurrences, Expr.Every]

/-- What is inside a call is seen from the context that it is handed: the call itself is entered by
whoever comes upon it. -/
theorem Call.forall_mem_occurrences {call : Call} :
    (∀ o ∈ call.occurrences ctx, P o.within o.expr) ↔ call.EveryInner P ctx := by
  obtain ⟨receiver, name, types, args, lambda, style⟩ := call
  have hfields : Call.EveryInner P ctx ⟨receiver, name, types, args, lambda, style⟩ ↔
      (∀ r ∈ receiver, r.target.Every P ctx) ∧ (∀ a ∈ args, Item.ListEvery P ctx a.items) ∧
        ∀ l ∈ lambda, l.Every P ctx := by
    constructor
    · rintro ⟨hr, ha, hl⟩
      exact ⟨hr, ha, hl⟩
    · rintro ⟨hr, ha, hl⟩
      exact ⟨hr, ha, hl⟩
  rw [hfields]
  cases receiver <;> cases args <;> cases lambda <;>
    simp [Call.occurrences, or_imp, forall_and, Receiver.forall_mem_occurrences,
      Arguments.forall_mem_occurrences, Lambda.forall_mem_occurrences]

namespace Expr

@[simp] theorem every_atom {token : Token} :
    (Expr.atom token).Every P ctx ↔ P ctx (.atom token) := by
  simp [Expr.Every, Expr.occurrences]

/-- A call is an occurrence of its own, in the context outside; what is inside is seen from the
context that the call opens. -/
@[simp] theorem every_call {call : Call} :
    (Expr.call call).Every P ctx ↔
      P ctx (.call call) ∧ call.EveryInner P (ctx.map (·.entering call)) := by
  rw [Expr.Every, Expr.occurrences, List.forall_mem_cons, Call.forall_mem_occurrences]

@[simp] theorem every_lambda {lambda : Lambda} :
    (Expr.lambda lambda).Every P ctx ↔ P ctx (.lambda lambda) ∧ lambda.Every P ctx := by
  rw [Expr.Every, Expr.occurrences, List.forall_mem_cons, Lambda.forall_mem_occurrences]

/-- The arguments of an annotation are in no context, because no visit comes there. The annotated
expression is in that of the annotation. -/
@[simp] theorem every_annotated {marker : Token} {name : List Token} {args : Option Arguments}
    {expr : Option Expr} :
    (Expr.annotated marker name args expr).Every P ctx ↔
      P ctx (.annotated marker name args expr) ∧
        (∀ a ∈ args, Item.ListEvery P none a.items) ∧ ∀ e ∈ expr, e.Every P ctx := by
  cases args <;> cases expr <;>
    simp [Expr.Every, Expr.occurrences, or_imp, forall_and, Arguments.forall_mem_occurrences]

@[simp] theorem every_field {target : Expr} {dot name : Token} :
    (Expr.field target dot name).Every P ctx ↔
      P ctx (.field target dot name) ∧ target.Every P ctx := by
  rw [Expr.Every, Expr.occurrences, List.forall_mem_cons, ← Expr.Every]

@[simp] theorem every_paren {opening closing : Token} {inner : Expr} :
    (Expr.paren opening inner closing).Every P ctx ↔
      P ctx (.paren opening inner closing) ∧ inner.Every P ctx := by
  rw [Expr.Every, Expr.occurrences, List.forall_mem_cons, ← Expr.Every]

@[simp] theorem every_index {target : Expr} {brackets : Brackets} :
    (Expr.index target brackets).Every P ctx ↔
      P ctx (.index target brackets) ∧ target.Every P ctx ∧
        Item.ListEvery P ctx brackets.items := by
  rw [Expr.Every, Expr.occurrences, List.forall_mem_cons, List.forall_mem_append,
    Brackets.forall_mem_occurrences, ← Expr.Every]

@[simp] theorem every_binary {left right : Expr} {op : Token} :
    (Expr.binary left op right).Every P ctx ↔
      P ctx (.binary left op right) ∧ left.Every P ctx ∧ right.Every P ctx := by
  rw [Expr.Every, Expr.occurrences, List.forall_mem_cons, List.forall_mem_append, ← Expr.Every,
    ← Expr.Every]

@[simp] theorem every_prefixed {op : Token} {operand : Expr} :
    (Expr.prefixed op operand).Every P ctx ↔
      P ctx (.prefixed op operand) ∧ operand.Every P ctx := by
  rw [Expr.Every, Expr.occurrences, List.forall_mem_cons, ← Expr.Every]

@[simp] theorem every_postfixed {op : Token} {operand : Expr} :
    (Expr.postfixed operand op).Every P ctx ↔
      P ctx (.postfixed operand op) ∧ operand.Every P ctx := by
  rw [Expr.Every, Expr.occurrences, List.forall_mem_cons, ← Expr.Every]

@[simp] theorem every_list {brackets : Brackets} :
    (Expr.list brackets).Every P ctx ↔
      P ctx (.list brackets) ∧ Item.ListEvery P ctx brackets.items := by
  rw [Expr.Every, Expr.occurrences, List.forall_mem_cons, Brackets.forall_mem_occurrences]

/-- The entries of a sequence are in its context, and so is the sequence itself. -/
@[simp] theorem every_sequence {head : Expr} {tail : List Expr} :
    (Expr.sequence head tail).Every P ctx ↔
      P ctx (.sequence head tail) ∧ head.Every P ctx ∧ ∀ e ∈ tail, e.Every P ctx := by
  rw [Expr.Every, Expr.occurrences, List.forall_mem_cons, List.forall_mem_append,
    Expr.forall_mem_listOccurrences, ← Expr.Every]

end Expr

namespace Statement

@[simp] theorem every_importing {path : Import} : (Statement.importing path).Every P ctx := by
  simp [Statement.Every, Statement.occurrences]

@[simp] theorem every_expression {expr : Expr} {semicolon : Option Token} :
    (Statement.expression expr semicolon).Every P ctx ↔ expr.Every P ctx := by
  rw [Statement.Every, Statement.occurrences, Expr.Every]

@[simp] theorem every_empty {semicolon : Token} : (Statement.empty semicolon).Every P ctx := by
  simp [Statement.Every, Statement.occurrences]

end Statement

/-! ### From one property to another -/

/-- What holds of all occurrences in an expression holds of the expression, which is the first of
them. -/
theorem Expr.Every.self {e : Expr} (h : e.Every P ctx) : P ctx e := by
  cases e <;> simp at h <;> first | exact h | exact h.1

/-- A property may be weakened occurrence by occurrence. -/
theorem Script.Every.mono {script : Script} (h : script.Every P) (hPQ : ∀ ctx e, P ctx e → Q ctx e) :
    script.Every Q := by
  intro o ho
  exact hPQ _ _ (h o ho)

theorem Item.ListEvery.mono {items : List Item} (h : Item.ListEvery P ctx items)
    (hPQ : ∀ ctx e, P ctx e → Q ctx e) : Item.ListEvery Q ctx items := by
  intro item hitem o ho
  exact hPQ _ _ (h item hitem o ho)

/-! ### Trivia in front of a node

A node with other trivia in front has the same parts. Only the node and the parts that it begins
with are others, so a property that does not look at that trivia holds of them as well. -/

/-- What a call opens for its parts depends on the text of its name, and not on the trivia in front
of it. -/
theorem Context.entering_withLeading (ctx : Context) (call : Call) (leading : String) :
    ctx.entering (call.withLeading leading) = ctx.entering call := by
  obtain ⟨receiver, name, types, args, lambda, style⟩ := call
  cases receiver <;> rfl

mutual

/-- If a property does not depend on trivia in front, it holds of all occurrences after other trivia
were put in front of the expression.

Only the occurrences along the first child change by that, and for these the property is asked to be
kept (`hplaced`). -/
theorem Expr.Every.withLeading (hplaced : ∀ ctx e leading, P ctx e → P ctx (e.withLeading leading))
    (leading : String) : ∀ (e : Expr) {ctx : Option Context}, e.Every P ctx →
      (e.withLeading leading).Every P ctx
  | .atom token, ctx, h => by
      have hself := hplaced ctx _ leading h.self
      rw [Expr.withLeading] at hself ⊢
      exact Expr.every_atom.2 hself
  | .call call, ctx, h => by
      have hself := hplaced ctx _ leading h.self
      rw [Expr.withLeading] at hself ⊢
      refine Expr.every_call.2 ⟨hself, ?_⟩
      simp only [Context.entering_withLeading]
      exact Call.EveryInner.withLeading hplaced leading call (Expr.every_call.1 h).2
  | .lambda lambda, ctx, h => by
      have hself := hplaced ctx _ leading h.self
      rw [Expr.withLeading] at hself ⊢
      exact Expr.every_lambda.2 ⟨hself, (Expr.every_lambda.1 h).2⟩
  | .annotated marker name args expr, ctx, h => by
      have hself := hplaced ctx _ leading h.self
      rw [Expr.withLeading] at hself ⊢
      exact Expr.every_annotated.2 ⟨hself, (Expr.every_annotated.1 h).2⟩
  | .field target dot name, ctx, h => by
      have hself := hplaced ctx _ leading h.self
      have htarget := Expr.Every.withLeading hplaced leading target (Expr.every_field.1 h).2
      rw [Expr.withLeading] at hself ⊢
      exact Expr.every_field.2 ⟨hself, htarget⟩
  | .paren opening inner closing, ctx, h => by
      have hself := hplaced ctx _ leading h.self
      rw [Expr.withLeading] at hself ⊢
      exact Expr.every_paren.2 ⟨hself, (Expr.every_paren.1 h).2⟩
  | .index target brackets, ctx, h => by
      have hself := hplaced ctx _ leading h.self
      have htarget := Expr.Every.withLeading hplaced leading target (Expr.every_index.1 h).2.1
      rw [Expr.withLeading] at hself ⊢
      exact Expr.every_index.2 ⟨hself, htarget, (Expr.every_index.1 h).2.2⟩
  | .binary left op right, ctx, h => by
      have hself := hplaced ctx _ leading h.self
      have hleft := Expr.Every.withLeading hplaced leading left (Expr.every_binary.1 h).2.1
      rw [Expr.withLeading] at hself ⊢
      exact Expr.every_binary.2 ⟨hself, hleft, (Expr.every_binary.1 h).2.2⟩
  | .prefixed op operand, ctx, h => by
      have hself := hplaced ctx _ leading h.self
      rw [Expr.withLeading] at hself ⊢
      exact Expr.every_prefixed.2 ⟨hself, (Expr.every_prefixed.1 h).2⟩
  | .postfixed operand op, ctx, h => by
      have hself := hplaced ctx _ leading h.self
      have hoperand := Expr.Every.withLeading hplaced leading operand (Expr.every_postfixed.1 h).2
      rw [Expr.withLeading] at hself ⊢
      exact Expr.every_postfixed.2 ⟨hself, hoperand⟩
  | .list brackets, ctx, h => by
      have hself := hplaced ctx _ leading h.self
      rw [Expr.withLeading] at hself ⊢
      exact Expr.every_list.2 ⟨hself, (Expr.every_list.1 h).2⟩
  | .sequence head tail, ctx, h => by
      have hself := hplaced ctx _ leading h.self
      have hhead := Expr.Every.withLeading hplaced leading head (Expr.every_sequence.1 h).2.1
      rw [Expr.withLeading] at hself ⊢
      exact Expr.every_sequence.2 ⟨hself, hhead, (Expr.every_sequence.1 h).2.2⟩

theorem Call.EveryInner.withLeading
    (hplaced : ∀ ctx e leading, P ctx e → P ctx (e.withLeading leading)) (leading : String) :
    ∀ (c : Call) {ctx : Option Context}, c.EveryInner P ctx →
      (c.withLeading leading).EveryInner P ctx
  | ⟨none, _, _, _, _, _⟩, _, h => ⟨h.receiver, h.args, h.lambda⟩
  | ⟨some ⟨target, dot⟩, _, _, _, _, _⟩, _, h => by
      refine ⟨?_, h.args, h.lambda⟩
      intro receiver hreceiver
      obtain rfl := Option.mem_some.1 hreceiver
      exact Expr.Every.withLeading hplaced leading target (h.receiver _ rfl)

end

theorem Statement.Every.withLeading
    (hplaced : ∀ ctx e leading, P ctx e → P ctx (e.withLeading leading)) (leading : String)
    {s : Statement} (h : s.Every P ctx) : (s.withLeading leading).Every P ctx := by
  cases s with
  | importing path => exact Statement.every_importing
  | expression expr semicolon =>
      rw [Statement.every_expression] at h
      exact Statement.every_expression.2 (Expr.Every.withLeading hplaced leading expr h)
  | empty semicolon => exact Statement.every_empty

/-! ### Tokens and calls

The tokens of a tree are those of its parts, and so are its calls. What is checked of all tokens
or all calls can thus be turned into a property of occurrences and back. -/

/-- All tokens of an expression are as `C` says. -/
def Expr.TokensAre (C : Token → Prop) (e : Expr) : Prop :=
  ∀ t ∈ e.tokens, C t

section Tokens

variable {C : Token → Prop}

mutual

/-- Where all tokens of an expression satisfy a condition, all tokens of every occurrence do,
because they are among them.

This carries what is known of the tokens of a source to each place in its tree. -/
theorem Expr.every_tokensAre : ∀ (e : Expr) (ctx : Option Context), e.TokensAre C →
    e.Every (fun _ x => x.TokensAre C) ctx
  | .atom _, _, h => Expr.every_atom.2 h
  | .call call, ctx, h => by
      refine Expr.every_call.2 ⟨h, ?_⟩
      rw [Expr.TokensAre, Expr.tokens] at h
      exact Call.everyInner_tokensAre call _ h
  | .lambda lambda, ctx, h => by
      refine Expr.every_lambda.2 ⟨h, ?_⟩
      rw [Expr.TokensAre, Expr.tokens] at h
      exact Lambda.every_tokensAre lambda ctx h
  | .annotated marker name args expr, ctx, h => by
      refine Expr.every_annotated.2 ⟨h, ?_⟩
      rw [Expr.TokensAre, Expr.tokens_annotated] at h
      simp only [List.forall_mem_cons, List.forall_mem_append] at h
      obtain ⟨-, -, hargs, hexpr⟩ := h
      exact ⟨Arguments.every_tokensAre args none hargs, Expr.every_tokensAre_part expr ctx hexpr⟩
  | .field target dot name, ctx, h => by
      refine Expr.every_field.2 ⟨h, ?_⟩
      rw [Expr.TokensAre, Expr.tokens, List.forall_mem_append] at h
      exact Expr.every_tokensAre target ctx h.1
  | .paren opening inner closing, ctx, h => by
      refine Expr.every_paren.2 ⟨h, ?_⟩
      rw [Expr.TokensAre, Expr.tokens, List.forall_mem_append, List.forall_mem_cons] at h
      exact Expr.every_tokensAre inner ctx h.1.2
  | .index target ⟨opening, items, closing⟩, ctx, h => by
      refine Expr.every_index.2 ⟨h, ?_⟩
      rw [Expr.TokensAre, Expr.tokens, Brackets.tokens] at h
      simp only [List.forall_mem_cons, List.forall_mem_append] at h
      exact ⟨Expr.every_tokensAre target ctx h.1, Item.listEvery_tokensAre items ctx h.2.1.2⟩
  | .binary left op right, ctx, h => by
      refine Expr.every_binary.2 ⟨h, ?_⟩
      rw [Expr.TokensAre, Expr.tokens, List.forall_mem_append, List.forall_mem_cons] at h
      exact ⟨Expr.every_tokensAre left ctx h.1, Expr.every_tokensAre right ctx h.2.2⟩
  | .prefixed op operand, ctx, h => by
      refine Expr.every_prefixed.2 ⟨h, ?_⟩
      rw [Expr.TokensAre, Expr.tokens, List.forall_mem_cons] at h
      exact Expr.every_tokensAre operand ctx h.2
  | .postfixed operand op, ctx, h => by
      refine Expr.every_postfixed.2 ⟨h, ?_⟩
      rw [Expr.TokensAre, Expr.tokens, List.forall_mem_append] at h
      exact Expr.every_tokensAre operand ctx h.1
  | .list ⟨opening, items, closing⟩, ctx, h => by
      refine Expr.every_list.2 ⟨h, ?_⟩
      rw [Expr.TokensAre, Expr.tokens, Brackets.tokens] at h
      simp only [List.forall_mem_cons, List.forall_mem_append] at h
      exact Item.listEvery_tokensAre items ctx h.1.2
  | .sequence head tail, ctx, h => by
      refine Expr.every_sequence.2 ⟨h, ?_⟩
      rw [Expr.TokensAre, Expr.tokens, List.forall_mem_append] at h
      exact ⟨Expr.every_tokensAre head ctx h.1, Expr.listEvery_tokensAre tail ctx h.2⟩

theorem Expr.every_tokensAre_part : ∀ (part : Option Expr) (ctx : Option Context),
    (∀ t ∈ partTokens Expr.tokens part, C t) →
      ∀ e ∈ part, e.Every (fun _ x => x.TokensAre C) ctx
  | none, _, _ => by simp
  | some expr, ctx, h => by
      intro e he
      obtain rfl := Option.mem_some.1 he
      exact Expr.every_tokensAre expr ctx h

theorem Expr.listEvery_tokensAre : ∀ (exprs : List Expr) (ctx : Option Context),
    (∀ t ∈ Expr.listTokens exprs, C t) →
      ∀ e ∈ exprs, e.Every (fun _ x => x.TokensAre C) ctx
  | [], _, _ => by simp
  | expr :: rest, ctx, h => by
      rw [Expr.listTokens, List.forall_mem_append] at h
      exact List.forall_mem_cons.2
        ⟨Expr.every_tokensAre expr ctx h.1, Expr.listEvery_tokensAre rest ctx h.2⟩

theorem Call.everyInner_tokensAre : ∀ (c : Call) (ctx : Option Context), (∀ t ∈ c.tokens, C t) →
    c.EveryInner (fun _ x => x.TokensAre C) ctx
  | ⟨receiver, name, types, args, lambda, style⟩, ctx, h => by
      rw [Call.tokens_mk] at h
      simp only [List.forall_mem_cons, List.forall_mem_append] at h
      obtain ⟨hreceiver, -, -, hargs, hlambda⟩ := h
      exact ⟨Receiver.every_tokensAre receiver ctx hreceiver,
        Arguments.every_tokensAre args ctx hargs, Lambda.every_tokensAre_part lambda ctx hlambda⟩

theorem Receiver.every_tokensAre : ∀ (receiver : Option Receiver) (ctx : Option Context),
    (∀ t ∈ partTokens Receiver.tokens receiver, C t) →
      ∀ r ∈ receiver, r.target.Every (fun _ x => x.TokensAre C) ctx
  | none, _, _ => by simp
  | some ⟨target, dot⟩, ctx, h => by
      intro r hr
      obtain rfl := Option.mem_some.1 hr
      rw [partTokens_some, Receiver.tokens, List.forall_mem_append] at h
      exact Expr.every_tokensAre target ctx h.1

theorem Arguments.every_tokensAre : ∀ (args : Option Arguments) (ctx : Option Context),
    (∀ t ∈ partTokens Arguments.tokens args, C t) →
      ∀ a ∈ args, Item.ListEvery (fun _ x => x.TokensAre C) ctx a.items
  | none, _, _ => by simp
  | some ⟨opening, items, closing⟩, ctx, h => by
      intro a ha
      obtain rfl := Option.mem_some.1 ha
      rw [partTokens_some, Arguments.tokens, List.forall_mem_append, List.forall_mem_append] at h
      exact Item.listEvery_tokensAre items ctx h.1.2

theorem Item.listEvery_tokensAre : ∀ (items : List Item) (ctx : Option Context),
    (∀ t ∈ Item.listTokens items, C t) →
      Item.ListEvery (fun _ x => x.TokensAre C) ctx items
  | [], _, _ => by simp [Item.ListEvery]
  | ⟨expr, comma⟩ :: rest, ctx, h => by
      rw [Item.listTokens, Item.tokens, List.forall_mem_append, List.forall_mem_append] at h
      exact List.forall_mem_cons.2
        ⟨Expr.every_tokensAre expr ctx h.1.1, Item.listEvery_tokensAre rest ctx h.2⟩

theorem Lambda.every_tokensAre_part : ∀ (lambda : Option Lambda) (ctx : Option Context),
    (∀ t ∈ partTokens Lambda.tokens lambda, C t) →
      ∀ l ∈ lambda, l.Every (fun _ x => x.TokensAre C) ctx
  | none, _, _ => by simp
  | some lambda, ctx, h => by
      intro l hl
      obtain rfl := Option.mem_some.1 hl
      exact Lambda.every_tokensAre lambda ctx h

theorem Lambda.every_tokensAre : ∀ (l : Lambda) (ctx : Option Context), (∀ t ∈ l.tokens, C t) →
    l.Every (fun _ x => x.TokensAre C) ctx
  | ⟨opening, params, body, closing⟩, ctx, h => by
      rw [Lambda.tokens_mk] at h
      simp only [List.forall_mem_cons, List.forall_mem_append] at h
      exact Statement.listEvery_tokensAre body ctx h.2.2.1

theorem Statement.listEvery_tokensAre : ∀ (statements : List Statement) (ctx : Option Context),
    (∀ t ∈ Statement.listTokens statements, C t) →
      ∀ s ∈ statements, s.Every (fun _ x => x.TokensAre C) ctx
  | [], _, _ => by simp
  | .importing path :: rest, ctx, h => by
      rw [Statement.listTokens, List.forall_mem_append] at h
      exact List.forall_mem_cons.2
        ⟨Statement.every_importing, Statement.listEvery_tokensAre rest ctx h.2⟩
  | .expression expr semicolon :: rest, ctx, h => by
      rw [Statement.listTokens, Statement.tokens, List.forall_mem_append,
        List.forall_mem_append] at h
      exact List.forall_mem_cons.2
        ⟨Statement.every_expression.2 (Expr.every_tokensAre expr ctx h.1.1),
          Statement.listEvery_tokensAre rest ctx h.2⟩
  | .empty semicolon :: rest, ctx, h => by
      rw [Statement.listTokens, List.forall_mem_append] at h
      exact List.forall_mem_cons.2
        ⟨Statement.every_empty, Statement.listEvery_tokensAre rest ctx h.2⟩

end

/-- Stated for scripts: a condition on all tokens holds at every place. -/
theorem Script.every_tokensAre {script : Script} (h : ∀ t ∈ script.tokens, C t) :
    script.Every fun _ x => x.TokensAre C :=
  Script.every_iff.2 (Statement.listEvery_tokensAre script.statements (some {}) h)

end Tokens

section Calls

variable {R : Call → Prop}

/-- If the expression is a call, it is as `R` says. -/
def Expr.IfCall (R : Call → Prop) (e : Expr) : Prop :=
  ∀ call ∈ e.call?, R call

mutual

/-- A property of calls, wherever they occur, holds of the calls that are listed. The list leaves
out the arguments of annotations, so the converse is not asked for. -/
theorem Expr.forall_mem_calls : ∀ (e : Expr) (ctx : Option Context),
    e.Every (fun _ x => x.IfCall R) ctx → ∀ call ∈ e.calls, R call
  | .atom _, _, _ => by simp [Expr.calls]
  | .call call, ctx, h => by
      obtain ⟨hself, hinner⟩ := Expr.every_call.1 h
      rw [Expr.calls]
      exact List.forall_mem_cons.2 ⟨hself call rfl, Call.forall_mem_innerCalls call _ hinner⟩
  | .lambda lambda, ctx, h => by
      rw [Expr.calls]
      exact Lambda.forall_mem_calls lambda ctx (Expr.every_lambda.1 h).2
  | .annotated marker name args none, ctx, h => by simp [Expr.calls]
  | .annotated marker name args (some expr), ctx, h => by
      rw [Expr.calls]
      exact Expr.forall_mem_calls expr ctx ((Expr.every_annotated.1 h).2.2 expr rfl)
  | .field target dot name, ctx, h => by
      rw [Expr.calls]
      exact Expr.forall_mem_calls target ctx (Expr.every_field.1 h).2
  | .paren opening inner closing, ctx, h => by
      rw [Expr.calls]
      exact Expr.forall_mem_calls inner ctx (Expr.every_paren.1 h).2
  | .index target ⟨opening, items, closing⟩, ctx, h => by
      obtain ⟨-, htarget, hitems⟩ := Expr.every_index.1 h
      rw [Expr.calls, Brackets.calls]
      exact List.forall_mem_append.2
        ⟨Expr.forall_mem_calls target ctx htarget, Item.forall_mem_listCalls items ctx hitems⟩
  | .binary left op right, ctx, h => by
      obtain ⟨-, hleft, hright⟩ := Expr.every_binary.1 h
      rw [Expr.calls]
      exact List.forall_mem_append.2
        ⟨Expr.forall_mem_calls left ctx hleft, Expr.forall_mem_calls right ctx hright⟩
  | .prefixed op operand, ctx, h => by
      rw [Expr.calls]
      exact Expr.forall_mem_calls operand ctx (Expr.every_prefixed.1 h).2
  | .postfixed operand op, ctx, h => by
      rw [Expr.calls]
      exact Expr.forall_mem_calls operand ctx (Expr.every_postfixed.1 h).2
  | .list ⟨opening, items, closing⟩, ctx, h => by
      rw [Expr.calls, Brackets.calls]
      exact Item.forall_mem_listCalls items ctx (Expr.every_list.1 h).2
  | .sequence head tail, ctx, h => by
      obtain ⟨-, hhead, htail⟩ := Expr.every_sequence.1 h
      rw [Expr.calls]
      exact List.forall_mem_append.2
        ⟨Expr.forall_mem_calls head ctx hhead, Expr.forall_mem_listCalls tail ctx htail⟩

theorem Expr.forall_mem_listCalls : ∀ (exprs : List Expr) (ctx : Option Context),
    (∀ e ∈ exprs, e.Every (fun _ x => x.IfCall R) ctx) → ∀ call ∈ Expr.listCalls exprs, R call
  | [], _, _ => by simp [Expr.listCalls]
  | expr :: rest, ctx, h => by
      obtain ⟨hexpr, hrest⟩ := List.forall_mem_cons.1 h
      rw [Expr.listCalls]
      exact List.forall_mem_append.2
        ⟨Expr.forall_mem_calls expr ctx hexpr, Expr.forall_mem_listCalls rest ctx hrest⟩

theorem Call.forall_mem_innerCalls : ∀ (c : Call) (ctx : Option Context),
    c.EveryInner (fun _ x => x.IfCall R) ctx → ∀ call ∈ c.innerCalls, R call
  | ⟨receiver, name, types, args, lambda, style⟩, ctx, h => by
      have hreceiver := Receiver.forall_mem_calls receiver ctx h.receiver
      have hargs := Arguments.forall_mem_calls args ctx h.args
      have hlambda := Lambda.forall_mem_calls_part lambda ctx h.lambda
      rw [Call.innerCalls.eq_def]
      simp only [List.forall_mem_append]
      refine ⟨⟨?_, ?_⟩, ?_⟩
      · cases receiver with
        | none => simp
        | some receiver => exact hreceiver receiver rfl
      · cases args with
        | none => simp
        | some args => exact hargs args rfl
      · cases lambda with
        | none => simp
        | some lambda => exact hlambda lambda rfl

theorem Receiver.forall_mem_calls : ∀ (receiver : Option Receiver) (ctx : Option Context),
    (∀ r ∈ receiver, r.target.Every (fun _ x => x.IfCall R) ctx) →
      ∀ r ∈ receiver, ∀ call ∈ r.calls, R call
  | none, _, _ => by simp
  | some ⟨target, dot⟩, ctx, h => by
      intro r hr
      obtain rfl := Option.mem_some.1 hr
      rw [Receiver.calls]
      exact Expr.forall_mem_calls target ctx (h _ rfl)

theorem Arguments.forall_mem_calls : ∀ (args : Option Arguments) (ctx : Option Context),
    (∀ a ∈ args, Item.ListEvery (fun _ x => x.IfCall R) ctx a.items) →
      ∀ a ∈ args, ∀ call ∈ a.calls, R call
  | none, _, _ => by simp
  | some ⟨opening, items, closing⟩, ctx, h => by
      intro a ha
      obtain rfl := Option.mem_some.1 ha
      rw [Arguments.calls]
      exact Item.forall_mem_listCalls items ctx (h _ rfl)

theorem Item.forall_mem_listCalls : ∀ (items : List Item) (ctx : Option Context),
    Item.ListEvery (fun _ x => x.IfCall R) ctx items → ∀ call ∈ Item.listCalls items, R call
  | [], _, _ => by simp [Item.listCalls]
  | ⟨expr, comma⟩ :: rest, ctx, h => by
      obtain ⟨hexpr, hrest⟩ := List.forall_mem_cons.1 h
      rw [Item.listCalls, Item.calls]
      exact List.forall_mem_append.2
        ⟨Expr.forall_mem_calls expr ctx hexpr, Item.forall_mem_listCalls rest ctx hrest⟩

theorem Lambda.forall_mem_calls_part : ∀ (lambda : Option Lambda) (ctx : Option Context),
    (∀ l ∈ lambda, l.Every (fun _ x => x.IfCall R) ctx) → ∀ l ∈ lambda, ∀ call ∈ l.calls, R call
  | none, _, _ => by simp
  | some lambda, ctx, h => by
      intro l hl
      obtain rfl := Option.mem_some.1 hl
      exact Lambda.forall_mem_calls lambda ctx (h _ rfl)

theorem Lambda.forall_mem_calls : ∀ (l : Lambda) (ctx : Option Context),
    l.Every (fun _ x => x.IfCall R) ctx → ∀ call ∈ l.calls, R call
  | ⟨opening, params, body, closing⟩, ctx, h => by
      rw [Lambda.calls]
      exact Statement.forall_mem_listCalls body ctx h

theorem Statement.forall_mem_listCalls : ∀ (statements : List Statement) (ctx : Option Context),
    (∀ s ∈ statements, s.Every (fun _ x => x.IfCall R) ctx) →
      ∀ call ∈ Statement.listCalls statements, R call
  | [], _, _ => by simp [Statement.listCalls]
  | .importing path :: rest, ctx, h => by
      rw [Statement.listCalls, Statement.calls, List.nil_append]
      exact Statement.forall_mem_listCalls rest ctx (List.forall_mem_cons.1 h).2
  | .expression expr semicolon :: rest, ctx, h => by
      obtain ⟨hexpr, hrest⟩ := List.forall_mem_cons.1 h
      rw [Statement.listCalls, Statement.calls]
      exact List.forall_mem_append.2
        ⟨Expr.forall_mem_calls expr ctx (Statement.every_expression.1 hexpr),
          Statement.forall_mem_listCalls rest ctx hrest⟩
  | .empty semicolon :: rest, ctx, h => by
      rw [Statement.listCalls, Statement.calls, List.nil_append]
      exact Statement.forall_mem_listCalls rest ctx (List.forall_mem_cons.1 h).2

end

/-- So what is known of all occurrences in a script is known of the calls that it lists. -/
theorem Script.forall_mem_calls {script : Script} (h : script.Every fun _ x => x.IfCall R) :
    ∀ call ∈ script.calls, R call :=
  Statement.forall_mem_listCalls script.statements (some {}) (Script.every_iff.1 h)

end Calls

end BuildPrune
