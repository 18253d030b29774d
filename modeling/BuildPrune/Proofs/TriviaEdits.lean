import BuildPrune.Proofs.Visiting

/-!
# BuildPrune.Proofs.TriviaEdits

Where the trivia of a visited tree comes from. Every token that is left has the trivia it had, or
trivia that `Trivia.repair` has put together, or none. A property of trivia that `repair` preserves
(`RepairClosed`) thus holds all over the tree that a visit leaves, if it held all over the tree that
was visited (`Pruner.Keeps.carries`).

The first token of a script is special, as only in front of it a `#!` line can stand, and so is the
trivia behind the last token. Properties come in pairs for that reason: one for the trivia in front
of tokens, one for the trivia at the end of a list.
-/

namespace BuildPrune

/-! ### Properties of trivia

An `Edge` is a pair of properties: of the trivia in front of tokens, and of the trivia with which
a list ends. It is closed if `repair` keeps both, at the start of a list and elsewhere. -/

/-- A property of the trivia in front of a token and of that at the end of a list. -/
structure Edge where
  lead : String → Prop
  trail : String → Prop

/-- The same property for both. -/
def Edge.both (property : String → Prop) : Edge :=
  ⟨property, property⟩

/-- What `repair` makes of trivia with the property `first` and of what follows with the property
`later` has the property `first`. -/
structure RepairClosed (first later : Edge) : Prop where
  lead {removed following : String} (atStart : Bool) (hremoved : first.lead removed)
    (hfollowing : later.lead following) :
    first.lead (String.ofList (Trivia.repair removed.toList following.toList atStart false))
  trail {removed following : String} (atStart : Bool) (hremoved : first.lead removed)
    (hfollowing : later.trail following) :
    first.trail (String.ofList (Trivia.repair removed.toList following.toList atStart true))

/-- A property of texts that `repair` preserves wherever it is. Line endings and balanced comments
are such properties, and their modules start from here. -/
theorem RepairClosed.of_repair (property : List Char → Prop)
    (h : ∀ {removed following : List Char} (atStart atEnd : Bool), property removed →
      property following → property (Trivia.repair removed following atStart atEnd)) :
    RepairClosed (.both fun text => property text.toList)
      (.both fun text => property text.toList) where
  lead atStart hremoved hfollowing := by
    show property _
    rw [String.toList_ofList]
    exact h atStart false hremoved hfollowing
  trail atStart hremoved hfollowing := by
    show property _
    rw [String.toList_ofList]
    exact h atStart true hremoved hfollowing

/-! ### The trivia of tokens -/

/-- The trivia in front of every token has the property. -/
def AllEdged (property : String → Prop) (tokens : List Token) : Prop :=
  ∀ t ∈ tokens, property t.leading

/-- The trivia in front of every token but the first has the property. -/
def InnerEdged (property : String → Prop) (tokens : List Token) : Prop :=
  AllEdged property tokens.tail

section Tokens

variable {property : String → Prop} {t : Token} {tokens more : List Token}

@[simp] theorem allEdged_nil : AllEdged property [] := by
  simp [AllEdged]

@[simp] theorem allEdged_cons :
    AllEdged property (t :: tokens) ↔ property t.leading ∧ AllEdged property tokens :=
  List.forall_mem_cons

@[simp] theorem allEdged_append :
    AllEdged property (tokens ++ more) ↔ AllEdged property tokens ∧ AllEdged property more :=
  List.forall_mem_append

@[simp] theorem innerEdged_cons :
    InnerEdged property (t :: tokens) ↔ AllEdged property tokens := Iff.rfl

/-- The first token of two lists is that of the first, if this has one. -/
theorem innerEdged_append (hne : tokens ≠ []) :
    InnerEdged property (tokens ++ more) ↔
      InnerEdged property tokens ∧ AllEdged property more := by
  cases tokens with
  | nil => contradiction
  | cons t tokens => exact allEdged_append

theorem allEdged_listTokens {exprs : List Expr} :
    AllEdged property (Expr.listTokens exprs) ↔ ∀ e ∈ exprs, AllEdged property e.tokens := by
  induction exprs with
  | nil => simp [Expr.listTokens]
  | cons e exprs ih => simp [Expr.listTokens, ih]

/-- Every expression has a token, so the trivia in front of it is that of a token. -/
theorem Expr.tokens_ne_nil (e : Expr) : e.tokens ≠ [] := by
  obtain ⟨rest, htokens, -⟩ := e.exists_tokens
  simp [htokens]

/-- The trivia of an expression is the trivia in front of it and the trivia behind its first token.
An edit changes the one, a visit of its parts the other. -/
theorem Expr.allEdged_iff (e : Expr) :
    AllEdged property e.tokens ↔ property e.leading ∧ InnerEdged property e.tokens := by
  obtain ⟨rest, htokens, -⟩ := e.exists_tokens
  rw [htokens]
  exact allEdged_cons

/-- The same for statements. -/
theorem Statement.allEdged_iff (s : Statement) :
    AllEdged property s.tokens ↔ property s.leading ∧ InnerEdged property s.tokens := by
  obtain ⟨rest, htokens, -⟩ := s.exists_tokens
  rw [htokens]
  exact allEdged_cons

/-- Other trivia in front of an expression is no matter of the tokens behind the first. So it is
enough to know the property of the new trivia. -/
theorem Expr.allEdged_withLeading (e : Expr) (leading : String) :
    AllEdged property (e.withLeading leading).tokens ↔
      property leading ∧ InnerEdged property e.tokens := by
  obtain ⟨rest, htokens, hwith⟩ := e.exists_tokens
  rw [hwith, htokens]
  exact allEdged_cons

theorem Statement.innerEdged_withLeading (s : Statement) (leading : String) :
    InnerEdged property (s.withLeading leading).tokens ↔ InnerEdged property s.tokens := by
  obtain ⟨rest, htokens, hwith⟩ := s.exists_tokens
  rw [hwith, htokens]
  exact Iff.rfl

end Tokens

mutual

/-- The trivia in front of an expression is what was put there. -/
theorem Expr.leading_withLeading (leading : String) : ∀ e : Expr,
    (e.withLeading leading).leading = leading
  | .atom _ | .lambda ⟨_, _, _, _⟩ | .annotated _ _ _ _ | .paren _ _ _ | .prefixed _ _
  | .list ⟨_, _, _⟩ => rfl
  | .call call => Call.leading_withLeading leading call
  | .field target _ _ | .index target _ | .binary target _ _ | .postfixed target _
  | .sequence target _ => by
      rw [Expr.withLeading, Expr.leading, Expr.firstToken, ← Expr.leading]
      exact Expr.leading_withLeading leading target

theorem Call.leading_withLeading (leading : String) : ∀ c : Call,
    (c.withLeading leading).firstToken.leading = leading
  | ⟨none, _, _, _, _, _⟩ => rfl
  | ⟨some ⟨target, _⟩, _, _, _, _, _⟩ => Expr.leading_withLeading leading target

end

@[simp] theorem Statement.leading_withLeading (s : Statement) (leading : String) :
    (s.withLeading leading).leading = leading := by
  cases s with
  | importing path => rfl
  | expression expr semicolon => exact Expr.leading_withLeading leading expr
  | empty semicolon => rfl

/-! ### Lists of statements -/

/-- The trivia in front of each statement has the property `later`, that of the first the property
`first`, and so has the trivia behind the list. -/
def StatementsEdged (first later : Edge) : List Statement → (trailer : String) → Prop
  | [], trailer => first.trail trailer
  | s :: rest, trailer => first.lead s.leading ∧ StatementsEdged later later rest trailer

/-- A removed statement hands its trivia on, repaired: to the next statement, or to the end of the
list if it was the last. -/
theorem StatementsEdged.handOn {first later : Edge} (hclosed : RepairClosed first later)
    {removed : Statement} {following : List Statement} {trailer : String} (isFirst : Bool)
    (h : StatementsEdged first later (removed :: following) trailer) :
    StatementsEdged first later (Statement.handOn isFirst removed following trailer).1
      (Statement.handOn isFirst removed following trailer).2 := by
  obtain ⟨hremoved, hfollowing⟩ := h
  cases following with
  | nil => exact hclosed.trail _ hremoved hfollowing
  | cons next rest =>
      refine ⟨?_, hfollowing.2⟩
      rw [Statement.leading_withLeading]
      exact hclosed.lead _ hremoved hfollowing.1

/-- Sweeping a list preserves what `repair` does. The first statement that stays may stand behind
removed ones; it then has the trivia that they handed on. -/
theorem StatementsEdged.sweep {first later : Edge} (hclosed : RepairClosed first later)
    (hlater : RepairClosed later later) : ∀ (decisions : List (Option Statement)) (isFirst : Bool)
    (statements : List Statement) (trailer : String), decisions.length = statements.length →
      StatementsEdged first later statements trailer →
      StatementsEdged first later (Statement.sweep isFirst decisions statements trailer).1
        (Statement.sweep isFirst decisions statements trailer).2
  | [], isFirst, [], trailer, _, h => by
      rw [Statement.sweep_nil]
      exact h
  | some decided :: decisions, isFirst, statement :: rest, trailer, hlength, h => by
      rw [Statement.sweep_some]
      refine ⟨?_, StatementsEdged.sweep hlater hlater decisions false rest trailer
        (Nat.succ.inj hlength) h.2⟩
      rw [Statement.leading_withLeading]
      exact h.1
  | none :: decisions, isFirst, statement :: rest, trailer, hlength, h => by
      rw [Statement.sweep_none]
      refine StatementsEdged.sweep hclosed hlater decisions isFirst _ _ ?_ (h.handOn hclosed isFirst)
      rw [Statement.length_handOn]
      exact Nat.succ.inj hlength

/-- And so does sifting it, by the same step for each statement that is taken out. -/
theorem StatementsEdged.sift {α : Type} {first later : Edge} (hclosed : RepairClosed first later)
    (hlater : RepairClosed later later) (keep : Statement → Bool) : ∀ (companions : List α)
    (isFirst : Bool) (statements : List Statement) (trailer : String),
      companions.length = statements.length → StatementsEdged first later statements trailer →
      StatementsEdged first later (Statement.sift keep isFirst companions statements trailer).2.1
        (Statement.sift keep isFirst companions statements trailer).2.2
  | [], isFirst, [], trailer, _, h => h
  | companion :: companions, isFirst, statement :: rest, trailer, hlength, h => by
      have hrest : companions.length = rest.length := Nat.succ.inj hlength
      by_cases hkeep : keep statement = true
      · rw [Statement.sift_keep hkeep]
        exact ⟨h.1, StatementsEdged.sift hlater hlater keep companions false rest trailer hrest h.2⟩
      · rw [Statement.sift_drop hkeep]
        refine StatementsEdged.sift hclosed hlater keep companions isFirst _ _ ?_
          (h.handOn hclosed isFirst)
        rw [Statement.length_handOn]
        exact hrest

/-- If the first statement is not special, every statement has the property, and what is behind the
list has its own. -/
theorem statementsEdged_iff {edge : Edge} {statements : List Statement} {trailer : String} :
    StatementsEdged edge edge statements trailer ↔
      (∀ s ∈ statements, edge.lead s.leading) ∧ edge.trail trailer := by
  induction statements with
  | nil => simp [StatementsEdged]
  | cons s rest ih => simp [StatementsEdged, ih, and_assoc]

/-- All trivia in a list of statements is in front of them or inside. -/
theorem allEdged_statements_iff {property : String → Prop} {statements : List Statement} :
    AllEdged property (Statement.listTokens statements) ↔
      (∀ s ∈ statements, property s.leading) ∧
        ∀ s ∈ statements, InnerEdged property s.tokens := by
  induction statements with
  | nil => simp [Statement.listTokens]
  | cons s rest ih =>
      rw [Statement.listTokens, allEdged_append, Statement.allEdged_iff, ih, List.forall_mem_cons,
        List.forall_mem_cons]
      constructor
      · rintro ⟨⟨hs, hinner⟩, hrest, hinners⟩
        exact ⟨⟨hs, hrest⟩, hinner, hinners⟩
      · rintro ⟨⟨hs, hrest⟩, hinner, hinners⟩
        exact ⟨⟨hs, hinner⟩, hrest, hinners⟩

/-- The tokens behind the first of each statement are those of the decisions. Sweeping changes
trivia in front of statements and nothing else. -/
theorem innerEdged_sweep {property : String → Prop} {decisions : List (Option Statement)}
    (isFirst : Bool) {statements : List Statement} (trailer : String)
    (hlength : decisions.length = statements.length)
    (h : ∀ s ∈ decisions.filterMap id, InnerEdged property s.tokens) :
    ∀ s ∈ (Statement.sweep isFirst decisions statements trailer).1,
      InnerEdged property s.tokens := by
  refine Statement.forall_mem_sweep (fun s leading hinner => ?_) isFirst trailer hlength h
  rw [Statement.innerEdged_withLeading]
  exact hinner

/-! ### Lists of items -/

/-- An item that takes over trivia has it repaired as a statement would. -/
theorem Item.takeOver_leading {edge : Edge} (hclosed : RepairClosed edge edge) {removed next : Item}
    (hremoved : edge.lead removed.expr.leading) (hnext : edge.lead next.expr.leading) :
    edge.lead (Item.takeOver removed next).expr.leading := by
  unfold Item.takeOver
  split
  · exact hnext
  · next hline =>
      have hbreak : Trivia.hasLineBreak next.expr.leading.toList = false := by
        simpa [Token.startsLine, Trivia.hasLineBreak, Text.isLineBreak, Expr.leading] using hline
      have hrepaired := hclosed.lead false hremoved hnext
      rw [Trivia.repair, hbreak, Bool.not_false, if_pos rfl, String.ofList_append,
        String.ofList_toList] at hrepaired
      rw [Expr.leading_withLeading]
      exact hrepaired

theorem allEdged_items_iff {property : String → Prop} {items : List Item} :
    AllEdged property (Item.listTokens items) ↔
      ∀ item ∈ items, AllEdged property item.expr.tokens ∧ AllEdged property item.comma.toList := by
  induction items with
  | nil => simp [Item.listTokens]
  | cons item rest ih =>
      obtain ⟨expr, comma⟩ := item
      simp [Item.listTokens, Item.tokens, ih, and_assoc]

/-- A comma that is handed back to the last item has its trivia with it. -/
theorem allEdged_closeWith {property : String → Prop} {comma : Option Token}
    (hcomma : AllEdged property comma.toList) : ∀ items : List Item,
    AllEdged property (Item.listTokens items) →
      AllEdged property (Item.listTokens (Item.closeWith comma items))
  | [], _ => allEdged_nil
  | [last], h => by
      rw [allEdged_items_iff] at h ⊢
      simpa [Item.closeWith, hcomma] using (h last (by simp)).1
  | item :: next :: rest, h => by
      rw [Item.listTokens, allEdged_append] at h
      have hrest := allEdged_closeWith hcomma (next :: rest) h.2
      have hclose : Item.closeWith comma (item :: next :: rest) =
          item :: Item.closeWith comma (next :: rest) := rfl
      rw [hclose, Item.listTokens, allEdged_append]
      exact ⟨h.1, hrest⟩

/-- Sweeping a list of items preserves what `repair` does. Items are swept towards the left:
`before` holds those that were decided to stay. -/
theorem allEdged_sweepItems {edge : Edge} (hclosed : RepairClosed edge edge) :
    ∀ (decisions : List (Option Expr)) (before items : List Item),
      decisions.length = items.length → AllEdged edge.lead (Item.listTokens before) →
      (∀ item ∈ items, edge.lead item.expr.leading ∧ AllEdged edge.lead item.comma.toList) →
      (∀ e ∈ decisions.filterMap id, InnerEdged edge.lead e.tokens) →
      AllEdged edge.lead (Item.listTokens (Item.sweep before decisions items))
  | [], before, [], _, hbefore, _, _ => by
      rw [Item.sweep_nil, List.append_nil]
      exact hbefore
  | some decided :: decisions, before, item :: rest, hlength, hbefore, hitems, hdecisions => by
      obtain ⟨⟨hleading, hcomma⟩, hrest⟩ := List.forall_mem_cons.1 hitems
      obtain ⟨hdecided, hdecisions⟩ := List.forall_mem_cons.1 hdecisions
      rw [Item.sweep_some]
      refine allEdged_sweepItems hclosed decisions _ rest (Nat.succ.inj hlength) ?_ hrest hdecisions
      rw [allEdged_items_iff] at hbefore ⊢
      intro item' hitem'
      rcases List.mem_append.1 hitem' with hitem' | hitem'
      · exact hbefore item' hitem'
      · rw [List.mem_singleton.1 hitem']
        exact ⟨(decided.allEdged_withLeading _).2 ⟨hleading, hdecided⟩, hcomma⟩
  | none :: decisions, before, [last], hlength, hbefore, hitems, hdecisions => by
      obtain rfl : decisions = [] := List.eq_nil_of_length_eq_zero (Nat.succ.inj hlength)
      rw [Item.sweep_last]
      exact allEdged_closeWith (hitems last List.mem_cons_self).2 before hbefore
  | none :: decisions, before, item :: next :: rest, hlength, hbefore, hitems, hdecisions => by
      obtain ⟨⟨hleading, -⟩, hrest⟩ := List.forall_mem_cons.1 hitems
      obtain ⟨⟨hnext, hcomma⟩, hrest⟩ := List.forall_mem_cons.1 hrest
      rw [Item.sweep_next]
      refine allEdged_sweepItems hclosed decisions before (Item.takeOver item next :: rest)
        (Nat.succ.inj hlength) hbefore (List.forall_mem_cons.2 ⟨⟨?_, ?_⟩, hrest⟩) hdecisions
      · exact Item.takeOver_leading hclosed hleading hnext
      · unfold Item.takeOver
        split
        · exact hcomma
        · exact hcomma

namespace Pruner

/-! ### The first token stays

Of an expression the first token is the last to go: if anything is left then it begins with what
it began with. So trivia is handed on only between the entries of a list. -/

/-- The token that an entry starts with, if it is a single node. Lists have none, as each of their
entries may go. -/
def Entry.firstToken? : Entry → Option Token
  | .expr e => some e.firstToken
  | .call c => some c.firstToken
  | .receiver r? => r?.map Receiver.firstToken
  | .lambda l => some l.opening
  | .block l? => l?.map Lambda.opening
  | .statement s => some s.firstToken
  | _ => none

/-- The token that the remains start with. -/
def Remains.firstToken? : Remains → Option Token
  | .expr e => some e.firstToken
  | .call c => some c.firstToken
  | .receiver r? => r?.map Receiver.firstToken
  | .lambda l => some l.opening
  | .block l? => l?.map Lambda.opening
  | .statement s => some s.firstToken
  | _ => none

/-- What is left of an entry starts with its first token. So a visit never changes the trivia in
front of an entry; only the list that it stands in does. -/
theorem Keeps.firstToken?_eq {p : Pruner} {ctx : Context} {entry : Entry} {remains : Remains}
    (h : p.Keeps ctx entry remains) : remains.firstToken? = entry.firstToken? := by
  induction h with
  | @call ctx c receiver args lambda _ _ _ _ _ _ ihreceiver _ _ =>
      obtain ⟨receiver', name, types, args', lambda', style⟩ := c
      simp only [Entry.firstToken?, Remains.firstToken?] at ihreceiver ⊢
      cases receiver <;> cases receiver' <;> simp_all [Call.firstToken]
  | _ => simp_all [Entry.firstToken?, Remains.firstToken?, Expr.firstToken, Statement.firstToken,
      Receiver.firstToken]

/-! ### Trivia all over the tree

By induction on `Pruner.Keeps`: all inner trivia of what is left has the property if all inner
trivia of the node had it. The trivia in front of the node is looked at by the list that holds it.
-/

/-- What a visit carries over from an entry to what is left of it: that the trivia in front of each
token, or of each but the first, has the property. -/
def Carries (property : String → Prop) : Entry → Remains → Prop
  | .expr e, .expr e' => InnerEdged property e.tokens → InnerEdged property e'.tokens
  | .tail _ _ visited rest, .exprs left =>
    AllEdged property (Expr.listTokens visited) → AllEdged property (Expr.listTokens rest) →
      AllEdged property (Expr.listTokens left)
  | .call c, .call c' => InnerEdged property c.tokens → InnerEdged property c'.tokens
  | .receiver r?, .receiver r?' =>
    InnerEdged property (partTokens Receiver.tokens r?) →
      InnerEdged property (partTokens Receiver.tokens r?')
  | .args a?, .args a?' =>
    AllEdged property (partTokens Arguments.tokens a?) →
      AllEdged property (partTokens Arguments.tokens a?')
  | .items items, .items decisions =>
    AllEdged property (Item.listTokens items) →
      ∀ e ∈ decisions.filterMap id, InnerEdged property e.tokens
  | .lambda l, .lambda l' => InnerEdged property l.tokens → InnerEdged property l'.tokens
  | .block l?, .block l?' =>
    AllEdged property (partTokens Lambda.tokens l?) →
      AllEdged property (partTokens Lambda.tokens l?')
  | .statement s, .statement s' => InnerEdged property s.tokens → InnerEdged property s'.tokens
  | .statements statements, .statements decisions =>
    (∀ s ∈ statements, InnerEdged property s.tokens) →
      ∀ s ∈ decisions.filterMap id, InnerEdged property s.tokens
  | _, _ => False

section Carries

variable {p : Pruner} {ctx : Context} {property : String → Prop}

/-- The first token stays, so a visit that carries over what is behind it carries over all. -/
theorem Keeps.allEdged_expr {e e' : Expr} (h : p.Keeps ctx (.expr e) (.expr e'))
    (hcarries : Carries property (.expr e) (.expr e')) (hall : AllEdged property e.tokens) :
    AllEdged property e'.tokens := by
  have hfirst : e'.leading = e.leading := by
    have heq := h.firstToken?_eq
    simp only [Entry.firstToken?, Remains.firstToken?, Option.some.injEq] at heq
    rw [Expr.leading, heq, Expr.leading]
  obtain ⟨hleading, hinner⟩ := e.allEdged_iff.1 hall
  exact e'.allEdged_iff.2 ⟨hfirst ▸ hleading, hcarries hinner⟩

/-- The trivia behind the first token of a call, part by part. The name counts if there is a
receiver in front of it, and is the first token otherwise. -/
theorem innerEdged_call_iff {receiver : Option Receiver} {name : Token} {types : Option TypeArgs}
    {args : Option Arguments} {lambda : Option Lambda} {style : CallStyle} :
    InnerEdged property (Call.tokens ⟨receiver, name, types, args, lambda, style⟩) ↔
      InnerEdged property (partTokens Receiver.tokens receiver) ∧
        (receiver.isSome → property name.leading) ∧
        AllEdged property (partTokens TypeArgs.listTokens types) ∧
        AllEdged property (partTokens Arguments.tokens args) ∧
        AllEdged property (partTokens Lambda.tokens lambda) := by
  rw [Call.tokens_mk]
  cases receiver with
  | none => simp [InnerEdged]
  | some receiver =>
      obtain ⟨rest, htokens, -⟩ := receiver.exists_tokens
      rw [partTokens_some, innerEdged_append (by simp [htokens])]
      simp

/-- A list of items carries the property over if each item does, and if `repair` keeps it where one
takes the place of another. -/
theorem Keeps.allEdged_items (hclosed : RepairClosed (.both property) (.both property))
    {items : List Item} {decisions : List (Option Expr)}
    (h : p.Keeps ctx (.items items) (.items decisions))
    (hcarries : Carries property (.items items) (.items decisions))
    (hall : AllEdged property (Item.listTokens items)) :
    AllEdged property (Item.listTokens (Item.sweep [] decisions items)) := by
  refine allEdged_sweepItems hclosed decisions [] items h.length_eq allEdged_nil ?_ (hcarries hall)
  intro item hitem
  obtain ⟨hexpr, hcomma⟩ := allEdged_items_iff.1 hall item hitem
  exact ⟨(item.expr.allEdged_iff.1 hexpr).1, hcomma⟩

/-- The trivia in a block: that of its parameters, that in front of its statements and of its
closing brace, and that inside its statements. The first two meet in `StatementsEdged`, since the
brace takes what the last statements hand on. -/
theorem allEdged_lambda_iff {opening closing : Token} {params : Option LambdaParams}
    {body : List Statement} :
    InnerEdged property (Lambda.tokens ⟨opening, params, body, closing⟩) ↔
      AllEdged property (partTokens LambdaParams.listTokens params) ∧
        StatementsEdged (.both property) (.both property) body closing.leading ∧
        ∀ s ∈ body, InnerEdged property s.tokens := by
  simp only [Lambda.tokens_mk, innerEdged_cons, allEdged_append, allEdged_cons, allEdged_nil,
    allEdged_statements_iff, statementsEdged_iff, Edge.both, and_true]
  constructor
  · rintro ⟨hparams, ⟨hlead, hinner⟩, hclosing⟩
    exact ⟨hparams, ⟨hlead, hclosing⟩, hinner⟩
  · rintro ⟨hparams, ⟨hlead, hclosing⟩, hinner⟩
    exact ⟨hparams, ⟨hlead, hinner⟩, hclosing⟩

/-- A property of trivia that `repair` preserves is carried over by every visit. The induction is on
what a visit can leave of an entry; an emptied body is a block without trivia, which is where
`hempty` is used. -/
theorem Keeps.carries (hclosed : RepairClosed (.both property) (.both property))
    (hempty : property "") {entry : Entry} {remains : Remains} (h : p.Keeps ctx entry remains) :
    Carries property entry remains := by
  -- The opening token of a node is left to the node around it; behind it only the lists change,
  -- and what they hand on is repaired.
  induction h with
  | atom => exact id
  | callExpr _ ih => simpa [Carries, Expr.tokens] using ih
  | lambdaExpr _ ih => simpa [Carries, Expr.tokens] using ih
  | annotatedNothing => exact id
  | annotated hexpr ih =>
      simp only [Carries, Expr.tokens_annotated, innerEdged_cons, allEdged_append, partTokens_some]
      rintro ⟨hname, hargs, hall⟩
      exact ⟨hname, hargs, hexpr.allEdged_expr ih hall⟩
  | field _ ih =>
      simp only [Carries, Expr.tokens, innerEdged_append (Expr.tokens_ne_nil _)] at ih ⊢
      exact And.imp_left ih
  | paren hinner ih =>
      simp only [Carries, Expr.tokens, List.cons_append, innerEdged_cons, allEdged_append]
      exact And.imp_left (hinner.allEdged_expr ih)
  | index _ hitems ihtarget ihitems =>
      simp only [Carries, Expr.tokens, Brackets.tokens, List.cons_append,
        innerEdged_append (Expr.tokens_ne_nil _), allEdged_cons, allEdged_append] at ihtarget ⊢
      rintro ⟨htarget, hopening, hall, hclosing⟩
      exact ⟨ihtarget htarget, hopening, hitems.allEdged_items hclosed ihitems hall, hclosing⟩
  | binary _ hright ihleft ihright =>
      simp only [Carries, Expr.tokens, innerEdged_append (Expr.tokens_ne_nil _),
        allEdged_cons] at ihleft ⊢
      exact And.imp ihleft (And.imp_right (hright.allEdged_expr ihright))
  | prefixed hoperand ih =>
      simp only [Carries, Expr.tokens, innerEdged_cons]
      exact hoperand.allEdged_expr ih
  | postfixed _ ih =>
      simp only [Carries, Expr.tokens, innerEdged_append (Expr.tokens_ne_nil _)] at ih ⊢
      exact And.imp_left ih
  | list hitems ih =>
      simp only [Carries, Expr.tokens, Brackets.tokens, List.cons_append, innerEdged_cons,
        allEdged_append]
      exact And.imp_left (hitems.allEdged_items hclosed ih)
  | sequence _ _ ihhead ihtail =>
      simp only [Carries, Expr.tokens, innerEdged_append (Expr.tokens_ne_nil _)] at ihhead ihtail ⊢
      exact And.imp ihhead (ihtail allEdged_nil)
  | tailEnd => exact fun hvisited _ => hvisited
  | tailNext hexpr _ ihexpr ihrest =>
      intro hvisited hall
      rw [Expr.listTokens, allEdged_append] at hall
      refine ihrest ?_ hall.2
      rw [allEdged_listTokens, List.forall_mem_append, ← allEdged_listTokens]
      exact ⟨hvisited, List.forall_mem_singleton.2 (hexpr.allEdged_expr ihexpr hall.1)⟩
  | @tailHollow _ _ e _ _ _ _ _ _ _ _ ihrest =>
      intro hvisited hall
      rw [Expr.listTokens, allEdged_append] at hall
      refine ihrest ?_ hall.2
      rw [allEdged_listTokens, List.forall_mem_append, ← allEdged_listTokens]
      refine ⟨hvisited, List.forall_mem_singleton.2 ?_⟩
      rw [Expr.tokens, Lambda.hollow, Lambda.tokens_mk]
      simp only [partTokens_none, Statement.listTokens, List.nil_append, allEdged_cons,
        allEdged_nil, and_true]
      exact ⟨(e.allEdged_iff.1 hall.1).1, hempty⟩
  | tailCut _ _ _ =>
      intro hvisited _
      rw [allEdged_listTokens] at hvisited ⊢
      exact fun e he => hvisited e (List.mem_of_mem_take he)
  | @call _ c receiver args lambda _ hreceiver _ _ _ _ ihreceiver ihargs ihlambda =>
      obtain ⟨receiver', name, types, args', lambda', style⟩ := c
      have hsome : receiver.isSome = receiver'.isSome := by
        have heq := hreceiver.firstToken?_eq
        simpa [Entry.firstToken?, Remains.firstToken?] using congrArg Option.isSome heq
      simp only [Carries, innerEdged_call_iff, hsome] at ihreceiver ihargs ihlambda ⊢
      rintro ⟨hinner, hname, htypes, hargs, hlambda⟩
      exact ⟨ihreceiver hinner, hname, htypes, ihargs hargs, ihlambda hlambda⟩
  | noReceiver | noArgs | noBlock => exact id
  | receiver _ ih =>
      simp only [Carries, partTokens_some, Receiver.tokens,
        innerEdged_append (Expr.tokens_ne_nil _)] at ih ⊢
      exact And.imp_left ih
  | args hitems ih =>
      simp only [Carries, partTokens_some, Arguments.tokens, allEdged_append] at ih ⊢
      exact And.imp_left (And.imp_right (hitems.allEdged_items hclosed ih))
  | itemsEnd => simp [Carries]
  | itemKept _ _ ihexpr ihitems =>
      intro hall
      rw [Item.listTokens, Item.tokens, allEdged_append, allEdged_append] at hall
      exact List.forall_mem_cons.2 ⟨ihexpr ((Expr.allEdged_iff _).1 hall.1.1).2, ihitems hall.2⟩
  | itemGone _ _ ihitems =>
      intro hall
      rw [Item.listTokens, allEdged_append] at hall
      exact ihitems hall.2
  | @block _ l l' hlambda ih =>
      obtain ⟨opening, params, body, closing⟩ := l
      obtain ⟨opening', params', body', closing'⟩ := l'
      have heq := hlambda.firstToken?_eq
      simp only [Entry.firstToken?, Remains.firstToken?, Option.some.injEq] at heq
      simp only [Carries, partTokens_some, Lambda.tokens_mk, allEdged_cons, innerEdged_cons] at ih ⊢
      rintro ⟨hopening, hinner⟩
      exact ⟨heq ▸ hopening, ih hinner⟩
  | @lambda ctx opening closing params body sifted swept decisions kept siftedTrailer trailer
      hbody hsift hsweep ih =>
      simp only [Carries, allEdged_lambda_iff, Token.withLeading]
      rintro ⟨hparams, hedged, hinner⟩
      obtain ⟨hkept, hlength⟩ := hbody.sifted hsift
      have hedgedSifted := StatementsEdged.sift hclosed hclosed (p.admits ctx) decisions true body
        closing.leading hbody.length_eq hedged
      rw [hsift] at hedgedSifted
      have hedgedSwept := StatementsEdged.sweep hclosed hclosed kept true sifted siftedTrailer
        hlength hedgedSifted
      have hinnerSwept := innerEdged_sweep true siftedTrailer hlength fun s hs =>
        ih hinner s ((hkept.filterMap id).subset hs)
      rw [hsweep] at hedgedSwept hinnerSwept
      exact ⟨hparams, hedgedSwept, hinnerSwept⟩
  | importing _ => exact id
  | expression _ ih =>
      simp only [Carries, Statement.tokens, innerEdged_append (Expr.tokens_ne_nil _)] at ih ⊢
      exact And.imp_left ih
  | empty => exact id
  | statementsEnd => simp [Carries]
  | statementKept _ _ ihstatement ihstatements =>
      intro hall
      obtain ⟨hstatement, hstatements⟩ := List.forall_mem_cons.1 hall
      exact List.forall_mem_cons.2 ⟨ihstatement hstatement, ihstatements hstatements⟩
  | statementGone _ _ ihstatements =>
      intro hall
      exact ihstatements (List.forall_mem_cons.1 hall).2

end Carries

/-- Properties of trivia that `repair` preserves hold all over a visited script if they hold all
over the script: `first` in front of its first token, `later` behind that.

The split lets a `#!` line stand at the start of a script and nowhere else. -/
theorem edged_visitScript {first later : Edge} (hfirst : RepairClosed first later)
    (hlater : RepairClosed later later)
    (hinner : RepairClosed (.both later.lead) (.both later.lead)) (hempty : later.lead "")
    (p : Pruner) (script : Script)
    (hedged : StatementsEdged first later script.statements script.eof)
    (hstatements : ∀ s ∈ script.statements, InnerEdged later.lead s.tokens) :
    StatementsEdged first later (p.visitScript script).1.statements (p.visitScript script).1.eof ∧
      ∀ s ∈ (p.visitScript script).1.statements, InnerEdged later.lead s.tokens := by
  have hkeeps := keeps_statements p {} script.statements
  have hlength := hkeeps.length_eq
  exact ⟨StatementsEdged.sweep hfirst hlater _ true script.statements script.eof hlength hedged,
    innerEdged_sweep true script.eof hlength (hkeeps.carries hinner hempty hstatements)⟩

end Pruner

end BuildPrune
