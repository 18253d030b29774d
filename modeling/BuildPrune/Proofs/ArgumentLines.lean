import BuildPrune.Proofs.Construction
import BuildPrune.Proofs.Inheritance
import BuildPrune.Proofs.LineBreaks
import BuildPrune.Proofs.Settled
import BuildPrune.Proofs.VisitRules

/-!
# BuildPrune.Proofs.ArgumentLines

**Arguments without parentheses start on the line of their call.** Otherwise the call and its
arguments would be read as two statements. It is so in a parsed script, but a visit does not always
keep it: if the first argument of a Groovy command goes and the next one starts a line, that one is
left where it is. It is kept in Kotlin, where such calls have one argument, and wherever no argument
that starts a line becomes the first (`Pruner.argumentsLead_visitScript`).
-/

namespace BuildPrune

/-- If the arguments have no parentheses, there is a first one and it does not start a line. -/
def Call.argumentsLead (call : Call) : Bool :=
  call.args.all fun args => args.opening.isSome || Item.leadOnLine args.items

/-- So it is with every call of the script. -/
def Script.ArgumentsLead (script : Script) : Prop :=
  script.Every fun _ e => e.IfCall (·.argumentsLead = true)

instance (script : Script) : Decidable script.ArgumentsLead :=
  inferInstanceAs (Decidable (∀ o ∈ script.occurrences, ∀ call ∈ o.expr.call?,
    call.argumentsLead = true))

/-! ### Reading

The grammar asks for the first argument of a command on the line of its name, and this is recorded
in the nodes that it builds. So for a parsed script there is nothing left to follow through the
productions. -/

/-- The four ways to build a call put its arguments into parentheses, or on the line of the call. -/
theorem Call.Built.argumentsLead {caps : Capabilities} {call : Call} (h : call.Built caps) :
    call.argumentsLead = true := by
  cases h with
  | regular hparts | link _ hparts =>
      rw [Call.argumentsLead, Option.all_eq_true]
      intro args hargs
      rw [(hparts.enclosed args hargs).opening, Bool.true_or]
  | command _ hlead | infixed _ hlead => exact hlead

theorem Call.Built.opening_of_regular {caps : Capabilities} {call : Call} (h : call.Built caps)
    (hstyle : call.style = .regular) : ∀ a ∈ call.args, a.opening.isSome := by
  cases h with
  | regular hparts => exact fun a ha => (hparts.enclosed a ha).opening
  | link | command | infixed => cases hstyle

theorem Expr.Built.argumentsLead {caps : Capabilities} {e : Expr} (h : e.Built caps) :
    e.IfCall (·.argumentsLead = true) := by
  intro call hcall
  cases e with
  | call c =>
      obtain rfl := Option.mem_some.1 hcall
      exact h.1.argumentsLead
  | _ => cases hcall

/-! ### Removing

What decides is the first argument that stays. If it does not start a line then the arguments
still start on the line of their call, and this can be checked in the script before the visit
(`Pruner.KeepsLeads`). -/

namespace Item

/-- While the first item goes, the next one does not start a line. Behind the first item that stays,
line breaks are of no matter. -/
def leadStays : (decisions : List (Option Expr)) → List Item → Bool
  | none :: decisions, _ :: rest =>
    (rest.head?.all fun next => !next.expr.firstToken.startsLine) && leadStays decisions rest
  | _, _ => true

theorem leadOnLine_of_map {items : List Item} {e : Expr} {exprs : List Expr}
    (h : items.map Item.expr = e :: exprs) : leadOnLine items = !e.firstToken.startsLine := by
  cases items with
  | nil => cases h
  | cons item rest =>
      cases h
      rfl

/-- Whether the lead stays does not depend on the first item itself, but on the decisions and on the
items behind it. -/
theorem leadStays_cons (decisions : List (Option Expr)) (item item' : Item) (rest : List Item) :
    leadStays decisions (item :: rest) = leadStays decisions (item' :: rest) := by
  match decisions with
  | [] | none :: _ | some _ :: _ => rfl

/-- What is left of items that lead on the line leads on the line. While the first item goes, the
next one takes its place and its trivia; it must not start a line itself, which `leadStays` asks
for. -/
theorem leadOnLine_sweep : ∀ {decisions : List (Option Expr)} {items : List Item},
    decisions.length = items.length → leadOnLine items = true →
      leadStays decisions items = true → sweep [] decisions items ≠ [] →
      leadOnLine (sweep [] decisions items) = true
  | [], [], _, _, _, hleft => by
      rw [sweep_nil] at hleft
      exact absurd rfl hleft
  | some decided :: decisions, item :: rest, hlength, hlead, _, _ => by
      rw [sweep_some]
      obtain ⟨exprs, hexprs, -⟩ := placed_sweep decisions
        ([] ++ [{ item with expr := decided.withLeading item.expr.leading }]) rest
        (Nat.succ.inj hlength)
      rw [leadOnLine_of_map hexprs, Expr.startsLine_withLeading]
      exact hlead
  | none :: decisions, [last], hlength, _, _, hleft => by
      obtain rfl : decisions = [] := List.eq_nil_of_length_eq_zero (Nat.succ.inj hlength)
      rw [sweep_last] at hleft
      exact absurd rfl hleft
  | none :: decisions, item :: next :: rest, hlength, hlead, hstays, hleft => by
      rw [sweep_next] at hleft ⊢
      simp only [leadStays, List.head?_cons, Option.all_some, Bool.and_eq_true,
        Bool.not_eq_true'] at hstays
      refine leadOnLine_sweep (Nat.succ.inj hlength) ?_ ?_ hleft
      · simp only [leadOnLine, Bool.not_eq_true'] at hlead
        rw [leadOnLine, startsLine_takeOver, hlead, hstays.1]
        rfl
      · rw [leadStays_cons decisions _ next]
        exact hstays.2

end Item

namespace Pruner

/-- No argument that starts a line becomes the first of the call. -/
def keepsLead (p : Pruner) (ctx : Context) (call : Call) : Bool :=
  call.args.all fun args => args.opening.isSome ||
    Item.leadStays ((p.visitItems (ctx.entering call) args.items).map Outcome.node) args.items

/-- So it is with every call that the visit of the script enters. -/
def KeepsLeads (p : Pruner) (script : Script) : Prop :=
  script.Every fun within e => ∀ ctx ∈ within, e.IfCall (p.keepsLead ctx · = true)

instance (p : Pruner) (script : Script) : Decidable (p.KeepsLeads script) :=
  inferInstanceAs (Decidable (∀ o ∈ script.occurrences, ∀ ctx ∈ o.within, ∀ call ∈ o.expr.call?,
    p.keepsLead ctx call = true))

variable {p : Pruner} {ctx : Context}

theorem Keeps.lead_args {args args' : Option Arguments} (h : p.Keeps ctx (.args args) (.args args'))
    (hlead : ∀ a ∈ args, (a.opening.isSome || Item.leadOnLine a.items) = true)
    (hstays : ∀ a ∈ args, (a.opening.isSome ||
      Item.leadStays ((p.visitItems ctx a.items).map Outcome.node) a.items) = true)
    (hleft : (∃ a ∈ args, a.opening = none) → ∀ a ∈ args', a.items ≠ []) :
    ∀ a ∈ args', (a.opening.isSome || Item.leadOnLine a.items) = true := by
  intro a ha
  cases h with
  | noArgs => cases ha
  | @args _ opening _ items _ hitems =>
      obtain rfl := Option.mem_some.1 ha
      cases opening with
      | some t => rfl
      | none =>
          have hlead := hlead _ rfl
          have hstays := hstays _ rfl
          rw [hitems.leaves] at hstays
          exact Item.leadOnLine_sweep hitems.length_eq hlead hstays (hleft ⟨_, rfl, rfl⟩ _ rfl)

/-- The arguments of a call that stays start on its line. With parentheses there is nothing to show;
without, at least one argument is left, and it leads. -/
theorem Keeps.argumentsLead {caps : Capabilities} {c c' : Call}
    (h : p.Keeps ctx (.call c) (.call c')) (hbuilt : c.Built caps)
    (hkeeps : p.keepsLead ctx c = true) : c'.argumentsLead = true := by
  have hlead := hbuilt.argumentsLead
  rw [Call.argumentsLead, Option.all_eq_true] at hlead
  rw [keepsLead, Option.all_eq_true] at hkeeps
  cases h with
  | call _ _ hargs hstyle _ _ =>
      rw [Call.argumentsLead, Option.all_eq_true]
      refine hargs.lead_args hlead hkeeps fun hbare => hstyle ?_
      -- A call without parentheses is no regular one.
      obtain ⟨a, ha, hopening⟩ := hbare
      intro hregular
      have hparens := hbuilt.opening_of_regular hregular a ha
      rw [hopening] at hparens
      cases hparens

/-- What a visit leaves of a call starts its arguments on its line, if the call was built by the
grammar and keeps its lead in the context that it is visited in. -/
theorem hereditary_argumentsLead (p : Pruner) (caps : Capabilities) :
    p.Hereditary
      (fun within e => e.Built caps ∧ ∀ ctx ∈ within, e.IfCall (p.keepsLead ctx · = true))
      fun _ e => e.IfCall (·.argumentsLead = true) where
  visited h he := by
    intro call hcall
    cases h with
    | callExpr hkeeps =>
        obtain rfl := Option.mem_some.1 hcall
        exact hkeeps.argumentsLead he.1.1 (he.2 _ rfl _ rfl)
    | _ => cases hcall
  copied _ _ h := h.1.argumentsLead
  placed leading h := by
    intro call hcall
    rw [Expr.call?_withLeading, Option.mem_def, Option.map_eq_some_iff] at hcall
    obtain ⟨call, hcall, rfl⟩ := hcall
    rw [← h call hcall]
    obtain ⟨receiver, name, types, args, lambda, style⟩ := call
    cases receiver <;> rfl
  hollow _ call hcall := by cases hcall

/-- A call of a dialect without commands has no second argument that could become the first: only
infixed calls have no parentheses there, and these have one argument. -/
theorem keepsLead_of_built {caps : Capabilities} {c : Call} (h : c.Built caps)
    (hcaps : caps.commandExpressions = false) (p : Pruner) (ctx : Context) :
    p.keepsLead ctx c = true := by
  rw [keepsLead, Option.all_eq_true]
  cases h with
  | regular hparts =>
      intro a ha
      rw [(hparts.enclosed a ha).opening, Bool.true_or]
  | link hcommands | command hcommands => exact absurd hcommands (by rw [hcaps]; decide)
  | infixed =>
      intro a ha
      obtain rfl := Option.mem_some.1 ha
      simp only [visitItems, List.map_cons, List.map_nil]
      cases (p.visitExpr _ _).node <;> rfl

/-- In a parsed script the arguments of every call without parentheses start on the line of the
call. They still do after a visit if the script is Kotlin, or if no argument that starts a line
becomes the first.

The condition can be checked: `KeepsLeads` is decidable. Without it a command falls apart when its
text is read again (`not_argumentsLead_visitScript`). -/
theorem argumentsLead_visitScript {source : String} {dialect : Dialect} {script : Script}
    (hparse : parse source dialect = .ok script) :
    script.ArgumentsLead ∧ ∀ p : Pruner, dialect = .kotlin ∨ p.KeepsLeads script →
      (p.visitScript script).1.ArgumentsLead := by
  have hbuilt := built_of_parse hparse
  refine ⟨hbuilt.mono fun _ _ h => h.argumentsLead, fun p hcond => ?_⟩
  have hkeeps : p.KeepsLeads script := by
    refine hcond.elim (fun hkotlin => ?_) id
    subst hkotlin
    refine hbuilt.mono fun within e he ctx _ call hcall => ?_
    cases e with
    | call c =>
        obtain rfl := Option.mem_some.1 hcall
        exact keepsLead_of_built he.1 rfl p ctx
    | _ => cases hcall
  exact (p.hereditary_argumentsLead dialect.capabilities).visitScript fun o ho =>
    ⟨hbuilt o ho, hkeeps o ho⟩

/-- A command that loses its first argument, where the next one is on the same line. -/
theorem argumentsLead_visitScript_command :
    ∃ script, parse "foo rm(), bar,\n  baz\n" .groovy = .ok script ∧
      (visitScript { rules := { methods := ["rm"] } } script).1.ArgumentsLead := by
  have hkeeps : (parse "foo rm(), bar,\n  baz\n" .groovy).toOption.any (fun script =>
      decide (KeepsLeads { rules := { methods := ["rm"] } } script)) = true := by
    decide +kernel
  obtain ⟨script, hparse, hkeeps⟩ := ok_of_any hkeeps
  exact ⟨script, hparse,
    (argumentsLead_visitScript hparse).2 _ (.inr (of_decide_eq_true hkeeps))⟩

/-- Where the next argument starts a line, it is left there, and the call is read without it. -/
theorem not_argumentsLead_visitScript :
    ¬∀ (source : String) (dialect : Dialect) (script : Script) (rules : RuleSet),
      parse source dialect = .ok script → (visitScript { rules } script).1.ArgumentsLead := by
  intro h
  have hmoved : (parse "foo rm(),\n  bar\n" .groovy).toOption.any (fun script =>
      decide ¬(visitScript { rules := { methods := ["rm"] } } script).1.ArgumentsLead) = true := by
    decide +kernel
  obtain ⟨script, hparse, hmoved⟩ := ok_of_any hmoved
  exact of_decide_eq_true hmoved (h _ _ script { methods := ["rm"] } hparse)

end Pruner

end BuildPrune
