import BuildPrune.Proofs.Construction
import BuildPrune.Proofs.Inheritance

/-!
# BuildPrune.Proofs.WellFormed

The shape of a tree. Printing and the rules rely on more than the types of the nodes say: that lists
have a comma between two entries, that parentheses come in pairs, that a call has something to be
recognised by, that a call between its operands has two of them. `Expr.WellFormed` collects this for
one node, and `Script.WellFormed` for all nodes of a script.

A parsed script is well-formed (`wellFormed_of_parse`), because its nodes are built so. A visit
keeps it well-formed: a sweep takes a comma away with its item, or hands it back to the item that is
the last now (`Item.sweep_commas`), and a call that would be left without arguments between its
operands goes. Nothing is said of trivia here.
-/

namespace BuildPrune

/-! ### Well-formed nodes

Each clause is about one node and the tokens around its parts. That all nodes of a tree are
well-formed is a property of its occurrences. -/

/-- A list of arguments. Without parentheses it ends with an argument, and no comma behind. -/
structure Arguments.WellFormed (args : Arguments) : Prop where
  punctuated : Punctuated (args.items.map Item.comma)
  paired : args.opening.isSome = args.closing.isSome
  bare : args.opening = none → (args.items.map Item.comma).getLast? = some none

/-- A call between its operands. What is in front of its name is one of them, and its only argument
is the other. -/
structure Call.BetweenOperands (call : Call) : Prop where
  receiver : ∃ receiver ∈ call.receiver, receiver.dot = none
  argument : ∃ args ∈ call.args, args.items.length = 1
  noTypes : call.types = none
  noLambda : call.lambda = none

/-- A call. Only a call that is not regular can have arguments without parentheses. -/
structure Call.WellFormed (dialect : Dialect) (call : Call) : Prop where
  args : ∀ args ∈ call.args, args.WellFormed
  types : ∀ types ∈ call.types, Punctuated (types.params.map TypeParam.comma)
  parens : call.style = .regular → ∀ args ∈ call.args, args.opening.isSome
  regular : call.style = .regular → call.args.isSome ∨ call.lambda.isSome
  command : call.style = .command → dialect ≠ .kotlin
  infixed : call.style = .infixed → dialect ≠ .groovy ∧ call.BetweenOperands

/-- A node, apart from the nodes inside it. -/
def Expr.WellFormed (dialect : Dialect) : Expr → Prop
  | .call c => c.WellFormed dialect
  | .annotated _ _ args _ => dialect ≠ .groovy ∧ ∀ a ∈ args, a.WellFormed
  | .index _ brackets | .list brackets => Punctuated (brackets.items.map Item.comma)
  | _ => True

/-- All nodes of a script. -/
def Script.WellFormed (dialect : Dialect) (script : Script) : Prop :=
  script.Every fun _ e => e.WellFormed dialect

/-! ### Parsed scripts -/

theorem Arguments.Enclosed.wellFormed {args : Arguments} (h : args.Enclosed) : args.WellFormed where
  punctuated := h.punctuated
  paired := h.opening.trans h.closing.symm
  bare hbare := by
    have hopening := h.opening
    rw [hbare] at hopening
    cases hopening

theorem Item.Bare.wellFormed {items : List Item} (h : Item.Bare items) :
    Arguments.WellFormed ⟨none, items, none⟩ where
  punctuated := h.punctuated
  paired := rfl
  bare _ := h.last

/-- A single argument, as a call between its operands has it. -/
theorem Item.bare_singleton (e : Expr) : Item.Bare [⟨e, none⟩] :=
  ⟨by simp [Punctuated], rfl⟩

/-- Each of the four ways to build a call gives it what its style asks for, and the dialect has the
capability. -/
theorem Call.Built.wellFormed {dialect : Dialect} {call : Call}
    (h : call.Built dialect.capabilities) : call.WellFormed dialect := by
  cases h with
  | regular hparts hsome =>
      refine ⟨fun a ha => (hparts.enclosed a ha).wellFormed, hparts.types, ?_, ?_, nofun, nofun⟩
      · exact fun _ a ha => (hparts.enclosed a ha).opening
      · exact fun _ => hparts.called hsome
  | link hcaps hparts =>
      refine ⟨fun a ha => (hparts.enclosed a ha).wellFormed, hparts.types, nofun, nofun, ?_, nofun⟩
      intro _ hkotlin
      rw [hkotlin] at hcaps
      cases hcaps
  | command hcaps _ hbare =>
      refine ⟨?_, nofun, nofun, nofun, ?_, nofun⟩
      · intro a ha
        obtain rfl := Option.mem_some.1 ha
        exact hbare.wellFormed
      · intro _ hkotlin
        rw [hkotlin] at hcaps
        cases hcaps
  | infixed hcaps _ =>
      refine ⟨?_, nofun, nofun, nofun, nofun, fun _ => ⟨?_, ?_⟩⟩
      · intro a ha
        obtain rfl := Option.mem_some.1 ha
        exact (Item.bare_singleton _).wellFormed
      · intro hgroovy
        rw [hgroovy] at hcaps
        cases hcaps
      · exact ⟨⟨_, rfl, rfl⟩, ⟨_, rfl, rfl⟩, rfl, rfl⟩

/-- Of the other nodes, only lists and annotations have conditions, and these are those of how they
are built. -/
theorem Expr.Built.wellFormed {dialect : Dialect} {e : Expr} (h : e.Built dialect.capabilities) :
    e.WellFormed dialect := by
  cases e with
  | call c => exact h.1.wellFormed
  | annotated marker name args expr =>
      obtain ⟨hcaps, hargs⟩ := h
      refine ⟨?_, fun a ha => (hargs a ha).wellFormed⟩
      intro hgroovy
      rw [hgroovy] at hcaps
      cases hcaps
  | index target brackets => exact h
  | list brackets => exact h
  | _ => trivial

/-- Every parsed script is well-formed in its dialect. The grammar is used through `built_of_parse`
only. -/
theorem wellFormed_of_parse {source : String} {dialect : Dialect} {script : Script}
    (h : parse source dialect = .ok script) : script.WellFormed dialect :=
  (built_of_parse h).mono fun _ _ hbuilt => hbuilt.wellFormed

/-! ### Commas of a list that is swept

Between two items there is a comma whatever was removed, and behind the last there is one if there
was one behind the last before. -/

namespace Item

/-- What is left of a list has no comma between its items that was not between them before, and it
ends as the list ended.

The commas between the items are those of `dropLast`. An item that goes takes its comma with it
unless it is the last; then the item before it ends the list in its way. -/
theorem sweep_commas : ∀ (decisions : List (Option Expr)) (before items : List Item),
    decisions.length = items.length →
      ((sweep before decisions items).map Item.comma).dropLast.Sublist
        ((before ++ items).map Item.comma).dropLast ∧
      (sweep before decisions items ≠ [] →
        ((sweep before decisions items).map Item.comma).getLast? =
          ((before ++ items).map Item.comma).getLast?)
  | [], before, [], _ => by
      rw [sweep_nil]
      exact ⟨.refl _, fun _ => rfl⟩
  | some decided :: decisions, before, item :: rest, hlength => by
      have hswept := sweep_commas decisions
        (before ++ [{ item with expr := decided.withLeading item.expr.leading }]) rest
        (Nat.succ.inj hlength)
      rw [sweep_some]
      simpa using hswept
  | none :: decisions, before, [last], hlength => by
      obtain rfl : decisions = [] := List.eq_nil_of_length_eq_zero (Nat.succ.inj hlength)
      rw [sweep_last]
      -- The comma of the item that goes closes the list in front of it.
      rcases List.eq_nil_or_concat before with rfl | ⟨front, closing, rfl⟩
      · exact ⟨.slnil, fun hne => absurd rfl hne⟩
      · rw [List.concat_eq_append, closeWith_append]
        simp
  | none :: decisions, before, item :: next :: rest, hlength => by
      obtain ⟨hbetween, hlast⟩ := sweep_commas decisions before (takeOver item next :: rest)
        (Nat.succ.inj hlength)
      rw [sweep_next]
      refine ⟨hbetween.trans ?_, fun hne => (hlast hne).trans ?_⟩
      · simp
      · simp

end Item

/-- So a list that is swept still has a comma between two entries. -/
theorem Punctuated.sweep {decisions : List (Option Expr)} {items : List Item}
    (h : Punctuated (items.map Item.comma)) (hlength : decisions.length = items.length) :
    Punctuated ((Item.sweep [] decisions items).map Item.comma) :=
  fun comma hcomma => h comma ((Item.sweep_commas decisions [] items hlength).1.subset hcomma)

namespace Pruner

variable {p : Pruner} {ctx : Context} {dialect : Dialect}

/-! ### Visited scripts

A visit makes few nodes of its own: a body that becomes `{}`, and copies with fewer entries. For
calls it has to be seen that they do not lose what their form needs. -/

/-- Arguments without parentheses stay well-formed if one of them stays. With parentheses there may
be none. -/
theorem Keeps.args_wellFormed {args args' : Option Arguments}
    (h : p.Keeps ctx (.args args) (.args args')) (hargs : ∀ a ∈ args, a.WellFormed)
    (hstays : (∃ a ∈ args, a.opening = none) → ∀ a ∈ args', a.items ≠ []) :
    ∀ a ∈ args', a.WellFormed := by
  cases h with
  | noArgs => exact hargs
  | args hitems =>
      intro a ha
      obtain rfl := Option.mem_some.1 ha
      obtain ⟨hpunctuated, hpaired, hbare⟩ := hargs _ rfl
      refine ⟨hpunctuated.sweep hitems.length_eq, hpaired, fun hopening => ?_⟩
      have hswept := Item.sweep_commas _ [] _ hitems.length_eq
      exact (hswept.2 (hstays ⟨_, rfl, hopening⟩ _ rfl)).trans (hbare hopening)

/-- A visit takes arguments out of a list of arguments, and never the list. -/
theorem Keeps.isSome_args {args args' : Option Arguments}
    (h : p.Keeps ctx (.args args) (.args args')) : args'.isSome = args.isSome := by
  cases h <;> rfl

/-- A visit takes statements out of a block, and never the block of a call that stays. -/
theorem Keeps.isSome_block {lambda lambda' : Option Lambda}
    (h : p.Keeps ctx (.block lambda) (.block lambda')) : lambda'.isSome = lambda.isSome := by
  cases h <;> rfl

/-- Parentheses stay where they are. -/
theorem Keeps.opening_args {args args' : Option Arguments}
    (h : p.Keeps ctx (.args args) (.args args')) (hopening : ∀ a ∈ args, a.opening.isSome) :
    ∀ a ∈ args', a.opening.isSome := by
  cases h with
  | noArgs => exact hopening
  | args =>
      intro a ha
      obtain rfl := Option.mem_some.1 ha
      have hsome := hopening _ rfl
      exact hsome

/-- A call between its operands stays so if its argument stays. It has one argument only, and would
have gone with it. -/
theorem Keeps.betweenOperands {c c' : Call} (h : p.Keeps ctx (.call c) (.call c'))
    (hstyle : c.style = .infixed) (hbetween : c.BetweenOperands) : c'.BetweenOperands := by
  obtain ⟨receiver, name, types, args, lambda, style⟩ := c
  obtain ⟨⟨r, hr, hdot⟩, ⟨a, ha, hone⟩, htypes, hnoLambda⟩ := hbetween
  obtain rfl := Option.mem_def.1 hr
  obtain rfl := Option.mem_def.1 ha
  cases h with
  | call _ hreceiver hargs hstays hlambda _ =>
      refine ⟨?_, ?_, htypes, ?_⟩
      · cases hreceiver with
        | receiver => exact ⟨_, rfl, hdot⟩
      · cases hargs with
        | @args _ _ _ items decisions hitems =>
            refine ⟨_, rfl, ?_⟩
            show (Item.sweep [] decisions items).length = 1
            have hleft : Item.sweep [] decisions items ≠ [] := hstays (by rw [hstyle]; decide) _ rfl
            have hlength := (Item.sweep_commas decisions [] items hitems.length_eq).1.length_le
            rw [← List.length_pos_iff] at hleft
            simp only [List.length_dropLast, List.length_map, List.nil_append] at hlength hone
            omega
      · obtain rfl : lambda = none := hnoLambda
        cases hlambda with
        | noBlock => rfl

/-- A call that stays is well-formed as it was: style, name and type arguments are the same, and its
parts are there if they were. -/
theorem Keeps.call_wellFormed {c c' : Call} (h : p.Keeps ctx (.call c) (.call c'))
    (hc : c.WellFormed dialect) : c'.WellFormed dialect := by
  have hbetween := h.betweenOperands
  cases h with
  | call _ _ hargs hstays hlambda _ =>
      refine ⟨?_, hc.types, ?_, ?_, hc.command, ?_⟩
      · refine hargs.args_wellFormed hc.args fun hbare => hstays ?_
        obtain ⟨a, ha, hopening⟩ := hbare
        intro hregular
        have hparens := hc.parens hregular a ha
        rw [hopening] at hparens
        cases hparens
      · exact fun hregular => hargs.opening_args (hc.parens hregular)
      · intro hregular
        rw [hargs.isSome_args, hlambda.isSome_block]
        exact hc.regular hregular
      · exact fun hinfixed =>
          ⟨(hc.infixed hinfixed).1, hbetween hinfixed (hc.infixed hinfixed).2⟩

/-- What is left of a well-formed node is well-formed. Only lists, calls and annotations have
something to show. -/
theorem Keeps.wellFormed {e e' : Expr} (h : p.Keeps ctx (.expr e) (.expr e'))
    (he : e.WellFormed dialect) : e'.WellFormed dialect := by
  cases h with
  | callExpr hcall => exact hcall.call_wellFormed he
  | annotatedNothing | annotated => exact he
  | index _ hitems | list hitems => exact Punctuated.sweep he hitems.length_eq
  | _ => trivial

theorem call_wellFormed_withLeading {c : Call} (leading : String) (h : c.WellFormed dialect) :
    (c.withLeading leading).WellFormed dialect := by
  obtain ⟨receiver, name, types, args, lambda, style⟩ := c
  obtain ⟨hargs, htypes, hparens, hregular, hcommand, hinfixed⟩ := h
  cases receiver with
  | none =>
      refine ⟨hargs, htypes, hparens, hregular, hcommand, fun hstyle => ?_⟩
      obtain ⟨_, hnone, -⟩ := (hinfixed hstyle).2.receiver
      cases hnone
  | some r =>
      obtain ⟨target, dot⟩ := r
      refine ⟨hargs, htypes, hparens, hregular, hcommand, fun hstyle => ?_⟩
      obtain ⟨hdialect, ⟨_, hr, hdot⟩, hargument, hnoTypes, hnoLambda⟩ := hinfixed hstyle
      obtain rfl := Option.mem_some.1 hr
      exact ⟨hdialect, ⟨_, rfl, hdot⟩, hargument, hnoTypes, hnoLambda⟩

theorem wellFormed_withLeading {e : Expr} (leading : String) (h : e.WellFormed dialect) :
    (e.withLeading leading).WellFormed dialect := by
  cases e with
  | call c => exact call_wellFormed_withLeading leading h
  | annotated | index | list => exact h
  | _ => trivial

/-- Well-formedness is handed down to what a visit leaves, node by node. -/
theorem hereditary_wellFormed (p : Pruner) (dialect : Dialect) :
    p.Hereditary (fun _ e => e.WellFormed dialect) fun _ e => e.WellFormed dialect where
  visited h he := h.wellFormed he
  copied _ _ h := h
  placed leading h := wellFormed_withLeading leading h
  hollow _ := trivial

/-- A parsed script is well-formed in its dialect, and it still is after any number of visits, each
with its own rules and its own filter of `plugins` blocks.

The induction is on the visits, since a visit asks for a well-formed script only, and not for one
that was parsed. -/
theorem wellFormed_visits {source : String} {dialect : Dialect} {script : Script}
    (h : parse source dialect = .ok script) (pruners : List Pruner) :
    (pruners.foldl (fun visited p => (p.visitScript visited).1) script).WellFormed dialect := by
  have hscript := wellFormed_of_parse h
  clear h
  induction pruners generalizing script with
  | nil => exact hscript
  | cons p pruners ih => exact ih ((p.hereditary_wellFormed dialect).visitScript hscript)

/-- A command and a list in parentheses that both lose their last argument, visited twice. -/
theorem wellFormed_visits_commas :
    ∃ script, parse "foo a, rm()\nbar(b, rm(),)\n" .groovy = .ok script ∧
      ([{ rules := { methods := ["rm"] } }, { rules := {} }].foldl
        (fun visited (p : Pruner) => (p.visitScript visited).1) script).WellFormed .groovy := by
  have haccepted : (parse "foo a, rm()\nbar(b, rm(),)\n" .groovy).toOption.any
      (fun _ => true) = true := by
    decide +kernel
  obtain ⟨script, hparse, -⟩ := ok_of_any haccepted
  exact ⟨script, hparse, wellFormed_visits hparse _⟩

end Pruner

end BuildPrune
