import BuildPrune.Proofs.Construction
import BuildPrune.Proofs.Idempotence

/-!
# BuildPrune.Proofs.Conservation

**When a visit changes nothing.** Where a rule set is against no call and no import of a parsed
script, the only thing that a visit can still remove is a link of a command chain with empty
parentheses, as `bar()` in `foo 'x' bar()`. The link has the style of a command, and a command
without arguments goes, although this one has parentheses and never lost an argument. Kotlin has no
commands, so there every such script is conserved (`Pruner.visitScript_eq_self_iff`).
-/

namespace BuildPrune

/-! ### Rules that are against nothing -/

/-- The rules are against no call of the script and no import at any depth. -/
def RuleSet.Spares (rules : RuleSet) (script : Script) : Prop :=
  (∀ call ∈ script.calls, call.removalReason rules = none) ∧
    ∀ path ∈ script.deepImports false, rules.imports.contains path.qualifiedName = false

theorem Call.firstArgumentIn_nil (call : Call) : call.firstArgumentIn [] = false := by
  rw [Call.firstArgumentIn]
  split <;> simp

/-- Without rules there is no reason to remove a call. -/
theorem Call.removalReason_of_isEmpty {rules : RuleSet} (h : rules.isEmpty = true) (call : Call) :
    call.removalReason rules = none := by
  simp only [RuleSet.isEmpty, Bool.and_eq_true, List.isEmpty_iff] at h
  obtain ⟨⟨⟨⟨⟨hplugins, hmethods⟩, hclasspath⟩, hwithArg⟩, -⟩, htypes⟩ := h
  simp [Call.removalReason, hplugins, hmethods, hclasspath, hwithArg, htypes,
    Call.firstArgumentIn_nil]

/-- The empty rule set spares every script. -/
theorem RuleSet.spares_of_isEmpty {rules : RuleSet} (h : rules.isEmpty = true) (script : Script) :
    rules.Spares script := by
  refine ⟨fun call _ => call.removalReason_of_isEmpty h, fun path _ => ?_⟩
  simp only [RuleSet.isEmpty, Bool.and_eq_true, List.isEmpty_iff] at h
  rw [h.1.2]
  rfl

/-! ### Links with empty parentheses

The grammar makes a link of a chain a command whether or not parentheses follow its name. So its
style says that it has arguments, and the list in the parentheses may be empty all the same. -/

/-- A link of a command chain with empty parentheses. -/
def Call.isEmptyLink (call : Call) : Bool :=
  call.style == .command &&
    call.args.any fun args => args.opening.isSome && args.items.isEmpty

/-- A call that stays has an argument if it is no regular one, so it is no link with empty
parentheses. -/
theorem Call.Stays.isEmptyLink {rules : RuleSet} {call : Call} (h : call.Stays rules) :
    call.isEmptyLink = false := by
  rw [Bool.eq_false_iff]
  intro hlink
  simp only [Call.isEmptyLink, Bool.and_eq_true, beq_iff_eq, Option.any_eq_true,
    List.isEmpty_iff] at hlink
  obtain ⟨hstyle, args, hargs, -, hitems⟩ := hlink
  exact h.2 (by rw [hstyle]; decide) args hargs hitems

/-- A call that is built by the grammar stays if no rule is against it, a link with empty
parentheses aside. A command and an infixed call are built with arguments. -/
theorem Call.Built.stays {caps : Capabilities} {rules : RuleSet} {call : Call}
    (h : call.Built caps) (hrules : call.removalReason rules = none)
    (hlink : call.isEmptyLink = false) : call.Stays rules := by
  refine ⟨hrules, ?_⟩
  cases h with
  | regular => exact fun hstyle => absurd rfl hstyle
  | link hcaps hparts =>
      intro _ args hargs hitems
      obtain rfl := Option.mem_def.1 hargs
      simp [Call.isEmptyLink, hitems, (hparts.enclosed args rfl).opening] at hlink
  | @command _ _ items _ hlead =>
      intro _ args hargs hitems
      obtain rfl := Option.mem_some.1 hargs
      obtain rfl : items = [] := hitems
      simp [Item.leadOnLine] at hlead
  | infixed =>
      intro _ args hargs
      obtain rfl := Option.mem_some.1 hargs
      exact List.cons_ne_nil _ _

/-- Only a dialect with commands has chains, and only a link of a chain can have the style of a
command and parentheses. -/
theorem Call.Built.isEmptyLink {caps : Capabilities} {call : Call} (h : call.Built caps)
    (hcaps : caps.commandExpressions = false) : call.isEmptyLink = false := by
  cases h with
  | regular | infixed => rfl
  | link hcommands | command hcommands => exact absurd hcommands (by rw [hcaps]; decide)

theorem calls_built {source : String} {dialect : Dialect} {script : Script}
    (h : parse source dialect = .ok script) :
    ∀ call ∈ script.calls, call.Built dialect.capabilities := by
  refine Script.forall_mem_calls ((built_of_parse h).mono fun _ e hbuilt call hcall => ?_)
  cases e with
  | call c =>
      obtain rfl := Option.mem_some.1 hcall
      exact hbuilt.1
  | _ => cases hcall

namespace Pruner

/-! ### Conservation

If no rule is against anything and no link is empty then the script is settled, and a visit leaves
it as it is. If some link is empty then it goes, and the script is not what it was. -/

/-- A parsed script that the rules spare, as the empty rule set does, comes out of a visit as it is,
with nothing counted, exactly if it has no link with empty parentheses. In Kotlin it always does.

In one direction such a script is settled (`visitScript_of_settled`); in the other, a script that
comes out of a visit is. -/
theorem visitScript_eq_self_iff {source : String} {dialect : Dialect} {script : Script}
    {rules : RuleSet} (hparse : parse source dialect = .ok script)
    (hrules : rules.isEmpty = true ∨ rules.Spares script) :
    (visitScript { rules } script = (script, 0) ↔
        ∀ call ∈ script.calls, call.isEmptyLink = false) ∧
      (dialect = .kotlin → visitScript { rules } script = (script, 0)) := by
  obtain ⟨hreasons, himports⟩ := hrules.elim (RuleSet.spares_of_isEmpty · script) id
  have hbuilt := calls_built hparse
  have hconserved : (∀ call ∈ script.calls, call.isEmptyLink = false) →
      visitScript { rules } script = (script, 0) := by
    intro hlinks
    refine visitScript_of_settled (fun _ => rfl) script (settled_statements_iff.1 ⟨?_, himports⟩)
    exact fun call hcall =>
      (hbuilt call hcall).stays (hreasons call hcall) (hlinks call hcall)
  refine ⟨⟨fun hsame call hcall => ?_, hconserved⟩, ?_⟩
  · -- What a visit leaves is settled, and here it is the script itself.
    have hsettled := settled_visitScript { rules } script
    rw [hsame] at hsettled
    exact ((settled_statements_iff.2 hsettled).1 call hcall).isEmptyLink
  · rintro rfl
    exact hconserved fun call hcall => (hbuilt call hcall).isEmptyLink rfl

/-- A command chain and an import that the rules are not against. -/
theorem visitScript_eq_self_chain :
    ∃ script, parse "import a.c\nid 'x' version '1'\n" .groovy = .ok script ∧
      visitScript { rules := { methods := ["rm"], imports := ["a.b"] } } script = (script, 0) := by
  have hchecked : (parse "import a.c\nid 'x' version '1'\n" .groovy).toOption.any (fun script =>
      script.calls.all (fun call => !call.isEmptyLink &&
        (call.removalReason { methods := ["rm"], imports := ["a.b"] }).isNone) &&
      (script.deepImports false).all fun path => !(["a.b"].contains path.qualifiedName)) =
        true := by
    decide +kernel
  obtain ⟨script, hparse, hchecked⟩ := ok_of_any hchecked
  simp only [Bool.and_eq_true, List.all_eq_true, Bool.not_eq_true',
    Option.isNone_iff_eq_none] at hchecked
  obtain ⟨hcalls, himports⟩ := hchecked
  refine ⟨script, hparse, (visitScript_eq_self_iff hparse (.inr ⟨?_, himports⟩)).1.2 ?_⟩
  · exact fun call hcall => (hcalls call hcall).2
  · exact fun call hcall => (hcalls call hcall).1

/-- A link with empty parentheses goes even if there are no rules at all. -/
theorem not_visitScript_eq_self_of_emptyLink :
    ¬∀ (source : String) (dialect : Dialect) (script : Script) (rules : RuleSet),
      parse source dialect = .ok script → rules.isEmpty = true ∨ rules.Spares script →
        visitScript { rules } script = (script, 0) := by
  intro h
  have hremoved : (parse "foo 'x' bar()\n" .groovy).toOption.any (fun script =>
      (visitScript { rules := {} } script).2 == 1) = true := by
    decide +kernel
  obtain ⟨script, hparse, hremoved⟩ := ok_of_any hremoved
  rw [h _ _ script {} hparse (.inl rfl)] at hremoved
  cases hremoved

end Pruner

end BuildPrune
