import BuildPrune.Proofs.Visiting

/-!
# BuildPrune.Proofs.StrictPositions

**A call in a strict position takes the whole expression with it.** A strict position is one from
which nothing can be removed alone: what a call is made on, the target of a member or of an index,
the inside of parentheses, an operand, what an annotation is about, and the elements of a sequence
other than the bodies of control statements (`Expr.Strict`). If there is a reason to remove a call
in such a position, a visit leaves nothing of the expression (`Pruner.gone_of_strict`), and so
nothing of a chain of calls, however long, that starts with a removed plugin.
-/

namespace BuildPrune

/-- The call stands in a strict position of the expression: nothing on the way down to it can lose a
part and stay. -/
inductive Expr.Strict (call : Call) : Expr → Prop
  | self : Strict call (.call call)
  | receiver {target : Expr} {dot : Option Token} {name : Token} {types : Option TypeArgs}
      {args : Option Arguments} {lambda : Option Lambda} {style : CallStyle}
      (h : Strict call target) :
      Strict call (.call ⟨some ⟨target, dot⟩, name, types, args, lambda, style⟩)
  | annotated {marker : Token} {name : List Token} {args : Option Arguments} {expr : Expr}
      (h : Strict call expr) : Strict call (.annotated marker name args (some expr))
  | field {target : Expr} {dot name : Token} (h : Strict call target) :
      Strict call (.field target dot name)
  | paren {opening closing : Token} {inner : Expr} (h : Strict call inner) :
      Strict call (.paren opening inner closing)
  | index {target : Expr} {brackets : Brackets} (h : Strict call target) :
      Strict call (.index target brackets)
  | left {left right : Expr} {op : Token} (h : Strict call left) :
      Strict call (.binary left op right)
  | right {left right : Expr} {op : Token} (h : Strict call right) :
      Strict call (.binary left op right)
  | prefixed {op : Token} {operand : Expr} (h : Strict call operand) :
      Strict call (.prefixed op operand)
  | postfixed {operand : Expr} {op : Token} (h : Strict call operand) :
      Strict call (.postfixed operand op)
  | head {head : Expr} {tail : List Expr} (h : Strict call head) : Strict call (.sequence head tail)
  | tail {head expr : Expr} {before after : List Expr} (hbody : isControlBody head before = false)
      (h : Strict call expr) : Strict call (.sequence head (before ++ expr :: after))

/-! ### Chains of calls

In a chain each link is called on the one before it, so each of them is in a strict position of
the next. A removed link takes with it all that come later. -/

/-- A call of a chain without what it is made on: `version "1"` in `id("x") version "1"`. -/
structure Link where
  name : Token
  types : Option TypeArgs
  args : Option Arguments
  lambda : Option Lambda
  style : CallStyle

/-- The calls of a command chain or of infixed calls, one on the other, of which `first` is the
innermost. -/
def Expr.chain (first : Expr) (links : List Link) : Expr :=
  links.foldl (fun target link =>
    .call ⟨some ⟨target, none⟩, link.name, link.types, link.args, link.lambda, link.style⟩) first

/-- What is strict in the first call of a chain is strict in the chain, as each link is made on the
one before it. -/
theorem Expr.Strict.chain {call : Call} {first : Expr} (h : Strict call first)
    (links : List Link) : Strict call (first.chain links) := by
  induction links generalizing first with
  | nil => exact h
  | cons link links ih => exact ih (.receiver h)

/-- The call of a removed plugin has a reason to go, whether it is an `id` or an alias. -/
theorem Call.removalReason_of_plugin {call : Call} {rules : RuleSet}
    (hname : call.name.text ∈ pluginCalls) (hargument : call.firstArgumentIn rules.plugins = true) :
    (call.removalReason rules).isSome = true := by
  have hplugin : (pluginCalls.contains call.name.text && call.firstArgumentIn rules.plugins) =
      true := by
    rw [hargument, Bool.and_true, List.contains_iff_mem]
    exact hname
  -- Whichever of the reasons in front applies, there is one; the plugin is one at the latest.
  unfold removalReason
  simp only [hplugin, if_true]
  split
  · rfl
  split
  · rfl
  split
  · rfl
  split
  · rfl
  · rfl

namespace Pruner

variable {p : Pruner} {ctx : Context} {call : Call}

/-! ### What stays has nothing to go in a strict position

This is proved the other way round: if something is left of an expression, then none of the calls
in strict positions has a reason to go. By induction on `Pruner.Keeps`, which has no rule for such
an expression without the part. -/

/-- An element of a sequence that is no control body stays if the sequence does. Only bodies are
emptied or cut off. -/
theorem Keeps.exists_element {head expr : Expr} {after tail' : List Expr} :
    ∀ {between before visited : List Expr},
      p.Keeps ctx (.tail head before visited (between ++ expr :: after)) (.exprs tail') →
      isControlBody head (before ++ between) = false →
      ∃ expr', p.Keeps ctx (.expr expr) (.expr expr')
  | [], before, visited, h, hbody => by
      rw [List.append_nil] at hbody
      cases h with
      | tailNext hexpr => exact ⟨_, hexpr⟩
      | tailHollow _ hisBody | tailCut _ hisBody =>
          rw [hbody] at hisBody
          cases hisBody
  | other :: between, before, visited, h, hbody => by
      rw [List.append_cons] at hbody
      -- A body in front that goes is not the last element, so the visit comes to this one.
      generalize hmore : between ++ expr :: after = more at h
      rw [List.cons_append, hmore] at h
      cases h with
      | tailNext _ hrest | tailHollow _ _ _ hrest =>
          rw [← hmore] at hrest
          exact Keeps.exists_element hrest hbody
      | tailCut => simp at hmore

/-- A call in a strict position of an expression that stays has no reason to go. The induction is on
the position: each step inwards is to a part without which the visit leaves nothing. -/
theorem Keeps.spared {e e' : Expr} (h : e.Strict call) :
    p.Keeps ctx (.expr e) (.expr e') → call.removalReason p.rules = none := by
  induction h generalizing ctx e' with
  | self =>
      intro hkeeps
      cases hkeeps with
      | callExpr hcall =>
          cases hcall with
          | call hbefore => exact hbefore
  | receiver _ ih =>
      intro hkeeps
      cases hkeeps with
      | callExpr hcall =>
          cases hcall with
          | call _ hreceiver =>
              cases hreceiver with
              | receiver htarget => exact ih htarget
  | annotated _ ih =>
      intro hkeeps
      cases hkeeps with
      | annotated hexpr => exact ih hexpr
  | field _ ih =>
      intro hkeeps
      cases hkeeps with
      | field htarget => exact ih htarget
  | paren _ ih =>
      intro hkeeps
      cases hkeeps with
      | paren hinner => exact ih hinner
  | index _ ih =>
      intro hkeeps
      cases hkeeps with
      | index htarget => exact ih htarget
  | left _ ih =>
      intro hkeeps
      cases hkeeps with
      | binary hleft => exact ih hleft
  | right _ ih =>
      intro hkeeps
      cases hkeeps with
      | binary _ hright => exact ih hright
  | prefixed _ ih =>
      intro hkeeps
      cases hkeeps with
      | prefixed hoperand => exact ih hoperand
  | postfixed _ ih =>
      intro hkeeps
      cases hkeeps with
      | postfixed hoperand => exact ih hoperand
  | head _ ih =>
      intro hkeeps
      cases hkeeps with
      | sequence hhead => exact ih hhead
  | tail hbody _ ih =>
      intro hkeeps
      cases hkeeps with
      | sequence _ htail =>
          obtain ⟨expr', hexpr⟩ := htail.exists_element hbody
          exact ih hexpr

/-- A visit leaves nothing of an expression that has a call with a reason to go in a strict
position. So it leaves nothing of a chain of any length on the call of a removed plugin.

It holds in every context and for every filter, since it is about the rules alone. -/
theorem gone_of_strict (p : Pruner) (ctx : Context) :
    (∀ (call : Call) (e : Expr), e.Strict call → (call.removalReason p.rules).isSome = true →
      (p.visitExpr ctx e).node = none) ∧
    ∀ (first : Call) (links : List Link), first.name.text ∈ pluginCalls →
      first.firstArgumentIn p.rules.plugins = true →
      (p.visitExpr ctx (Expr.chain (.call first) links)).node = none := by
  have hstrict : ∀ (call : Call) (e : Expr), e.Strict call →
      (call.removalReason p.rules).isSome = true → (p.visitExpr ctx e).node = none := by
    intro call e h hreason
    cases hnode : (p.visitExpr ctx e).node with
    | none => rfl
    | some e' =>
        have hnone := (keeps_expr p ctx e hnode).spared h
        rw [hnone] at hreason
        cases hreason
  refine ⟨hstrict, fun first links hname hargument => ?_⟩
  exact hstrict first _ (Expr.Strict.self.chain links)
    (Call.removalReason_of_plugin hname hargument)

/-- In `x = !rm().y` the call of `rm` is in a strict position, and so is that of `id` in
`id("a") version "1" apply false`. -/
theorem gone_of_strict_samples :
    let word := fun text => Token.bare .ident text
    let mark := fun text => Token.bare .punct text
    let rm : Call :=
      ⟨none, word "rm", none, some ⟨some (mark "("), [], some (mark ")")⟩, none, .regular⟩
    let id : Call := ⟨none, word "id", none,
      some ⟨some (mark "("), [⟨.atom (.bare .str "\"a\""), none⟩], some (mark ")")⟩, none, .regular⟩
    let link := fun name argument =>
      Link.mk (word name) none (some ⟨none, [⟨.atom argument, none⟩], none⟩) none .infixed
    let p : Pruner := { rules := { methods := ["rm"], plugins := ["a"] } }
    (p.visitExpr {} (.binary (.atom (word "x")) (mark "=")
      (.prefixed (mark "!") (.field (.call rm) (mark ".") (word "y"))))).node = none ∧
    (p.visitExpr {} (Expr.chain (.call id)
      [link "version" (.bare .str "\"1\""), link "apply" (word "false")])).node = none :=
  ⟨(gone_of_strict { rules := { methods := ["rm"], plugins := ["a"] } } {}).1 _ _
      (.right (.prefixed (.field .self))) (by decide),
    (gone_of_strict { rules := { methods := ["rm"], plugins := ["a"] } } {}).2 _ _ (by decide)
      (by decide)⟩

end Pruner

end BuildPrune
