import Mathlib.Data.List.Forall2
import BuildPrune.Proofs.Inheritance
import BuildPrune.Proofs.Reading
import BuildPrune.Script.Parser

/-!
# BuildPrune.Proofs.ControlHeaders

**Headers and their bodies.** A sequence that ends in a control header waits for a body, and the
statement behind it would be read as that body. A visit that leaves a body out puts `{}` in its
place, so it can make a sequence end elsewhere in one way only: the last body goes together with its
`else`. What is left then ends in front of the `else`. That is the end of a body, unless the `else`
stands behind a header itself, as in `if (a) else b()`.

`Pruner.headersComplete_visitScript`: if no sequence waits for a body, none does after a visit that
cuts no sequence behind a header.
-/

namespace BuildPrune

/-- A sequence that ends in a header without a body. -/
def Expr.awaitsBody : Expr → Bool
  | .sequence head tail => endsControlHeader head tail
  | _ => false

/-- No sequence of the script waits for a body. -/
def Script.HeadersComplete (script : Script) : Prop :=
  script.Every fun _ e => e.awaitsBody = false

instance (script : Script) : Decidable script.HeadersComplete :=
  inferInstanceAs (Decidable (∀ o ∈ script.occurrences, o.expr.awaitsBody = false))

/-! ### Sequences that echo others

What is left of a sequence echoes a part of it, with the same keywords at the same places. So it
is enough to look at where it stops. -/

/-- What `e'` shows of a header, a keyword at its end or its parentheses, `e` shows too. -/
structure Expr.Echoes (e e' : Expr) : Prop where
  keyword : ∀ keywords, e'.endsWithKeyword keywords = true → e.endsWithKeyword keywords = true
  paren : e'.isParen = true → e.isParen = true

/-- A sequence ends in a header only if the one it echoes does. Being a header is told by the
keyword at the end, or by the keyword in front of parentheses, and both are echoed. -/
theorem endsControlHeader_of_echoes {head head' : Expr} {tail tail' : List Expr}
    (hhead : ∀ keywords, head'.endsWithKeyword keywords = head.endsWithKeyword keywords)
    (htail : List.Forall₂ Expr.Echoes tail tail') (hends : endsControlHeader head' tail' = true) :
    endsControlHeader head tail = true := by
  rw [← List.forall₂_reverse_iff] at htail
  unfold endsControlHeader at hends ⊢
  generalize tail.reverse = reversed at htail ⊢
  generalize tail'.reverse = reversed' at htail hends
  cases htail with
  | nil => exact (hhead _).symm.trans hends
  | @cons last last' before before' hlast hbefore =>
      have hkeyword : ∀ keywords, (before'.headD head').endsWithKeyword keywords = true →
          (before.headD head).endsWithKeyword keywords = true := by
        intro keywords h
        cases hbefore with
        | nil => exact (hhead keywords).symm.trans h
        | cons hkeyword _ => exact hkeyword.keyword keywords h
      simp only [Bool.or_eq_true, Bool.and_eq_true, hhead] at hends ⊢
      rcases hends with helse | ⟨hparen, hheader⟩
      · exact .inl (hlast.keyword _ helse)
      · refine .inr ⟨hlast.paren hparen, ?_⟩
        exact hheader.imp (hkeyword _) (And.imp_right (hkeyword _))

/-- Trivia in front of a node hides no header. -/
theorem Expr.awaitsBody_withLeading (e : Expr) (leading : String) :
    (e.withLeading leading).awaitsBody = true → e.awaitsBody = true := by
  have hkeyword : ∀ (head : Expr) (keywords : List String),
      (head.withLeading leading).endsWithKeyword keywords = head.endsWithKeyword keywords := by
    intro head keywords
    cases head <;> rfl
  intro hawaits
  cases e with
  | sequence head tail =>
      have hsame : List.Forall₂ Expr.Echoes tail tail :=
        List.forall₂_same.2 fun e _ => ⟨fun _ h => h, fun h => h⟩
      exact endsControlHeader_of_echoes (hkeyword head) hsame hawaits
  | _ => cases hawaits

theorem length_ge_of_lastElse? {exprs : List Expr} {branch : Nat}
    (h : lastElse? exprs = some branch) : branch ≤ exprs.length := by
  obtain ⟨place, -, rfl⟩ := Option.map_eq_some_iff.1 h
  omega

namespace Pruner

variable {p : Pruner} {ctx : Context}

/-! ### What a visit leaves of a sequence

A body that goes becomes `{}` if something follows it. If nothing does and it is the body of an
`else`, then the sequence is cut in front of that `else`, and it is there that a header may be
left without a body. -/

/-- The place of the `else` that the visit of a sequence removes together with the last body. -/
def cut? (p : Pruner) (ctx : Context) (head : Expr) (tail : List Expr) : Option Nat :=
  match tail.getLast? with
  | none => none
  | some last =>
    if (p.visitExpr ctx last).node.isNone && isControlBody head tail.dropLast then
      lastElse? tail.dropLast
    else none

/-- The visit cuts the sequence behind a header, which so loses its `else` and has no other body.
This happens where the first branch is empty, as in `if (a) else b()`. -/
def cutsBehindHeader (p : Pruner) (ctx : Context) : Expr → Bool
  | .sequence head tail =>
    (p.cut? ctx head tail).any fun branch => endsControlHeader head (tail.take branch)
  | _ => false

/-- The visit of the script cuts no sequence behind a header. -/
def SparesHeaders (p : Pruner) (script : Script) : Prop :=
  script.Every fun within e => ∀ ctx ∈ within, p.cutsBehindHeader ctx e = false

instance (p : Pruner) (script : Script) : Decidable (p.SparesHeaders script) :=
  inferInstanceAs (Decidable (∀ o ∈ script.occurrences, ∀ ctx ∈ o.within,
    p.cutsBehindHeader ctx o.expr = false))

/-- A node that stays ends in the same keyword. Keywords are atoms, which no visit changes. -/
theorem Keeps.endsWithKeyword (keywords : List String) {e e' : Expr}
    (h : p.Keeps ctx (.expr e) (.expr e')) :
    e'.endsWithKeyword keywords = e.endsWithKeyword keywords := by
  fun_induction Expr.endsWithKeyword keywords e generalizing e' with
  | case1 token =>
      cases h
      rfl
  | case2 left op right ih =>
      cases h with
      | binary _ hright => exact (ih hright :)
  | case3 e hatom hbinary =>
      cases h with
      | atom => exact absurd rfl (hatom _)
      | binary => exact absurd rfl (hbinary _ _ _)
      | _ => rfl

/-- What is left of a node echoes it. -/
theorem Keeps.echoes {e e' : Expr} (h : p.Keeps ctx (.expr e) (.expr e')) : e.Echoes e' := by
  refine ⟨fun keywords hends => (h.endsWithKeyword keywords).symm.trans hends, ?_⟩
  cases h with
  | paren => exact fun _ => rfl
  | _ => exact nofun

/-- An emptied body shows nothing of a header. -/
theorem echoes_hollow (e : Expr) (leading : String) :
    e.Echoes (.lambda (Lambda.hollow leading)) :=
  ⟨fun _ => nofun, nofun⟩

/-- What is left of the tail of a sequence echoes all of it, or the part in front of the place at
which it is cut. Bodies that go in the middle are emptied, so the entries stay in step. -/
theorem Keeps.echoes_tail {head : Expr} : ∀ {before visited rest tail' : List Expr},
    p.Keeps ctx (.tail head before visited rest) (.exprs tail') →
      List.Forall₂ Expr.Echoes before visited →
      List.Forall₂ Expr.Echoes (before ++ rest) tail' ∨
        ∃ branch, p.cut? ctx head (before ++ rest) = some branch ∧
          List.Forall₂ Expr.Echoes ((before ++ rest).take branch) tail'
  | before, visited, [], _, .tailEnd, hvisited => by
      rw [List.append_nil]
      exact .inl hvisited
  | before, visited, e :: rest, tail', .tailNext hexpr hrest, hvisited => by
      rw [List.append_cons]
      exact hrest.echoes_tail (List.rel_append hvisited (.cons hexpr.echoes .nil))
  | before, visited, e :: rest, tail', .tailHollow _ _ _ hrest, hvisited => by
      rw [List.append_cons]
      exact hrest.echoes_tail (List.rel_append hvisited (.cons (echoes_hollow e _) .nil))
  | before, visited, [e], _, .tailCut hgone hbody helse, hvisited => by
      rename_i branch
      refine .inr ⟨branch, ?_, ?_⟩
      · simp [cut?, hgone, hbody, helse]
      · rw [List.take_append_of_le_length (length_ge_of_lastElse? helse)]
        exact List.forall₂_take branch hvisited

/-- A sequence that stays waits for a body only if it did before, or if it was cut behind a
header. -/
theorem Keeps.awaitsBody {e e' : Expr} (h : p.Keeps ctx (.expr e) (.expr e'))
    (hawaits : e'.awaitsBody = true) : e.awaitsBody = true ∨ p.cutsBehindHeader ctx e = true := by
  cases h with
  | sequence hhead htail =>
      have hkeyword := fun keywords => hhead.endsWithKeyword keywords
      rcases htail.echoes_tail .nil with hall | ⟨branch, hcut, hfront⟩
      · exact .inl (endsControlHeader_of_echoes hkeyword hall hawaits)
      · refine .inr ?_
        rw [cutsBehindHeader]
        rw [List.nil_append] at hcut hfront
        rw [hcut, Option.any_some]
        exact endsControlHeader_of_echoes hkeyword hfront hawaits
  | _ => cases hawaits

theorem hereditary_awaitsBody (p : Pruner) :
    p.Hereditary
      (fun within e => e.awaitsBody = false ∧ ∀ ctx ∈ within, p.cutsBehindHeader ctx e = false)
      fun _ e => e.awaitsBody = false where
  visited h he := by
    rw [Bool.eq_false_iff]
    intro hawaits
    rcases h.awaitsBody hawaits with hbefore | hcut
    · rw [he.1] at hbefore
      cases hbefore
    · rw [he.2 _ rfl] at hcut
      cases hcut
  copied _ _ h := h.1
  placed {_ e} leading h := by
    rw [Bool.eq_false_iff] at h ⊢
    exact fun hawaits => h (e.awaitsBody_withLeading leading hawaits)
  hollow _ := rfl

/-- If no sequence of a script waits for a body, none does after a visit that cuts no sequence
behind a header.

The condition is decidable and is asked of the visited script, so it can be checked before a visit.
Without it a header can be left alone (`not_headersComplete_visitScript`). -/
theorem headersComplete_visitScript (p : Pruner) {script : Script} (hcomplete : script.HeadersComplete)
    (hspares : p.SparesHeaders script) : (p.visitScript script).1.HeadersComplete :=
  p.hereditary_awaitsBody.visitScript fun o ho => ⟨hcomplete o ho, hspares o ho⟩

/-- Of three branches the last one goes, with its `else`. -/
theorem headersComplete_visitScript_branches :
    ∃ script, parse "if (a) x() else if (b) y() else rm()\nkeep()\n" .kotlin = .ok script ∧
      script.HeadersComplete ∧
      (visitScript { rules := { methods := ["rm"] } } script).1.HeadersComplete := by
  have hchecked : (parse "if (a) x() else if (b) y() else rm()\nkeep()\n" .kotlin).toOption.any
      (fun script => decide (script.HeadersComplete ∧
        SparesHeaders { rules := { methods := ["rm"] } } script)) = true := by
    decide +kernel
  obtain ⟨script, hparse, hchecked⟩ := ok_of_any hchecked
  obtain ⟨hcomplete, hspares⟩ := of_decide_eq_true hchecked
  exact ⟨script, hparse, hcomplete, headersComplete_visitScript _ hcomplete hspares⟩

/-- An `else` may stand behind the header itself; then the header is left without a body, and the
next statement is read as one. -/
theorem not_headersComplete_visitScript :
    ¬∀ (source : String) (dialect : Dialect) (script : Script) (rules : RuleSet),
      parse source dialect = .ok script → script.HeadersComplete →
        (visitScript { rules } script).1.HeadersComplete := by
  intro h
  have hleft : (parse "if (a) else rm()\nkeep()\n" .kotlin).toOption.any (fun script =>
      decide (script.HeadersComplete ∧
        ¬(visitScript { rules := { methods := ["rm"] } } script).1.HeadersComplete)) = true := by
    decide +kernel
  obtain ⟨script, hparse, hleft⟩ := ok_of_any hleft
  obtain ⟨hcomplete, hleft⟩ := of_decide_eq_true hleft
  exact hleft (h _ _ script { methods := ["rm"] } hparse hcomplete)

end Pruner

end BuildPrune
