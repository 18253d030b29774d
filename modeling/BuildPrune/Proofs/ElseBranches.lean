import Mathlib.Data.List.Chain
import BuildPrune.Proofs.Separation
import BuildPrune.Proofs.TriviaEdits
import BuildPrune.Proofs.VisitRules

/-!
# BuildPrune.Proofs.ElseBranches

**An `else` and the statement in front of it.** Where a branch ends in a `;`, its `else` starts a
statement of its own, and the list holds the `if` and the `else` as neighbours. A visit decides on
each of them alone.

* Reading: in front of an `else` that starts a statement there is nothing, or a statement that ends
  itself (`elseAfterEnd_of_parse`); otherwise the `else` would have carried that one on.
* Visiting: the `else` stays behind what is left of the statement it stood behind, exactly if that
  statement stays (`Statement.elseFollows_iff`). It can go: the branch of `if (a) b();` is its last
  body, with no `else` in the same statement.

`Pruner.elseFollows_visitScript` puts the two together for every list of a script.
-/

namespace BuildPrune

namespace Statement

/-- The statement starts with the keyword `else`. -/
def beginsWithElse (s : Statement) : Bool :=
  s.firstToken.is "else"

/-! ### What is left of a list

What is left of a list of statements are some of them, in their order, and each is left of the one
at its place. For two neighbours it can be said which of the two are still there. -/

/-- `block'` is what is left of `block` if `left` decides what becomes of each statement: nothing,
or a statement which is then placed in the list. -/
inductive LeftOf (left : Statement → Option Statement) : List Statement → List Statement → Prop
  | nil : LeftOf left [] []
  | kept {s decided s' : Statement} {block block' : List Statement} (hleft : left s = some decided)
      (hplaced : decided.Placed s') (hrest : LeftOf left block block') :
      LeftOf left (s :: block) (s' :: block')
  | gone {s : Statement} {block block' : List Statement} (hleft : left s = none)
      (hrest : LeftOf left block block') : LeftOf left (s :: block) block'

namespace LeftOf

variable {left : Statement → Option Statement} {block block' : List Statement}

theorem of_forall₂ : ∀ {block block' : List Statement},
    List.Forall₂ Placed (block.filterMap left) block' → LeftOf left block block'
  | [], block', h => by
      cases h
      exact .nil
  | s :: block, block', h => by
      cases hleft : left s with
      | none =>
          rw [List.filterMap_cons_none hleft] at h
          exact .gone hleft (of_forall₂ h)
      | some decided =>
          rw [List.filterMap_cons_some hleft] at h
          cases h with
          | cons hplaced hrest => exact .kept hleft hplaced (of_forall₂ hrest)

/-- All of a list is left if every statement stays as it is. -/
theorem self (block : List Statement) : LeftOf some block block := by
  induction block with
  | nil => exact .nil
  | cons s block ih => exact .kept rfl ⟨s.leading, s.withLeading_leading.symm⟩ ih

theorem length_eq (h : LeftOf left block block') :
    block'.length = (block.filterMap left).length := by
  induction h with
  | nil => rfl
  | kept hleft _ _ ih => rw [List.filterMap_cons_some hleft, List.length_cons, List.length_cons, ih]
  | gone hleft _ ih => rw [List.filterMap_cons_none hleft, ih]

/-- What is left of two parts of a list is what is left of the one and then of the other. -/
theorem append_left : ∀ {before after block' : List Statement},
    LeftOf left (before ++ after) block' →
      ∃ before' after', block' = before' ++ after' ∧ LeftOf left before before' ∧
        LeftOf left after after'
  | [], after, block', h => ⟨[], block', rfl, .nil, h⟩
  | s :: before, after, _, .kept hleft hplaced hrest => by
      obtain ⟨before', after', rfl, hbefore, hafter⟩ := hrest.append_left
      exact ⟨_ :: before', after', rfl, .kept hleft hplaced hbefore, hafter⟩
  | s :: before, after, block', .gone hleft hrest => by
      obtain ⟨before', after', rfl, hbefore, hafter⟩ := hrest.append_left
      exact ⟨before', after', rfl, .gone hleft hbefore, hafter⟩

/-- Each statement of what is left comes from one of the list, and what stands in front of it is
left of what stood in front of that. -/
theorem split_right (h : LeftOf left block block') : ∀ {before' after' : List Statement}
    {s' : Statement}, block' = before' ++ s' :: after' →
      ∃ before s after, block = before ++ s :: after ∧ LeftOf left before before' ∧
        (∃ decided, left s = some decided ∧ decided.Placed s') ∧ LeftOf left after after' := by
  induction h with
  | nil => simp
  | @kept s decided s' block block' hleft hplaced hrest ih =>
      intro before' after' s₁ hsplit
      cases before' with
      | nil =>
          obtain ⟨rfl, rfl⟩ := List.cons.inj hsplit
          exact ⟨[], s, block, rfl, .nil, ⟨decided, hleft, hplaced⟩, hrest⟩
      | cons first before' =>
          obtain ⟨rfl, hrests⟩ := List.cons.inj hsplit
          obtain ⟨before, s₂, after, rfl, hbefore, hs₂, hafter⟩ := ih hrests
          exact ⟨s :: before, s₂, after, rfl, .kept hleft hplaced hbefore, hs₂, hafter⟩
  | @gone s block block' hleft hrest ih =>
      intro before' after' s₁ hsplit
      obtain ⟨before, s₂, after, rfl, hbefore, hs₂, hafter⟩ := ih hsplit
      exact ⟨s :: before, s₂, after, rfl, .gone hleft hbefore, hs₂, hafter⟩

/-- Two statements that stay are the same one if equally many precede them in what is left. So the
place of a statement in a list can be told from its place in what is left. -/
theorem before_unique {before₁ before₂ after₁ after₂ : List Statement} {s₁ s₂ : Statement}
    (hsplit : before₁ ++ s₁ :: after₁ = before₂ ++ s₂ :: after₂) (hs₁ : (left s₁).isSome)
    (hs₂ : (left s₂).isSome)
    (hlength : (before₁.filterMap left).length = (before₂.filterMap left).length) :
    before₁ = before₂ := by
  -- Otherwise the shorter front and its statement are in front of the other statement.
  have hshorter : ∀ (front more : List Statement) {s : Statement}, (left s).isSome →
      (front.filterMap left).length < ((front ++ s :: more).filterMap left).length := by
    intro front more s hs
    obtain ⟨decided, hdecided⟩ := Option.isSome_iff_exists.1 hs
    rw [List.filterMap_append, List.filterMap_cons_some hdecided, List.length_append,
      List.length_cons]
    omega
  rcases List.append_eq_append_iff.1 hsplit with ⟨more, rfl, hmore⟩ | ⟨more, rfl, hmore⟩
  · cases more with
    | nil => rw [List.append_nil]
    | cons s more =>
        obtain ⟨rfl, -⟩ := List.cons.inj hmore
        have := hshorter before₁ more hs₁
        omega
  · cases more with
    | nil => rw [List.append_nil]
    | cons s more =>
        obtain ⟨rfl, -⟩ := List.cons.inj hmore
        have := hshorter before₂ more hs₂
        omega

end LeftOf

/-! ### The statement in front of an `else`

An `else` that has lost the statement in front of it stands behind another one, or at the start of
its list. So everything depends on whether that statement can go without it. -/

/-- Each statement of `block'` that starts with `else` stands directly behind what is left of the
statement that it stood directly behind in `block`. -/
def ElseFollows (left : Statement → Option Statement) (block block' : List Statement) : Prop :=
  ∀ before' s' after', block' = before' ++ s' :: after' → s'.beginsWithElse = true →
    ∃ before s after, block = before ++ s :: after ∧ LeftOf left before before' ∧
      (∃ decided, left s = some decided ∧ decided.Placed s') ∧
      ∀ guard ∈ before.getLast?, ∃ decided, left guard = some decided ∧
        ∃ guard' ∈ before'.getLast?, decided.Placed guard'

/-- An `else` that opens what is left of a list has opened the list. -/
theorem ElseFollows.exists_first {left : Statement → Option Statement} {s' : Statement}
    {block after' : List Statement} (h : ElseFollows left block (s' :: after'))
    (helse : s'.beginsWithElse = true) : ∃ s after, block = s :: after ∧ (left s).isSome := by
  obtain ⟨before, s, after, rfl, hbefore, ⟨decided, hs, -⟩, hguard⟩ := h [] s' after' rfl helse
  cases hlast : before.getLast? with
  | none =>
      rw [List.getLast?_eq_none_iff] at hlast
      subst hlast
      exact ⟨s, after, rfl, by rw [hs]; rfl⟩
  | some guard =>
      obtain ⟨_, _, guard', hguard', -⟩ := hguard guard hlast
      cases hguard'

/-- No statement that ends itself goes in front of one that starts with `else` and stays. Only such
statements can stand in front of an `else` in a list that was read. -/
def GuardsStay (left : Statement → Option Statement) (block : List Statement) : Prop :=
  block.IsChain fun s next =>
    s.endsItself = true → next.beginsWithElse = true → (left next).isSome → (left s).isSome

theorem firstToken_withLeading (s : Statement) (leading : String) :
    (s.withLeading leading).firstToken = s.firstToken.withLeading leading := by
  obtain ⟨rest, -, hwith⟩ := s.exists_tokens
  obtain ⟨rest', htokens, -⟩ := (s.withLeading leading).exists_tokens
  rw [hwith leading] at htokens
  exact (List.cons.inj htokens).1.symm

theorem Placed.beginsWithElse {decided s : Statement} (h : decided.Placed s) :
    s.beginsWithElse = decided.beginsWithElse := by
  obtain ⟨leading, rfl⟩ := h
  unfold Statement.beginsWithElse
  rw [firstToken_withLeading]
  rfl

/-- Behind what is left of the statements they stood behind, the `else` statements of a list are
exactly if none of these goes in front of one that stays.

In one direction the statement in front of an `else` is found by `before_unique`; in the other, one
that goes in front of an `else` that stays lets this follow another statement, or none. -/
theorem elseFollows_iff {left : Statement → Option Statement} {block block' : List Statement}
    (hbegins : ∀ {s decided}, left s = some decided → decided.beginsWithElse = s.beginsWithElse)
    (h : LeftOf left block block') :
    ElseFollows left block block' ↔ block.IsChain fun s next =>
      next.beginsWithElse = true → (left next).isSome → (left s).isSome := by
  rw [List.isChain_iff_forall_rel_of_append_cons_cons]
  constructor
  · intro hfollows guard next before after hblock helse hnext
    obtain ⟨decided, hdecided⟩ := Option.isSome_iff_exists.1 hnext
    -- In what is left, the front of the list is followed by what is left of `next`.
    rw [← List.singleton_append, ← List.append_assoc] at hblock
    rw [hblock] at h
    obtain ⟨before', after', rfl, hbefore, hafter⟩ := h.append_left
    cases hafter with
    | gone hleft => cases hleft.symm.trans hdecided
    | @kept _ _ s' _ rest' hleft hplaced _ =>
        obtain rfl := Option.some.inj (hleft.symm.trans hdecided)
        have helse' : s'.beginsWithElse = true := by
          rw [hplaced.beginsWithElse, hbegins hdecided, helse]
        obtain ⟨front, s, back, hsplit, hfront, ⟨_, hs, -⟩, hguard⟩ :=
          hfollows before' s' rest' rfl helse'
        have hunique : before ++ [guard] = front := by
          refine LeftOf.before_unique (hblock.symm.trans hsplit) hnext ?_ ?_
          · rw [hs]
            rfl
          · rw [← hbefore.length_eq, ← hfront.length_eq]
        obtain ⟨decided', hdecided', -⟩ := hguard guard (by rw [← hunique]; simp)
        rw [hdecided']
        rfl
  · intro hchain before' s' after' hblock' helse'
    obtain ⟨before, s, after, hblock, hbefore, ⟨decided, hs, hplaced⟩, -⟩ := h.split_right hblock'
    refine ⟨before, s, after, hblock, hbefore, ⟨decided, hs, hplaced⟩, fun guard hguard => ?_⟩
    obtain ⟨front, rfl⟩ := List.getLast?_eq_some_iff.1 hguard
    have helse : s.beginsWithElse = true := by
      rw [← hbegins hs, ← hplaced.beginsWithElse, helse']
    rw [List.append_assoc, List.singleton_append] at hblock
    have hstays : (left guard).isSome := hchain hblock helse (by rw [hs]; rfl)
    obtain ⟨decided', hdecided'⟩ := Option.isSome_iff_exists.1 hstays
    refine ⟨decided', hdecided', ?_⟩
    -- The last statement of the front stays, so what is left of the front ends in it.
    obtain ⟨front', last', rfl, -, hlast⟩ := hbefore.append_left
    cases hlast with
    | gone hleft => cases hleft.symm.trans hdecided'
    | @kept _ _ guard' _ _ hleft hplaced' hnone =>
        cases hnone
        obtain rfl := Option.some.inj (hleft.symm.trans hdecided')
        exact ⟨guard', by simp, hplaced'⟩

end Statement

/-! ### Reading

An expression statement goes on with an `else` if it can. If an `else` starts a statement then the
one in front has a `;`, or is an import, or the list begins there. -/

/-- In front of a statement that starts with `else` stands one that ends itself. -/
def Statement.ElseAfterEnd (block : List Statement) : Prop :=
  block.IsChain fun s next => next.beginsWithElse = true → s.endsItself = true

namespace Parser

variable {mode : Mode} {task : Task} {piece : Piece} {c c' : Cursor}

/-- A statement that does not end itself is carried on by an `else`, so it stops in front of
none. -/
theorem Reads.isAt_else_of_not_endsItself {s : Statement}
    (h : Reads mode .statement c (.statement s) c') (hends : s.endsItself = false) :
    c'.isAt "else" = false := by
  cases h with
  | emptyStatement | importStatement => cases hends
  | exprStatement _ _ hexpr hend =>
      simp only [Statement.endsItself, Option.isSome_eq_false_iff, Option.isNone_iff_eq_none] at hends
      subst hends
      obtain ⟨rfl, -⟩ := Cursor.optional_none hend
      have hstop := hexpr.atStatementEnd rfl
      rw [Bool.eq_false_iff]
      intro helse
      rw [Cursor.isAt, Cursor.nextIs, Option.any_eq_true] at helse
      obtain ⟨t, ht, helse⟩ := helse
      have hmark : t.is ";" = false := by
        rw [Bool.eq_false_iff]
        intro hmark
        exact absurd ((Token.text_of_is hmark).symm.trans (Token.text_of_is helse)) (by decide)
      have hcontinues : t.isOneOf continuations = true :=
        List.any_eq_true.2 ⟨"else", by decide, helse⟩
      simp only [Cursor.atStatementEnd, ht, hmark, Token.not_isCloser_of_is helse (by decide),
        hcontinues, Bool.not_true, Bool.and_false, Bool.or_false] at hstop
      cases hstop

theorem Reads.elseAfterEnd {out : List Statement} (h : Reads mode task c piece c')
    (hpiece : piece = .statements out) : Statement.ElseAfterEnd out := by
  induction h generalizing out with
  | blockEnd | textEnd =>
      cases hpiece
      exact .nil
  | @nextStatement mode _ _ c₁ _ first more _ _ hfirst hmore _ ihmore =>
      cases hpiece
      refine List.isChain_cons.2 ⟨fun next hnext helse => ?_, ihmore rfl⟩
      obtain ⟨rest, rfl⟩ := List.head?_eq_some_iff.1 hnext
      cases hmore with
      | nextStatement _ _ hread _ =>
          obtain ⟨others, htokens, -⟩ := next.exists_tokens
          have hstart : c₁.next = some next.firstToken := hread.next_eq_some rfl htokens
          by_contra hends
          have hother := hfirst.isAt_else_of_not_endsItself (eq_false_of_ne_true hends)
          rw [Cursor.isAt, Cursor.nextIs, hstart, Option.any_some] at hother
          rw [Statement.beginsWithElse, hother] at helse
          cases helse
  | _ => cases hpiece

end Parser

/-- In every list of a parsed script, an `else` that starts a statement stands first or behind a
statement that ends itself. -/
theorem elseAfterEnd_of_parse {source : String} {dialect : Dialect} {script : Script}
    (h : parse source dialect = .ok script) :
    ∀ block ∈ script.blocks, Statement.ElseAfterEnd block := by
  obtain ⟨-, -, c, hread⟩ := Parser.reads_of_parse h
  refine List.forall_mem_cons.2 ⟨hread.elseAfterEnd rfl, ?_⟩
  intro block hblock
  obtain ⟨o, ho, hown⟩ := List.mem_flatMap.1 hblock
  have hbuilt := built_of_parse h o ho
  cases hexpr : o.expr with
  | call c =>
      rw [hexpr] at hown hbuilt
      simp only [Expr.ownBlocks, List.mem_map, Option.mem_toList] at hown
      obtain ⟨l, hl, rfl⟩ := hown
      obtain ⟨_, _, hread⟩ := hbuilt.2 l hl
      exact hread.elseAfterEnd rfl
  | lambda l =>
      rw [hexpr] at hown hbuilt
      obtain rfl := List.mem_singleton.1 hown
      obtain ⟨_, _, hread⟩ := hbuilt
      exact hread.elseAfterEnd rfl
  | _ =>
      rw [hexpr] at hown
      cases hown

/-! ### Visiting -/

namespace Pruner

variable {p : Pruner} {ctx : Context}

/-- What the visit makes of the statements of a list. Only those inside the arguments of an
annotation are copied. -/
def Decides (p : Pruner) (left : Statement → Option Statement) : Prop :=
  left = some ∨ ∃ ctx, left = fun s => (p.visitStatement ctx s).node

theorem Decides.beginsWithElse {left : Statement → Option Statement} (h : p.Decides left)
    {s decided : Statement} (hleft : left s = some decided) :
    decided.beginsWithElse = s.beginsWithElse := by
  rcases h with rfl | ⟨ctx, rfl⟩
  · obtain rfl := Option.some.inj hleft
    rfl
  · have hfirst := (keeps_statement p ctx s hleft).firstToken?_eq
    simp only [Entry.firstToken?, Remains.firstToken?, Option.some.injEq] at hfirst
    rw [Statement.beginsWithElse, Statement.beginsWithElse, hfirst]

theorem map_node_visitStatements (p : Pruner) (ctx : Context) (statements : List Statement) :
    (p.visitStatements ctx statements).map Outcome.node =
      statements.map fun s => (p.visitStatement ctx s).node := by
  induction statements with
  | nil => simp [visitStatements]
  | cons s rest ih => simp [visitStatements, ih]

/-- What a sweep by the decisions of a visit leaves of a list, in terms of the visits of its
statements alone. -/
theorem leftOf_sweep (p : Pruner) (ctx : Context) (block : List Statement) (trailer : String) :
    Statement.LeftOf (fun s => (p.visitStatement ctx s).node) block
      (Statement.sweep true ((p.visitStatements ctx block).map Outcome.node) block trailer).1 := by
  have hlength := (keeps_statements p ctx block).length_eq
  have hplaced := Statement.placed_sweep _ true block trailer hlength
  rw [map_node_visitStatements] at hplaced ⊢
  rw [List.filterMap_map] at hplaced
  exact .of_forall₂ hplaced

/-- If the filter for `plugins` keeps all, nothing but these visits decides what is left of a
body. -/
theorem Keeps.leftOf_body {l l' : Lambda} (hkeeps : ∀ s, p.keepsInPlugins s = true)
    (h : p.Keeps ctx (.lambda l) (.lambda l')) :
    Statement.LeftOf (fun s => (p.visitStatement ctx s).node) l.body l'.body := by
  cases h with
  | @lambda _ _ closing _ body _ _ _ _ siftedTrailer _ hbody hsift hsweep =>
      have hadmits : ∀ s, p.admits ctx s = true := fun s => by simp [admits, hkeeps]
      rw [Statement.sift_of_keep hadmits _ _ _ _ hbody.length_eq] at hsift
      obtain ⟨rfl, rfl, rfl⟩ := hsift
      have hswept := p.leftOf_sweep ctx body closing.leading
      rw [hbody.leaves, hsweep] at hswept
      exact hswept

theorem Keeps.exists_block {l l' : Option Lambda} (h : p.Keeps ctx (.block l) (.block l'))
    {lambda' : Lambda} (hmem : lambda' ∈ l') :
    ∃ lambda ∈ l, p.Keeps ctx (.lambda lambda) (.lambda lambda') := by
  cases h with
  | noBlock => cases hmem
  | block hlambda =>
      obtain rfl := Option.mem_some.1 hmem
      exact ⟨_, rfl, hlambda⟩

/-- A block of a node that stays is what is left of a block of that node. -/
theorem Keeps.exists_ownBlock {e e' : Expr} (h : p.Keeps ctx (.expr e) (.expr e'))
    {block' : List Statement} (hblock : block' ∈ e'.ownBlocks) :
    ∃ inner l l', p.Keeps inner (.lambda l) (.lambda l') ∧ l.body ∈ e.ownBlocks ∧
      l'.body = block' := by
  cases h with
  | @lambdaExpr _ l l' hlambda =>
      exact ⟨ctx, l, l', hlambda, List.mem_cons_self, (List.mem_singleton.1 hblock).symm⟩
  | callExpr hcall =>
      cases hcall with
      | call _ _ _ _ hlambda _ =>
          simp only [Expr.ownBlocks, List.mem_map, Option.mem_toList] at hblock
          obtain ⟨l', hl', rfl⟩ := hblock
          obtain ⟨l, hl, hkept⟩ := hlambda.exists_block hl'
          exact ⟨_, l, l', hkept, List.mem_map_of_mem (Option.mem_toList.2 hl), rfl⟩
  | _ => cases hblock

/-- `block'` is left of one of the blocks, if it is not an empty one that stands for a body. -/
def LeavesOneOf (p : Pruner) (blocks : List (List Statement)) (block' : List Statement) : Prop :=
  block' ≠ [] → ∃ block ∈ blocks, ∃ left, p.Decides left ∧ Statement.LeftOf left block block'

theorem hereditary_leavesOneOf (hkeeps : ∀ s, p.keepsInPlugins s = true)
    (blocks : List (List Statement)) :
    p.Hereditary (fun _ e => ∀ block ∈ e.ownBlocks, block ∈ blocks)
      fun _ e => ∀ block' ∈ e.ownBlocks, p.LeavesOneOf blocks block' where
  visited h he block' hblock' _ := by
    obtain ⟨inner, l, l', hlambda, hbody, rfl⟩ := h.exists_ownBlock hblock'
    exact ⟨l.body, he _ hbody, _, .inr ⟨inner, rfl⟩, hlambda.leftOf_body hkeeps⟩
  copied _ _ h block' hblock' _ := ⟨block', h block' hblock', some, .inl rfl, .self block'⟩
  placed {_ e} leading h := by
    rw [ownBlocks_withLeading]
    exact h
  hollow _ block' hblock' hleft := absurd (List.mem_singleton.1 hblock') hleft

/-- Every list of a visited script is left of a list of the script, or is the empty one that stands
for a body. -/
theorem leavesOneOf_visitScript (hkeeps : ∀ s, p.keepsInPlugins s = true) (script : Script) :
    ∀ block' ∈ (p.visitScript script).1.blocks, p.LeavesOneOf script.blocks block' := by
  refine List.forall_mem_cons.2 ⟨fun _ => ?_, ?_⟩
  · exact ⟨script.statements, List.mem_cons_self, _, .inr ⟨{}, rfl⟩,
      p.leftOf_sweep {} script.statements script.eof⟩
  · have hown : script.Every fun _ e => ∀ block ∈ e.ownBlocks, block ∈ script.blocks := by
      intro o ho block hblock
      exact List.mem_cons_of_mem _ (List.mem_flatMap_of_mem ho hblock)
    intro block' hblock'
    obtain ⟨o, ho, hblock'⟩ := List.mem_flatMap.1 hblock'
    exact (hereditary_leavesOneOf hkeeps script.blocks).visitScript hown o ho block' hblock'

/-- Each list of a visited script is left of a list of the parsed script. Its statements that start
with `else` stand directly behind what is left of the statements they stood behind exactly if none
of these goes in front of one that stays; and all these end themselves.

`GuardsStay` is decided by the visits of the two statements alone, since siblings do not influence
each other. It fails for `if (a) rm(); else keep()`, where the `if` goes with its only body. -/
theorem elseFollows_visitScript {source : String} {dialect : Dialect} {script : Script}
    (h : parse source dialect = .ok script) (rules : RuleSet) :
    ∀ block' ∈ (visitScript { rules } script).1.blocks, block' ≠ [] →
      ∃ block ∈ script.blocks, ∃ left, Decides { rules } left ∧
        Statement.LeftOf left block block' ∧
        (Statement.ElseFollows left block block' ↔ Statement.GuardsStay left block) := by
  intro block' hblock' hsome
  obtain ⟨block, hblock, left, hdecides, hleft⟩ :=
    leavesOneOf_visitScript (fun _ => rfl) script block' hblock' hsome
  refine ⟨block, hblock, left, hdecides, hleft, ?_⟩
  have hends := elseAfterEnd_of_parse h block hblock
  rw [Statement.elseFollows_iff hdecides.beginsWithElse hleft]
  rw [Statement.ElseAfterEnd, List.isChain_iff_forall_rel_of_append_cons_cons] at hends
  rw [Statement.GuardsStay, List.isChain_iff_forall_rel_of_append_cons_cons,
    List.isChain_iff_forall_rel_of_append_cons_cons]
  constructor
  · exact fun hchain _ _ _ _ hsplit _ => hchain hsplit
  · exact fun hchain _ _ _ _ hsplit helse => hchain hsplit (hends hsplit helse) helse

/-- A block with an `if` that loses an argument, an `else` behind a `;`, and a statement that
goes. -/
theorem elseFollows_visitScript_block :
    ∃ script, parse "foo \x7b if (a) x(rm()); else y()\n  rm() \x7d\n" .groovy = .ok script ∧
      ∀ block' ∈ (visitScript { rules := { methods := ["rm"] } } script).1.blocks, block' ≠ [] →
        ∃ block ∈ script.blocks, ∃ left, Decides { rules := { methods := ["rm"] } } left ∧
          Statement.LeftOf left block block' ∧
          (Statement.ElseFollows left block block' ↔ Statement.GuardsStay left block) := by
  have haccepted : (parse "foo \x7b if (a) x(rm()); else y()\n  rm() \x7d\n" .groovy).toOption.any
      (fun _ => true) = true := by
    decide +kernel
  obtain ⟨script, hparse, -⟩ := ok_of_any haccepted
  exact ⟨script, hparse, elseFollows_visitScript hparse { methods := ["rm"] }⟩

/-- The `if` goes with its only body, and its `else` in the next statement stays. -/
theorem not_elseFollows_visitScript :
    ¬∀ (source : String) (dialect : Dialect) (script : Script) (rules : RuleSet),
      parse source dialect = .ok script →
        ∀ block' ∈ (visitScript { rules } script).1.blocks, block' ≠ [] →
          ∃ block ∈ script.blocks, ∃ left, Decides { rules } left ∧
            Statement.LeftOf left block block' ∧ Statement.ElseFollows left block block' := by
  intro h
  have horphan : (parse "if (a) rm(); else keep()\n" .groovy).toOption.any (fun script => decide
      ((∃ block' ∈ (visitScript { rules := { methods := ["rm"] } } script).1.blocks,
        block'.length = 1 ∧ block'.all Statement.beginsWithElse = true) ∧
      ∀ block ∈ script.blocks, block.length = 2 ∧ ∀ s ∈ block.head?, ∀ inPlugins : Bool,
        (visitStatement { rules := { methods := ["rm"] } } ⟨inPlugins⟩ s).node.isNone)) = true := by
    decide +kernel
  obtain ⟨script, hparse, horphan⟩ := ok_of_any horphan
  obtain ⟨⟨block', hblock', hone, helse⟩, hblocks⟩ := of_decide_eq_true horphan
  obtain ⟨s', rfl⟩ := List.length_eq_one_iff.1 hone
  rw [List.all_cons, List.all_nil, Bool.and_true] at helse
  obtain ⟨block, hblock, left, hdecides, hleft, hfollows⟩ :=
    h _ _ script { methods := ["rm"] } hparse _ hblock' (List.cons_ne_nil _ _)
  obtain ⟨htwo, hgone⟩ := hblocks block hblock
  rcases hdecides with rfl | ⟨⟨inPlugins⟩, rfl⟩
  · -- A copied list would have kept both statements.
    have hlength := hleft.length_eq
    rw [List.filterMap_some, htwo] at hlength
    cases hlength
  · obtain ⟨s, after, rfl, hstays⟩ := hfollows.exists_first helse
    have hnone := hgone s rfl inPlugins
    rw [Option.isNone_iff_eq_none] at hnone
    rw [hnone] at hstays
    cases hstays

end Pruner

end BuildPrune
