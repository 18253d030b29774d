import BuildPrune.Proofs.Inheritance
import BuildPrune.Proofs.Lossless
import BuildPrune.Proofs.VisitRules

/-!
# BuildPrune.Proofs.Thinning

**Nothing is reordered or invented.** The tokens of a visited script, their trivia aside, are those
of the script with some left out, and with `{` `}` in the place of the tokens of each emptied body
(`Pruner.thinned_visitScript`). A body is emptied if it is the body of a control statement that
stays, something follows it there, and the visit leaves nothing of it.

Trivia does not count, so sweeping a list of statements is leaving some out. Sweeping items is more:
if the last item goes, its comma takes the place of the one before it. That is leaving tokens out as
well, those from one comma to the other (`Item.ThinnedList.sweep`).
-/

namespace BuildPrune

/-! ### Words -/

/-- What is left of tokens if their trivia and their places in the text do not count. -/
def words (tokens : List Token) : List (TokenKind × String) :=
  tokens.map fun t => (t.kind, t.text)

@[simp] theorem words_nil : words [] = [] := rfl

@[simp] theorem words_cons (t : Token) (tokens : List Token) :
    words (t :: tokens) = (t.kind, t.text) :: words tokens := rfl

@[simp] theorem words_append (tokens more : List Token) :
    words (tokens ++ more) = words tokens ++ words more :=
  List.map_append

@[simp] theorem Expr.words_withLeading (e : Expr) (leading : String) :
    words (e.withLeading leading).tokens = words e.tokens := by
  obtain ⟨rest, htokens, hwith⟩ := e.exists_tokens
  rw [hwith, htokens]
  rfl

@[simp] theorem Statement.words_withLeading (s : Statement) (leading : String) :
    words (s.withLeading leading).tokens = words s.tokens := by
  obtain ⟨rest, htokens, hwith⟩ := s.exists_tokens
  rw [hwith, htokens]
  rfl

theorem words_hollow (leading : String) : words (Expr.lambda (Lambda.hollow leading)).tokens =
    [(.punct, openBrace), (.punct, closeBrace)] := by
  rw [Expr.tokens, Lambda.hollow, Lambda.tokens_mk, Statement.listTokens]
  rfl

/-! ### Leaving out

Leaving out is not just a sublist: in the place of an emptied body stand `{` and `}`. If no body
was emptied then it is a sublist. -/

/-- The words are those of the tokens with some left out, and with `{` `}` in the place of
bodies. -/
inductive Thinned (bodies : List Expr) : List Token → List (TokenKind × String) → Prop
  | nil : Thinned bodies [] []
  | keep {t : Token} {tokens : List Token} {kept : List (TokenKind × String)}
      (h : Thinned bodies tokens kept) : Thinned bodies (t :: tokens) ((t.kind, t.text) :: kept)
  | drop {t : Token} {tokens : List Token} {kept : List (TokenKind × String)}
      (h : Thinned bodies tokens kept) : Thinned bodies (t :: tokens) kept
  | hollow {body : Expr} {tokens : List Token} {kept : List (TokenKind × String)}
      (hbody : body ∈ bodies) (h : Thinned bodies tokens kept) :
      Thinned bodies (body.tokens ++ tokens)
        ((.punct, openBrace) :: (.punct, closeBrace) :: kept)

namespace Thinned

variable {bodies : List Expr} {tokens more : List Token}
  {kept moreKept : List (TokenKind × String)}

/-- Nothing has to be left out. -/
theorem all (bodies : List Expr) : ∀ tokens, Thinned bodies tokens (words tokens)
  | [] => .nil
  | _ :: tokens => .keep (all bodies tokens)

/-- Everything can be left out. -/
theorem none (bodies : List Expr) : ∀ tokens, Thinned bodies tokens []
  | [] => .nil
  | _ :: tokens => .drop (none bodies tokens)

theorem append (h : Thinned bodies tokens kept) (hmore : Thinned bodies more moreKept) :
    Thinned bodies (tokens ++ more) (kept ++ moreKept) := by
  induction h with
  | nil => exact hmore
  | keep _ ih => exact .keep ih
  | drop _ ih => exact .drop ih
  | hollow hbody _ ih =>
      rw [List.append_assoc]
      exact .hollow hbody ih

/-- Tokens behind can be left out. -/
theorem append_none (h : Thinned bodies tokens kept) (more : List Token) :
    Thinned bodies (tokens ++ more) kept := by
  simpa using h.append (none bodies more)

/-- Where there is no body, the words are some of those of the tokens, in their order. -/
theorem sublist (h : Thinned [] tokens kept) : kept.Sublist (words tokens) := by
  induction h with
  | nil => exact .slnil
  | keep _ ih => exact ih.cons_cons _
  | drop _ ih => exact ih.cons _
  | hollow hbody => cases hbody

/-- No text is new but the braces. -/
theorem forall_text {property : String → Prop}
    (hbraces : property openBrace ∧ property closeBrace) (h : Thinned bodies tokens kept)
    (htexts : ∀ t ∈ tokens, property t.text) : ∀ word ∈ kept, property word.2 := by
  induction h with
  | nil => simp
  | keep _ ih =>
      rw [List.forall_mem_cons] at htexts ⊢
      exact ⟨htexts.1, ih htexts.2⟩
  | drop _ ih => exact ih (List.forall_mem_cons.1 htexts).2
  | hollow _ _ ih =>
      rw [List.forall_mem_cons, List.forall_mem_cons]
      exact ⟨hbraces.1, hbraces.2, ih (List.forall_mem_append.1 htexts).2⟩

end Thinned

variable {bodies : List Expr}

/-! ### Lists of statements -/

namespace Statement

/-- Of each statement that stays, some tokens are left. -/
def ThinnedList (bodies : List Expr) (statements : List Statement)
    (decisions : List (Option Statement)) : Prop :=
  List.Forall₂ (fun s decision => ∀ s' ∈ decision, Thinned bodies s.tokens (words s'.tokens))
    statements decisions

/-- Of a list of statements, only some of those that were decided for have to stay. -/
theorem ThinnedList.thinned {statements : List Statement} {decisions : List (Option Statement)}
    (h : ThinnedList bodies statements decisions) : ∀ {chosen : List Statement},
      chosen.Sublist (decisions.filterMap id) →
        Thinned bodies (listTokens statements) (words (listTokens chosen)) := by
  induction h with
  | nil =>
      intro chosen hchosen
      rw [List.sublist_nil.1 hchosen]
      exact .nil
  | @cons s decision statements decisions hs _ ih =>
      intro chosen hchosen
      rw [listTokens]
      cases decision with
      | none => simpa using (Thinned.none bodies s.tokens).append (ih hchosen)
      | some s' =>
          have hchosen : chosen.Sublist (s' :: decisions.filterMap id) := hchosen
          cases hchosen with
          | cons _ hrest => simpa using (Thinned.none bodies s.tokens).append (ih hrest)
          | cons_cons _ hrest =>
              rw [listTokens, words_append]
              exact (hs s' rfl).append (ih hrest)

theorem words_of_placed {decided placed : List Statement}
    (h : List.Forall₂ Placed decided placed) :
    words (listTokens placed) = words (listTokens decided) := by
  induction h with
  | nil => rfl
  | cons hplaced _ ih =>
      obtain ⟨leading, rfl⟩ := hplaced
      rw [listTokens, listTokens, words_append, words_append, ih, words_withLeading]

/-- What is left of a list of statements that is swept. -/
theorem ThinnedList.sweep {statements swept : List Statement}
    {decisions kept : List (Option Statement)} (h : ThinnedList bodies statements decisions)
    (hkept : kept.Sublist decisions) (hlength : kept.length = swept.length) (isFirst : Bool)
    (trailer : String) :
    Thinned bodies (listTokens statements)
      (words (listTokens (Statement.sweep isFirst kept swept trailer).1)) := by
  rw [words_of_placed (placed_sweep kept isFirst swept trailer hlength)]
  exact h.thinned (hkept.filterMap id)

end Statement

/-! ### Lists of items -/

namespace Item

/-- Of each item that stays, some tokens are left. -/
def ThinnedList (bodies : List Expr) (items : List Item) (decisions : List (Option Expr)) : Prop :=
  List.Forall₂ (fun item decision => ∀ e ∈ decision, Thinned bodies item.expr.tokens (words e.tokens))
    items decisions

theorem listTokens_append (items more : List Item) :
    listTokens (items ++ more) = listTokens items ++ listTokens more := by
  induction items with
  | nil => rfl
  | cons item rest ih => simp [listTokens, ih]

/-- The comma of the last item is the last token. -/
theorem listTokens_closeWith (comma : Option Token) {items : List Item} (h : items ≠ []) :
    listTokens (closeWith comma items) = listTokens (closeWith none items) ++ comma.toList := by
  rw [← List.dropLast_append_getLast h, closeWith_append, closeWith_append]
  simp [listTokens_append, listTokens, Item.tokens]

/-- The tokens `read` have been thinned to the items `before`, with their last comma and without.
The trivia in front of the items has changed on the way, so `swept` are only `items` as far as their
commas go. -/
theorem ThinnedList.sweep_from {items : List Item} {decisions : List (Option Expr)}
    (h : ThinnedList bodies items decisions) : ∀ {swept before : List Item} {read : List Token},
      swept.map Item.comma = items.map Item.comma →
      Thinned bodies read (words (listTokens before)) →
      Thinned bodies read (words (listTokens (closeWith none before))) →
        Thinned bodies (read ++ listTokens items)
          (words (listTokens (Item.sweep before decisions swept))) := by
  induction h with
  | nil =>
      intro swept before read hcommas hclosed _
      obtain rfl := List.map_eq_nil_iff.1 hcommas
      rw [sweep_nil, listTokens, List.append_nil, List.append_nil]
      exact hclosed
  | @cons item decision items decisions hitem hrest ih =>
      intro swept before read hcommas hclosed hopen
      obtain ⟨expr, comma⟩ := item
      obtain ⟨item', swept, rfl, hcomma, hcommas⟩ := List.map_eq_cons_iff.1 hcommas
      rw [listTokens, Item.tokens, ← List.append_assoc]
      cases decision with
      | some e =>
          have hexpr := hitem e rfl
          rw [sweep_some]
          refine ih hcommas ?_ ?_
          · simp only [listTokens_append, listTokens, Item.tokens, List.append_nil, words_append,
              Expr.words_withLeading, hcomma]
            exact hclosed.append (hexpr.append (.all bodies comma.toList))
          · rw [closeWith_append]
            simp only [listTokens_append, listTokens, Item.tokens, Option.toList_none,
              List.append_nil, words_append, Expr.words_withLeading]
            exact hclosed.append (hexpr.append_none comma.toList)
      | none =>
          cases swept with
          | cons next swept =>
              rw [sweep_next]
              refine ih ?_ (hclosed.append_none _) (hopen.append_none _)
              rw [List.map_cons, comma_takeOver]
              exact hcommas
          | nil =>
              -- The last item goes, and only its comma is left.
              obtain rfl := List.map_eq_nil_iff.1 hcommas.symm
              cases hrest
              rw [sweep_last, listTokens, List.append_nil, hcomma]
              by_cases hbefore : before = []
              · rw [hbefore]
                exact .none bodies _
              · rw [listTokens_closeWith comma hbefore, words_append]
                refine hopen.append ?_
                simpa using (Thinned.none bodies expr.tokens).append (.all bodies comma.toList)

/-- What is left of a list of items that is swept. -/
theorem ThinnedList.sweep {items : List Item} {decisions : List (Option Expr)}
    (h : ThinnedList bodies items decisions) : Thinned bodies (listTokens items)
      (words (listTokens (Item.sweep [] decisions items))) := by
  have hnothing : Thinned bodies [] (words (listTokens [])) := .nil
  exact h.sweep_from rfl hnothing hnothing

end Item

namespace Pruner

/-! ### Emptied bodies

An emptied body is counted for each control statement that keeps something behind it. This list
says which of them they are, so that the theorem does not allow braces in any other place. -/

/-- The bodies in the rest of a sequence behind `before` that go while more follows them. In their
place the visit puts `{` `}`. -/
def lostBodies (p : Pruner) (ctx : Context) (head : Expr) :
    (before : List Expr) → List Expr → List Expr
  | _, [] => []
  | before, body :: rest =>
    let more := lostBodies p ctx head (before ++ [body]) rest
    if isControlBody head before && !rest.isEmpty && (p.visitExpr ctx body).node.isNone then
      body :: more
    else more

/-- The bodies that an expression of which something is left loses. If nothing is left of it, then
there is no statement that a body could be missing from. -/
def emptiedIn (p : Pruner) (ctx : Context) : Expr → List Expr
  | .sequence head tail =>
    if (p.visitExpr ctx (.sequence head tail)).node.isSome then p.lostBodies ctx head [] tail else []
  | _ => []

/-- The bodies of control statements of the script that a visit empties. -/
def emptied (p : Pruner) (script : Script) : List Expr :=
  script.occurrences.flatMap fun o => o.within.elim [] fun ctx => p.emptiedIn ctx o.expr

/-! ### What is left of a node

By induction on `Pruner.Keeps`. The rule that puts braces in is the one for the tail of a
sequence, and all other rules leave out or copy. -/

/-- What is left of the entry are some of its tokens. What is left of the rest of a sequence may
take expressions away from those before it, from some place on. -/
def Entry.Thins (bodies : List Expr) : Entry → Remains → Prop
  | .expr e, .expr e' => Thinned bodies e.tokens (words e'.tokens)
  | .tail _ before visited rest, .exprs es =>
    (∀ n, Thinned bodies (Expr.listTokens before) (words (Expr.listTokens (visited.take n)))) →
      Thinned bodies (Expr.listTokens (before ++ rest)) (words (Expr.listTokens es))
  | .call c, .call c' => Thinned bodies c.tokens (words c'.tokens)
  | .receiver r, .receiver r' =>
    Thinned bodies (partTokens Receiver.tokens r) (words (partTokens Receiver.tokens r'))
  | .args a, .args a' =>
    Thinned bodies (partTokens Arguments.tokens a) (words (partTokens Arguments.tokens a'))
  | .items list, .items decisions => Item.ThinnedList bodies list decisions
  | .lambda l, .lambda l' => Thinned bodies l.tokens (words l'.tokens)
  | .block l, .block l' =>
    Thinned bodies (partTokens Lambda.tokens l) (words (partTokens Lambda.tokens l'))
  | .statement s, .statement s' => Thinned bodies s.tokens (words s'.tokens)
  | .statements list, .statements decisions => Statement.ThinnedList bodies list decisions
  | _, _ => True

/-- The bodies that the rest of a sequence loses are among `bodies`. -/
def Entry.LosesOnly (p : Pruner) (bodies : List Expr) (ctx : Context) : Entry → Prop
  | .tail head before _ rest => ∀ body ∈ p.lostBodies ctx head before rest, body ∈ bodies
  | _ => True

variable {p : Pruner} {ctx : Context}

/-- The bodies that the expression loses are among `bodies`. -/
def EmptiesOnly (p : Pruner) (bodies : List Expr) (within : Option Context) (e : Expr) : Prop :=
  ∀ ctx ∈ within, ∀ body ∈ p.emptiedIn ctx e, body ∈ bodies

theorem lostBodies_cons_subset (p : Pruner) (ctx : Context) (head e : Expr)
    (before rest : List Expr) :
    p.lostBodies ctx head (before ++ [e]) rest ⊆ p.lostBodies ctx head before (e :: rest) := by
  rw [lostBodies]
  split
  · exact List.subset_cons_self _ _
  · exact List.Subset.refl _

theorem mem_lostBodies {head body : Expr} {before rest : List Expr}
    (hbody : isControlBody head before = true) (hmore : rest ≠ [])
    (hgone : (p.visitExpr ctx body).node = none) :
    body ∈ p.lostBodies ctx head before (body :: rest) := by
  have hlost : (isControlBody head before && !rest.isEmpty &&
      (p.visitExpr ctx body).node.isNone) = true := by
    simp [hbody, hmore, hgone]
  rw [lostBodies, if_pos hlost]
  exact List.mem_cons_self

/-- One more expression of a sequence, or `{}` in its place. -/
theorem thinned_take_append {before visited : List Expr} {e e' : Expr}
    (hfront : ∀ n, Thinned bodies (Expr.listTokens before)
      (words (Expr.listTokens (visited.take n))))
    (he : Thinned bodies e.tokens (words e'.tokens)) (n : Nat) :
    Thinned bodies (Expr.listTokens (before ++ [e]))
      (words (Expr.listTokens ((visited ++ [e']).take n))) := by
  rw [Expr.listTokens_append]
  by_cases hn : n ≤ visited.length
  · rw [List.take_append_of_le_length hn]
    exact (hfront n).append_none _
  · have hall := hfront visited.length
    rw [List.take_length] at hall
    rw [List.take_of_length_le (by simp; omega), Expr.listTokens_append, words_append]
    simp only [Expr.listTokens, List.append_nil]
    exact hall.append he

/-- What a visit leaves of a node are some of its tokens, with `{` `}` in the place of the bodies
that it empties. -/
theorem Keeps.thinned {entry : Entry} {remains : Remains} (h : p.Keeps ctx entry remains)
    (hevery : entry.Every (p.EmptiesOnly bodies) (fun _ _ => True) ctx)
    (hloses : entry.LosesOnly p bodies ctx) : entry.Thins bodies remains := by
  induction h with
  | atom | annotatedNothing | importing | empty => exact .all bodies _
  | noReceiver | noArgs | noBlock => exact .nil
  | callExpr _ ih =>
      simp only [Entry.Every, Expr.every_call] at hevery
      simp only [Entry.Thins, Expr.tokens]
      exact ih hevery.2 trivial
  | lambdaExpr _ ih =>
      simp only [Entry.Every, Expr.every_lambda] at hevery
      simp only [Entry.Thins, Expr.tokens]
      exact ih hevery.2 trivial
  | @annotated _ _ name args _ _ _ ih =>
      simp only [Entry.Every, Expr.every_annotated, Option.mem_some, forall_eq'] at hevery
      simp only [Entry.Thins, Expr.tokens_annotated, words_cons, words_append, partTokens_some]
      exact .keep ((Thinned.all bodies name).append
        ((Thinned.all bodies _).append (ih hevery.2.2 trivial)))
  | @field _ _ _ dot name _ ih =>
      simp only [Entry.Every, Expr.every_field] at hevery
      simp only [Entry.Thins, Expr.tokens, words_append]
      exact Thinned.append (ih hevery.2 trivial) (.all bodies [dot, name])
  | @paren _ _ closing _ _ _ ih =>
      simp only [Entry.Every, Expr.every_paren] at hevery
      simp only [Entry.Thins, Expr.tokens, words_append, words_cons]
      exact Thinned.append (.keep (ih hevery.2 trivial)) (.all bodies [closing])
  | @index _ _ _ _ closing _ _ _ _ ihtarget ihitems =>
      simp only [Entry.Every, Expr.every_index] at hevery
      have hitems : Item.ThinnedList bodies _ _ := ihitems hevery.2.2 trivial
      simp only [Entry.Thins, Expr.tokens, Brackets.tokens, words_append, words_cons]
      exact Thinned.append (ihtarget hevery.2.1 trivial)
        (Thinned.append (.keep hitems.sweep) (.all bodies [closing]))
  | binary _ _ ihleft ihright =>
      simp only [Entry.Every, Expr.every_binary] at hevery
      simp only [Entry.Thins, Expr.tokens, words_append, words_cons]
      exact Thinned.append (ihleft hevery.2.1 trivial) (.keep (ihright hevery.2.2 trivial))
  | prefixed _ ih =>
      simp only [Entry.Every, Expr.every_prefixed] at hevery
      simp only [Entry.Thins, Expr.tokens, words_cons]
      exact .keep (ih hevery.2 trivial)
  | @postfixed _ op _ _ _ ih =>
      simp only [Entry.Every, Expr.every_postfixed] at hevery
      simp only [Entry.Thins, Expr.tokens, words_append]
      exact Thinned.append (ih hevery.2 trivial) (.all bodies [op])
  | @list _ _ closing _ _ _ ih =>
      simp only [Entry.Every, Expr.every_list] at hevery
      have hitems : Item.ThinnedList bodies _ _ := ih hevery.2 trivial
      simp only [Entry.Thins, Expr.tokens, Brackets.tokens, words_append, words_cons]
      exact Thinned.append (.keep hitems.sweep) (.all bodies [closing])
  | @sequence ctx head _ tail _ hhead htail ihhead ihtail =>
      -- The sequence stays, so the bodies that it loses are emptied.
      have hstays : (p.visitExpr ctx (.sequence head tail)).node = some _ :=
        (Keeps.sequence hhead htail).leaves
      have hempties := hevery.self ctx rfl
      rw [emptiedIn, hstays, Option.isSome_some, if_pos rfl] at hempties
      simp only [Entry.Every, Expr.every_sequence] at hevery
      simp only [Entry.Thins, Expr.tokens, words_append]
      refine Thinned.append (ihhead hevery.2.1 trivial) (ihtail ⟨by simp, hevery.2.2⟩ hempties ?_)
      intro n
      rw [List.take_nil]
      exact .nil
  | @tailEnd _ _ _ visited =>
      intro hfront
      have hall := hfront visited.length
      rw [List.take_length] at hall
      rw [List.append_nil]
      exact hall
  | @tailNext ctx head e _ before _ rest _ _ _ ihexpr ihrest =>
      intro hfront
      obtain ⟨-, hexprs⟩ := hevery
      obtain ⟨hexpr, hrest⟩ := List.forall_mem_cons.1 hexprs
      rw [← List.singleton_append, ← List.append_assoc]
      refine ihrest ⟨fun _ _ _ _ => trivial, hrest⟩
        (fun body hbody => hloses body (p.lostBodies_cons_subset ctx head e before rest hbody)) ?_
      exact thinned_take_append hfront (ihexpr hexpr trivial)
  | @tailHollow ctx head e before _ rest _ hgone hbody hmore _ ihrest =>
      intro hfront
      obtain ⟨-, hexprs⟩ := hevery
      rw [← List.singleton_append, ← List.append_assoc]
      refine ihrest ⟨fun _ _ _ _ => trivial, (List.forall_mem_cons.1 hexprs).2⟩
        (fun body hbody => hloses body (p.lostBodies_cons_subset ctx head e before rest hbody)) ?_
      refine thinned_take_append hfront ?_
      have hlost : e ∈ bodies := hloses e (mem_lostBodies hbody hmore hgone)
      simpa [words_hollow] using Thinned.hollow hlost .nil
  | @tailCut _ _ _ _ _ branch _ _ _ =>
      intro hfront
      rw [Expr.listTokens_append]
      exact (hfront branch).append_none _
  | @call ctx c receiver args lambda _ _ _ _ _ _ ihreceiver ihargs ihlambda =>
      obtain ⟨receiver', name, types, args', lambda', style⟩ := c
      simp only [Entry.Thins, Call.tokens_mk, words_append, words_cons]
      exact Thinned.append (ihreceiver hevery.receiver trivial)
        (.keep ((Thinned.all bodies _).append
          (Thinned.append (ihargs hevery.args trivial) (ihlambda hevery.lambda trivial))))
  | @receiver _ _ _ dot _ ih =>
      simp only [Entry.Every, Option.mem_some, forall_eq'] at hevery
      simp only [Entry.Thins, partTokens_some, Receiver.tokens, words_append]
      exact Thinned.append (ih hevery trivial) (.all bodies _)
  | @args _ opening closing _ _ _ ih =>
      simp only [Entry.Every, Option.mem_some, forall_eq'] at hevery
      have hitems : Item.ThinnedList bodies _ _ := ih hevery trivial
      simp only [Entry.Thins, partTokens_some, Arguments.tokens, words_append]
      exact ((Thinned.all bodies _).append hitems.sweep).append (.all bodies _)
  | itemsEnd | statementsEnd => exact .nil
  | itemKept _ _ ihexpr ihitems =>
      obtain ⟨hexpr, hitems⟩ := List.forall_mem_cons.1 hevery
      refine .cons ?_ (ihitems hitems trivial)
      intro e he
      obtain rfl := Option.mem_some.1 he
      exact ihexpr hexpr trivial
  | itemGone _ _ ihitems =>
      exact .cons (by simp) (ihitems (List.forall_mem_cons.1 hevery).2 trivial)
  | block _ ih =>
      simp only [Entry.Every, Option.mem_some, forall_eq'] at hevery
      exact ih hevery trivial
  | @lambda _ _ closing _ _ _ _ _ _ trailer _ hbody hsift hsweep ih =>
      -- Both the filter and the sweep only choose among the decisions.
      obtain ⟨hkept, hlength⟩ := hbody.sifted hsift
      have hstatements : Statement.ThinnedList bodies _ _ := ih hevery trivial
      have hswept := hstatements.sweep hkept hlength true trailer
      rw [hsweep] at hswept
      simp only [Entry.Thins, Lambda.tokens_mk, words_cons, words_append]
      exact .keep ((Thinned.all bodies _).append (hswept.append (.all bodies [closing])))
  | @expression _ _ _ semicolon _ ih =>
      simp only [Entry.Every, Statement.every_expression] at hevery
      simp only [Entry.Thins, Statement.tokens, words_append]
      exact Thinned.append (ih hevery trivial) (.all bodies _)
  | statementKept _ _ ihstatement ihstatements =>
      obtain ⟨hstatement, hstatements⟩ := List.forall_mem_cons.1 hevery
      refine .cons ?_ (ihstatements hstatements trivial)
      intro s hs
      obtain rfl := Option.mem_some.1 hs
      exact ihstatement hstatement trivial
  | statementGone _ _ ihstatements =>
      exact .cons (by simp) (ihstatements (List.forall_mem_cons.1 hevery).2 trivial)

/-- A visit only thins the tokens of a script, and puts `{` `}` in the place of the bodies that it
empties. -/
theorem thinned_words (p : Pruner) (script : Script) :
    Thinned (p.emptied script) script.tokens (words (p.visitScript script).1.tokens) := by
  have hempties : script.Every (p.EmptiesOnly (p.emptied script)) := by
    intro o ho ctx hctx body hbody
    refine List.mem_flatMap.2 ⟨o, ho, ?_⟩
    rw [Option.mem_def.1 hctx]
    exact hbody
  have hkeeps := keeps_statements p {} script.statements
  have hstatements : Statement.ThinnedList (p.emptied script) _ _ :=
    hkeeps.thinned (Script.every_iff.1 hempties) trivial
  exact hstatements.sweep (List.Sublist.refl _) hkeeps.length_eq true script.eof

/-- What the text of every token is, the text of every token is after a visit, if braces are
that. -/
theorem forall_text_visitScript (property : String → Prop)
    (hbraces : property openBrace ∧ property closeBrace) (p : Pruner) {script : Script}
    (htexts : ∀ t ∈ script.tokens, property t.text) :
    ∀ t ∈ (p.visitScript script).1.tokens, property t.text := fun _ ht =>
  (p.thinned_words script).forall_text hbraces htexts _ (List.mem_map_of_mem ht)

/-- The words of a visited script are those of the script with some left out and with `{` `}` in the
place of the bodies that the visit empties. If it empties none, they are some of the words of the
script, in their order. -/
theorem thinned_visitScript (p : Pruner) (script : Script) :
    Thinned (p.emptied script) script.tokens (words (p.visitScript script).1.tokens) ∧
      (p.emptied script = [] →
        (words (p.visitScript script).1.tokens).Sublist (words script.tokens)) := by
  have hthinned := p.thinned_words script
  refine ⟨hthinned, fun hnone => ?_⟩
  rw [hnone] at hthinned
  exact hthinned.sublist

/-- The last body takes its `else` with it, so that no `{}` is put in. -/
theorem thinned_visitScript_else :
    ∃ script, parse "if (a) b() else rm()\n" .groovy = .ok script ∧
      (words (visitScript { rules := { methods := ["rm"] } } script).1.tokens).Sublist
        (words script.tokens) := by
  have hnone : (parse "if (a) b() else rm()\n" .groovy).toOption.any (fun script =>
      (emptied { rules := { methods := ["rm"] } } script).isEmpty) = true := by
    decide +kernel
  obtain ⟨script, hparse, hnone⟩ := ok_of_any hnone
  exact ⟨script, hparse, (thinned_visitScript _ script).2 (List.isEmpty_iff.1 hnone)⟩

/-- A body in front of an `else` is emptied. -/
example : (parse "if (a) rm() else b()\n" .groovy).toOption.map (fun script =>
    (emptied { rules := { methods := ["rm"] } } script).map Expr.printed) = some ["rm()"] := by
  decide +kernel

end Pruner

end BuildPrune
