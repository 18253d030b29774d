import BuildPrune.Proofs.Operands
import BuildPrune.Proofs.VisitRules
import BuildPrune.Proofs.WhenBranches

/-!
# BuildPrune.Proofs.WhenEntries

How an entry of a `when` block is read and visited. An entry with a condition is a binary
expression, with the arrow between the condition and the call, and an entry without one is a call
(`When.reads_entry`).

* `When.Laid`: a script in which exactly the branches of the `when` start lines.
* `When.EndsEntry`: what can stand behind an entry.
* `When.LivesBy`: pruning by the names of calls removes an expression exactly if it removes one of
  the calls, and leaves it as it is else.
-/

namespace BuildPrune

/-! ### Visiting by names

A visit by the names of calls removes an entry or leaves it exactly as it is. Which of the two
depends on the names of the calls in it, and nothing else has to be said about it. -/

/-- A pruner that goes by the names of calls alone. -/
def Pruner.byMethods (methods : List String) (dialect : Dialect)
    (keepsInPlugins : Statement → Bool) : Pruner :=
  ⟨{ methods, dialect }, keepsInPlugins⟩

namespace When

/-- The call `name()`. -/
def bareCall (name opening closing : Token) : Call :=
  ⟨none, name, none, some ⟨some opening, [], some closing⟩, none, .regular⟩

/-- Every visit leaves the expression as it is. -/
def Untouched (e : Expr) : Prop :=
  ∀ (p : Pruner) (ctx : Context), p.visitExpr ctx e = pure e

/-- A pruner by names leaves the expression as it is, if it removes none of these calls, and else
nothing of it. -/
def LivesBy (calls : List String) (e : Expr) : Prop :=
  ∀ methods dialect keeps ctx, ((Pruner.byMethods methods dialect keeps).visitExpr ctx e).node =
    if calls.all (· ∉ methods) then some e else none

/-- A token by itself is in no rule. -/
theorem untouched_atom (t : Token) : Untouched (.atom t) := by
  intro p ctx
  rw [Pruner.visitExpr]

/-- A member of what every visit leaves alone is left alone. -/
theorem Untouched.field {e : Expr} (h : Untouched e) (dot name : Token) :
    Untouched (.field e dot name) := by
  intro p ctx
  rw [Pruner.visitExpr, h p ctx, pure_bind]

/-- Rules for names alone remove a call without arguments by its name. There is no receiver and no
argument for the other rules to look at. -/
theorem removalReason_bareCall (name opening closing : Token) (methods : List String)
    (dialect : Dialect) :
    ((bareCall name opening closing).removalReason { methods, dialect }).isSome =
      methods.contains name.text := by
  by_cases hname : name.text ∈ methods
  · simp [Call.removalReason, bareCall, hname]
  · simp [Call.removalReason, bareCall, hname, Call.typeParameters, Call.firstArgumentIn,
      Call.items, Call.receiverCall?]

/-- A call lives by its name. -/
theorem livesBy_bareCall (name opening closing : Token) :
    LivesBy [name.text] (.call (bareCall name opening closing)) := by
  intro methods dialect keeps ctx
  have hspare := removalReason_bareCall name opening closing methods dialect
  by_cases hname : name.text ∈ methods
  · have hgone : (Pruner.byMethods methods dialect keeps).spare (bareCall name opening closing) =
        .gone := by
      rw [Pruner.spare, Pruner.byMethods, hspare, if_pos (by simpa using hname)]
    simp [Pruner.visitExpr, Pruner.visitCall_eq, hgone, Outcome.gone, hname]
  · have hstays : (Pruner.byMethods methods dialect keeps).spare (bareCall name opening closing) =
        pure (bareCall name opening closing) := by
      rw [Pruner.spare, Pruner.byMethods, hspare, if_neg (by simpa using hname)]
    rw [bareCall] at hstays
    simp [Pruner.visitExpr, Pruner.visitCall_eq, hstays, hname, bareCall, Pruner.visitPart,
      Pruner.visitArguments, Pruner.visitItems, Item.sweep]

/-- A binary expression lives by its right side, if no visit touches the left one. So an entry goes
as a whole, with its condition and the arrow. -/
theorem LivesBy.binary {calls : List String} {left right : Expr} (h : LivesBy calls right)
    (hleft : Untouched left) (op : Token) : LivesBy calls (.binary left op right) := by
  intro methods dialect keeps ctx
  rw [Pruner.visitExpr, hleft, pure_bind, Outcome.node_bind, h]
  split <;> rfl

/-- Two expressions side by side go together, unless the second is the body of a header. This is
what ties `else` to the entry in front of it. -/
theorem LivesBy.sequence {calls more : List String} {head next : Expr} (h : LivesBy calls head)
    (hnext : LivesBy more next) (hbody : isControlBody head [] = false) :
    LivesBy (calls ++ more) (.sequence head [next]) := by
  intro methods dialect keeps ctx
  rw [Pruner.visitExpr, Outcome.node_bind, h, List.all_append]
  by_cases hcalls : calls.all (· ∉ methods) = true
  · rw [if_pos hcalls, hcalls, Bool.true_and, Option.bind_some, Outcome.node_bind,
      Pruner.visitTail]
    have hnode := hnext methods dialect keeps ctx
    by_cases hmore : more.all (· ∉ methods) = true
    · rw [if_pos hmore] at hnode ⊢
      simp [hnode, Pruner.visitTail]
    · rw [if_neg hmore] at hnode ⊢
      simp [hnode, hbody, Outcome.gone]
  · rw [if_neg hcalls, eq_false_of_ne_true hcalls]
    rfl

end When

/-! ### Layout -/

/-- What a token is, and whether it starts a line. -/
def Token.spot (t : Token) : Bool × TokenKind × String :=
  (t.startsLine, t.kind, t.text)

/-- A spot is made of its three parts. -/
theorem Token.spot_eq {t : Token} {line : Bool} {kind : TokenKind} {text : String} :
    t.spot = (line, kind, text) ↔ t.startsLine = line ∧ t.kind = kind ∧ t.text = text := by
  simp [spot]

namespace When

/-- Words that start no line. -/
def onLine (list : List (TokenKind × String)) : List (Bool × TokenKind × String) :=
  list.map (false, ·)

/-- Words on one line, of which the first starts it if `line` is true. -/
def lined (line : Bool) : List (TokenKind × String) → List (Bool × TokenKind × String)
  | [] => []
  | word :: more => (line, word) :: onLine more

/-- The tokens are those of the `when`, and exactly its branches start lines. Whether `when` and the
brace at the end do is of no matter. -/
def Laid (w : When) (tokens : List Token) : Prop :=
  ∃ first last, tokens.map Token.spot =
    (first, .ident, "when") ::
      onLine [(.punct, "("), (.ident, w.subject), (.punct, ")"), (.punct, openBrace)] ++
        w.branches.flatMap (fun branch => lined true branch.words) ++ [(last, .punct, closeBrace)]

variable {mode : Mode} {c : Cursor}

/-! ### Reading a branch

A condition is a literal or a dotted name, and the arrow behind it is read as an operator. So the
condition is the operand on its left and the call the one on its right. -/

/-- An arrow that ends a condition, and what follows it. -/
def AtArrow (c : Cursor) (spots : List (Bool × TokenKind × String)) : Prop :=
  c.rest.map Token.spot = (false, .punct, "->") :: spots

/-- An arrow is no member, no index and no postfix operator, so an operand ends in front of it. -/
theorem AtArrow.endsSuffixes {spots : List (Bool × TokenKind × String)} (h : AtArrow c spots) :
    c.EndsSuffixes := by
  obtain ⟨t, rest, hrest, ht, -⟩ := List.map_eq_cons_iff.1 h
  refine Cursor.endsSuffixes_of_not hrest (Token.not_isOneOf_of_text ?_)
  rw [(Token.spot_eq.1 ht).2.2]
  decide

/-- A name in front of a point or an arrow is no call, since neither opens arguments, a block or
type arguments. -/
theorem opensNoCall_members {members : List String} {spots : List (Bool × TokenKind × String)}
    (h : c.rest.map Token.spot =
      onLine (members.flatMap fun member => [(.punct, "."), (.ident, member)]) ++
        (false, .punct, "->") :: spots) : c.OpensNoCall := by
  cases members with
  | nil =>
      obtain ⟨t, rest, hrest, ht, -⟩ := List.map_eq_cons_iff.1 h
      refine Cursor.opensNoCall_of_text hrest ?_
      rw [(Token.spot_eq.1 ht).2.2]
      decide
  | cons member members =>
      obtain ⟨t, rest, hrest, ht, -⟩ := List.map_eq_cons_iff.1 h
      refine Cursor.opensNoCall_of_text hrest ?_
      rw [(Token.spot_eq.1 ht).2.2]
      decide

/-- The members behind a name are read up to the arrow, one point and one name at a time. -/
theorem reads_members {members : List String} {spots : List (Bool × TokenKind × String)}
    {operand : Expr} (hoperand : Untouched operand) (h : c.rest.map Token.spot =
      onLine (members.flatMap fun member => [(.punct, "."), (.ident, member)]) ++
        (false, .punct, "->") :: spots) :
    ∃ e c', Parser.Reads mode (.suffixes operand) c (.expr e) c' ∧ AtArrow c' spots ∧
      words e.tokens = words operand.tokens ++
        (members.flatMap fun member => [(.punct, "."), (.ident, member)]) ∧ Untouched e := by
  -- The operand grows by one member at a time.
  induction members generalizing c operand with
  | nil => exact ⟨operand, c, .noSuffixes (AtArrow.endsSuffixes h), h, by simp, hoperand⟩
  | cons member members ih =>
      obtain ⟨dot, _, hrest, hdot, h⟩ := List.map_eq_cons_iff.1 h
      obtain ⟨name, rest, rfl, hname, h⟩ := List.map_eq_cons_iff.1 h
      obtain ⟨-, hdotKind, hdotText⟩ := Token.spot_eq.1 hdot
      obtain ⟨-, hnameKind, hnameText⟩ := Token.spot_eq.1 hname
      obtain ⟨e, c', hread, harrow, hwords, huntouched⟩ :=
        ih (c := ⟨some name, rest⟩) (hoperand.field dot name) h
      refine ⟨e, c', .member (Cursor.take?_cons hrest ?_) (Cursor.take_cons rfl ?_)
        (.callParts_none (opensNoCall_members h)) rfl hread, harrow, ?_, huntouched⟩
      · exact List.any_eq_true.2 ⟨".", by decide, Token.is_of_text (.inr hdotKind) hdotText⟩
      · simp [hnameKind]
      · simp [hwords, Expr.tokens, hdotKind, hdotText, hnameKind, hnameText]

/-- A condition is an operand in front of its arrow: a literal, or a name with members. No visit by
names touches it. -/
theorem reads_condition {condition : Condition} (hfits : condition.Fits) {line : Bool}
    {spots : List (Bool × TokenKind × String)} (h : c.rest.map Token.spot =
      lined line condition.words ++ (false, .punct, "->") :: spots) :
    ∃ e c', Parser.Reads mode .unary c (.expr e) c' ∧ AtArrow c' spots ∧
      words e.tokens = condition.words ∧ Untouched e := by
  cases condition with
  | name first members =>
      obtain ⟨t, rest, hrest, ht, hmore⟩ := List.map_eq_cons_iff.1 h
      obtain ⟨-, hkind, rfl⟩ := Token.spot_eq.1 ht
      obtain ⟨e, c', hread, harrow, hwords, huntouched⟩ :=
        reads_members (c := ⟨some t, rest⟩) (untouched_atom t) hmore
      refine ⟨e, c', .operand (Cursor.take?_eq_none ?_) (.primary_of_name hrest
        (Token.isName_of_kind hkind hfits.1) (opensNoCall_members hmore)) hread, harrow, ?_,
        huntouched⟩
      · rw [Cursor.nextIs_cons hrest]
        exact Token.not_isOneOf_of_text (hfits.1.not_mem (by decide))
      · simp [hwords, Condition.words, Expr.tokens, hkind]
  | literal kind text =>
      obtain ⟨t, rest, hrest, ht, hmore⟩ := List.map_eq_cons_iff.1 h
      obtain ⟨-, rfl, rfl⟩ := Token.spot_eq.1 ht
      have hkind : t.kind ≠ .unknown ∧ t.kind ≠ .ident := by
        rcases hfits with hkind | hkind <;> simp [hkind]
      refine ⟨.atom t, ⟨some t, rest⟩, .unary_of_primary ?_ (.primary_of_atom hrest hkind.1
        (Token.not_isName_of_kind hkind.2) (Token.not_isOneOf_of_kind hfits _))
        (AtArrow.endsSuffixes hmore), hmore, rfl, untouched_atom t⟩
      rw [Cursor.nextIs_cons hrest]
      exact Token.not_isOneOf_of_kind hfits _
  | otherwise =>
      obtain ⟨t, rest, hrest, ht, h⟩ := List.map_eq_cons_iff.1 h
      obtain ⟨-, hkind, htext⟩ := Token.spot_eq.1 ht
      refine ⟨.atom t, ⟨some t, rest⟩, .unary_of_primary ?_ (.primary_of_keyword hrest hkind ?_)
        (AtArrow.endsSuffixes h), h, ?_, untouched_atom t⟩
      · rw [Cursor.nextIs_cons hrest]
        refine Token.not_isOneOf_of_text ?_
        rw [htext]
        decide
      · rw [htext]
        decide
      · simp [Condition.words, Expr.tokens, hkind, htext]

/-- Where these words follow, an entry ends. -/
def EndsEntry (mode : Mode) (spots : List (Bool × TokenKind × String)) : Prop :=
  ∀ c : Cursor, c.rest.map Token.spot = spots →
    c.EndsOperand mode ∧ c.isAtOnLine openBrace = false

/-- The call of an entry. Its parentheses are empty, and nothing on the line behind them belongs to
it. -/
theorem reads_call {method : String} (hmethod : IsName method) {line : Bool}
    {spots : List (Bool × TokenKind × String)} (hends : EndsEntry mode spots)
    (h : c.rest.map Token.spot = lined line (callWords method) ++ spots) :
    ∃ name opening closing rest, Parser.Reads mode .unary c
        (.expr (.call (bareCall name opening closing))) ⟨some closing, rest⟩ ∧
      rest.map Token.spot = spots ∧
        words (Expr.call (bareCall name opening closing)).tokens = callWords method ∧
          name.text = method := by
  obtain ⟨name, _, hrest, hname, h⟩ := List.map_eq_cons_iff.1 h
  obtain ⟨opening, _, rfl, hopening, h⟩ := List.map_eq_cons_iff.1 h
  obtain ⟨closing, rest, rfl, hclosing, hmore⟩ := List.map_eq_cons_iff.1 h
  obtain ⟨-, hnameKind, rfl⟩ := Token.spot_eq.1 hname
  obtain ⟨hline, hopeningKind, hopeningText⟩ := Token.spot_eq.1 hopening
  obtain ⟨-, hclosingKind, hclosingText⟩ := Token.spot_eq.1 hclosing
  obtain ⟨hoperand, hbrace⟩ := hends ⟨some closing, rest⟩ hmore
  refine ⟨name, opening, closing, rest, .unary_of_primary ?_ (.primary_of_bareCall hrest
    (Token.isName_of_kind hnameKind hmethod) (Token.is_of_text (.inr hopeningKind) hopeningText)
    hline (Token.is_of_text (.inr hclosingKind) hclosingText) hbrace) hoperand.toEndsSuffixes,
    hmore, ?_, rfl⟩
  · rw [Cursor.nextIs_cons hrest]
    exact Token.not_isOneOf_of_text (hmethod.not_mem (by decide))
  · simp [bareCall, callWords, Expr.tokens, Call.tokens_mk, hnameKind, hopeningKind, hopeningText,
      hclosingKind, hclosingText, Arguments.tokens, Item.listTokens]

/-- The expression neither opens a control statement nor ends in a header. -/
structure Quiet (e : Expr) : Prop where
  opensNone : e.opensControl = false
  noElse : e.endsWithKeyword ["else"] = false
  noParen : e.isParen = false

/-- A condition has a word. -/
theorem Condition.words_ne_nil (condition : Condition) : condition.words ≠ [] := by
  cases condition <;> simp [words]

/-- Of words side by side the first starts the line, if one does. -/
theorem lined_append {list : List (TokenKind × String)} (h : list ≠ []) (line : Bool)
    (more : List (TokenKind × String)) :
    lined line (list ++ more) = lined line list ++ onLine more := by
  obtain ⟨word, list, rfl⟩ := List.exists_cons_of_ne_nil h
  simp [lined, onLine]

/-- An entry is read as an expression that lives by its call. With a condition it is a binary
expression, as an arrow is an operator there. -/
theorem reads_entry {entry : Entry} (hfits : entry.Fits) (hmethod : IsName entry.method)
    {line : Bool} {spots : List (Bool × TokenKind × String)} (hends : EndsEntry mode spots)
    (h : c.rest.map Token.spot = lined line entry.words ++ spots) :
    ∃ e c', Parser.Reads mode .expression c (.expr e) c' ∧ c'.rest.map Token.spot = spots ∧
      words e.tokens = entry.words ∧ LivesBy [entry.method] e ∧ Quiet e := by
  obtain ⟨condition, method⟩ := entry
  cases condition with
  | none =>
      obtain ⟨name, opening, closing, rest, hread, hrest, hwords, rfl⟩ :=
        reads_call hmethod hends h
      exact ⟨_, _, .expression hread (.noOperators (hends _ hrest).1), hrest, hwords,
        livesBy_bareCall name opening closing, rfl, rfl, rfl⟩
  | some condition =>
      replace h : c.rest.map Token.spot = lined line condition.words ++
          (false, .punct, "->") :: (lined false (callWords method) ++ spots) := by
        rw [h, Entry.words, lined_append condition.words_ne_nil]
        simp [onLine, callWords, lined]
      obtain ⟨left, c₁, hleft, harrow, hleftWords, huntouched⟩ :=
        reads_condition (hfits condition rfl) h
      obtain ⟨arrow, rest₁, hrest₁, harrow, hcall⟩ := List.map_eq_cons_iff.1 harrow
      obtain ⟨hline, harrowKind, harrowText⟩ := Token.spot_eq.1 harrow
      obtain ⟨name, opening, closing, rest, hread, hrest, hwords, rfl⟩ :=
        reads_call (c := ⟨some arrow, rest₁⟩) hmethod hends hcall
      refine ⟨.binary left arrow (.call (bareCall name opening closing)), ⟨some closing, rest⟩,
        .expression hleft (.binary ?_ (Cursor.take?_cons hrest₁ ?_) hread
          (.noOperators (hends _ hrest).1)), hrest, ?_,
        (livesBy_bareCall name opening closing).binary huntouched arrow, rfl, rfl, rfl⟩
      · exact Cursor.not_atStatementEnd hrest₁
          (Token.not_isOneOf_of_text (by rw [harrowText]; decide)) (.inl hline)
      · exact List.any_eq_true.2 ⟨"->", by decide, Token.is_of_text (.inr harrowKind) harrowText⟩
      · rw [Expr.tokens]
        simp [Entry.words, hleftWords, hwords, harrowKind, harrowText]

end When

end BuildPrune
