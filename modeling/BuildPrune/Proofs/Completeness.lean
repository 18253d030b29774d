import BuildPrune.Proofs.Faults

/-!
# BuildPrune.Proofs.Completeness

**The parser answers what the grammar reads** (`parse_of_reads`), the converse of `Parser.sound`.
By induction on `Reads`, a production that is to read a piece answers that piece at every depth, or
finds its depth too small (`Parser.complete`). The depth that `parse` supplies is never too small,
so a text is parsed by giving a derivation of its tokens, without looking at the parser.
-/

namespace BuildPrune

/-! ### Answers at every depth

A production answers a piece at a depth or fails there because the depth is too small. As this
holds at all depths, the answers of parts can be put together without a computation of how deep
each part has to go. -/

/-- At every depth the computation answers `a`, unless the depth is too small. -/
def Answers {α : Type} (x : Nat → Except Fault α) (a : α) : Prop :=
  ∀ n, x n = .ok a ∨ ∃ fault, x n = .error fault ∧ fault.problem = .tooDeep

namespace Answers

variable {α β : Type} {a : α} {b : β}

theorem ok : Answers (fun _ => .ok a) a :=
  fun _ => .inl rfl

/-- A production has no depth at first, and then that of the productions it calls. At depth zero it
says that the depth is too small, which is an allowed answer. -/
theorem deeper {x : Nat → Except Fault α} {c : Cursor} (hzero : x 0 = .error (c.fault .tooDeep))
    (h : Answers (fun n => x (n + 1)) a) : Answers x a := by
  intro n
  cases n with
  | zero => exact .inr ⟨_, hzero, rfl⟩
  | succ n => exact h n

/-- Two productions one after the other: if the first finds its depth too small, so does the whole;
else the second goes on from its answer. -/
theorem bind {x : Nat → Except Fault α} {f : Nat → α → Except Fault β} (hx : Answers x a)
    (hf : Answers (fun n => f n a) b) : Answers (fun n => x n >>= f n) b := by
  intro n
  show (x n >>= f n) = .ok b ∨ ∃ fault, (x n >>= f n) = .error fault ∧ fault.problem = .tooDeep
  rcases hx n with hok | ⟨fault, herror, hdeep⟩
  · rw [hok]
    exact hf n
  · rw [herror]
    exact .inr ⟨fault, rfl, hdeep⟩

/-- A step that needs no depth has one answer, and the computation goes on from there. -/
theorem after {x : Except Fault α} {f : Nat → α → Except Fault β} (hx : x = .ok a)
    (hf : Answers (fun n => f n a) b) : Answers (fun n => x >>= f n) b := by
  rw [hx]
  exact hf

/-- A part that is not there is no step. -/
theorem absent {c : Cursor} {read : Nat → Except Fault (α × Cursor)} :
    Answers (fun n => BuildPrune.optionally false (read n) c) (none, c) :=
  fun _ => .inl rfl

theorem optionally {x : Nat → Except Fault (α × Cursor)} {c c' : Cursor} (hx : Answers x (a, c')) :
    Answers (fun n => BuildPrune.optionally true (x n) c) (some a, c') := by
  have heq : ∀ n, BuildPrune.optionally true (x n) c =
      x n >>= fun read => .ok (some read.1, read.2) := by
    intro n
    cases x n <;> rfl
  simp only [heq]
  exact hx.bind .ok

/-- A production goes on behind a part that it reads only if it is `present`. The grammar says which
part was read; that the production looks for the same one is the test itself. -/
theorem optionally_bind {present : Bool} {read : Nat → Except Fault (α × Cursor)} {c : Cursor}
    {part : Option α × Cursor} {next : Nat → Option α × Cursor → Except Fault β}
    (hread : Answers (fun n => BuildPrune.optionally present (read n) c) part)
    (hnext : Answers (fun n => next n part) b) :
    Answers (fun n => if present = true then do
        let (a, c) ← read n
        let part ← pure (some a, c)
        next n part
      else do
        let part ← pure (none, c)
        next n part) b := by
  have heq : ∀ n, (if present = true then do
        let (a, c) ← read n
        let part ← pure (some a, c)
        next n part
      else do
        let part ← pure (none, c)
        next n part) = BuildPrune.optionally present (read n) c >>= next n := by
    intro n
    cases present with
    | false => rfl
    | true => cases read n <;> rfl
  simp only [heq]
  exact hread.bind hnext

end Answers

/-! ### The token at the cursor

In every rule the tests that lead to it are given, so the parser takes the same branch. What
remains is to go through the productions with the token at the cursor, and to exclude the branches
that other tokens would lead to. -/

/-- A token has one spelling. -/
theorem Token.not_is_of_is {t : Token} {text other : String} (h : t.is text = true)
    (hother : text ≠ other) : t.is other = false := by
  rw [Bool.eq_false_iff]
  intro his
  exact hother ((Token.text_of_is h).symm.trans (Token.text_of_is his))

/-- The token that opens an operand which is no name. Names are tried first, so this is what the
other tests start from. -/
theorem Cursor.exists_opener {c : Cursor} {text : String} (hnoName : c.nextIs Token.isName = false)
    (hopening : c.isAt text = true) :
    ∃ t rest, c.rest = t :: rest ∧ t.is text = true ∧ t.isName = false := by
  obtain ⟨last, tokens⟩ := c
  cases tokens with
  | nil => cases hopening
  | cons t rest => exact ⟨t, rest, rfl, hopening, hnoName⟩

namespace Parser

/-- At every depth the production answers the piece, unless the depth is too small. A piece of
another kind than that of the production is no answer. -/
def Task.Answered (mode : Mode) : Task → Cursor → Piece → Cursor → Prop
  | .statements inBlock, c, .statements out, c' =>
    Answers (fun n => Parser.statements n mode inBlock c) (out, c')
  | .statement, c, .statement out, c' => Answers (fun n => Parser.statement n mode c) (out, c')
  | .statementExpr isBody, c, .expr out, c' =>
    Answers (fun n => Parser.statementExpr n mode isBody c) (out, c')
  | .statementTail isBody head before, c, .exprs out, c' =>
    Answers (fun n => Parser.statementTail n mode isBody head before c) (out, c')
  | .commandOrExpression, c, .expr out, c' =>
    Answers (fun n => Parser.commandOrExpression n mode c) (out, c')
  | .commandChain target, c, .expr out, c' =>
    Answers (fun n => Parser.commandChain n mode target c) (out, c')
  | .commandItems, c, .items out, c' =>
    Answers (fun n => Parser.commandItems n mode c) (out, c')
  | .expression, c, .expr out, c' => Answers (fun n => Parser.expression n mode c) (out, c')
  | .expressionIf present, c, .optionalExpr out, c' =>
    Answers (fun n => optionally present (Parser.expression n mode c) c) (out, c')
  | .operators left, c, .expr out, c' => Answers (fun n => Parser.operators n mode left c) (out, c')
  | .unary, c, .expr out, c' => Answers (fun n => Parser.unary n mode c) (out, c')
  | .suffixes operand, c, .expr out, c' =>
    Answers (fun n => Parser.suffixes n mode operand c) (out, c')
  | .primary, c, .expr out, c' => Answers (fun n => Parser.primary n mode c) (out, c')
  | .parenthesized, c, .expr out, c' => Answers (fun n => Parser.parenthesized n mode c) (out, c')
  | .sequence stops, c, .expr out, c' => Answers (fun n => Parser.sequence n mode stops c) (out, c')
  | .sequenceTail stops, c, .exprs out, c' =>
    Answers (fun n => Parser.sequenceTail n mode stops c) (out, c')
  | .callParts, c, .parts out, c' => Answers (fun n => Parser.callParts n mode c) (out, c')
  | .arguments, c, .arguments (some out), c' =>
    Answers (fun n => Parser.arguments n mode c) (out, c')
  | .argumentsIf present, c, .arguments out, c' =>
    Answers (fun n => optionally present (Parser.arguments n mode c) c) (out, c')
  | .brackets, c, .brackets out, c' => Answers (fun n => Parser.brackets n mode c) (out, c')
  | .items close, c, .items out, c' => Answers (fun n => Parser.items n mode close c) (out, c')
  | .lambda, c, .lambda (some out), c' => Answers (fun n => Parser.lambda n mode c) (out, c')
  | .lambdaIf present, c, .lambda out, c' =>
    Answers (fun n => optionally present (Parser.lambda n mode c) c) (out, c')
  | .annotated, c, .expr out, c' => Answers (fun n => Parser.annotated n mode c) (out, c')
  | _, _, _, _ => False

section Primary

variable {mode : Mode} {c : Cursor} (n : Nat)

/-- The tests of an operand in the order in which the parser makes them, each with what the tests
before it have excluded: a name, -/
theorem primary_name {t : Token} {rest : List Token} (h : c.rest = t :: rest)
    (hname : t.isName = true) : Parser.primary (n + 1) mode c = do
      let (parts, c) ← Parser.callParts n mode ⟨some t, rest⟩
      if parts.isEmpty then return (.atom t, c)
      else return (parts.call none t .regular, c) := by
  simp [Parser.primary, h, (Token.IsPlain.of_isName hname).1, hname]

/-- a block, -/
theorem primary_lambda (hnoName : c.nextIs Token.isName = false) (h : c.isAt openBrace = true) :
    Parser.primary (n + 1) mode c = do
      let (lambda, c) ← Parser.lambda n mode c
      return (.lambda lambda, c) := by
  obtain ⟨t, rest, hhere, his, hplain⟩ := Cursor.exists_opener hnoName h
  simp [Parser.primary, hhere, Token.known_of_is his, hplain, his,
    Token.not_isCloser_of_is his (by decide)]

/-- a group in parentheses, -/
theorem primary_parenthesized (hnoName : c.nextIs Token.isName = false) (h : c.isAt "(" = true) :
    Parser.primary (n + 1) mode c = Parser.parenthesized n mode c := by
  obtain ⟨t, rest, hhere, his, hplain⟩ := Cursor.exists_opener hnoName h
  simp [Parser.primary, hhere, Token.known_of_is his, hplain, his,
    Token.not_isCloser_of_is his (by decide),
    Token.not_is_of_is his (show _ ≠ openBrace by decide)]

/-- a list, -/
theorem primary_brackets (hnoName : c.nextIs Token.isName = false) (h : c.isAt "[" = true) :
    Parser.primary (n + 1) mode c = do
      let (brackets, c) ← Parser.brackets n mode c
      return (.list brackets, c) := by
  obtain ⟨t, rest, hhere, his, hplain⟩ := Cursor.exists_opener hnoName h
  simp [Parser.primary, hhere, Token.known_of_is his, hplain, his,
    Token.not_isCloser_of_is his (by decide),
    Token.not_is_of_is his (show _ ≠ openBrace by decide),
    Token.not_is_of_is his (show _ ≠ "(" by decide)]

/-- an annotation, -/
theorem primary_annotated (hnoName : c.nextIs Token.isName = false)
    (h : c.atAnnotated mode = true) :
    Parser.primary (n + 1) mode c = Parser.annotated n mode c := by
  have hmarker := h
  simp only [Cursor.atAnnotated, Bool.and_eq_true] at hmarker
  obtain ⟨t, rest, hhere, his, hplain⟩ := Cursor.exists_opener hnoName hmarker.1.1
  simp [Parser.primary, hhere, Token.known_of_is his, hplain, h,
    Token.not_isCloser_of_is his (by decide),
    Token.not_is_of_is his (show _ ≠ openBrace by decide),
    Token.not_is_of_is his (show _ ≠ "(" by decide),
    Token.not_is_of_is his (show _ ≠ "[" by decide)]

/-- and a token that stands for itself, which no other test was for. -/
theorem primary_atom {t : Token} {rest : List Token} (h : c.rest = t :: rest)
    (hknown : t.kind ≠ .unknown) (hnoName : t.isName = false) (hnoCloser : t.isCloser = false)
    (hnoOpener : t.isOneOf [openBrace, "(", "["] = false)
    (hnoMarker : c.atAnnotated mode = false) :
    Parser.primary (n + 1) mode c = .ok (.atom t, ⟨some t, rest⟩) := by
  have hother := by simpa [Token.isOneOf] using hnoOpener
  simp [Parser.primary, h, hknown, hnoName, hnoCloser, hother, hnoMarker]

end Primary

/-- A production answers what it reads by the grammar. The induction is on `Reads`: each rule names
the tests that lead to it, and these are rewritten one after the other in the production. -/
theorem complete {mode : Mode} {task : Task} {c c' : Cursor} {piece : Piece}
    (h : Reads mode task c piece c') : task.Answered mode c piece c' := by
  -- Each production spends one depth itself (`deeper`) and leaves the rest to the ones it calls.
  induction h with
  | blockEnd hclose =>
      refine .deeper rfl ?_
      simp only [Parser.statements, hclose]
      exact .ok
  | textEnd hdone =>
      refine .deeper rfl ?_
      simp only [Parser.statements, hdone]
      exact .ok
  | nextStatement hopen hleft _ _ ihfirst ihmore =>
      refine .deeper rfl ?_
      simp [Parser.statements, hopen, hleft]
      exact ihfirst.bind (ihmore.bind .ok)
  | emptyStatement hread =>
      refine .deeper rfl ?_
      simp only [Parser.statement, hread]
      exact .ok
  | importStatement hfull hstarts hread =>
      refine .deeper rfl ?_
      simp only [Parser.statement, hfull, hstarts, hread]
      exact .ok
  | exprStatement hfull hplain _ hend ihexpr =>
      refine .deeper rfl ?_
      simp only [Parser.statement, hfull, hplain]
      refine ihexpr.bind ?_
      simp only [hend]
      exact .ok
  | statementExpr _ _ ihhead ihtail =>
      refine .deeper rfl ?_
      simp only [Parser.statementExpr]
      exact ihhead.bind (ihtail.bind .ok)
  | tailElse hother =>
      refine .deeper rfl ?_
      simp only [Parser.statementTail, hother]
      exact .ok
  | tailNext hown hgoes _ _ ihexpr ihtail =>
      refine .deeper rfl ?_
      simp only [Parser.statementTail, hown, hgoes]
      exact ihexpr.bind ihtail
  | tailBody hown hends hheader hdetached _ _ ihbody ihtail =>
      refine .deeper rfl ?_
      simp only [Parser.statementTail, hown, hends, hheader, hdetached]
      exact ihbody.bind ihtail
  | tailEnd hown hends hcomplete =>
      refine .deeper rfl ?_
      simp only [Parser.statementTail, hown, hends, hcomplete]
      exact .ok
  | plainExpression hcaps _ ihexpr =>
      refine .deeper rfl ?_
      simp only [Parser.commandOrExpression, hcaps]
      exact ihexpr
  | command hcaps hstarts hname _ _ ihitems ihchain =>
      refine .deeper rfl ?_
      simp only [Parser.commandOrExpression, hcaps, hstarts, hname]
      exact ihitems.bind ihchain
  | memberCommand hcaps hplain _ hstarts _ _ ihmember ihitems ihchain =>
      refine .deeper rfl ?_
      simp only [Parser.commandOrExpression, hcaps, hplain]
      refine ihmember.bind ?_
      simp only [hstarts]
      exact ihitems.bind ihchain
  | callCommand hcaps hplain _ _ ihcall ihchain =>
      refine .deeper rfl ?_
      simp only [Parser.commandOrExpression, hcaps, hplain]
      exact ihcall.bind ihchain
  | @noCommand _ _ _ expr hcaps hplain _ hends ihexpr =>
      refine .deeper rfl ?_
      simp only [Parser.commandOrExpression, hcaps, hplain]
      refine ihexpr.bind ?_
      cases expr with
      | field target dot name =>
          have hstays := eq_false_of_ne_true (by simpa [endsCommand] using hends)
          simp only [hstays]
          exact .ok
      | call call => cases hends
      | _ => exact .ok
  | chainCall hlink hname hopening _ _ ihparts ihchain =>
      refine .deeper rfl ?_
      simp only [Parser.commandChain, hlink]
      refine .after hname ?_
      simp only [hopening]
      exact ihparts.bind ihchain
  | chainCommand hlink hname hbare _ _ ihitems ihchain =>
      refine .deeper rfl ?_
      simp only [Parser.commandChain, hlink]
      refine .after hname ?_
      simp only [hbare]
      exact ihitems.bind ihchain
  | chainEnd hends =>
      refine .deeper rfl ?_
      simp only [Parser.commandChain, hends]
      exact .ok
  | lastCommandItem _ hends ihexpr =>
      refine .deeper rfl ?_
      simp only [Parser.commandItems]
      refine ihexpr.bind ?_
      simp only [hends]
      exact .ok
  | nextCommandItem _ hcomma _ ihexpr ihmore =>
      refine .deeper rfl ?_
      simp only [Parser.commandItems]
      refine ihexpr.bind ?_
      simp only [hcomma]
      exact ihmore.bind .ok
  | expression _ _ ihleft ihoperators =>
      refine .deeper rfl ?_
      simp only [Parser.expression]
      exact ihleft.bind ihoperators
  | noExpression | noArguments | noLambda => exact .absent
  | someExpression _ ih => exact ih.optionally
  | operatorsEnd hends =>
      refine .deeper rfl ?_
      simp only [Parser.operators, hends]
      exact .ok
  | binary hgoes hop _ _ ihright ihoperators =>
      refine .deeper rfl ?_
      simp only [Parser.operators, hgoes, hop]
      exact ihright.bind ihoperators
  | infixed hgoes hnoOp hstarts hname _ _ ihright ihoperators =>
      refine .deeper rfl ?_
      simp only [Parser.operators, hgoes, hnoOp, hstarts, hname]
      exact ihright.bind ihoperators
  | operatorsStop hgoes hnoOp hnoCall =>
      refine .deeper rfl ?_
      simp only [Parser.operators, hgoes, hnoOp, hnoCall]
      exact .ok
  | prefixed hop _ ihoperand =>
      refine .deeper rfl ?_
      simp only [Parser.unary, hop]
      exact ihoperand.bind .ok
  | operand hnoOp _ _ ihprimary ihsuffixes =>
      refine .deeper rfl ?_
      simp only [Parser.unary, hnoOp]
      exact ihprimary.bind ihsuffixes
  | member hdot hname _ hbare _ ihparts ihsuffixes =>
      refine .deeper rfl ?_
      simp only [Parser.suffixes, hdot, hname]
      refine ihparts.bind ?_
      simp only [hbare]
      exact ihsuffixes
  | memberCall hdot hname _ hsome _ ihparts ihsuffixes =>
      refine .deeper rfl ?_
      simp only [Parser.suffixes, hdot, hname]
      refine ihparts.bind ?_
      simp only [hsome]
      exact ihsuffixes
  | index hnoDot hopening _ _ ihbrackets ihsuffixes =>
      refine .deeper rfl ?_
      simp only [Parser.suffixes, hnoDot, hopening]
      exact ihbrackets.bind ihsuffixes
  | postfixed hnoDot hnoIndex hop _ ihsuffixes =>
      refine .deeper rfl ?_
      simp only [Parser.suffixes, hnoDot, hnoIndex, hop]
      exact ihsuffixes
  | suffixesEnd hnoDot hnoIndex hnoOp =>
      refine .deeper rfl ?_
      simp only [Parser.suffixes, hnoDot, hnoIndex, hnoOp]
      exact .ok
  | name hhere hisName _ hbare ihparts =>
      refine .deeper rfl ?_
      simp only [primary_name _ hhere hisName]
      refine ihparts.bind ?_
      simp only [hbare]
      exact .ok
  | call hhere hisName _ hsome ihparts =>
      refine .deeper rfl ?_
      simp only [primary_name _ hhere hisName]
      refine ihparts.bind ?_
      simp only [hsome]
      exact .ok
  | lambdaExpr hnoName hopening _ ih =>
      refine .deeper rfl ?_
      simp only [primary_lambda _ hnoName hopening]
      exact ih.bind .ok
  | group hnoName hopening _ ih =>
      refine .deeper rfl ?_
      simp only [primary_parenthesized _ hnoName hopening]
      exact ih
  | list hnoName hopening _ ih =>
      refine .deeper rfl ?_
      simp only [primary_brackets _ hnoName hopening]
      exact ih.bind .ok
  | annotatedExpr hnoName hopening _ ih =>
      refine .deeper rfl ?_
      simp only [primary_annotated _ hnoName hopening]
      exact ih
  | atom hhere hknown hnoName hnoCloser hnoOpener hnoMarker =>
      refine .deeper rfl ?_
      simp only [primary_atom _ hhere hknown hnoName hnoCloser hnoOpener hnoMarker]
      exact .ok
  | emptyParens hopening hclosing =>
      refine .deeper rfl ?_
      simp only [Parser.parenthesized]
      refine .after hopening ?_
      simp only [hclosing]
      exact .ok
  | parens hopening hfull _ hclosing ihinner =>
      refine .deeper rfl ?_
      simp only [Parser.parenthesized]
      refine .after hopening ?_
      simp only [hfull]
      exact ihinner.bind (.after hclosing .ok)
  | sequence _ _ ihhead ihtail =>
      refine .deeper rfl ?_
      simp only [Parser.sequence]
      exact ihhead.bind (ihtail.bind .ok)
  | sequenceEnd hends =>
      refine .deeper rfl ?_
      simp only [Parser.sequenceTail, hends]
      exact .ok
  | sequenceNext hgoes _ _ ihfirst ihmore =>
      refine .deeper rfl ?_
      simp only [Parser.sequenceTail, hgoes]
      exact ihfirst.bind (ihmore.bind .ok)
  | callParts htypes _ _ ihargs ihlambda =>
      refine .deeper rfl ?_
      simp only [Parser.callParts, htypes]
      exact ihargs.optionally_bind (ihlambda.optionally_bind .ok)
  | arguments hopening _ hclosing ihitems =>
      refine .deeper rfl ?_
      simp only [Parser.arguments]
      exact .after hopening (ihitems.bind (.after hclosing .ok))
  | @someArguments _ _ _ args _ ih =>
      cases args with
      | none => exact ih.elim
      | some args => exact ih.optionally
  | brackets hopening _ hclosing ihitems =>
      refine .deeper rfl ?_
      simp only [Parser.brackets]
      exact .after hopening (ihitems.bind (.after hclosing .ok))
  | itemsEnd hends =>
      refine .deeper rfl ?_
      simp only [Parser.items, hends]
      exact .ok
  | lastItem hgoes _ hends ihexpr =>
      refine .deeper rfl ?_
      simp only [Parser.items, hgoes]
      refine ihexpr.bind ?_
      simp only [hends]
      exact .ok
  | nextItem hgoes _ hcomma _ ihexpr ihmore =>
      refine .deeper rfl ?_
      simp only [Parser.items, hgoes]
      refine ihexpr.bind ?_
      simp only [hcomma]
      exact ihmore.bind .ok
  | lambda hopening hparams _ hclosing ihbody =>
      refine .deeper rfl ?_
      simp only [Parser.lambda]
      refine .after hopening ?_
      simp only [hparams]
      exact ihbody.bind (.after hclosing .ok)
  | @someLambda _ _ _ lambda _ ih =>
      cases lambda with
      | none => exact ih.elim
      | some lambda => exact ih.optionally
  | annotated hmarker hname hpath _ _ ihargs ihexpr =>
      refine .deeper rfl ?_
      simp only [Parser.annotated]
      refine .after hmarker (.after hname ?_)
      simp only [hpath]
      exact ihargs.optionally_bind (ihexpr.optionally_bind .ok)

end Parser

/-! ### Texts -/

/-- A text whose tokens the grammar reads to the end is a script. That the depth suffices is known
from `explains_of_parse`: whatever an error of `parse` is about, it is not the depth. -/
theorem parse_of_reads {source : String} {dialect : Dialect} {statements : List Statement}
    {c : Cursor}
    (h : Parser.Reads ⟨dialect.capabilities, true⟩ (.statements false)
      ⟨none, (lex source).tokens⟩ (.statements statements) c) :
    parse source dialect = .ok ⟨dialect, statements, (lex source).eof⟩ := by
  have hanswers := Parser.complete h (Parser.depthFor (lex source).tokens.length)
  cases hparse : parse source dialect with
  | ok script =>
      unfold parse at hparse
      rcases hanswers with hok | ⟨fault, herror, -⟩
      · simpa [hok] using hparse.symm
      · simp [herror] at hparse
  | error error =>
      -- The depth is never the problem.
      obtain ⟨-, _, _, _, hfits⟩ := explains_of_parse hparse
      unfold parse at hparse
      rcases hanswers with hok | ⟨fault, herror, hdeep⟩
      · simp [hok] at hparse
      · simp only [herror] at hparse
        cases hparse
        simp [hdeep, Problem.Fits] at hfits

end BuildPrune
