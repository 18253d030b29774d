import BuildPrune.Proofs.ControlPrograms
import BuildPrune.Proofs.Operands

/-!
# BuildPrune.Proofs.DanglingElses

**Which `if` a brace-less `else` goes to** (`parse_control`). A program is read as one statement
with its greedy nesting, in either dialect. So it is nested as it is written exactly if a call
stands in front of each `else`: an inner `if` that has its own `else` already takes the next one as
well.

The chains of a program are followed from the last to the first. An `if` reads all `else`s behind it
with their chains (`Chain.ReadsElses`); from this a chain is read header by header
(`Chain.reads_chain`), and what it leaves is up to the `if` in front of it.
-/

namespace BuildPrune

/-! ### Headers and bodies

The body of a header ends where an operand ends, or in front of an `else` that it does not take.
From the last chain to the first, each `if` reads all that is behind it, and this is what the
parser makes of the program. -/

/-- What follows a body: nothing, or an `else` on a line of its own. -/
def EndsBody (rest : List Token) : Prop :=
  ∀ t ∈ rest.head?, t.lexeme = (Token.word "\n" "else").lexeme

variable {mode : Mode} {c c' : Cursor}

theorem EndsBody.endsOperand (h : EndsBody c.rest) : c.EndsOperand mode := by
  cases hrest : c.rest with
  | nil => exact Cursor.endsOperand_nil hrest
  | cons t rest =>
      rw [hrest] at h
      obtain ⟨hleading, hkind, htext⟩ := Token.lexeme_eq_word.1 (h t rfl)
      refine Cursor.endsOperand_of_text hrest ?_ (Token.not_isName_of_keyword hkind ?_) <;>
        rw [htext] <;> decide

namespace Parser.Reads

variable {keyword opening condition closing : Token} {rest : List Token}

/-- A header with a body on the next line: the keyword, the condition in parentheses, and a body
that is read as one. The tail of the statement goes on behind the body. -/
theorem header {isBody : Bool} {t : Token} {body : Expr} {tail : List Expr} {c₁ c₂ : Cursor}
    {leading name : String} (hmode : mode.lineSensitive = true)
    (h : c.rest = keyword :: opening :: condition :: closing :: t :: rest)
    (hkeyword : keyword.lexeme = (Token.word leading "if").lexeme)
    (hopening : opening.lexeme = (Token.mark " " "(").lexeme)
    (hcondition : condition.lexeme = (Token.word "" name).lexeme) (hname : IsName name)
    (hclosing : closing.lexeme = (Token.mark "" ")").lexeme) (ht : t.StartsBody)
    (hbody : Reads mode (.statementExpr true) ⟨some closing, t :: rest⟩ (.expr body) c₁)
    (htail : Reads mode (.statementTail isBody (.atom keyword)
      [.paren opening (.atom condition) closing, body]) c₁
      (.exprs (.paren opening (.atom condition) closing :: body :: tail)) c₂) :
    Reads mode (.statementExpr isBody) c
      (.expr (.sequence (.atom keyword) (.paren opening (.atom condition) closing :: body :: tail)))
      c₂ := by
  obtain ⟨-, hifKind, hifText⟩ := Token.lexeme_eq_word.1 hkeyword
  obtain ⟨hlead, hopeningKind, hopeningText⟩ := Token.lexeme_eq_mark.1 hopening
  obtain ⟨-, hnameKind, rfl⟩ := Token.lexeme_eq_word.1 hcondition
  obtain ⟨-, hclosingKind, hclosingText⟩ := Token.lexeme_eq_mark.1 hclosing
  have hhead : Reads mode .commandOrExpression c (.expr (.atom keyword))
      ⟨some keyword, opening :: condition :: closing :: t :: rest⟩ := by
    refine command_of_keyword h hifKind (by rw [hifText]; decide)
      (Cursor.endsOperand_of_text rfl ?_ (Token.not_isName_of_kind (by simp [hopeningKind])))
    rw [hopeningText]
    decide
  have hparen : Reads mode .commandOrExpression
      ⟨some keyword, opening :: condition :: closing :: t :: rest⟩
      (.expr (.paren opening (.atom condition) closing)) ⟨some closing, t :: rest⟩ := by
    exact command_of_parenName rfl hopeningKind hopeningText
      (Token.isName_of_kind hnameKind hname) (hname.not_mem (by decide))
      (Token.is_of_text (.inr hclosingKind) hclosingText)
      (Cursor.endsOperand_of_startsBody hmode rfl ht)
  have hrest : Reads mode
      (.statementTail isBody (.atom keyword) [.paren opening (.atom condition) closing])
      ⟨some closing, t :: rest⟩ (.exprs (.paren opening (.atom condition) closing :: body :: tail))
      c₂ := by
    refine .tailBody ?_ (Cursor.atStatementEnd_of_startsBody hmode rfl ht) ?_
      (Cursor.atDetachedBody_of_startsBody rfl ht) hbody htail
    · rw [Cursor.not_isAt_of_startsBody (by decide) rfl ht, Bool.and_false, Bool.false_and]
    · simp [endsControlHeader, Expr.endsWithKeyword, Expr.isParen, Token.isIdent, hifKind, hifText]
  refine .statementExpr hhead (.tailNext ?_ ?_ hparen hrest)
  · have hother : opening.is "else" = false :=
      Token.not_is_of_text (by rw [hopeningText]; decide)
    rw [Cursor.isAt, Cursor.nextIs_cons rfl, hother, Bool.and_false, Bool.false_and]
  · refine Cursor.not_atStatementEnd rfl (Token.not_isOneOf_of_text ?_) (.inl ?_)
    · rw [hopeningText]
      decide
    · rw [Token.startsLine, hlead]
      decide

/-- An `else` with a body on the next line. The statement that it is read into opens with `if`, and
so does not end in front of it, also as the body of another header. -/
theorem elseBody {isBody : Bool} {other t : Token} {before tail : List Expr} {body : Expr}
    {c₁ c₂ : Cursor} (hmode : mode.lineSensitive = true) (hif : keyword.is "if" = true)
    (h : c.rest = other :: t :: rest)
    (hother : other.lexeme = (Token.word "\n" "else").lexeme) (ht : t.StartsBody)
    (hbody : Reads mode (.statementExpr true) ⟨some other, t :: rest⟩ (.expr body) c₁)
    (htail : Reads mode (.statementTail isBody (.atom keyword) (before ++ [.atom other] ++ [body]))
      c₁ (.exprs (before ++ .atom other :: body :: tail)) c₂) :
    Reads mode (.statementTail isBody (.atom keyword) before) c
      (.exprs (before ++ .atom other :: body :: tail)) c₂ := by
  obtain ⟨-, hkind, htext⟩ := Token.lexeme_eq_word.1 hother
  have hhead : Reads mode .commandOrExpression c (.expr (.atom other))
      ⟨some other, t :: rest⟩ :=
    command_of_keyword h hkind (by rw [htext]; decide)
      (Cursor.endsOperand_of_startsBody hmode rfl ht)
  have hrest : Reads mode (.statementTail isBody (.atom keyword) (before ++ [.atom other]))
      ⟨some other, t :: rest⟩ (.exprs (before ++ .atom other :: body :: tail)) c₂ := by
    refine .tailBody ?_ (Cursor.atStatementEnd_of_startsBody hmode rfl ht) ?_
      (Cursor.atDetachedBody_of_startsBody rfl ht) hbody htail
    · rw [Cursor.not_isAt_of_startsBody (by decide) rfl ht, Bool.and_false, Bool.false_and]
    · simp [endsControlHeader, Expr.endsWithKeyword, Token.isIdent, hkind, htext]
  refine .tailNext ?_ ?_ hhead hrest
  · rw [Expr.isAtom, hif, Bool.not_true, Bool.and_false]
  · refine Cursor.not_atStatementEnd h (Token.not_isOneOf_of_text ?_) (.inr ?_)
    · rw [htext]
      decide
    · exact List.any_eq_true.2 ⟨"else", by decide, Token.is_of_text (.inl hkind) htext⟩

/-- A call that ends a body. What follows is an `else` on a line of its own, or nothing. -/
theorem callBody {name opening closing : Token} {leading text : String}
    (h : c.rest = name :: opening :: closing :: rest)
    (hname : name.lexeme = (Token.word leading text).lexeme) (htext : IsName text)
    (hopening : opening.lexeme = (Token.mark "" "(").lexeme)
    (hclosing : closing.lexeme = (Token.mark "" ")").lexeme) (hends : EndsBody rest) :
    Reads mode .commandOrExpression c
      (.expr (.call ⟨none, name, none, some ⟨some opening, [], some closing⟩, none, .regular⟩))
      ⟨some closing, rest⟩ := by
  obtain ⟨-, hnameKind, rfl⟩ := Token.lexeme_eq_word.1 hname
  obtain ⟨hlead, hopeningKind, hopeningText⟩ := Token.lexeme_eq_mark.1 hopening
  obtain ⟨-, hclosingKind, hclosingText⟩ := Token.lexeme_eq_mark.1 hclosing
  -- Neither a block nor a further link follows the call on its line or on the next.
  have hbare : Cursor.isAtOnLine ⟨some closing, rest⟩ openBrace = false ∧
      Cursor.atChainLink ⟨some closing, rest⟩ = false := by
    cases rest with
    | nil => exact ⟨rfl, rfl⟩
    | cons t rest =>
        obtain ⟨hlead, hkind, helse⟩ := Token.lexeme_eq_word.1 (hends t rfl)
        have hline : t.startsLine = true := by
          rw [Token.startsLine, hlead]
          decide
        rw [Cursor.isAtOnLine, Cursor.atChainLink, Cursor.nextIs_cons rfl, Cursor.nextIs_cons rfl,
          hline]
        simp
  have hplain : c.atCommand = false := by
    have hsecond : c.second = some opening := by simp [Cursor.second, h]
    have hnoOperand : opening.startsOperand = false := by
      rw [Token.startsOperand, hopeningKind]
    simp [Cursor.atCommand, Cursor.secondIs, hsecond, Cursor.startsArgument, hnoOperand]
  refine command_of_call hplain (expression_of_primary ?_ ?_
    (EndsBody.endsOperand (c := ⟨some closing, rest⟩) hends)) hbare.2
  · rw [Cursor.nextIs_cons h]
    exact Token.not_isOneOf_of_text (htext.not_mem (by decide))
  · refine primary_of_bareCall h (Token.isName_of_kind hnameKind htext)
      (Token.is_of_text (.inr hopeningKind) hopeningText) ?_
      (Token.is_of_text (.inr hclosingKind) hclosingText) hbare.1
    rw [Token.startsLine, hlead]
    decide

/-- Behind a call a body ends, and so does a statement at the end of the text. -/
theorem callEnd {isBody : Bool} {call : Call} (h : EndsBody c.rest)
    (hleft : isBody = true ∨ c.rest = []) :
    Reads mode (.statementTail isBody (.call call) []) c (.exprs []) c := by
  -- Only an `else` can follow, and that does not belong to a call.
  cases hrest : c.rest with
  | nil =>
      refine .tailEnd ?_ ?_ rfl <;>
        simp [Cursor.isAt, Cursor.atStatementEnd, Cursor.nextIs, Cursor.next, hrest]
  | cons t rest =>
      rw [hrest] at h hleft
      obtain ⟨-, hkind, htext⟩ := Token.lexeme_eq_word.1 (h t rfl)
      refine .tailElse ?_
      rw [hleft.resolve_right (List.cons_ne_nil t rest), Cursor.isAt, Cursor.nextIs_cons hrest,
        Token.is_of_text (.inl hkind) htext]
      rfl

end Parser.Reads

namespace Chain

/-- The first token of a chain starts a body: it is `if` or a name, and it starts a line. -/
theorem exists_startsBody {conditions : List String} {name : String} (hname : IsName name)
    {tokens more : List Token}
    (h : tokens.map Token.lexeme = (tokensOf "\n" conditions name ++ more).map Token.lexeme) :
    ∃ t rest, tokens = t :: rest ∧ t.StartsBody := by
  have hword : ∀ {t : Token} {text : String}, t.lexeme = (Token.word "\n" text).lexeme →
      text ∉ nonStartingTexts → t.StartsBody := by
    intro t text ht htext
    obtain ⟨hlead, -, rfl⟩ := Token.lexeme_eq_word.1 ht
    refine ⟨?_, Token.not_isOneOf_of_text htext⟩
    rw [Token.startsLine, hlead]
    decide
  cases conditions with
  | nil =>
      obtain ⟨t, rest, rfl, ht, -⟩ := List.map_eq_cons_iff.1 h
      exact ⟨t, rest, rfl, hword ht (hname.not_mem (by decide))⟩
  | cons condition conditions =>
      obtain ⟨t, rest, rfl, ht, -⟩ := List.map_eq_cons_iff.1 h
      exact ⟨t, rest, rfl, hword ht (by decide)⟩

/-- An `if` reads all `else`s that follow it, with their chains. It is stated for any `if` and any
cursor in front of these `else`s, since the chain in front of them is not yet known. -/
def ReadsElses (mode : Mode) (more : List Chain) : Prop :=
  ∀ (c : Cursor) (isBody : Bool) (keyword : Token) (before : List Expr), keyword.is "if" = true →
    c.rest.map Token.lexeme = (elseTokens more).map Token.lexeme →
    ∃ tail c', Parser.Reads mode (.statementTail isBody (.atom keyword) before) c
        (.exprs (before ++ tail)) c' ∧ c'.rest = [] ∧ Expr.elses? tail = some (nestings more)

/-- Where chains behind `else`s follow, a body ends. -/
theorem endsBody_elseTokens {more : List Chain} {rest : List Token}
    (h : rest.map Token.lexeme = (elseTokens more).map Token.lexeme) : EndsBody rest := by
  cases more with
  | nil =>
      rw [List.map_eq_nil_iff.1 h]
      simp [EndsBody]
  | cons chain more =>
      obtain ⟨t, rest, rfl, ht, -⟩ := List.map_eq_cons_iff.1 h
      intro t' ht'
      obtain rfl : t = t' := by simpa using ht'
      exact ht

theorem readsElses_nil {mode : Mode} : ReadsElses mode [] := by
  intro c isBody keyword before hif h
  have hrest := List.map_eq_nil_iff.1 h
  refine ⟨[], c, ?_, hrest, rfl⟩
  rw [List.append_nil]
  refine .tailEnd ?_ ?_ ?_ <;>
    simp [Cursor.isAt, Cursor.atStatementEnd, Cursor.atDetachedBody, Cursor.nextIs, Cursor.next,
      hrest]

/-- A chain leaves all `else`s or none, so an `if` reads what it leaves. -/
theorem ReadsElses.left {mode : Mode} {more : List Chain} (h : ReadsElses mode more)
    (conditions : List String) : ReadsElses mode (left more conditions) := by
  cases conditions with
  | nil => exact h
  | cons => exact readsElses_nil

/-- A chain is read as its nesting and leaves what it does not take. The induction is on the
headers: the body of a header is the rest of its chain, which takes the `else`s first. -/
theorem reads_chain {mode : Mode} (hmode : mode.lineSensitive = true) {more : List Chain}
    (helses : ReadsElses mode more) {conditions : List String}
    {name : String} (hconditions : ∀ condition ∈ conditions, IsName condition) (hname : IsName name)
    {leading : String} (isBody : Bool) {c : Cursor}
    (hleft : isBody = true ∨ left more conditions = [])
    (h : c.rest.map Token.lexeme =
      (tokensOf leading conditions name ++ elseTokens more).map Token.lexeme) :
    ∃ e c', Parser.Reads mode (.statementExpr isBody) c (.expr e) c' ∧
      c'.rest.map Token.lexeme = (elseTokens (left more conditions)).map Token.lexeme ∧
        e.nesting? = some (nestingOf (nestings more) conditions name) := by
  -- The body of an `if` is the rest of the chain, and takes the `else`s that it can take.
  induction conditions generalizing leading isBody c with
  | nil =>
      obtain ⟨t, _, hrest, ht, h⟩ := List.map_eq_cons_iff.1 h
      obtain ⟨opening, _, rfl, hopening, h⟩ := List.map_eq_cons_iff.1 h
      obtain ⟨closing, rest, rfl, hclosing, h⟩ := List.map_eq_cons_iff.1 h
      have hends := endsBody_elseTokens h
      have hlast : isBody = true ∨ rest = [] := by
        refine hleft.imp_right fun hmore => List.map_eq_nil_iff.1 (h.trans ?_)
        rw [show more = [] from hmore]
        rfl
      refine ⟨_, ⟨some closing, rest⟩, .statementExpr
        (.callBody hrest ht hname hopening hclosing hends) (.callEnd hends hlast), h, ?_⟩
      show Expr.nesting? (.call ⟨none, t, none, some ⟨some opening, [], some closing⟩, none,
        .regular⟩) = _
      rw [Expr.nesting?, (Token.lexeme_eq_word.1 ht).2.2]
      rfl
  | cons condition conditions ih =>
      obtain ⟨keyword, _, hrest, hkeyword, h⟩ := List.map_eq_cons_iff.1 h
      obtain ⟨opening, _, rfl, hopening, h⟩ := List.map_eq_cons_iff.1 h
      obtain ⟨token, _, rfl, htoken, h⟩ := List.map_eq_cons_iff.1 h
      obtain ⟨closing, rest, rfl, hclosing, h⟩ := List.map_eq_cons_iff.1 h
      obtain ⟨hcondition, hconditions⟩ := List.forall_mem_cons.1 hconditions
      obtain ⟨t, rest, rfl, ht⟩ := exists_startsBody hname h
      obtain ⟨-, hkind, htext⟩ := Token.lexeme_eq_word.1 hkeyword
      have hif : keyword.is "if" = true := Token.is_of_text (.inl hkind) htext
      obtain ⟨body, c₁, hbody, hrest₁, hnesting⟩ :=
        ih (c := ⟨some closing, t :: rest⟩) hconditions true (.inl rfl) h
      obtain ⟨tail, c₂, htail, hrest₂, helses⟩ := helses.left conditions c₁ isBody keyword
        [.paren opening (.atom token) closing, body] hif hrest₁
      refine ⟨.sequence (.atom keyword) (.paren opening (.atom token) closing :: body :: tail), c₂,
        .header hmode hrest hkeyword hopening htoken hcondition hclosing ht hbody htail, ?_, ?_⟩
      · rw [hrest₂]
        rfl
      · rw [Expr.nesting?, if_pos hif, hnesting, helses, nestingOf_cons,
          (Token.lexeme_eq_word.1 htoken).2.2]
        rfl

/-- Every `if` reads all `else`s that follow it. The induction is on the chains behind it, and each
of them is read with those that follow it. -/
theorem readsElses {mode : Mode} (hmode : mode.lineSensitive = true) {more : List Chain}
    (hnamed : ∀ chain ∈ more, chain.Named) : ReadsElses mode more := by
  induction more with
  | nil => exact readsElses_nil
  | cons chain more ih =>
      obtain ⟨⟨hconditions, hname⟩, hmore⟩ := List.forall_mem_cons.1 hnamed
      intro c isBody keyword before hif h
      obtain ⟨t, rest, hrest, ht, h⟩ := List.map_eq_cons_iff.1 h
      obtain ⟨first, rest, rfl, hfirst⟩ := exists_startsBody hname h
      obtain ⟨body, c₁, hbody, hrest₁, hnesting⟩ := reads_chain (c := ⟨some t, first :: rest⟩) hmode
        (ih hmore) hconditions hname true (.inl rfl) h
      obtain ⟨tail, c₂, htail, hrest₂, helses⟩ := (ih hmore).left chain.conditions c₁ isBody keyword
        (before ++ [.atom t] ++ [body]) hif hrest₁
      refine ⟨.atom t :: body :: tail, c₂, ?_, hrest₂, ?_⟩
      · exact .elseBody hmode hif hrest ht hfirst hbody (by simpa using htail)
      · obtain ⟨-, hkind, htext⟩ := Token.lexeme_eq_word.1 ht
        rw [Expr.elses?, if_pos (Token.is_of_text (.inl hkind) htext), hnesting, helses,
          nestings_cons]
        rfl

end Chain

namespace Control

/-- A program is read as one statement, in which a body that opens with `if` takes every `else`
behind it. The text is given to the parser by its tokens and a derivation of the grammar
(`parse_of_reads`). -/
theorem parse_text {program : Control} (h : program.Named) (dialect : Dialect) :
    ∃ e, parse program.text dialect = .ok ⟨dialect, [.expression e none], ""⟩ ∧
      e.nesting? = some program.greedyNesting := by
  obtain ⟨hlexemes, heof⟩ := lexemes_text h
  obtain ⟨⟨hconditions, hcall⟩, hmore⟩ := named_chains h
  have hmode : (⟨dialect.capabilities, true⟩ : Mode).lineSensitive = true := rfl
  obtain ⟨e, c', hread, hrest, hnesting⟩ := Chain.reads_chain
    (c := ⟨none, (lex program.text).tokens⟩) hmode (Chain.readsElses hmode hmore)
    hconditions hcall false (.inr program.left_more) hlexemes
  rw [program.left_more] at hrest
  replace hrest := List.map_eq_nil_iff.1 hrest
  refine ⟨e, ?_, hnesting⟩
  obtain ⟨text, more, htokens, -, htext⟩ := exists_opening h
  rw [htokens] at hlexemes
  obtain ⟨t, rest, hlex, ht, -⟩ := List.map_eq_cons_iff.1 hlexemes
  obtain ⟨-, -, rfl⟩ := Token.lexeme_eq_word.1 ht
  simp only [List.mem_cons, List.not_mem_nil, or_false, not_or] at htext
  have hplain : t.isOneOf [";", "import"] = false := Token.not_isOneOf_of_text (by simp [htext])
  have hend : c'.isAt ";" = false := by
    simp [Cursor.isAt, Cursor.nextIs, Cursor.next, hrest]
  rw [← heof]
  refine parse_of_reads (.nextStatement rfl ?_ (.statement_of_expr hlex hplain hread hend)
    (.textEnd hrest))
  rw [hlex]
  exact List.cons_ne_nil t rest

/-- A program is read as one statement in either dialect. A body that opens with `if` takes every
`else` behind it, so the statement is nested as the program is written exactly if a call stands in
front of each `else`.

The condition is decidable. It is stronger than that no `else` has a choice: a body that is an `if`
with its own `else` leaves none, and is read wrongly (`not_nested_as_written`). -/
theorem parse_control (program : Control) (h : program.Named) (dialect : Dialect) :
    ∃ e, parse program.text dialect = .ok ⟨dialect, [.expression e none], ""⟩ ∧
      e.nesting? = some program.greedyNesting ∧
        (e.nesting? = some program.nesting ↔ program.ElsesFollowCalls) := by
  obtain ⟨e, hparse, hnesting⟩ := parse_text h dialect
  refine ⟨e, hparse, hnesting, ?_⟩
  rw [hnesting, Option.some_inj]
  exact greedyNesting_eq_iff

/-- Of two branches, the inner one takes both `else`s. -/
theorem parse_control_nested :
    (ifElse "a" (ifElse "b" (call "f") (call "g")) (call "h")).Named ∧
      ∃ e, parse "if (a)\nif (b)\nf()\nelse\ng()\nelse\nh()" .groovy =
          .ok ⟨.groovy, [.expression e none], ""⟩ ∧
        e.nesting? = some (.branch "a" (.branch "b" (.call "f") [.call "g", .call "h"]) []) := by
  have hnamed : (ifElse "a" (ifElse "b" (call "f") (call "g")) (call "h")).Named := by
    simp only [Named]
    decide +kernel
  obtain ⟨e, hparse, hnesting, -⟩ := parse_control _ hnamed .groovy
  exact ⟨hnamed, e, hparse, hnesting⟩

/-- The `else` of an outer branch goes to the inner one, although the program leaves no choice. -/
theorem not_nested_as_written :
    ¬∀ (program : Control) (dialect : Dialect), program.Named → program.Unambiguous →
      ∃ e, parse program.text dialect = .ok ⟨dialect, [.expression e none], ""⟩ ∧
        e.nesting? = some program.nesting := by
  intro h
  have hnamed : (ifElse "a" (ifElse "b" (call "f") (call "g")) (call "h")).Named := by
    simp only [Named]
    decide +kernel
  obtain ⟨e, hparse, hnesting⟩ := h _ .kotlin hnamed (by simp [Unambiguous, endsOpen])
  obtain ⟨e', hparse', hnesting'⟩ := parse_text hnamed .kotlin
  obtain rfl : e = e' := by simpa [hparse'] using hparse.symm
  have heq := greedyNesting_eq_iff.1 (Option.some.inj (hnesting'.symm.trans hnesting))
  exact heq

end Control

end BuildPrune
