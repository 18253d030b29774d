import BuildPrune.Proofs.Operands
import BuildPrune.Proofs.QuotedLiterals
import BuildPrune.Proofs.Siblings

/-!
# BuildPrune.Proofs.QuotedArguments

Scripts that consist of a call with one quoted argument, `name 'content'` or `name('content')`, and
what rules for first arguments do to them. However the argument is quoted, its literal is one token
of the text (`QuotedCall.lexemes_text`), the text is read as that call (`QuotedCall.parse_text`),
and the call goes exactly if the rules hold the content or the literal as it is written
(`QuotedCall.pruned_iff_named`).
-/

namespace BuildPrune

/-! ### The calls whose first argument is named -/

/-- What the first argument of a call stands for. -/
inductive ArgumentKind
  | coordinate
  | plugin
  deriving DecidableEq

namespace ArgumentKind

/-- The names of the calls. -/
def calls : ArgumentKind → List String
  | coordinate => classpathCalls
  | plugin => pluginCalls

/-- The rules that remove only calls of this kind, by these texts. -/
def rules (texts : List String) (dialect : Dialect) : ArgumentKind → RuleSet
  | coordinate => { classpath := texts, dialect }
  | plugin => { plugins := texts, dialect }

variable {kind : ArgumentKind} {name : String}

theorem isName_of_mem (h : name ∈ kind.calls) : IsName name := by
  have hnames : ∀ kind : ArgumentKind, ∀ name ∈ kind.calls, IsName name := by
    intro kind
    cases kind <;> exact forall_mem_of_all (by decide +kernel)
  exact hnames kind name h

/-- Such rules are against a call of their kind exactly if they hold its first argument. All other
rules of the set are empty. -/
theorem isSome_removalReason {call : Call} (h : call.name.text ∈ kind.calls) (texts : List String)
    (dialect : Dialect) :
    (call.removalReason (kind.rules texts dialect)).isSome = call.firstArgumentIn texts := by
  have hversion : call.name.text ≠ "version" := by
    intro heq
    rw [heq] at h
    cases kind <;> exact absurd h (by decide)
  have hnone : call.firstArgumentIn [] = false := by
    rw [Call.firstArgumentIn]
    split <;> simp
  cases kind with
  | coordinate =>
      by_cases hnamed : call.firstArgumentIn texts = true
      all_goals simp_all [Call.removalReason, rules, calls]
  | plugin =>
      by_cases hnamed : call.firstArgumentIn texts = true
      all_goals simp_all [Call.removalReason, rules, calls]

end ArgumentKind

/-! ### Calls with a quoted argument -/

/-- Where the argument of a call stands, with the trivia around it. -/
inductive Placement
  /-- `name 'content'` -/
  | command (gap : String)
  /-- `name('content')` -/
  | parens (opening inner closing : String)

/-- A call with one quoted argument, and the trivia around it. Together with the form of the call
this is all that there is in the text of the script. -/
structure QuotedCall where
  leading : String
  name : String
  quotes : Literal.Quotes
  content : String
  placement : Placement
  eof : String

/-- A literal with trivia in front. -/
def Token.literal (leading text : String) : Token :=
  ⟨leading, .str, text, {}⟩

theorem Token.lexeme_eq_literal {t : Token} {leading text : String} :
    t.lexeme = (literal leading text).lexeme ↔
      t.leading = leading ∧ t.kind = .str ∧ t.text = text := by
  simp [lexeme, literal]

namespace QuotedCall

/-- The argument as it is written. -/
def literal (q : QuotedCall) : String :=
  q.quotes.around q.content

/-- The text of the call. -/
def text (q : QuotedCall) : String :=
  match q.placement with
  | .command gap => q.leading ++ q.name ++ gap ++ q.literal ++ q.eof
  | .parens opening inner closing =>
    q.leading ++ q.name ++ opening ++ "(" ++ inner ++ q.literal ++ closing ++ ")" ++ q.eof

/-- The tokens of the argument. -/
def argument (q : QuotedCall) : List Token :=
  match q.placement with
  | .command gap => [.literal gap q.literal]
  | .parens opening inner closing =>
    [.mark opening "(", .literal inner q.literal, .mark closing ")"]

/-- The tokens of the call. -/
def tokens (q : QuotedCall) : List Token :=
  .word q.leading q.name :: q.argument

/-- The dialect has the form of the call. -/
def Allowed (q : QuotedCall) (dialect : Dialect) : Prop :=
  match q.placement with
  | .command _ => dialect.capabilities.commandExpressions = true
  | .parens _ _ _ => True

/-- The argument is plain text and starts on the line of the name, and no comment in the trivia runs
over the end of its line. -/
structure WellFormed (q : QuotedCall) : Prop where
  plain : Literal.IsPlain q.content.toList
  onLine : ∀ t ∈ q.argument.head?, t.startsLine = false
  tidy : TokensEdged (tidyEdge .between) (tidyEdge .between) q.tokens q.eof

instance (q : QuotedCall) : Decidable q.WellFormed :=
  decidable_of_iff (Literal.IsPlain q.content.toList ∧
      (∀ t ∈ q.argument.head?, t.startsLine = false) ∧
      TokensEdged (tidyEdge .between) (tidyEdge .between) q.tokens q.eof)
    ⟨fun ⟨hplain, hline, htidy⟩ => ⟨hplain, hline, htidy⟩, fun h => ⟨h.plain, h.onLine, h.tidy⟩⟩

/-! ### The tokens of the text

The text is written token by token, with any tidy trivia between. That the literal ends where it
should is seen from what follows it: a parenthesis, trivia that does not begin with a quote, or
the end. -/

/-- Tidy trivia opens like trivia: with white space or with a slash. -/
theorem head_of_tidy {place : Trivia.Place} {text : List Char}
    (h : Trivia.scan .between text = some place) : ∀ c ∈ text.head?, c ∈ Lexer.triviaStarts := by
  intro c hc
  cases text with
  | nil => simp at hc
  | cons d text =>
      obtain rfl : d = c := by simpa using hc
      rw [Trivia.scan_cons, Option.bind_eq_some_iff] at h
      obtain ⟨m, hm, -⟩ := h
      by_contra hnot
      simp only [Lexer.triviaStarts, List.mem_cons, List.not_mem_nil, or_false, not_or] at hnot
      simp [Trivia.Place.next, Trivia.Place.fromBetween, Text.isLineBreak, Lexer.isBlank,
        hnot] at hm

/-- Tokens open with their trivia or with the first of them. So what ends a name or a literal can be
read off the trivia and the mark that follow. -/
theorem head_spell {t : Token} (htidy : (tidyEdge .between).lead t.leading)
    (hne : t.text.toList ≠ []) (tokens : List Token) (rest : List Char) :
    ∀ c ∈ (spell (t :: tokens) rest).head?, c ∈ Lexer.triviaStarts ∨ c ∈ t.text.toList.head? := by
  obtain ⟨place, hscan, -⟩ := htidy
  intro c hc
  rw [spell_cons] at hc
  by_cases hempty : t.leading.toList = []
  · rw [hempty, List.nil_append, List.head?_append_of_ne_nil _ hne] at hc
    exact .inr hc
  · rw [List.head?_append_of_ne_nil _ hempty] at hc
    exact .inl (head_of_tidy hscan c hc)

theorem head_around (quotes : Literal.Quotes) (content : String) :
    (quotes.around content).toList ≠ [] ∧
      ∀ c ∈ (quotes.around content).toList.head?, c = '\'' ∨ c = '"' := by
  cases quotes <;> simp [Literal.Quotes.around, Literal.Quotes.text]

/-- A literal of plain text ends in front of anything but a quote. -/
theorem stand_literal {leading content : String} {quotes : Literal.Quotes} {tokens : List Token}
    {rest : List Char} (hplain : Literal.IsPlain content.toList)
    (hends : ∀ c ∈ (spell tokens rest).head?, c ≠ '"' ∧ c ≠ '\'') (hmore : Stand tokens rest) :
    Stand (.literal leading (quotes.around content) :: tokens) rest := by
  obtain ⟨hne, hquote⟩ := head_around quotes content
  have hclosed := Literal.isClosed_around quotes hplain _ hends
  refine ⟨⟨hne, ?_, ?_⟩, hmore⟩
  · show Lexer.trivia? ((quotes.around content).toList ++ _) = none
    cases htext : (quotes.around content).toList with
    | nil => exact absurd htext hne
    | cons c text =>
        rw [htext] at hquote
        refine Lexer.trivia?_of_not_mem ?_ _
        rcases hquote c rfl with rfl | rfl <;> decide
  · show Lexer.token ((quotes.around content).toList ++ _) = (.str, _)
    rw [Lexer.token, hclosed]

theorem not_quote_of_trivia : ∀ c ∈ ')' :: Lexer.triviaStarts, c ≠ '"' ∧ c ≠ '\'' :=
  forall_mem_of_all (by decide)

theorem ends_of_trivia : ∀ c ∈ '(' :: '\'' :: '"' :: Lexer.triviaStarts,
    (Text.isIdentifierContinue c || c == '$') = false :=
  forall_mem_of_all (by decide +kernel)

variable {q : QuotedCall}

/-- The tokens of the call stand in front of each other. The name ends in front of trivia, a
parenthesis or a quote; the literal in front of trivia or a parenthesis. -/
theorem WellFormed.stand (h : q.WellFormed) (hname : IsIdentifier q.name) :
    Stand q.tokens q.eof.toList := by
  obtain ⟨hplain, -, htidy⟩ := h
  obtain ⟨hne, hquote⟩ := head_around q.quotes q.content
  rw [tokens] at htidy ⊢
  obtain ⟨-, htidy⟩ := htidy
  cases hplacement : q.placement with
  | command gap =>
      simp only [argument, hplacement] at htidy ⊢
      obtain ⟨hgap, place, heof, -⟩ := htidy
      refine stand_word hname (fun c hc => ?_)
        (stand_literal hplain (fun c hc => ?_) trivial)
      · rcases head_spell hgap hne _ _ c hc with hc | hc
        · exact ends_of_trivia c (by simp [hc])
        · exact ends_of_trivia c (by rcases hquote c hc with rfl | rfl <;> simp)
      · rw [spell_nil] at hc
        exact not_quote_of_trivia c (by simp [head_of_tidy heof c hc])
  | parens opening inner closing =>
      simp only [argument, hplacement] at htidy ⊢
      obtain ⟨hopening, -, hclosing, -⟩ := htidy
      refine stand_word hname (fun c hc => ?_) (stand_mark (by decide)
        (stand_literal hplain (fun c hc => ?_) (stand_mark (by decide) trivial)))
      · rcases head_spell hopening (by simp [Token.mark]) _ _ c hc with hc | hc
        · exact ends_of_trivia c (by simp [hc])
        · obtain rfl : '(' = c := by simpa [Token.mark] using hc
          exact ends_of_trivia _ (by simp)
      · rcases head_spell hclosing (by simp [Token.mark]) _ _ c hc with hc | hc
        · exact not_quote_of_trivia c (by simp [hc])
        · obtain rfl : ')' = c := by simpa [Token.mark] using hc
          exact not_quote_of_trivia _ (by simp)

theorem print_tokens (q : QuotedCall) : printTokens q.tokens ++ q.eof = q.text := by
  apply String.toList_inj.1
  cases hplacement : q.placement <;>
    simp [tokens, argument, text, hplacement, Token.print, Token.word, Token.mark, Token.literal]

/-- The tokens of the call are the tokens of its text, for each of the four forms of quotes and any
trivia that stays on its line. -/
theorem lexemes_text (h : q.WellFormed) (hname : IsIdentifier q.name) :
    (lex q.text).tokens.map Token.lexeme = q.tokens.map Token.lexeme ∧
      (lex q.text).eof = q.eof := by
  rw [← print_tokens]
  refine lex_written (h.stand hname) h.tidy ?_
  have htidy := h.tidy
  rw [tokens] at htidy ⊢
  have hne : (Token.word q.leading q.name).text.toList ≠ [] := by
    obtain ⟨c, text, htext, -⟩ := hname.cases
    simp [Token.word, htext]
  intro hopens
  rcases head_spell htidy.1 hne _ _ '#' hopens with hhash | hhash
  · exact absurd hhash (by decide)
  · exact hname.head_ne hhash

end QuotedCall

/-! ### Reading the call

Without parentheses the call is a command in Groovy, and Kotlin does not have it. With parentheses
it is a regular call in both dialects. -/

/-- A call with one argument, which is a token. -/
def argumentCall (name argument : Token) (opening closing : Option Token) (style : CallStyle) :
    Call :=
  ⟨none, name, none, some ⟨opening, [⟨.atom argument, none⟩], closing⟩, none, style⟩

namespace Parser.Reads

variable {mode : Mode} {name argument opening closing : Token}

theorem primary_of_literal {c : Cursor} {t : Token} {rest : List Token} (h : c.rest = t :: rest)
    (hkind : t.kind = .str) : Reads mode .primary c (.expr (.atom t)) ⟨some t, rest⟩ :=
  primary_of_atom h (by simp [hkind]) (Token.not_isName_of_kind (by simp [hkind]))
    (Token.not_isOneOf_of_kind (.inl hkind) _)

/-- A literal that nothing carries on is an expression. -/
theorem expression_of_literal {c : Cursor} {t : Token} {rest : List Token} (h : c.rest = t :: rest)
    (hkind : t.kind = .str) (hends : Cursor.EndsOperand mode ⟨some t, rest⟩) :
    Reads mode .expression c (.expr (.atom t)) ⟨some t, rest⟩ := by
  refine expression_of_primary ?_ (primary_of_literal h hkind) hends
  rw [Cursor.nextIs_cons h, Token.not_isOneOf_of_kind (.inl hkind)]

/-- A name and a literal on its line, at the end of a text, are a command, where the dialect has
commands. -/
theorem command_of_argument (hcaps : mode.caps.commandExpressions = true)
    (hname : name.isName = true) (hkind : argument.kind = .str)
    (hline : argument.startsLine = false) :
    Reads mode .commandOrExpression ⟨none, [name, argument]⟩
      (.expr (.call (argumentCall name argument none none .command))) ⟨some argument, []⟩ := by
  have hident : name.isIdent = true := by
    simp only [Token.isName, Bool.and_eq_true] at hname
    exact hname.1
  have hstarts : Cursor.atCommand ⟨none, [name, argument]⟩ = true := by
    simp [Cursor.atCommand, Cursor.nextIs, Cursor.next, Cursor.secondIs, Cursor.second, hname,
      Cursor.startsArgument, hline, Token.startsOperand, hkind]
  have hitems : Reads mode .commandItems ⟨some name, [argument]⟩
      (.items [⟨.atom argument, none⟩]) ⟨some argument, []⟩ :=
    .lastCommandItem (expression_of_literal rfl hkind (Cursor.endsOperand_nil rfl))
      (Cursor.optional_eq_none rfl)
  exact .command hcaps hstarts (Cursor.take_cons rfl hident) hitems (.chainEnd rfl)

/-- A literal between parentheses is a list of arguments. -/
theorem arguments_of_literal {c : Cursor} {rest : List Token}
    (h : c.rest = opening :: argument :: closing :: rest) (hopening : opening.is "(" = true)
    (hkind : argument.kind = .str) (hclosing : closing.is ")" = true) :
    Reads mode .arguments c
      (.arguments (some ⟨some opening, [⟨.atom argument, none⟩], some closing⟩))
      ⟨some closing, rest⟩ := by
  have hcloser : closing.isCloser = true := List.any_eq_true.2 ⟨")", by decide, hclosing⟩
  have hends : Cursor.EndsOperand mode.inBrackets ⟨some argument, closing :: rest⟩ := by
    refine Cursor.endsOperand_of_isCloser rfl hcloser ?_
    rw [Token.text_of_is hclosing]
    decide
  have hstop : Reads mode.inBrackets (.sequenceTail [","]) ⟨some argument, closing :: rest⟩
      (.exprs []) ⟨some argument, closing :: rest⟩ :=
    .sequenceEnd (by rw [Cursor.nextIs_cons rfl, hcloser]; rfl)
  have hitems : Reads mode.inBrackets (.items ")") ⟨some opening, argument :: closing :: rest⟩
      (.items [⟨.atom argument, none⟩]) ⟨some argument, closing :: rest⟩ := by
    refine .lastItem ?_ (.sequence (expression_of_literal rfl hkind hends) hstop)
      (Cursor.optional_eq_none ?_)
    · exact Token.not_is_of_isOneOf (Token.not_isOneOf_of_kind (.inl hkind) [")"]) (by simp)
    · exact Token.not_is_of_is hclosing (by decide)
  exact .arguments (Cursor.take_cons h hopening) hitems (Cursor.take_cons rfl hclosing)

/-- A name, and a literal in parentheses on its line, are a call, in either dialect. -/
theorem command_of_parenArgument (hname : name.isName = true)
    (hplain : name.text ∉ prefixOperators) (hpunct : opening.kind = .punct)
    (htext : opening.text = "(") (hline : opening.startsLine = false)
    (hkind : argument.kind = .str) (hclosing : closing.is ")" = true) :
    Reads mode .commandOrExpression ⟨none, [name, opening, argument, closing]⟩
      (.expr (.call (argumentCall name argument (some opening) (some closing) .regular)))
      ⟨some closing, []⟩ := by
  have hopening : opening.is "(" = true := Token.is_of_text (.inr hpunct) htext
  have htypes : Cursor.typeArgs? ⟨some name, [opening, argument, closing]⟩ =
      (none, ⟨some name, [opening, argument, closing]⟩) :=
    Cursor.typeArgs?_eq_none (Token.not_is_of_is hopening (by decide))
  have hargs : Reads mode
      (.argumentsIf (Cursor.isAtOnLine ⟨some name, [opening, argument, closing]⟩ "("))
      ⟨some name, [opening, argument, closing]⟩
      (.arguments (some ⟨some opening, [⟨.atom argument, none⟩], some closing⟩))
      ⟨some closing, []⟩ := by
    rw [Cursor.isAtOnLine, Cursor.nextIs_cons rfl, hopening, hline]
    exact .someArguments (arguments_of_literal rfl hopening hkind hclosing)
  have hprimary : Reads mode .primary ⟨none, [name, opening, argument, closing]⟩
      (.expr (.call (argumentCall name argument (some opening) (some closing) .regular)))
      ⟨some closing, []⟩ :=
    .call rfl hname (.callParts htypes hargs .noLambda) rfl
  refine command_of_call ?_ (expression_of_primary ?_ hprimary (Cursor.endsOperand_nil rfl)) rfl
  · simp [Cursor.atCommand, Cursor.secondIs, Cursor.second, Cursor.startsArgument,
      Token.startsOperand, hpunct]
  · rw [Cursor.nextIs_cons rfl]
    exact Token.not_isOneOf_of_text hplain

/-- A call that fills a text is its only statement. -/
theorem statements_of_call {call : Call} {t last : Token} {rest : List Token}
    (hplain : t.isOneOf [";", "import"] = false)
    (h : Reads mode .commandOrExpression ⟨none, t :: rest⟩ (.expr (.call call)) ⟨some last, []⟩) :
    Reads mode (.statements false) ⟨none, t :: rest⟩
      (.statements [.expression (.call call) none]) ⟨some last, []⟩ := by
  have htail : Reads mode (.statementTail false (.call call) []) ⟨some last, []⟩ (.exprs [])
      ⟨some last, []⟩ :=
    .tailEnd rfl rfl (Bool.and_false _)
  exact .nextStatement rfl (List.cons_ne_nil _ _)
    (statement_of_expr rfl hplain (.statementExpr h htail) rfl) (.textEnd rfl)

end Parser.Reads

namespace QuotedCall

variable {q : QuotedCall}

/-- The call is read from its text, with the literal as its only argument. Which form it has is of
no matter from here on. -/
theorem parse_text {dialect : Dialect} (h : q.WellFormed) (hname : IsName q.name)
    (hallowed : q.Allowed dialect) :
    ∃ name argument opening closing style, name.text = q.name ∧ argument.kind = .str ∧
      argument.text = q.literal ∧
      parse q.text dialect = .ok ⟨dialect,
        [.expression (.call (argumentCall name argument opening closing style)) none], q.eof⟩ := by
  obtain ⟨htokens, heof⟩ := lexemes_text h hname.1
  have hline := h.onLine
  have hplain : q.name ∉ [";", "import"] ∧ q.name ∉ prefixOperators :=
    ⟨hname.not_mem (by decide), hname.not_mem (by decide)⟩
  rw [← heof]
  rw [tokens, List.map_cons] at htokens
  obtain ⟨name, rest, hrest, hword, htokens⟩ := List.map_eq_cons_iff.1 htokens
  obtain ⟨-, hident, htext⟩ := Token.lexeme_eq_word.1 hword
  have hisName : name.isName = true := Token.isName_of_kind hident (htext ▸ hname)
  have hother : name.isOneOf [";", "import"] = false :=
    Token.not_isOneOf_of_text (htext ▸ hplain.1)
  cases hplacement : q.placement with
  | command gap =>
      simp only [argument, hplacement, Allowed] at htokens hline hallowed
      obtain ⟨argument, _, rfl, hargument, hnil⟩ := List.map_eq_cons_iff.1 htokens
      obtain ⟨hgap, hkind, hliteral⟩ := Token.lexeme_eq_literal.1 hargument
      obtain rfl := List.map_eq_nil_iff.1 hnil
      refine ⟨name, argument, none, none, .command, htext, hkind, hliteral,
        parse_of_reads (c := ⟨some argument, []⟩) ?_⟩
      rw [hrest]
      refine Parser.Reads.statements_of_call hother
        (Parser.Reads.command_of_argument hallowed hisName hkind ?_)
      rw [Token.startsLine, hgap]
      exact hline _ rfl
  | parens gap inner after =>
      simp only [argument, hplacement] at htokens hline
      obtain ⟨opening, _, rfl, hopening, htokens⟩ := List.map_eq_cons_iff.1 htokens
      obtain ⟨argument, _, rfl, hargument, htokens⟩ := List.map_eq_cons_iff.1 htokens
      obtain ⟨closing, _, rfl, hclosing, hnil⟩ := List.map_eq_cons_iff.1 htokens
      obtain ⟨hgap, hpunct, hparen⟩ := Token.lexeme_eq_mark.1 hopening
      obtain ⟨-, hkind, hliteral⟩ := Token.lexeme_eq_literal.1 hargument
      obtain ⟨-, hcloser, hclose⟩ := Token.lexeme_eq_mark.1 hclosing
      obtain rfl := List.map_eq_nil_iff.1 hnil
      refine ⟨name, argument, some opening, some closing, .regular, htext, hkind, hliteral,
        parse_of_reads (c := ⟨some closing, []⟩) ?_⟩
      rw [hrest]
      refine Parser.Reads.statements_of_call hother (Parser.Reads.command_of_parenArgument hisName
        (htext ▸ hplain.2) hpunct hparen ?_ hkind (Token.is_of_text (.inr hcloser) hclose))
      rw [Token.startsLine, hgap]
      exact hline _ rfl

end QuotedCall

/-! ### Pruning by the argument

The rules compare names with two keys of the argument, its content and the literal as it is
written. If one of them is in the rules, then the call goes and the script is empty. -/

namespace Pruner

variable (p : Pruner) (ctx : Context)

/-- A call whose argument is a token stays or goes as a whole: there is nothing in it to be removed
alone. -/
theorem visitCall_argument (name argument : Token) (opening closing : Option Token)
    (style : CallStyle) :
    p.visitCall ctx (argumentCall name argument opening closing style) =
      p.spare (argumentCall name argument opening closing style) := by
  by_cases hreason : ((argumentCall name argument opening closing style).removalReason
      p.rules).isSome = true
  · have hgone : p.spare (argumentCall name argument opening closing style) = .gone := by
      rw [spare, if_pos hreason]
    rw [visitCall_eq, hgone]
    rfl
  · have hstays : p.spare (argumentCall name argument opening closing style) =
        pure (argumentCall name argument opening closing style) := by
      rw [spare, if_neg hreason]
    rw [argumentCall] at hstays ⊢
    simp [visitCall_eq, hstays, visitPart, visitArguments, visitItems, visitExpr, Item.sweep,
      Outcome.total]
    rfl

/-- A script that consists of one such call is left as it is or loses it. -/
theorem visitScript_argument (dialect : Dialect) (name argument : Token)
    (opening closing : Option Token) (style : CallStyle) (eof : String) :
    let call := argumentCall name argument opening closing style
    let script : Script := ⟨dialect, [.expression (.call call) none], eof⟩
    if (call.removalReason p.rules).isSome then
      (p.visitScript script).1.statements = [] ∧ (p.visitScript script).2 = 1
    else p.visitScript script = (script, 0) := by
  intro call script
  have hvisit := visitCall_argument p {} name argument opening closing style
  split
  · next hreason =>
      rw [spare, if_pos hreason] at hvisit
      simp [script, call, visitScript, visitStatements, visitStatement, visitExpr, hvisit,
        Outcome.gone, Outcome.total, Statement.sweep_none, Statement.handOn, Statement.sweep_nil]
  · next hreason =>
      have hkept := Statement.sweep_self true [.expression (.call call) none] eof
      rw [spare, if_neg hreason] at hvisit
      simp only [List.map_cons, List.map_nil] at hkept
      simp [script, visitScript, visitStatements, visitStatement, visitExpr, call, hvisit, hkept,
        Outcome.total]

end Pruner

namespace QuotedCall

variable {q : QuotedCall}

/-- A script that consists of a call with one quoted argument is read, and rules for the first
arguments of such calls remove its statement exactly if they hold the text between the quotes or the
literal as it is written. Else they leave the script as it is.

This goes from the text to the removal: through the lexer, the grammar and the rules, for every
content, every kind of quotes and either form of the call. -/
theorem pruned_iff_named {kind : ArgumentKind} {dialect : Dialect} (h : q.WellFormed)
    (hname : q.name ∈ kind.calls) (hallowed : q.Allowed dialect) (texts : List String)
    (project : Dialect) (keeps : Statement → Bool) :
    ∃ statement, parse q.text dialect = .ok ⟨dialect, [statement], q.eof⟩ ∧
      let visited := Pruner.visitScript ⟨kind.rules texts project, keeps⟩
        ⟨dialect, [statement], q.eof⟩
      (visited.1.statements = [] ↔ q.content ∈ texts ∨ q.literal ∈ texts) ∧
        (visited.1.statements ≠ [] → visited = (⟨dialect, [statement], q.eof⟩, 0)) := by
  obtain ⟨name, argument, opening, closing, style, htext, hkind, hliteral, hparse⟩ :=
    parse_text h (ArgumentKind.isName_of_mem hname) hallowed
  refine ⟨_, hparse, ?_⟩
  have hvisit := Pruner.visitScript_argument ⟨kind.rules texts project, keeps⟩ dialect name argument
    opening closing style q.eof
  have hreason : ((argumentCall name argument opening closing style).removalReason
      (kind.rules texts project)).isSome = true ↔ q.content ∈ texts ∨ q.literal ∈ texts := by
    rw [ArgumentKind.isSome_removalReason (htext ▸ hname), literal,
      ← Expr.any_argumentKeys_literal hkind hliteral h.plain]
    rfl
  dsimp only at hvisit ⊢
  split at hvisit
  · next hgone => simp [hvisit.1, hreason.1 hgone]
  · next hstays => simp [hvisit, mt hreason.2 hstays]

/-- What looks like a comment between the quotes belongs to the argument. -/
theorem pruned_iff_named_comment :
    (⟨"", "implementation", .single, "a:b // c", .command " ", "\n"⟩ : QuotedCall).WellFormed ∧
    "implementation" ∈ ArgumentKind.coordinate.calls ∧
    (⟨"", "implementation", .single, "a:b // c", .command " ", "\n"⟩ : QuotedCall).text =
      "implementation 'a:b // c'\n" ∧
    ∃ statement, parse "implementation 'a:b // c'\n" .groovy = .ok ⟨.groovy, [statement], "\n"⟩ ∧
      (Pruner.visitScript ⟨ArgumentKind.coordinate.rules ["a:b // c"] .groovy, fun _ => true⟩
        ⟨.groovy, [statement], "\n"⟩).1.statements = [] := by
  have hq : (⟨"", "implementation", .single, "a:b // c", .command " ", "\n"⟩ :
      QuotedCall).WellFormed := by
    decide +kernel
  have hname : "implementation" ∈ ArgumentKind.coordinate.calls := by decide
  have htext : (⟨"", "implementation", .single, "a:b // c", .command " ", "\n"⟩ :
      QuotedCall).text = "implementation 'a:b // c'\n" := by
    decide +kernel
  have hallowed : (⟨"", "implementation", .single, "a:b // c", .command " ", "\n"⟩ :
      QuotedCall).Allowed .groovy := rfl
  obtain ⟨statement, hparse, hiff, -⟩ :=
    pruned_iff_named hq hname hallowed ["a:b // c"] .groovy fun _ => true
  exact ⟨hq, hname, htext, statement, htext ▸ hparse, hiff.2 (.inl (by simp))⟩

end QuotedCall

end BuildPrune
