import BuildPrune.Proofs.Completeness
import BuildPrune.Proofs.WrittenTokens

/-!
# BuildPrune.Proofs.Operands

Derivations of the grammar for the small parts that scripts are put together from: names, literals,
`name()` and `(name)`. What stands behind them is mostly a bracket or a new line, which is decided
by the spelling of one token.

* `Cursor.EndsOperand`: nothing at the cursor carries an operand on. Up to there a primary
  expression is an expression (`Parser.Reads.expression_of_primary`).
* `Cursor.OpensNoCall`: nothing at the cursor makes a call of the name in front.
* `Token.StartsBody`: the token starts a line, and with it a statement or the body of a header.
-/

namespace BuildPrune

/-! ### Spellings that do not occur

What carries on an expression is a token with one of a few spellings. For a token that is at hand
this is decided by its text, so the tests of the parser need not be gone through one by one. -/

/-- The spellings of suffixes. -/
def suffixTexts : List String :=
  "[" :: memberDots ++ postfixOperators

/-- The spellings that a line of its own cannot start with. -/
def nonStartingTexts : List String :=
  ";" :: closers ++ continuations ++ suffixTexts

/-- The spellings that open an operand of more than one token, or none. -/
def openingTexts : List String :=
  "@" :: openBrace :: "(" :: "[" :: closers

namespace Token

variable {t : Token} {texts more : List String}

theorem not_is_of_text {text : String} (h : t.text ≠ text) : t.is text = false := by
  simp [is, h]

theorem not_isOneOf_of_text (h : t.text ∉ texts) : t.isOneOf texts = false := by
  rw [Bool.eq_false_iff]
  intro hone
  obtain ⟨text, hmem, his⟩ := List.any_eq_true.1 hone
  exact h (Token.text_of_is his ▸ hmem)

/-- Literals are spelled like no name and no punctuation. -/
theorem not_isOneOf_of_kind (h : t.kind = .str ∨ t.kind = .number) (texts : List String) :
    t.isOneOf texts = false := by
  rw [Bool.eq_false_iff]
  intro hone
  obtain ⟨text, -, his⟩ := List.any_eq_true.1 hone
  rcases h with h | h <;> simp [is, h] at his

theorem not_isOneOf_of_subset (h : t.isOneOf texts = false) (hmore : more ⊆ texts) :
    t.isOneOf more = false := by
  rw [Bool.eq_false_iff]
  intro hone
  obtain ⟨text, hmem, his⟩ := List.any_eq_true.1 hone
  rw [isOneOf, List.any_eq_false] at h
  exact h text (hmore hmem) his

theorem not_is_of_isOneOf {text : String} (h : t.isOneOf texts = false) (htext : text ∈ texts) :
    t.is text = false := by
  rw [isOneOf, List.any_eq_false] at h
  exact eq_false_of_ne_true (h text htext)

/-- The token starts a line, and with it a statement. -/
structure StartsBody (t : Token) : Prop where
  line : t.startsLine = true
  other : t.isOneOf nonStartingTexts = false

end Token

namespace Cursor

variable {c : Cursor} {t : Token} {rest : List Token}

theorem nextIs_cons {p : Token → Bool} (h : c.rest = t :: rest) : c.nextIs p = p t := by
  simp [nextIs, next, h]

theorem take?_cons {p : Token → Bool} (h : c.rest = t :: rest) (hp : p t = true) :
    c.take? p = some (t, ⟨some t, rest⟩) := by
  simp [take?, h, hp]

theorem take?_eq_none {p : Token → Bool} (h : c.nextIs p = false) : c.take? p = none := by
  cases hrest : c.rest with
  | nil => simp [take?, hrest]
  | cons t rest =>
      rw [nextIs_cons hrest] at h
      simp [take?, hrest, h]

theorem take_cons {p : Token → Bool} {problem : Problem} (h : c.rest = t :: rest)
    (hp : p t = true) : c.take p problem = .ok (t, ⟨some t, rest⟩) := by
  rw [take, take?_cons h hp]

theorem optional_eq_none {text : String} (h : c.isAt text = false) :
    c.optional text = (none, c) := by
  rw [optional, take?_eq_none h]

/-! ### Ends of operands

The suffixes come first and the operators behind them. If the next token is none of either, and no
call can begin there, an operand is all that is read. -/

/-- No member, index or operator of its own follows an operand at the cursor. Then what was read of
the operand is all of it. -/
structure EndsSuffixes (c : Cursor) : Prop where
  noMember : c.nextIs (·.isOneOf memberDots) = false
  noIndex : c.isAtAttached "[" = false
  noPostfix : c.nextIs (fun t => t.isOneOf postfixOperators && t.attached) = false

/-- Nothing at the cursor carries an operand on. -/
structure EndsOperand (mode : Mode) (c : Cursor) : Prop extends c.EndsSuffixes where
  noOperator : c.atStatementEnd mode = true ∨
    c.nextIs (·.isOneOf binaryOperators) = false ∧ c.nextIs Token.isName = false

/-- A token that is spelled like no suffix carries no operand on. -/
theorem endsSuffixes_of_not (h : c.rest = t :: rest) (ht : t.isOneOf suffixTexts = false) :
    c.EndsSuffixes := by
  refine ⟨?_, ?_, ?_⟩
  · rw [nextIs_cons h, Token.not_isOneOf_of_subset ht (by decide)]
  · rw [isAtAttached, nextIs_cons h, Token.not_is_of_isOneOf ht (by decide), Bool.false_and]
  · rw [nextIs_cons h, Token.not_isOneOf_of_subset ht (by decide), Bool.false_and]

theorem endsOperand_nil {mode : Mode} (h : c.rest = []) : c.EndsOperand mode := by
  refine ⟨⟨?_, ?_, ?_⟩, .inl ?_⟩ <;>
    simp [nextIs, isAtAttached, atStatementEnd, next, h]

/-- Neither a suffix nor an operator, and no name: an operand ends in front of such a token. -/
theorem endsOperand_of_text {mode : Mode} (h : c.rest = t :: rest)
    (htext : t.text ∉ suffixTexts ++ binaryOperators) (hname : t.isName = false) :
    c.EndsOperand mode := by
  rw [List.mem_append, not_or] at htext
  refine ⟨endsSuffixes_of_not h (Token.not_isOneOf_of_text htext.1), .inr ?_⟩
  rw [nextIs_cons h, nextIs_cons h]
  exact ⟨Token.not_isOneOf_of_text htext.2, hname⟩

/-! ### Ends and starts of statements -/

/-- A closing bracket ends a statement. -/
theorem atStatementEnd_of_isCloser {mode : Mode} (h : c.rest = t :: rest)
    (ht : t.isCloser = true) : c.atStatementEnd mode = true := by
  simp [atStatementEnd, next, h, ht]

/-- A token that carries statements on does not end one. It is on the line, or it is spelled like
what goes on over a line break. -/
theorem not_atStatementEnd {mode : Mode} (h : c.rest = t :: rest)
    (hother : t.isOneOf (";" :: closers) = false)
    (hline : t.startsLine = false ∨ t.isOneOf continuations = true) :
    c.atStatementEnd mode = false := by
  have hcloser : t.isCloser = false := Token.not_isOneOf_of_subset hother (by decide)
  have hempty : t.is ";" = false := Token.not_is_of_isOneOf hother (by decide)
  rcases hline with hline | hline <;> simp [atStatementEnd, next, h, hcloser, hempty, hline]

theorem endsOperand_of_isCloser {mode : Mode} (h : c.rest = t :: rest) (ht : t.isCloser = true)
    (htext : t.text ∉ suffixTexts) : c.EndsOperand mode :=
  ⟨endsSuffixes_of_not h (Token.not_isOneOf_of_text htext),
    .inl (atStatementEnd_of_isCloser h ht)⟩

section StartsBody

variable {mode : Mode} (hmode : mode.lineSensitive = true)

include hmode

/-- Where a line of its own starts, a statement ends. -/
theorem atStatementEnd_of_startsBody (h : c.rest = t :: rest) (ht : t.StartsBody) :
    c.atStatementEnd mode = true := by
  have hcontinues : t.isOneOf continuations = false :=
    Token.not_isOneOf_of_subset ht.other (by decide)
  simp [atStatementEnd, next, h, hmode, ht.line, hcontinues]

/-- And so does an operand. -/
theorem endsOperand_of_startsBody (h : c.rest = t :: rest) (ht : t.StartsBody) :
    c.EndsOperand mode :=
  ⟨endsSuffixes_of_not h (Token.not_isOneOf_of_subset ht.other (by decide)),
    .inl (atStatementEnd_of_startsBody hmode h ht)⟩

end StartsBody

/-- But a header takes such a line as its body. -/
theorem atDetachedBody_of_startsBody (h : c.rest = t :: rest) (ht : t.StartsBody) :
    c.atDetachedBody = true := by
  have hcloser : t.isCloser = false := Token.not_isOneOf_of_subset ht.other (by decide)
  rw [atDetachedBody, nextIs_cons h, ht.line, Token.not_is_of_isOneOf ht.other (by decide), hcloser]
  rfl

theorem not_isAt_of_startsBody {text : String} (htext : text ∈ nonStartingTexts)
    (h : c.rest = t :: rest) (ht : t.StartsBody) : c.isAt text = false := by
  rw [isAt, nextIs_cons h]
  exact Token.not_is_of_isOneOf ht.other htext

/-! ### Names without calls -/

/-- What stands at the cursor makes no call of the name in front. -/
structure OpensNoCall (c : Cursor) : Prop where
  noTypes : c.typeArgs? = (none, c)
  noArguments : c.isAtOnLine "(" = false
  noLambda : c.isAtOnLine openBrace = false

theorem typeArgs?_eq_none (h : c.isAt "<" = false) : c.typeArgs? = (none, c) := by
  have hclose : c.typeArgsClose = none := by
    unfold typeArgsClose
    split
    · next t rest hrest =>
        rw [isAt, nextIs_cons hrest] at h
        rw [h, Bool.false_and, if_neg Bool.false_ne_true]
    · rfl
  rw [typeArgs?, hclose]
  rfl

theorem isAtOnLine_eq_false {text : String} (h : c.isAt text = false) :
    c.isAtOnLine text = false := by
  cases hrest : c.rest with
  | nil => simp [isAtOnLine, nextIs, next, hrest]
  | cons t rest =>
      rw [isAt, nextIs_cons hrest] at h
      rw [isAtOnLine, nextIs_cons hrest, h, Bool.false_and]

/-- What opens neither type arguments nor arguments nor a block makes no call of the name in
front. -/
theorem opensNoCall_of_text (h : c.rest = t :: rest) (htext : t.text ∉ ["<", "(", openBrace]) :
    c.OpensNoCall := by
  have hat : ∀ text ∈ ["<", "(", openBrace], c.isAt text = false := by
    intro text hmem
    rw [isAt, nextIs_cons h]
    exact Token.not_is_of_text fun heq => htext (heq ▸ hmem)
  exact ⟨typeArgs?_eq_none (hat _ (by simp)), isAtOnLine_eq_false (hat _ (by simp)),
    isAtOnLine_eq_false (hat _ (by simp))⟩

end Cursor

namespace Parser.Reads

variable {mode : Mode} {c c' : Cursor} {e : Expr}

/-! ### Operands -/

theorem noSuffixes (h : c.EndsSuffixes) : Reads mode (.suffixes e) c (.expr e) c :=
  .suffixesEnd (Cursor.take?_eq_none h.noMember) h.noIndex (Cursor.take?_eq_none h.noPostfix)

theorem noOperators (h : c.EndsOperand mode) : Reads mode (.operators e) c (.expr e) c := by
  by_cases hends : c.atStatementEnd mode = true
  · exact .operatorsEnd hends
  · obtain ⟨hoperator, hname⟩ := h.noOperator.resolve_left hends
    refine .operatorsStop (eq_false_of_ne_true hends) (Cursor.take?_eq_none hoperator) ?_
    rw [Bool.eq_false_iff]
    intro hcall
    simp only [Cursor.atInfixedCall, Bool.and_eq_true] at hcall
    obtain ⟨t, hnext, ht⟩ := (Option.any_eq_true _ _).1 hcall.1.2
    rw [Cursor.nextIs, hnext, Option.any_some] at hname
    rw [hname] at ht
    cases ht

/-- A primary expression without suffixes is an operand. -/
theorem unary_of_primary (hnoOp : c.nextIs (·.isOneOf prefixOperators) = false)
    (h : Reads mode .primary c (.expr e) c') (hends : c'.EndsSuffixes) :
    Reads mode .unary c (.expr e) c' :=
  .operand (Cursor.take?_eq_none hnoOp) h (noSuffixes hends)

/-- A primary expression that nothing carries on is an expression. Most derivations of small parts
come down to this. -/
theorem expression_of_primary (hnoOp : c.nextIs (·.isOneOf prefixOperators) = false)
    (h : Reads mode .primary c (.expr e) c') (hends : c'.EndsOperand mode) :
    Reads mode .expression c (.expr e) c' :=
  .expression (unary_of_primary hnoOp h hends.toEndsSuffixes) (noOperators hends)

/-- Where no command starts, an expression that ends one is read in either dialect. So later
derivations need not tell the dialects apart. -/
theorem command_of_expression (hplain : c.atCommand = false)
    (h : Reads mode .expression c (.expr e) c') (hends : endsCommand c' e = true) :
    Reads mode .commandOrExpression c (.expr e) c' := by
  by_cases hcaps : mode.caps.commandExpressions = true
  · exact .noCommand hcaps hplain h hends
  · exact .plainExpression (eq_false_of_ne_true hcaps) h

/-- Where no command starts, a call that no other call follows is read in either dialect. -/
theorem command_of_call {call : Call} (hplain : c.atCommand = false)
    (h : Reads mode .expression c (.expr (.call call)) c') (hends : c'.atChainLink = false) :
    Reads mode .commandOrExpression c (.expr (.call call)) c' := by
  by_cases hcaps : mode.caps.commandExpressions = true
  · exact .callCommand hcaps hplain h (.chainEnd hends)
  · exact .plainExpression (eq_false_of_ne_true hcaps) h

/-! ### Names, literals and bare calls

These are the leaves of the scripts that are given as programs or as text. Each derivation comes
with the cursor behind it, so that the derivations can be chained. -/

variable {t opening closing : Token} {rest : List Token}

/-- A literal, a keyword or a stray operator is an atom. -/
theorem primary_of_atom (h : c.rest = t :: rest) (hknown : t.kind ≠ .unknown)
    (hnoName : t.isName = false) (hplain : t.isOneOf openingTexts = false) :
    Reads mode .primary c (.expr (.atom t)) ⟨some t, rest⟩ := by
  refine .atom h hknown hnoName (Token.not_isOneOf_of_subset hplain (by decide))
    (Token.not_isOneOf_of_subset hplain (by decide)) ?_
  rw [Cursor.atAnnotated, Cursor.isAt, Cursor.nextIs_cons h,
    Token.not_is_of_isOneOf hplain (by decide)]
  rfl

/-- A name that opens no call has no parts of one. -/
theorem callParts_none (h : c.OpensNoCall) :
    Reads mode .callParts c (.parts ⟨none, none, none⟩) c := by
  have hargs : Reads mode (.argumentsIf (c.isAtOnLine "(")) c (.arguments none) c := by
    rw [h.noArguments]
    exact .noArguments
  have hlambda : Reads mode (.lambdaIf (c.isAtOnLine openBrace)) c (.lambda none) c := by
    rw [h.noLambda]
    exact .noLambda
  exact .callParts h.noTypes hargs hlambda

/-- A name that opens no call is an atom. -/
theorem primary_of_name (h : c.rest = t :: rest) (hname : t.isName = true)
    (hbare : Cursor.OpensNoCall ⟨some t, rest⟩) :
    Reads mode .primary c (.expr (.atom t)) ⟨some t, rest⟩ :=
  .name h hname (callParts_none hbare) rfl

/-- The arguments `()`. -/
theorem arguments_nil (h : c.rest = opening :: closing :: rest) (hopening : opening.is "(" = true)
    (hclosing : closing.is ")" = true) :
    Reads mode .arguments c (.arguments (some ⟨some opening, [], some closing⟩))
      ⟨some closing, rest⟩ := by
  have hitems : Reads mode.inBrackets (.items ")") ⟨some opening, closing :: rest⟩ (.items [])
      ⟨some opening, closing :: rest⟩ :=
    .itemsEnd hclosing
  exact .arguments (Cursor.take_cons h hopening) hitems (Cursor.take_cons rfl hclosing)

/-- The call `name()`. Its parentheses are on its line, and no block follows on the line behind
them. -/
theorem primary_of_bareCall (h : c.rest = t :: opening :: closing :: rest)
    (hname : t.isName = true) (hopening : opening.is "(" = true)
    (hline : opening.startsLine = false) (hclosing : closing.is ")" = true)
    (hbare : Cursor.isAtOnLine ⟨some closing, rest⟩ openBrace = false) :
    Reads mode .primary c
      (.expr (.call ⟨none, t, none, some ⟨some opening, [], some closing⟩, none, .regular⟩))
      ⟨some closing, rest⟩ := by
  have htypes : Cursor.typeArgs? ⟨some t, opening :: closing :: rest⟩ =
      (none, ⟨some t, opening :: closing :: rest⟩) :=
    Cursor.typeArgs?_eq_none (Token.not_is_of_is hopening (by decide))
  have hargs : Reads mode
      (.argumentsIf (Cursor.isAtOnLine ⟨some t, opening :: closing :: rest⟩ "("))
      ⟨some t, opening :: closing :: rest⟩
      (.arguments (some ⟨some opening, [], some closing⟩)) ⟨some closing, rest⟩ := by
    rw [Cursor.isAtOnLine, Cursor.nextIs_cons rfl, hopening, hline]
    exact .someArguments (arguments_nil rfl hopening hclosing)
  have hlambda : Reads mode (.lambdaIf (Cursor.isAtOnLine ⟨some closing, rest⟩ openBrace))
      ⟨some closing, rest⟩ (.lambda none) ⟨some closing, rest⟩ := by
    rw [hbare]
    exact .noLambda
  exact .call h hname (.callParts htypes hargs hlambda) rfl

/-- A name in parentheses, as it stands behind `if`. -/
theorem primary_of_parenName (h : c.rest = opening :: t :: closing :: rest)
    (hopening : opening.is "(" = true) (hplain : opening.isName = false) (hname : t.isName = true)
    (htext : t.text ∉ ")" :: prefixOperators) (hclosing : closing.is ")" = true) :
    Reads mode .primary c (.expr (.paren opening (.atom t) closing)) ⟨some closing, rest⟩ := by
  rw [List.mem_cons, not_or] at htext
  have hcloser : closing.isCloser = true :=
    List.any_eq_true.2 ⟨")", by decide, hclosing⟩
  -- The parenthesis ends the operand, whatever comes behind it.
  have hends : Cursor.EndsOperand mode.inBrackets ⟨some t, closing :: rest⟩ := by
    refine Cursor.endsOperand_of_isCloser rfl hcloser ?_
    rw [Token.text_of_is hclosing]
    decide
  have hinner : Reads mode.inBrackets .expression ⟨some opening, t :: closing :: rest⟩
      (.expr (.atom t)) ⟨some t, closing :: rest⟩ := by
    refine expression_of_primary ?_ (primary_of_name rfl hname ?_) hends
    · rw [Cursor.nextIs_cons rfl]
      exact Token.not_isOneOf_of_text htext.2
    · refine Cursor.opensNoCall_of_text rfl ?_
      rw [Token.text_of_is hclosing]
      decide
  have hstop : Reads mode.inBrackets (.sequenceTail []) ⟨some t, closing :: rest⟩ (.exprs [])
      ⟨some t, closing :: rest⟩ :=
    .sequenceEnd (by rw [Cursor.nextIs_cons rfl, hcloser]; rfl)
  have hfull : Cursor.take? ⟨some opening, t :: closing :: rest⟩ (·.is ")") = none :=
    Cursor.take?_eq_none (Token.not_is_of_text htext.1)
  refine .group ?_ ?_ (.parens (Cursor.take_cons h hopening) hfull (.sequence hinner hstop)
    (Cursor.take_cons rfl hclosing))
  · rw [Cursor.nextIs_cons h, hplain]
  · rw [Cursor.isAt, Cursor.nextIs_cons h, hopening]

/-! ### Keywords and headers -/

/-- A keyword is an atom. -/
theorem primary_of_keyword (h : c.rest = t :: rest) (hkind : t.kind = .ident)
    (htext : t.text ∈ keywords) : Reads mode .primary c (.expr (.atom t)) ⟨some t, rest⟩ := by
  have hplain : ∀ text ∈ keywords, text ∉ openingTexts := by decide
  exact primary_of_atom h (by simp [hkind]) (Token.not_isName_of_keyword hkind htext)
    (Token.not_isOneOf_of_text (hplain _ htext))

/-- A keyword that nothing carries on stands alone. -/
theorem command_of_keyword (h : c.rest = t :: rest) (hkind : t.kind = .ident)
    (htext : t.text ∈ keywords) (hends : Cursor.EndsOperand mode ⟨some t, rest⟩) :
    Reads mode .commandOrExpression c (.expr (.atom t)) ⟨some t, rest⟩ := by
  have hnoPrefixOp : ∀ text ∈ keywords, text ∉ prefixOperators := by decide
  refine command_of_expression ?_
    (expression_of_primary ?_ (primary_of_keyword h hkind htext) hends) rfl
  · rw [Cursor.atCommand, Cursor.nextIs_cons h, Token.not_isName_of_keyword hkind htext,
      Bool.false_and]
  · rw [Cursor.nextIs_cons h, Token.not_isOneOf_of_text (hnoPrefixOp _ htext)]

/-- A name in parentheses that nothing carries on stands alone. -/
theorem command_of_parenName (h : c.rest = opening :: t :: closing :: rest)
    (hkind : opening.kind = .punct) (hopening : opening.text = "(") (hname : t.isName = true)
    (htext : t.text ∉ ")" :: prefixOperators) (hclosing : closing.is ")" = true)
    (hends : Cursor.EndsOperand mode ⟨some closing, rest⟩) :
    Reads mode .commandOrExpression c (.expr (.paren opening (.atom t) closing))
      ⟨some closing, rest⟩ := by
  have hplain := Token.not_isName_of_kind (t := opening) (by simp [hkind])
  refine command_of_expression ?_ (expression_of_primary ?_ ?_ hends) rfl
  · rw [Cursor.atCommand, Cursor.nextIs_cons h, hplain, Bool.false_and]
  · rw [Cursor.nextIs_cons h]
    refine Token.not_isOneOf_of_text ?_
    rw [hopening]
    decide
  · exact primary_of_parenName h (Token.is_of_text (.inr hkind) hopening) hplain hname htext
      hclosing

/-- An expression that neither opens like another statement nor is followed by `;` is one. -/
theorem statement_of_expr (h : c.rest = t :: rest) (hplain : t.isOneOf [";", "import"] = false)
    (hexpr : Reads mode (.statementExpr false) c (.expr e) c') (hend : c'.isAt ";" = false) :
    Reads mode .statement c (.statement (.expression e none)) c' := by
  refine .exprStatement (Cursor.take?_eq_none ?_) ?_ hexpr (Cursor.optional_eq_none hend)
  · rw [Cursor.nextIs_cons h]
    exact Token.not_is_of_isOneOf hplain (by simp)
  · rw [Cursor.atImport, Cursor.isAt, Cursor.nextIs_cons h,
      Token.not_is_of_isOneOf hplain (by simp), Bool.false_and]

end Parser.Reads

end BuildPrune
