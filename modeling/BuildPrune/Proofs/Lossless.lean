import BuildPrune.Proofs.Grammar
import BuildPrune.Proofs.Lexing

/-!
# BuildPrune.Proofs.Lossless

**Parsing loses nothing.** The tree of a script holds the tokens of its text, each once and in the
order of the text, so the tree prints as the text (`parse_lossless`).

The invariant of a production is that the tokens it was handed and the tokens it still had to read
are those of its answer and those that are left (`Reads.tokens_append_rest`). It is an equation
between lists, so a token that a rule drops, repeats or moves breaks it.
-/

namespace BuildPrune

/-! ### The tokens of the nodes that productions build -/

theorem Expr.listTokens_append (exprs more : List Expr) :
    Expr.listTokens (exprs ++ more) = Expr.listTokens exprs ++ Expr.listTokens more := by
  induction exprs with
  | nil => rfl
  | cons expr rest ih => simp [Expr.listTokens, ih]

/-- One expression stands for itself, with its own tokens. -/
theorem Expr.tokens_ofSequence (head : Expr) (tail : List Expr) :
    (Expr.ofSequence head tail).tokens = head.tokens ++ Expr.listTokens tail := by
  unfold Expr.ofSequence
  split
  · next hempty =>
      rw [List.isEmpty_iff.1 hempty]
      simp [Expr.listTokens]
  · rw [Expr.tokens]

/-- A call without parentheses has the tokens of its receiver, its name and its items. -/
theorem Call.tokens_ofItems (receiver : Option Receiver) (name : Token) (items : List Item)
    (style : CallStyle) :
    (Call.ofItems receiver name items style).tokens =
      partTokens Receiver.tokens receiver ++ name :: Item.listTokens items := by
  simp [Call.ofItems, Expr.tokens, Call.tokens_mk, Arguments.tokens]

namespace Parser

/-! ### The invariant of a production

A production is handed nodes that were read already, answers a node that holds them, and moves the
cursor. So the tokens in the answer are those that were handed to it followed by those between the
two cursors. -/

/-- The tokens of an answer. -/
def Piece.tokens : Piece → List Token
  | .statements out => Statement.listTokens out
  | .statement out => out.tokens
  | .expr out => out.tokens
  | .optionalExpr out => partTokens Expr.tokens out
  | .exprs out => Expr.listTokens out
  | .items out => Item.listTokens out
  | .parts out =>
    partTokens TypeArgs.listTokens out.types ++ (partTokens Arguments.tokens out.args ++
      partTokens Lambda.tokens out.lambda)
  | .arguments out => partTokens Arguments.tokens out
  | .brackets out => out.tokens
  | .lambda out => partTokens Lambda.tokens out

/-- The tokens that were read before the production started and that its answer takes over. -/
def Task.tokens : Task → List Token
  | .statementTail _ _ before => Expr.listTokens before
  | .commandChain target => target.tokens
  | .operators left => left.tokens
  | .suffixes operand => operand.tokens
  | _ => []

/-- The tokens of a call are those of its receiver, its name and what was read behind the name. -/
theorem CallParts.tokens_call (parts : CallParts) (receiver : Option Receiver) (name : Token)
    (style : CallStyle) :
    (parts.call receiver name style).tokens =
      partTokens Receiver.tokens receiver ++ name :: (Piece.parts parts).tokens := by
  simp [CallParts.call, Expr.tokens, Call.tokens_mk, Piece.tokens]

theorem CallParts.tokens_of_isEmpty {parts : CallParts} (h : parts.isEmpty = true) :
    (Piece.parts parts).tokens = [] := by
  obtain ⟨types, args, lambda⟩ := parts
  simp only [CallParts.isEmpty, Bool.and_eq_true, Option.isNone_iff_eq_none] at h
  simp [Piece.tokens, h.1.1, h.1.2, h.2]

/-- What a production was handed and what it still had to read is its answer and what is left.

The induction is on the rules, one case for each. As an equation between lists it says that no token
is dropped, repeated or moved, whatever the rule. -/
theorem Reads.tokens_append_rest {mode : Mode} {task : Task} {c c' : Cursor} {piece : Piece}
    (h : Reads mode task c piece c') : task.tokens ++ c.rest = piece.tokens ++ c'.rest := by
  induction h with
  | blockEnd | textEnd | tailElse | tailEnd | chainEnd | noExpression | operatorsEnd
  | operatorsStop | suffixesEnd | sequenceEnd | noArguments | itemsEnd | noLambda => rfl
  | nextStatement _ _ _ _ ihfirst ihmore =>
      simp_all [Task.tokens, Piece.tokens, Statement.listTokens]
  | emptyStatement hread =>
      simp [Task.tokens, Piece.tokens, Statement.tokens, (Cursor.take?_some hread).1]
  | importStatement _ _ hread =>
      simp [Task.tokens, Piece.tokens, Statement.tokens, Cursor.importing_rest hread]
  | @exprStatement _ _ c₁ _ _ _ _ _ _ hend ihexpr =>
      have hrest := Cursor.optional_rest c₁ ";"
      simp_all [Task.tokens, Piece.tokens, Statement.tokens]
  | statementExpr _ _ ihhead ihtail =>
      simp_all [Task.tokens, Piece.tokens, Expr.listTokens, Expr.tokens_ofSequence]
  | tailNext _ _ _ _ ihexpr ihtail | tailBody _ _ _ _ _ _ ihexpr ihtail =>
      simp_all [Task.tokens, Piece.tokens, Expr.listTokens, Expr.listTokens_append]
  | plainExpression _ _ ih | noCommand _ _ _ _ ih | someExpression _ ih | group _ _ _ ih
  | annotatedExpr _ _ _ ih | someArguments _ ih | someLambda _ ih | lambdaExpr _ _ _ ih
  | list _ _ _ ih => simpa [Task.tokens, Piece.tokens, Expr.tokens] using ih
  | command _ _ hname _ _ ihitems ihchain | chainCommand _ hname _ _ _ ihitems ihchain =>
      simp_all [Task.tokens, Piece.tokens, Call.tokens_ofItems, Receiver.tokens,
        (Cursor.name_ok hname).1]
  | memberCommand _ _ _ _ _ _ ihmember ihitems ihchain =>
      simp_all [Task.tokens, Piece.tokens, Call.tokens_ofItems, Receiver.tokens, Expr.tokens]
  | callCommand _ _ _ _ ihcall ihchain | expression _ _ ihcall ihchain
  | operand _ _ _ ihcall ihchain => simp_all [Task.tokens, Piece.tokens]
  | chainCall _ hname _ _ _ ihparts ihchain =>
      simp_all [Task.tokens, CallParts.tokens_call, Receiver.tokens, (Cursor.name_ok hname).1]
  | lastCommandItem _ hends ihexpr | lastItem _ _ hends ihexpr =>
      simp_all [Task.tokens, Piece.tokens, Item.listTokens, Item.tokens, (Cursor.optional_none hends).1]
  | nextCommandItem _ hcomma _ ihexpr ihmore | nextItem _ _ hcomma _ ihexpr ihmore =>
      simp_all [Task.tokens, Piece.tokens, Item.listTokens, Item.tokens,
        (Cursor.optional_some hcomma).1]
  | binary _ hop _ _ ihright ihoperators =>
      simp_all [Task.tokens, Piece.tokens, Expr.tokens, (Cursor.take?_some hop).1]
  | infixed _ _ _ hname _ _ ihright ihoperators =>
      simp_all [Task.tokens, Piece.tokens, Call.tokens_ofItems, Receiver.tokens, Item.listTokens,
        Item.tokens, (Cursor.name_ok hname).1]
  | prefixed hop _ ihoperand =>
      simp_all [Task.tokens, Piece.tokens, Expr.tokens, (Cursor.take?_some hop).1]
  | member hdot hname _ hbare _ ihparts ihsuffixes =>
      rw [CallParts.tokens_of_isEmpty hbare] at ihparts
      simp_all [Task.tokens, Expr.tokens, (Cursor.take?_some hdot).1, (Cursor.take_ok hname).1]
  | memberCall hdot hname _ _ _ ihparts ihsuffixes =>
      simp_all [Task.tokens, CallParts.tokens_call, Receiver.tokens, (Cursor.take?_some hdot).1,
        (Cursor.take_ok hname).1]
  | index _ _ _ _ ihbrackets ihsuffixes =>
      simp_all [Task.tokens, Piece.tokens, Expr.tokens]
  | postfixed _ _ hop _ ihsuffixes =>
      simp_all [Task.tokens, Piece.tokens, Expr.tokens, (Cursor.take?_some hop).1]
  | name hhere _ _ hbare ihparts =>
      rw [CallParts.tokens_of_isEmpty hbare] at ihparts
      simp_all [Task.tokens, Piece.tokens, Expr.tokens]
  | call hhere _ _ _ ihparts =>
      simp_all [Task.tokens, Piece.tokens, CallParts.tokens_call]
  | atom hhere => simp [Task.tokens, Piece.tokens, Expr.tokens, hhere]
  | emptyParens hopening hclosing =>
      simp [Task.tokens, Piece.tokens, Expr.tokens, Brackets.tokens, Item.listTokens,
        (Cursor.expect_ok hopening).1, (Cursor.take?_some hclosing).1]
  | parens hopening _ _ hclosing ihinner =>
      simp_all [Task.tokens, Piece.tokens, Expr.tokens, (Cursor.expect_ok hopening).1,
        (Cursor.expect_ok hclosing).1]
  | sequence _ _ ihhead ihtail =>
      simp_all [Task.tokens, Piece.tokens, Expr.tokens_ofSequence]
  | sequenceNext _ _ _ ihfirst ihmore =>
      simp_all [Task.tokens, Piece.tokens, Expr.listTokens]
  | callParts htypes _ _ ihargs ihlambda =>
      simp_all [Task.tokens, Piece.tokens, Cursor.typeArgs?_rest htypes]
  | arguments hopening _ hclosing ihitems =>
      simp_all [Task.tokens, Piece.tokens, Arguments.tokens, (Cursor.expect_ok hopening).1,
        (Cursor.expect_ok hclosing).1]
  | brackets hopening _ hclosing ihitems =>
      simp_all [Task.tokens, Piece.tokens, Brackets.tokens, (Cursor.expect_ok hopening).1,
        (Cursor.expect_ok hclosing).1]
  | lambda hopening hparams _ hclosing ihbody =>
      simp_all [Task.tokens, Piece.tokens, Lambda.tokens_mk, (Cursor.expect_ok hopening).1,
        Cursor.lambdaParams?_rest hparams, (Cursor.expect_ok hclosing).1]
  | annotated hmarker hname hpath _ _ ihargs ihexpr =>
      simp_all [Task.tokens, Piece.tokens, Expr.tokens_annotated, (Cursor.expect_ok hmarker).1,
        (Cursor.name_ok hname).1, Cursor.annotationPath_rest hpath]

/-- The statements of a text are read to its end. Outside of a block nothing else ends them. -/
theorem Reads.rest_of_statements {mode : Mode} {c c' : Cursor} {task : Task} {piece : Piece}
    (h : Reads mode task c piece c') (htask : task = .statements false) : c'.rest = [] := by
  induction h with
  | textEnd hdone => exact hdone
  | nextStatement _ _ _ _ _ ihmore => exact ihmore htask
  | _ => simp at htask

end Parser

/-- A parsed script has the tokens of the text and the trivia behind them. -/
theorem tokens_of_parse {source : String} {dialect : Dialect} {script : Script}
    (h : parse source dialect = .ok script) :
    script.tokens = (lex source).tokens ∧ script.eof = (lex source).eof := by
  obtain ⟨-, heof, c, hread⟩ := Parser.reads_of_parse h
  have hall := hread.tokens_append_rest
  rw [hread.rest_of_statements rfl, List.append_nil] at hall
  exact ⟨hall.symm, heof⟩

theorem print_of_parse {source : String} {dialect : Dialect} {script : Script}
    (h : parse source dialect = .ok script) : script.print = source := by
  obtain ⟨htokens, heof⟩ := tokens_of_parse h
  rw [Script.print, htokens, heof, print_lex]

/-- A parsed script has the tokens of the text, none lost, repeated or moved, and the trivia behind
them, so it prints as the text. The lexer loses nothing either (`print_lex`), and printing a tree
prints its tokens. -/
theorem parse_lossless {source : String} {dialect : Dialect} {script : Script}
    (h : parse source dialect = .ok script) :
    script.tokens = (lex source).tokens ∧ script.eof = (lex source).eof ∧
      script.print = source := by
  obtain ⟨htokens, heof⟩ := tokens_of_parse h
  exact ⟨htokens, heof, print_of_parse h⟩

/-- A command chain, a comment behind it, and a block with parameters and type arguments. -/
theorem parse_lossless_chain :
    ∃ script,
      parse "id 'x' version '1' // v\nall \x7b c -> c.of<A, B>(1,) \x7d\n" .groovy = .ok script ∧
      script.print = "id 'x' version '1' // v\nall \x7b c -> c.of<A, B>(1,) \x7d\n" := by
  have haccepted : (parse "id 'x' version '1' // v\nall \x7b c -> c.of<A, B>(1,) \x7d\n"
      .groovy).isOk := by decide +kernel
  cases h : parse "id 'x' version '1' // v\nall \x7b c -> c.of<A, B>(1,) \x7d\n" .groovy with
  | error fault =>
      rw [h] at haccepted
      contradiction
  | ok script => exact ⟨script, rfl, (parse_lossless h).2.2⟩

end BuildPrune
