import BuildPrune.Proofs.Reading

/-!
# BuildPrune.Proofs.Grammar

The grammar of build scripts as a relation. `Reads mode task c piece c'` says that the production
`task`, started at the cursor `c`, reads `piece` and stops at `c'`. It has one rule for each way in
which a production can succeed, with the tests that lead there, and no bound on the depth.

* `Task` names the productions, each with what it was handed: `operators left` goes on behind an
  operand that has been read already.
* `Piece` is what a production answers.
* `sound`: what the parser answers at any depth, the grammar reads. The parser is opened here and
  nowhere else; what holds of every parsed script is proved by induction on `Reads`.
-/

namespace BuildPrune.Parser

/-! ### Tasks and pieces

A task is a production with what it was handed, and a piece is what it answers. With one type for
each, the rules are one inductive relation, and so every proof about them is a single induction.
-/

/-- A production and what it goes on from. Those that carry on what was begun hold what has been
read of it. -/
inductive Task
  | statements (inBlock : Bool)
  | statement
  | statementExpr (isBody : Bool)
  | statementTail (isBody : Bool) (head : Expr) (before : List Expr)
  | commandOrExpression
  | commandChain (target : Expr)
  | commandItems
  | expression
  /-- An expression, if there is one to read. -/
  | expressionIf (present : Bool)
  | operators (left : Expr)
  | unary
  | suffixes (operand : Expr)
  | primary
  | parenthesized
  | sequence (stops : List String)
  | sequenceTail (stops : List String)
  | callParts
  | arguments
  /-- Arguments in parentheses, if there are some to read. -/
  | argumentsIf (present : Bool)
  | brackets
  | items (close : String)
  | lambda
  /-- A lambda, if there is one to read. -/
  | lambdaIf (present : Bool)
  | annotated

/-- The answer of a production. All kinds of answers are in one type, so that the rules are one
relation. -/
inductive Piece
  | statements (statements : List Statement)
  | statement (statement : Statement)
  | expr (expr : Expr)
  | optionalExpr (expr : Option Expr)
  | exprs (exprs : List Expr)
  | items (items : List Item)
  | parts (parts : CallParts)
  | arguments (args : Option Arguments)
  | brackets (brackets : Brackets)
  | lambda (lambda : Option Lambda)

/-! ### The rules

Each rule has the tests of the parser for its premises, those that have failed included. So the
relation describes what the parser does with a text, and not just which texts it accepts. -/

/-- An expression that a command chain goes on from only as it stands: neither a call nor, in front
of an argument, a member. -/
def endsCommand (c : Cursor) : Expr → Bool
  | .call _ => false
  | .field _ _ _ => !c.nextIs Cursor.startsArgument
  | _ => true

/-- The production reads the piece from the first cursor to the second. The rules are in the order
of the productions, and each has the tests that lead to it for premises. -/
inductive Reads : Mode → Task → Cursor → Piece → Cursor → Prop
  | blockEnd {mode c} (hclose : c.isAt closeBrace) :
      Reads mode (.statements true) c (.statements []) c
  | textEnd {mode c} (hdone : c.rest = []) : Reads mode (.statements false) c (.statements []) c
  | nextStatement {mode inBlock c c₁ c₂ first more}
      (hopen : (inBlock && c.isAt closeBrace) = false) (hleft : c.rest ≠ [])
      (hfirst : Reads mode .statement c (.statement first) c₁)
      (hmore : Reads mode (.statements inBlock) c₁ (.statements more) c₂) :
      Reads mode (.statements inBlock) c (.statements (first :: more)) c₂
  | emptyStatement {mode c c₁ semicolon} (hread : c.take? (·.is ";") = some (semicolon, c₁)) :
      Reads mode .statement c (.statement (.empty semicolon)) c₁
  | importStatement {mode c c₁ path} (hfull : c.take? (·.is ";") = none) (hstarts : c.atImport)
      (hread : c.importing = .ok (path, c₁)) :
      Reads mode .statement c (.statement (.importing path)) c₁
  | exprStatement {mode c c₁ c₂ expr semicolon} (hfull : c.take? (·.is ";") = none)
      (hplain : c.atImport = false)
      (hexpr : Reads mode (.statementExpr false) c (.expr expr) c₁)
      (hend : c₁.optional ";" = (semicolon, c₂)) :
      Reads mode .statement c (.statement (.expression expr semicolon)) c₂
  | statementExpr {mode isBody c c₁ c₂ head tail}
      (hhead : Reads mode .commandOrExpression c (.expr head) c₁)
      (htail : Reads mode (.statementTail isBody head []) c₁ (.exprs tail) c₂) :
      Reads mode (.statementExpr isBody) c (.expr (.ofSequence head tail)) c₂
  | tailElse {mode isBody c head before}
      (hother : (isBody && c.isAt "else" && !head.isAtom "if") = true) :
      Reads mode (.statementTail isBody head before) c (.exprs before) c
  | tailNext {mode isBody c c₁ c₂ head before expr tail}
      (hown : (isBody && c.isAt "else" && !head.isAtom "if") = false)
      (hgoes : c.atStatementEnd mode = false)
      (hexpr : Reads mode .commandOrExpression c (.expr expr) c₁)
      (htail : Reads mode (.statementTail isBody head (before ++ [expr])) c₁ (.exprs tail) c₂) :
      Reads mode (.statementTail isBody head before) c (.exprs tail) c₂
  | tailBody {mode isBody c c₁ c₂ head before body tail}
      (hown : (isBody && c.isAt "else" && !head.isAtom "if") = false)
      (hends : c.atStatementEnd mode) (hheader : endsControlHeader head before)
      (hdetached : c.atDetachedBody)
      (hbody : Reads mode (.statementExpr true) c (.expr body) c₁)
      (htail : Reads mode (.statementTail isBody head (before ++ [body])) c₁ (.exprs tail) c₂) :
      Reads mode (.statementTail isBody head before) c (.exprs tail) c₂
  | tailEnd {mode isBody c head before}
      (hown : (isBody && c.isAt "else" && !head.isAtom "if") = false)
      (hends : c.atStatementEnd mode)
      (hcomplete : (endsControlHeader head before && c.atDetachedBody) = false) :
      Reads mode (.statementTail isBody head before) c (.exprs before) c
  | plainExpression {mode c c₁ expr} (hcaps : mode.caps.commandExpressions = false)
      (hexpr : Reads mode .expression c (.expr expr) c₁) :
      Reads mode .commandOrExpression c (.expr expr) c₁
  | command {mode c c₁ c₂ c₃ name items expr} (hcaps : mode.caps.commandExpressions)
      (hstarts : c.atCommand) (hname : c.name = .ok (name, c₁))
      (hitems : Reads mode .commandItems c₁ (.items items) c₂)
      (hchain : Reads mode (.commandChain (Call.ofItems none name items .command)) c₂
        (.expr expr) c₃) :
      Reads mode .commandOrExpression c (.expr expr) c₃
  | memberCommand {mode c c₁ c₂ c₃ target dot name items expr}
      (hcaps : mode.caps.commandExpressions) (hplain : c.atCommand = false)
      (hmember : Reads mode .expression c (.expr (.field target dot name)) c₁)
      (hstarts : c₁.nextIs Cursor.startsArgument)
      (hitems : Reads mode .commandItems c₁ (.items items) c₂)
      (hchain : Reads mode
        (.commandChain (Call.ofItems (some ⟨target, some dot⟩) name items .command)) c₂
        (.expr expr) c₃) :
      Reads mode .commandOrExpression c (.expr expr) c₃
  | callCommand {mode c c₁ c₂ call expr} (hcaps : mode.caps.commandExpressions)
      (hplain : c.atCommand = false) (hcall : Reads mode .expression c (.expr (.call call)) c₁)
      (hchain : Reads mode (.commandChain (.call call)) c₁ (.expr expr) c₂) :
      Reads mode .commandOrExpression c (.expr expr) c₂
  | noCommand {mode c c₁ expr} (hcaps : mode.caps.commandExpressions)
      (hplain : c.atCommand = false) (hexpr : Reads mode .expression c (.expr expr) c₁)
      (hends : endsCommand c₁ expr) :
      Reads mode .commandOrExpression c (.expr expr) c₁
  | chainCall {mode c c₁ c₂ c₃ target name parts expr} (hlink : c.atChainLink)
      (hname : c.name = .ok (name, c₁)) (hopening : c₁.isAt "(")
      (hparts : Reads mode .callParts c₁ (.parts parts) c₂)
      (hchain : Reads mode (.commandChain (parts.call (some ⟨target, none⟩) name .command)) c₂
        (.expr expr) c₃) :
      Reads mode (.commandChain target) c (.expr expr) c₃
  | chainCommand {mode c c₁ c₂ c₃ target name items expr} (hlink : c.atChainLink)
      (hname : c.name = .ok (name, c₁)) (hbare : c₁.isAt "(" = false)
      (hitems : Reads mode .commandItems c₁ (.items items) c₂)
      (hchain : Reads mode
        (.commandChain (Call.ofItems (some ⟨target, none⟩) name items .command)) c₂
        (.expr expr) c₃) :
      Reads mode (.commandChain target) c (.expr expr) c₃
  | chainEnd {mode c target} (hends : c.atChainLink = false) :
      Reads mode (.commandChain target) c (.expr target) c
  | lastCommandItem {mode c c₁ c₂ expr}
      (hexpr : Reads mode .expression c (.expr expr) c₁)
      (hends : c₁.optional "," = (none, c₂)) :
      Reads mode .commandItems c (.items [⟨expr, none⟩]) c₂
  | nextCommandItem {mode c c₁ c₂ c₃ expr comma more}
      (hexpr : Reads mode .expression c (.expr expr) c₁)
      (hcomma : c₁.optional "," = (some comma, c₂))
      (hmore : Reads mode .commandItems c₂ (.items more) c₃) :
      Reads mode .commandItems c (.items (⟨expr, some comma⟩ :: more)) c₃
  | expression {mode c c₁ c₂ left expr} (hleft : Reads mode .unary c (.expr left) c₁)
      (hoperators : Reads mode (.operators left) c₁ (.expr expr) c₂) :
      Reads mode .expression c (.expr expr) c₂
  | noExpression {mode c} : Reads mode (.expressionIf false) c (.optionalExpr none) c
  | someExpression {mode c c₁ expr} (hexpr : Reads mode .expression c (.expr expr) c₁) :
      Reads mode (.expressionIf true) c (.optionalExpr (some expr)) c₁
  | operatorsEnd {mode c left} (hends : c.atStatementEnd mode) :
      Reads mode (.operators left) c (.expr left) c
  | binary {mode c c₁ c₂ c₃ left op right expr} (hgoes : c.atStatementEnd mode = false)
      (hop : c.take? (·.isOneOf binaryOperators) = some (op, c₁))
      (hright : Reads mode .unary c₁ (.expr right) c₂)
      (hoperators : Reads mode (.operators (.binary left op right)) c₂ (.expr expr) c₃) :
      Reads mode (.operators left) c (.expr expr) c₃
  | infixed {mode c c₁ c₂ c₃ left name right expr} (hgoes : c.atStatementEnd mode = false)
      (hnoOp : c.take? (·.isOneOf binaryOperators) = none) (hstarts : c.atInfixedCall mode left)
      (hname : c.name = .ok (name, c₁)) (hright : Reads mode .unary c₁ (.expr right) c₂)
      (hoperators : Reads mode
        (.operators (Call.ofItems (some ⟨left, none⟩) name [⟨right, none⟩] .infixed)) c₂
        (.expr expr) c₃) :
      Reads mode (.operators left) c (.expr expr) c₃
  | operatorsStop {mode c left} (hgoes : c.atStatementEnd mode = false)
      (hnoOp : c.take? (·.isOneOf binaryOperators) = none)
      (hnoCall : c.atInfixedCall mode left = false) :
      Reads mode (.operators left) c (.expr left) c
  | prefixed {mode c c₁ c₂ op operand}
      (hop : c.take? (·.isOneOf prefixOperators) = some (op, c₁))
      (hoperand : Reads mode .unary c₁ (.expr operand) c₂) :
      Reads mode .unary c (.expr (.prefixed op operand)) c₂
  | operand {mode c c₁ c₂ operand expr} (hnoOp : c.take? (·.isOneOf prefixOperators) = none)
      (hprimary : Reads mode .primary c (.expr operand) c₁)
      (hsuffixes : Reads mode (.suffixes operand) c₁ (.expr expr) c₂) :
      Reads mode .unary c (.expr expr) c₂
  | member {mode c c₁ c₂ c₃ c₄ operand dot name parts expr}
      (hdot : c.take? (·.isOneOf memberDots) = some (dot, c₁))
      (hname : c₁.take (fun t => t.kind == .ident || t.kind == .str)
        (.expectedMember dot.text) = .ok (name, c₂))
      (hparts : Reads mode .callParts c₂ (.parts parts) c₃) (hbare : parts.isEmpty)
      (hsuffixes : Reads mode (.suffixes (.field operand dot name)) c₃ (.expr expr) c₄) :
      Reads mode (.suffixes operand) c (.expr expr) c₄
  | memberCall {mode c c₁ c₂ c₃ c₄ operand dot name parts expr}
      (hdot : c.take? (·.isOneOf memberDots) = some (dot, c₁))
      (hname : c₁.take (fun t => t.kind == .ident || t.kind == .str)
        (.expectedMember dot.text) = .ok (name, c₂))
      (hparts : Reads mode .callParts c₂ (.parts parts) c₃) (hsome : parts.isEmpty = false)
      (hsuffixes : Reads mode
        (.suffixes (parts.call (some ⟨operand, some dot⟩) name .regular)) c₃ (.expr expr) c₄) :
      Reads mode (.suffixes operand) c (.expr expr) c₄
  | index {mode c c₁ c₂ operand brackets expr}
      (hnoDot : c.take? (·.isOneOf memberDots) = none) (hopening : c.isAtAttached "[")
      (hbrackets : Reads mode .brackets c (.brackets brackets) c₁)
      (hsuffixes : Reads mode (.suffixes (.index operand brackets)) c₁ (.expr expr) c₂) :
      Reads mode (.suffixes operand) c (.expr expr) c₂
  | postfixed {mode c c₁ c₂ operand op expr}
      (hnoDot : c.take? (·.isOneOf memberDots) = none) (hnoIndex : c.isAtAttached "[" = false)
      (hop : (c.take? fun t => t.isOneOf postfixOperators && t.attached) = some (op, c₁))
      (hsuffixes : Reads mode (.suffixes (.postfixed operand op)) c₁ (.expr expr) c₂) :
      Reads mode (.suffixes operand) c (.expr expr) c₂
  | suffixesEnd {mode c operand}
      (hnoDot : c.take? (·.isOneOf memberDots) = none) (hnoIndex : c.isAtAttached "[" = false)
      (hnoOp : (c.take? fun t => t.isOneOf postfixOperators && t.attached) = none) :
      Reads mode (.suffixes operand) c (.expr operand) c
  | name {mode c c₁ t rest parts} (hhere : c.rest = t :: rest) (hisName : t.isName)
      (hparts : Reads mode .callParts ⟨some t, rest⟩ (.parts parts) c₁) (hbare : parts.isEmpty) :
      Reads mode .primary c (.expr (.atom t)) c₁
  | call {mode c c₁ t rest parts} (hhere : c.rest = t :: rest) (hisName : t.isName)
      (hparts : Reads mode .callParts ⟨some t, rest⟩ (.parts parts) c₁)
      (hsome : parts.isEmpty = false) :
      Reads mode .primary c (.expr (parts.call none t .regular)) c₁
  | lambdaExpr {mode c c₁ lambda} (hnoName : c.nextIs Token.isName = false)
      (hopening : c.isAt openBrace)
      (hlambda : Reads mode .lambda c (.lambda (some lambda)) c₁) :
      Reads mode .primary c (.expr (.lambda lambda)) c₁
  | group {mode c c₁ expr} (hnoName : c.nextIs Token.isName = false) (hopening : c.isAt "(")
      (hgroup : Reads mode .parenthesized c (.expr expr) c₁) :
      Reads mode .primary c (.expr expr) c₁
  | list {mode c c₁ brackets} (hnoName : c.nextIs Token.isName = false) (hopening : c.isAt "[")
      (hbrackets : Reads mode .brackets c (.brackets brackets) c₁) :
      Reads mode .primary c (.expr (.list brackets)) c₁
  | annotatedExpr {mode c c₁ expr} (hnoName : c.nextIs Token.isName = false)
      (hopening : c.atAnnotated mode)
      (hannotated : Reads mode .annotated c (.expr expr) c₁) :
      Reads mode .primary c (.expr expr) c₁
  | atom {mode c t rest} (hhere : c.rest = t :: rest) (hknown : t.kind ≠ .unknown)
      (hnoName : t.isName = false) (hnoCloser : t.isCloser = false)
      (hnoOpener : t.isOneOf [openBrace, "(", "["] = false)
      (hnoMarker : c.atAnnotated mode = false) :
      Reads mode .primary c (.expr (.atom t)) ⟨some t, rest⟩
  | emptyParens {mode c c₁ c₂ opening closing} (hopening : c.expect "(" = .ok (opening, c₁))
      (hclosing : c₁.take? (·.is ")") = some (closing, c₂)) :
      Reads mode .parenthesized c (.expr (.list ⟨opening, [], closing⟩)) c₂
  | parens {mode c c₁ c₂ c₃ opening inner closing}
      (hopening : c.expect "(" = .ok (opening, c₁)) (hfull : c₁.take? (·.is ")") = none)
      (hinner : Reads mode.inBrackets (.sequence []) c₁ (.expr inner) c₂)
      (hclosing : c₂.expect ")" = .ok (closing, c₃)) :
      Reads mode .parenthesized c (.expr (.paren opening inner closing)) c₃
  | sequence {mode stops c c₁ c₂ head tail}
      (hhead : Reads mode .expression c (.expr head) c₁)
      (htail : Reads mode (.sequenceTail stops) c₁ (.exprs tail) c₂) :
      Reads mode (.sequence stops) c (.expr (.ofSequence head tail)) c₂
  | sequenceEnd {mode stops c}
      (hends : (c.rest.isEmpty || c.nextIs fun t => t.isCloser || t.isOneOf stops) = true) :
      Reads mode (.sequenceTail stops) c (.exprs []) c
  | sequenceNext {mode stops c c₁ c₂ first more}
      (hgoes : (c.rest.isEmpty || c.nextIs fun t => t.isCloser || t.isOneOf stops) = false)
      (hfirst : Reads mode .expression c (.expr first) c₁)
      (hmore : Reads mode (.sequenceTail stops) c₁ (.exprs more) c₂) :
      Reads mode (.sequenceTail stops) c (.exprs (first :: more)) c₂
  | callParts {mode c c₁ c₂ c₃ types args lambda} (htypes : c.typeArgs? = (types, c₁))
      (hargs : Reads mode (.argumentsIf (c₁.isAtOnLine "(")) c₁ (.arguments args) c₂)
      (hlambda : Reads mode (.lambdaIf (c₂.isAtOnLine openBrace)) c₂ (.lambda lambda) c₃) :
      Reads mode .callParts c (.parts ⟨types, args, lambda⟩) c₃
  | arguments {mode c c₁ c₂ c₃ opening items closing}
      (hopening : c.expect "(" = .ok (opening, c₁))
      (hitems : Reads mode.inBrackets (.items ")") c₁ (.items items) c₂)
      (hclosing : c₂.expect ")" = .ok (closing, c₃)) :
      Reads mode .arguments c (.arguments (some ⟨some opening, items, some closing⟩)) c₃
  | noArguments {mode c} : Reads mode (.argumentsIf false) c (.arguments none) c
  | someArguments {mode c c₁ args} (hargs : Reads mode .arguments c (.arguments args) c₁) :
      Reads mode (.argumentsIf true) c (.arguments args) c₁
  | brackets {mode c c₁ c₂ c₃ opening items closing}
      (hopening : c.expect "[" = .ok (opening, c₁))
      (hitems : Reads mode.inBrackets (.items "]") c₁ (.items items) c₂)
      (hclosing : c₂.expect "]" = .ok (closing, c₃)) :
      Reads mode .brackets c (.brackets ⟨opening, items, closing⟩) c₃
  | itemsEnd {mode close c} (hends : c.isAt close) : Reads mode (.items close) c (.items []) c
  | lastItem {mode close c c₁ c₂ expr} (hgoes : c.isAt close = false)
      (hexpr : Reads mode (.sequence [","]) c (.expr expr) c₁)
      (hends : c₁.optional "," = (none, c₂)) :
      Reads mode (.items close) c (.items [⟨expr, none⟩]) c₂
  | nextItem {mode close c c₁ c₂ c₃ expr comma more} (hgoes : c.isAt close = false)
      (hexpr : Reads mode (.sequence [","]) c (.expr expr) c₁)
      (hcomma : c₁.optional "," = (some comma, c₂))
      (hmore : Reads mode (.items close) c₂ (.items more) c₃) :
      Reads mode (.items close) c (.items (⟨expr, some comma⟩ :: more)) c₃
  | lambda {mode c c₁ c₂ c₃ c₄ opening params body closing}
      (hopening : c.expect openBrace = .ok (opening, c₁))
      (hparams : c₁.lambdaParams? = (params, c₂))
      (hbody : Reads mode.inBlock (.statements true) c₂ (.statements body) c₃)
      (hclosing : c₃.expect closeBrace = .ok (closing, c₄)) :
      Reads mode .lambda c (.lambda (some ⟨opening, params, body, closing⟩)) c₄
  | noLambda {mode c} : Reads mode (.lambdaIf false) c (.lambda none) c
  | someLambda {mode c c₁ lambda} (hlambda : Reads mode .lambda c (.lambda lambda) c₁) :
      Reads mode (.lambdaIf true) c (.lambda lambda) c₁
  | annotated {mode c c₁ c₂ c₃ c₄ c₅ marker first more args expr}
      (hmarker : c.expect "@" = .ok (marker, c₁)) (hname : c₁.name = .ok (first, c₂))
      (hpath : Cursor.annotationPath c₂.rest.length c₂ = (more, c₃))
      (hargs : Reads mode (.argumentsIf (c₃.isAtAttached "(")) c₃ (.arguments args) c₄)
      (hexpr : Reads mode
        (.expressionIf (!Cursor.isFileLevel (first :: more) && c₄.atAnnotatable)) c₄
        (.optionalExpr expr) c₅) :
      Reads mode .annotated c (.expr (.annotated marker (first :: more) args expr)) c₅

/-! ### The parser reads by the rules

A production at depth `n + 1` calls others at depth `n` only, so the productions are followed all at
once: `Sound n` collects what is known of them at depth `n`. -/

/-- At depth `n`, each production answers what the grammar reads. At the next depth each production
is followed with this for the ones that it calls. -/
structure Sound (n : Nat) : Prop where
  statements {mode inBlock c out c'} (h : Parser.statements n mode inBlock c = .ok (out, c')) :
    Reads mode (.statements inBlock) c (.statements out) c'
  statement {mode c out c'} (h : Parser.statement n mode c = .ok (out, c')) :
    Reads mode .statement c (.statement out) c'
  statementExpr {mode isBody c out c'} (h : Parser.statementExpr n mode isBody c = .ok (out, c')) :
    Reads mode (.statementExpr isBody) c (.expr out) c'
  statementTail {mode isBody head before c out c'}
    (h : Parser.statementTail n mode isBody head before c = .ok (out, c')) :
    Reads mode (.statementTail isBody head before) c (.exprs out) c'
  commandOrExpression {mode c out c'} (h : Parser.commandOrExpression n mode c = .ok (out, c')) :
    Reads mode .commandOrExpression c (.expr out) c'
  commandChain {mode target c out c'} (h : Parser.commandChain n mode target c = .ok (out, c')) :
    Reads mode (.commandChain target) c (.expr out) c'
  commandItems {mode c out c'} (h : Parser.commandItems n mode c = .ok (out, c')) :
    Reads mode .commandItems c (.items out) c'
  expression {mode c out c'} (h : Parser.expression n mode c = .ok (out, c')) :
    Reads mode .expression c (.expr out) c'
  operators {mode left c out c'} (h : Parser.operators n mode left c = .ok (out, c')) :
    Reads mode (.operators left) c (.expr out) c'
  unary {mode c out c'} (h : Parser.unary n mode c = .ok (out, c')) :
    Reads mode .unary c (.expr out) c'
  suffixes {mode operand c out c'} (h : Parser.suffixes n mode operand c = .ok (out, c')) :
    Reads mode (.suffixes operand) c (.expr out) c'
  primary {mode c out c'} (h : Parser.primary n mode c = .ok (out, c')) :
    Reads mode .primary c (.expr out) c'
  parenthesized {mode c out c'} (h : Parser.parenthesized n mode c = .ok (out, c')) :
    Reads mode .parenthesized c (.expr out) c'
  sequence {mode stops c out c'} (h : Parser.sequence n mode stops c = .ok (out, c')) :
    Reads mode (.sequence stops) c (.expr out) c'
  sequenceTail {mode stops c out c'} (h : Parser.sequenceTail n mode stops c = .ok (out, c')) :
    Reads mode (.sequenceTail stops) c (.exprs out) c'
  callParts {mode c out c'} (h : Parser.callParts n mode c = .ok (out, c')) :
    Reads mode .callParts c (.parts out) c'
  arguments {mode c out c'} (h : Parser.arguments n mode c = .ok (out, c')) :
    Reads mode .arguments c (.arguments (some out)) c'
  brackets {mode c out c'} (h : Parser.brackets n mode c = .ok (out, c')) :
    Reads mode .brackets c (.brackets out) c'
  items {mode close c out c'} (h : Parser.items n mode close c = .ok (out, c')) :
    Reads mode (.items close) c (.items out) c'
  lambda {mode c out c'} (h : Parser.lambda n mode c = .ok (out, c')) :
    Reads mode .lambda c (.lambda (some out)) c'
  annotated {mode c out c'} (h : Parser.annotated n mode c = .ok (out, c')) :
    Reads mode .annotated c (.expr out) c'

namespace Sound

variable {n : Nat} {mode : Mode} {c c' : Cursor}

/-- Statements are read one after the other until the closing brace of the block or, outside of
blocks, the end of the text. The brace is left to the block. -/
theorem statements_succ (ih : Sound n) {inBlock : Bool} {out : List Statement}
    (h : Parser.statements (n + 1) mode inBlock c = .ok (out, c')) :
    Reads mode (.statements inBlock) c (.statements out) c' := by
  rw [Parser.statements] at h
  split at h
  · next hclose =>
      obtain ⟨rfl, rfl⟩ := by simpa using h
      simp only [Bool.and_eq_true] at hclose
      rw [hclose.1]
      exact .blockEnd hclose.2
  · next hopen =>
      split at h
      · next hempty =>
          split at h
          · simp at h
          · next hblock =>
              obtain ⟨rfl, rfl⟩ := by simpa using h
              rw [eq_false_of_ne_true hblock]
              exact .textEnd (by simpa using hempty)
      · next hleft =>
          obtain ⟨⟨first, c₁⟩, hfirst, h⟩ := ok_of_bind h
          obtain ⟨⟨more, c₂⟩, hmore, h⟩ := ok_of_bind h
          cases h
          exact .nextStatement (eq_false_of_ne_true hopen) (by simpa using hleft)
            (ih.statement hfirst) (ih.statements hmore)

/-- A statement is a lone semicolon, an import, or an expression with the semicolon that may follow
it. The tests come in this order, so an import is never read as an expression. -/
theorem statement_succ (ih : Sound n) {out : Statement}
    (h : Parser.statement (n + 1) mode c = .ok (out, c')) :
    Reads mode .statement c (.statement out) c' := by
  rw [Parser.statement] at h
  split at h
  · next semicolon c₁ hread =>
      cases h
      exact .emptyStatement hread
  · next hfull =>
      split at h
      · next hstarts =>
          obtain ⟨⟨path, c₁⟩, hread, h⟩ := ok_of_bind h
          cases h
          exact .importStatement hfull hstarts hread
      · next hplain =>
          obtain ⟨⟨expr, c₁⟩, hexpr, h⟩ := ok_of_bind h
          cases h
          exact .exprStatement hfull (eq_false_of_ne_true hplain)
            (ih.statementExpr hexpr) rfl

theorem statementExpr_succ (ih : Sound n) {isBody : Bool} {out : Expr}
    (h : Parser.statementExpr (n + 1) mode isBody c = .ok (out, c')) :
    Reads mode (.statementExpr isBody) c (.expr out) c' := by
  rw [Parser.statementExpr] at h
  obtain ⟨⟨head, c₁⟩, hhead, h⟩ := ok_of_bind h
  obtain ⟨⟨tail, c₂⟩, htail, h⟩ := ok_of_bind h
  cases h
  exact .statementExpr (ih.commandOrExpression hhead) (ih.statementTail htail)

/-- Behind the head of a statement there can be more expressions, up to the end of the statement. A
control header goes on over the line break in front of its body, and a body stops in front of the
`else` of its header. -/
theorem statementTail_succ (ih : Sound n) {isBody : Bool} {head : Expr} {before out : List Expr}
    (h : Parser.statementTail (n + 1) mode isBody head before c = .ok (out, c')) :
    Reads mode (.statementTail isBody head before) c (.exprs out) c' := by
  rw [Parser.statementTail] at h
  split at h
  · next hother =>
      cases h
      exact .tailElse hother
  · next hown =>
      replace hown := eq_false_of_ne_true hown
      split at h
      · next hgoes =>
          obtain ⟨⟨expr, c₁⟩, hexpr, h⟩ := ok_of_bind h
          exact .tailNext hown (by simpa using hgoes) (ih.commandOrExpression hexpr)
            (ih.statementTail h)
      · next hends =>
          have hends : c.atStatementEnd mode := by simpa using hends
          split at h
          · next hbody =>
              simp only [Bool.and_eq_true] at hbody
              obtain ⟨⟨body, c₁⟩, hread, h⟩ := ok_of_bind h
              exact .tailBody hown hends hbody.1 hbody.2 (ih.statementExpr hread)
                (ih.statementTail h)
          · next hcomplete =>
              cases h
              exact .tailEnd hown hends (eq_false_of_ne_true hcomplete)

/-- Where the dialect has commands, a name or a member with an argument behind it becomes a call
without parentheses. The chain then goes on from that call, or from one with parentheses. -/
theorem commandOrExpression_succ (ih : Sound n) {out : Expr}
    (h : Parser.commandOrExpression (n + 1) mode c = .ok (out, c')) :
    Reads mode .commandOrExpression c (.expr out) c' := by
  rw [Parser.commandOrExpression] at h
  split at h
  · next hcaps => exact .plainExpression (by simpa using hcaps) (ih.expression h)
  · next hcaps =>
      have hcaps : mode.caps.commandExpressions := by simpa using hcaps
      split at h
      · next hstarts =>
          obtain ⟨⟨name, c₁⟩, hname, h⟩ := ok_of_bind h
          obtain ⟨⟨items, c₂⟩, hitems, h⟩ := ok_of_bind h
          exact .command hcaps hstarts hname (ih.commandItems hitems) (ih.commandChain h)
      · next hplain =>
          replace hplain := eq_false_of_ne_true hplain
          obtain ⟨⟨expr, c₁⟩, hexpr, h⟩ := ok_of_bind h
          replace hexpr := ih.expression hexpr
          dsimp only at h
          split at h
          · next target dot name =>
              split at h
              · next hstarts =>
                  obtain ⟨⟨items, c₂⟩, hitems, h⟩ := ok_of_bind h
                  exact .memberCommand hcaps hplain hexpr hstarts (ih.commandItems hitems)
                    (ih.commandChain h)
              · next hends =>
                  cases h
                  exact .noCommand hcaps hplain hexpr (by simpa [endsCommand] using hends)
          · exact .callCommand hcaps hplain hexpr (ih.commandChain h)
          · next hfield hcall =>
              cases h
              refine .noCommand hcaps hplain hexpr ?_
              cases out with
              | field target dot name => exact absurd rfl (hfield target dot name)
              | call call => exact absurd rfl (hcall call)
              | _ => rfl

/-- A command chain goes on as long as a link follows the call that was read last: a name with
arguments, in parentheses or without. -/
theorem commandChain_succ (ih : Sound n) {target out : Expr}
    (h : Parser.commandChain (n + 1) mode target c = .ok (out, c')) :
    Reads mode (.commandChain target) c (.expr out) c' := by
  rw [Parser.commandChain] at h
  split at h
  · next hlink =>
      obtain ⟨⟨name, c₁⟩, hname, h⟩ := ok_of_bind h
      dsimp only at h
      split at h
      · next hopening =>
          obtain ⟨⟨parts, c₂⟩, hparts, h⟩ := ok_of_bind h
          exact .chainCall hlink hname hopening (ih.callParts hparts) (ih.commandChain h)
      · next hbare =>
          obtain ⟨⟨items, c₂⟩, hitems, h⟩ := ok_of_bind h
          exact .chainCommand hlink hname (eq_false_of_ne_true hbare) (ih.commandItems hitems)
            (ih.commandChain h)
  · next hends =>
      cases h
      exact .chainEnd (eq_false_of_ne_true hends)

theorem commandItems_succ (ih : Sound n) {out : List Item}
    (h : Parser.commandItems (n + 1) mode c = .ok (out, c')) :
    Reads mode .commandItems c (.items out) c' := by
  rw [Parser.commandItems] at h
  obtain ⟨⟨expr, c₁⟩, hexpr, h⟩ := ok_of_bind h
  dsimp only at h
  split at h
  · next c₂ hends =>
      cases h
      exact .lastCommandItem (ih.expression hexpr) hends
  · next comma c₂ hcomma =>
      obtain ⟨⟨more, c₃⟩, hmore, h⟩ := ok_of_bind h
      cases h
      exact .nextCommandItem (ih.expression hexpr) hcomma (ih.commandItems hmore)

theorem expression_succ (ih : Sound n) {out : Expr}
    (h : Parser.expression (n + 1) mode c = .ok (out, c')) :
    Reads mode .expression c (.expr out) c' := by
  rw [Parser.expression] at h
  obtain ⟨⟨left, c₁⟩, hleft, h⟩ := ok_of_bind h
  exact .expression (ih.unary hleft) (ih.operators h)

/-- Operators and infix calls are read from left to right. There are no precedences: what was read
becomes the left side of the next one. -/
theorem operators_succ (ih : Sound n) {left out : Expr}
    (h : Parser.operators (n + 1) mode left c = .ok (out, c')) :
    Reads mode (.operators left) c (.expr out) c' := by
  rw [Parser.operators] at h
  split at h
  · next hends =>
      cases h
      exact .operatorsEnd hends
  · next hgoes =>
      replace hgoes := eq_false_of_ne_true hgoes
      split at h
      · next op c₁ hop =>
          obtain ⟨⟨right, c₂⟩, hright, h⟩ := ok_of_bind h
          exact .binary hgoes hop (ih.unary hright) (ih.operators h)
      · next hnoOp =>
          split at h
          · next hstarts =>
              obtain ⟨⟨name, c₁⟩, hname, h⟩ := ok_of_bind h
              obtain ⟨⟨right, c₂⟩, hright, h⟩ := ok_of_bind h
              exact .infixed hgoes hnoOp hstarts hname (ih.unary hright) (ih.operators h)
          · next hnoCall =>
              cases h
              exact .operatorsStop hgoes hnoOp (eq_false_of_ne_true hnoCall)

theorem unary_succ (ih : Sound n) {out : Expr}
    (h : Parser.unary (n + 1) mode c = .ok (out, c')) : Reads mode .unary c (.expr out) c' := by
  rw [Parser.unary] at h
  split at h
  · next op c₁ hop =>
      obtain ⟨⟨operand, c₂⟩, hoperand, h⟩ := ok_of_bind h
      cases h
      exact .prefixed hop (ih.unary hoperand)
  · next hnoOp =>
      obtain ⟨⟨operand, c₁⟩, hprimary, h⟩ := ok_of_bind h
      exact .operand hnoOp (ih.primary hprimary) (ih.suffixes h)

/-- What can follow an operand: a member, which is a call if it has the parts of one, an index, or a
postfix operator. Each becomes the operand for the next one. -/
theorem suffixes_succ (ih : Sound n) {operand out : Expr}
    (h : Parser.suffixes (n + 1) mode operand c = .ok (out, c')) :
    Reads mode (.suffixes operand) c (.expr out) c' := by
  rw [Parser.suffixes] at h
  split at h
  · next dot c₁ hdot =>
      obtain ⟨⟨name, c₂⟩, hname, h⟩ := ok_of_bind h
      obtain ⟨⟨parts, c₃⟩, hparts, h⟩ := ok_of_bind h
      dsimp only at h
      split at h
      · next hbare => exact .member hdot hname (ih.callParts hparts) hbare (ih.suffixes h)
      · next hsome =>
          exact .memberCall hdot hname (ih.callParts hparts) (eq_false_of_ne_true hsome)
            (ih.suffixes h)
  · next hnoDot =>
      split at h
      · next hopening =>
          obtain ⟨⟨brackets, c₁⟩, hbrackets, h⟩ := ok_of_bind h
          exact .index hnoDot hopening (ih.brackets hbrackets) (ih.suffixes h)
      · next hnoIndex =>
          replace hnoIndex := eq_false_of_ne_true hnoIndex
          split at h
          · next op c₁ hop => exact .postfixed hnoDot hnoIndex hop (ih.suffixes h)
          · next hnoOp =>
              cases h
              exact .suffixesEnd hnoDot hnoIndex hnoOp

/-- What an expression can start with is told by the first token: a name with or without the parts
of a call, a block, a bracket, an annotation, or any other token that stands for itself. -/
theorem primary_succ (ih : Sound n) {out : Expr}
    (h : Parser.primary (n + 1) mode c = .ok (out, c')) :
    Reads mode .primary c (.expr out) c' := by
  rw [Parser.primary] at h
  split at h
  · simp at h
  next t rest hhere =>
  have hnext : ∀ text, c.isAt text = t.is text := by
    intro text
    simp [Cursor.isAt, Cursor.nextIs, Cursor.next, hhere]
  dsimp only at h
  split at h
  · simp at h
  next hknown =>
  split at h
  · next hisName =>
      obtain ⟨⟨parts, c₁⟩, hparts, h⟩ := ok_of_bind h
      dsimp only at h
      split at h
      · next hbare =>
          cases h
          exact .name hhere hisName (ih.callParts hparts) hbare
      · next hsome =>
          cases h
          exact .call hhere hisName (ih.callParts hparts) (eq_false_of_ne_true hsome)
  next hnoName =>
  replace hnoName : c.nextIs Token.isName = false := by
    simpa [Cursor.nextIs, Cursor.next, hhere] using hnoName
  split at h
  · simp at h
  next hnoCloser =>
  split at h
  · next hopening =>
      obtain ⟨⟨lambda, c₁⟩, hlambda, h⟩ := ok_of_bind h
      cases h
      exact .lambdaExpr hnoName (by rw [hnext]; exact hopening) (ih.lambda hlambda)
  next hnoBrace =>
  split at h
  · next hopening => exact .group hnoName (by rw [hnext]; exact hopening) (ih.parenthesized h)
  next hnoParen =>
  split at h
  · next hopening =>
      obtain ⟨⟨brackets, c₁⟩, hbrackets, h⟩ := ok_of_bind h
      cases h
      exact .list hnoName (by rw [hnext]; exact hopening) (ih.brackets hbrackets)
  next hnoBracket =>
  split at h
  · next hopening => exact .annotatedExpr hnoName hopening (ih.annotated h)
  · next hnoMarker =>
      cases h
      refine .atom hhere (by simpa using hknown)
        (by simpa [Cursor.nextIs, Cursor.next, hhere] using hnoName)
        (eq_false_of_ne_true hnoCloser) ?_ (eq_false_of_ne_true hnoMarker)
      simp [Token.isOneOf, hnoBrace, hnoParen, hnoBracket]

theorem parenthesized_succ (ih : Sound n) {out : Expr}
    (h : Parser.parenthesized (n + 1) mode c = .ok (out, c')) :
    Reads mode .parenthesized c (.expr out) c' := by
  rw [Parser.parenthesized] at h
  obtain ⟨⟨opening, c₁⟩, hopening, h⟩ := ok_of_bind h
  dsimp only at h
  split at h
  · next closing c₂ hclosing =>
      cases h
      exact .emptyParens hopening hclosing
  · next hfull =>
      obtain ⟨⟨inner, c₂⟩, hinner, h⟩ := ok_of_bind h
      obtain ⟨⟨closing, c₃⟩, hclosing, h⟩ := ok_of_bind h
      cases h
      exact .parens hopening hfull (ih.sequence hinner) hclosing

theorem sequence_succ (ih : Sound n) {stops : List String} {out : Expr}
    (h : Parser.sequence (n + 1) mode stops c = .ok (out, c')) :
    Reads mode (.sequence stops) c (.expr out) c' := by
  rw [Parser.sequence] at h
  obtain ⟨⟨head, c₁⟩, hhead, h⟩ := ok_of_bind h
  obtain ⟨⟨tail, c₂⟩, htail, h⟩ := ok_of_bind h
  cases h
  exact .sequence (ih.expression hhead) (ih.sequenceTail htail)

/-- Expressions in parentheses stand next to each other up to one of the stops, which is left to the
bracket. -/
theorem sequenceTail_succ (ih : Sound n) {stops : List String} {out : List Expr}
    (h : Parser.sequenceTail (n + 1) mode stops c = .ok (out, c')) :
    Reads mode (.sequenceTail stops) c (.exprs out) c' := by
  rw [Parser.sequenceTail] at h
  split at h
  · next hends =>
      cases h
      exact .sequenceEnd hends
  · next hgoes =>
      obtain ⟨⟨first, c₁⟩, hfirst, h⟩ := ok_of_bind h
      obtain ⟨⟨more, c₂⟩, hmore, h⟩ := ok_of_bind h
      cases h
      exact .sequenceNext (eq_false_of_ne_true hgoes) (ih.expression hfirst) (ih.sequenceTail hmore)

theorem argumentsIf (ih : Sound n) {present : Bool} {out : Option Arguments}
    (h : optionally present (Parser.arguments n mode c) c = .ok (out, c')) :
    Reads mode (.argumentsIf present) c (.arguments out) c' := by
  rcases optionally_cases h with ⟨rfl, rfl, rfl⟩ | ⟨args, rfl, rfl, hargs⟩
  · exact .noArguments
  · exact .someArguments (ih.arguments hargs)

theorem lambdaIf (ih : Sound n) {present : Bool} {out : Option Lambda}
    (h : optionally present (Parser.lambda n mode c) c = .ok (out, c')) :
    Reads mode (.lambdaIf present) c (.lambda out) c' := by
  rcases optionally_cases h with ⟨rfl, rfl, rfl⟩ | ⟨lambda, rfl, rfl, hlambda⟩
  · exact .noLambda
  · exact .someLambda (ih.lambda hlambda)

theorem expressionIf (ih : Sound n) {present : Bool} {out : Option Expr}
    (h : optionally present (Parser.expression n mode c) c = .ok (out, c')) :
    Reads mode (.expressionIf present) c (.optionalExpr out) c' := by
  rcases optionally_cases h with ⟨rfl, rfl, rfl⟩ | ⟨expr, rfl, rfl, hexpr⟩
  · exact .noExpression
  · exact .someExpression (ih.expression hexpr)

/-- The parts of a call come in a fixed order: type arguments, arguments in parentheses, a block.
Each may be missing. -/
theorem callParts_succ (ih : Sound n) {out : CallParts}
    (h : Parser.callParts (n + 1) mode c = .ok (out, c')) :
    Reads mode .callParts c (.parts out) c' := by
  rw [Parser.callParts] at h
  obtain ⟨⟨args, c₁⟩, hargs, h⟩ := ok_of_optionally h
  obtain ⟨⟨lambda, c₂⟩, hlambda, h⟩ := ok_of_optionally h
  cases h
  exact .callParts rfl (ih.argumentsIf hargs) (ih.lambdaIf hlambda)

theorem arguments_succ (ih : Sound n) {out : Arguments}
    (h : Parser.arguments (n + 1) mode c = .ok (out, c')) :
    Reads mode .arguments c (.arguments (some out)) c' := by
  rw [Parser.arguments] at h
  obtain ⟨⟨opening, c₁⟩, hopening, h⟩ := ok_of_bind h
  obtain ⟨⟨items, c₂⟩, hitems, h⟩ := ok_of_bind h
  obtain ⟨⟨closing, c₃⟩, hclosing, h⟩ := ok_of_bind h
  cases h
  exact .arguments hopening (ih.items hitems) hclosing

theorem brackets_succ (ih : Sound n) {out : Brackets}
    (h : Parser.brackets (n + 1) mode c = .ok (out, c')) :
    Reads mode .brackets c (.brackets out) c' := by
  rw [Parser.brackets] at h
  obtain ⟨⟨opening, c₁⟩, hopening, h⟩ := ok_of_bind h
  obtain ⟨⟨items, c₂⟩, hitems, h⟩ := ok_of_bind h
  obtain ⟨⟨closing, c₃⟩, hclosing, h⟩ := ok_of_bind h
  cases h
  exact .brackets hopening (ih.items hitems) hclosing

/-- Items are read up to the closing bracket. A comma may stand behind the last one, and belongs to
it. -/
theorem items_succ (ih : Sound n) {close : String} {out : List Item}
    (h : Parser.items (n + 1) mode close c = .ok (out, c')) :
    Reads mode (.items close) c (.items out) c' := by
  rw [Parser.items] at h
  split at h
  · next hends =>
      cases h
      exact .itemsEnd hends
  · next hgoes =>
      replace hgoes := eq_false_of_ne_true hgoes
      obtain ⟨⟨expr, c₁⟩, hexpr, h⟩ := ok_of_bind h
      dsimp only at h
      split at h
      · next c₂ hends =>
          cases h
          exact .lastItem hgoes (ih.sequence hexpr) hends
      · next comma c₂ hcomma =>
          obtain ⟨⟨more, c₃⟩, hmore, h⟩ := ok_of_bind h
          cases h
          exact .nextItem hgoes (ih.sequence hexpr) hcomma (ih.items hmore)

/-- A block is its parameters, if an arrow ends them, and then statements up to the closing
brace. -/
theorem lambda_succ (ih : Sound n) {out : Lambda}
    (h : Parser.lambda (n + 1) mode c = .ok (out, c')) :
    Reads mode .lambda c (.lambda (some out)) c' := by
  rw [Parser.lambda] at h
  obtain ⟨⟨opening, c₁⟩, hopening, h⟩ := ok_of_bind h
  obtain ⟨⟨body, c₂⟩, hbody, h⟩ := ok_of_bind h
  obtain ⟨⟨closing, c₃⟩, hclosing, h⟩ := ok_of_bind h
  cases h
  exact .lambda hopening rfl (ih.statements hbody) hclosing

theorem annotated_succ (ih : Sound n) {out : Expr}
    (h : Parser.annotated (n + 1) mode c = .ok (out, c')) :
    Reads mode .annotated c (.expr out) c' := by
  rw [Parser.annotated] at h
  obtain ⟨⟨marker, c₁⟩, hmarker, h⟩ := ok_of_bind h
  obtain ⟨⟨first, c₂⟩, hname, h⟩ := ok_of_bind h
  obtain ⟨⟨args, c₃⟩, hargs, h⟩ := ok_of_optionally h
  obtain ⟨⟨expr, c₄⟩, hexpr, h⟩ := ok_of_optionally h
  cases h
  exact .annotated hmarker hname rfl (ih.argumentsIf hargs) (ih.expressionIf hexpr)

end Sound

/-- What the parser answers at any depth, the grammar reads. The induction is on the depth, and
takes all productions together, because they call each other with one level less. -/
theorem sound (n : Nat) : Sound n := by
  induction n with
  | zero => constructor <;> intros <;> contradiction
  | succ n ih =>
      exact {
        statements := ih.statements_succ
        statement := ih.statement_succ
        statementExpr := ih.statementExpr_succ
        statementTail := ih.statementTail_succ
        commandOrExpression := ih.commandOrExpression_succ
        commandChain := ih.commandChain_succ
        commandItems := ih.commandItems_succ
        expression := ih.expression_succ
        operators := ih.operators_succ
        unary := ih.unary_succ
        suffixes := ih.suffixes_succ
        primary := ih.primary_succ
        parenthesized := ih.parenthesized_succ
        sequence := ih.sequence_succ
        sequenceTail := ih.sequenceTail_succ
        callParts := ih.callParts_succ
        arguments := ih.arguments_succ
        brackets := ih.brackets_succ
        items := ih.items_succ
        lambda := ih.lambda_succ
        annotated := ih.annotated_succ }

/-- A script that is parsed was read by the grammar from the tokens of its text, in the mode of its
dialect. Its last trivia is what the lexer found at the end.

This is all that later modules know of the parser. -/
theorem reads_of_parse {source : String} {dialect : Dialect} {script : Script}
    (h : parse source dialect = .ok script) :
    script.dialect = dialect ∧ script.eof = (lex source).eof ∧
      ∃ c, Reads ⟨dialect.capabilities, true⟩ (.statements false) ⟨none, (lex source).tokens⟩
        (.statements script.statements) c := by
  unfold parse at h
  dsimp only at h
  split at h
  · next out c hread =>
      cases h
      exact ⟨rfl, rfl, c, (sound _).statements hread⟩
  · simp at h

end BuildPrune.Parser
