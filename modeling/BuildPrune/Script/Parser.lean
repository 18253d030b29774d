import BuildPrune.Script.Control
import BuildPrune.Script.Lexer
import BuildPrune.Script.TypeArgs

/-!
# BuildPrune.Script.Parser

From the tokens of a script to its tree. Each production reads from a cursor and answers a node and
the cursor behind it, or the fault at which it stopped. No production drops a token, so the tokens
of the tree are the tokens of the text.

A line break ends a statement, except inside parentheses and brackets and in front of a token that
carries the statement on. A lambda is a place of its own, where line breaks count again.

Productions take a bound on the depth of their recursion. Between two calls of the same production a
token is read, so a multiple of the number of tokens is enough: `parse` supplies it.
-/

namespace BuildPrune

/-- What a production has to know of the place it reads at. -/
structure Mode where
  caps : Capabilities
  /-- A line break ends the statement. -/
  lineSensitive : Bool
  deriving DecidableEq, Repr

namespace Mode

/-- The mode between parentheses or brackets. -/
def inBrackets (mode : Mode) : Mode :=
  { mode with lineSensitive := false }

/-- The mode of a list of statements. -/
def inBlock (mode : Mode) : Mode :=
  { mode with lineSensitive := true }

end Mode

namespace Cursor

/-! ### Looking ahead -/

/-- The statement ends here: at the end of the text, at a `;` or a closing bracket, or at a line
break that counts. -/
def atStatementEnd (c : Cursor) (mode : Mode) : Bool :=
  match c.next with
  | none => true
  | some t =>
    t.is ";" || t.isCloser || (mode.lineSensitive && t.startsLine && !t.isOneOf continuations)

/-- A line starts here that can be the body of the control header on the line before. -/
def atDetachedBody (c : Cursor) : Bool :=
  c.nextIs fun t => t.startsLine && !t.is ";" && !t.isCloser

/-- An import starts here. -/
def atImport (c : Cursor) : Bool :=
  c.isAt "import" && c.secondIs fun t => t.isIdent && !t.startsLine

/-- `t` starts an argument without parentheses on the line of the token before it. -/
def startsArgument (t : Token) : Bool :=
  !t.startsLine && t.startsOperand

/-- A command starts here: a name and an argument on its line. -/
def atCommand (c : Cursor) : Bool :=
  c.nextIs Token.isName && c.secondIs startsArgument

/-- The next call of a command chain starts here. -/
def atChainLink (c : Cursor) : Bool :=
  c.nextIs (fun t => t.isName && !t.startsLine) &&
    (c.secondIs startsArgument || c.secondIs fun t => t.is "(" && t.attached)

/-- The name of an infixed call on `left` stands here. A keyword is an operand only if it denotes a
value. -/
def atInfixedCall (c : Cursor) (mode : Mode) (left : Expr) : Bool :=
  let operand :=
    match left with
    | .atom t => !t.isKeyword || t.isLiteralKeyword
    | _ => true
  mode.caps.infixCalls && operand && c.nextIs (fun t => t.isName && !t.startsLine) &&
    c.secondIs startsArgument

/-- An `@` that touches the name before it is part of a label: `return@forEach`. -/
def atLabel (c : Cursor) : Bool :=
  c.nextIs Token.attached && c.last.any Token.isIdent

/-- An `@` here starts an annotation. -/
def atAnnotated (c : Cursor) (mode : Mode) : Bool :=
  c.isAt "@" && mode.caps.annotatedExpressions && !c.atLabel

/-! ### Imports and names of annotations -/

/-- Reads the dotted names that carry an import path on. `n` bounds their number. -/
def importPath : Nat → Cursor → List Token × Cursor
  | 0, c => ([], c)
  | n + 1, c =>
    if c.isAtOnLine "." && c.secondIs fun t => t.isIdent || t.is "*" then
      let (segment, c) := c.takeMany 2
      let (more, c) := importPath n c
      (segment ++ more, c)
    else ([], c)

/-- Reads an import. -/
def importing (c : Cursor) : Except Fault (Import × Cursor) := do
  let (keyword, c) ← c.expect "import"
  let (modifier, c) := if c.secondIs (·.is ".") then (none, c) else c.optional "static"
  let (first, c) ← c.name
  let (more, c) := importPath c.rest.length c
  let (asName, c) ←
    if c.isAtOnLine "as" then do
      let (keyword, c) ← c.expect "as"
      let (name, c) ← c.name
      pure (some (ImportAlias.mk keyword name), c)
    else pure (none, c)
  let (semicolon, c) := c.optional ";"
  return (⟨keyword, modifier, first :: more, asName, semicolon⟩, c)

/-- Reads the parts that carry the name of an annotation on: `.Name` or `:Name`, without blanks. `n`
bounds their number. -/
def annotationPath : Nat → Cursor → List Token × Cursor
  | 0, c => ([], c)
  | n + 1, c =>
    if (c.isAtAttached "." || c.isAtAttached ":") && c.secondIs fun t => t.isIdent && t.attached then
      let (segment, c) := c.takeMany 2
      let (more, c) := annotationPath n c
      (segment ++ more, c)
    else ([], c)

/-- The annotation of this name is about the file: `@file:Name`. -/
def isFileLevel : List Token → Bool
  | first :: second :: _ => first.text == "file" && second.is ":"
  | _ => false

/-- An expression follows that an annotation can be about. -/
def atAnnotatable (c : Cursor) : Bool :=
  c.nextIs fun t => !t.isCloser && !t.isOneOf [",", ";", "import", "package"]

end Cursor

/-! ### Building nodes -/

/-- Expressions side by side; one alone stands for itself. -/
def Expr.ofSequence (head : Expr) (tail : List Expr) : Expr :=
  if tail.isEmpty then head else .sequence head tail

/-- What may follow the name of a call. -/
structure CallParts where
  types : Option TypeArgs
  args : Option Arguments
  lambda : Option Lambda

/-- Nothing follows: the name is no call. -/
def CallParts.isEmpty (parts : CallParts) : Bool :=
  parts.types.isNone && parts.args.isNone && parts.lambda.isNone

/-- A call of `name` with these parts. -/
def CallParts.call (parts : CallParts) (receiver : Option Receiver) (name : Token)
    (style : CallStyle) : Expr :=
  .call ⟨receiver, name, parts.types, parts.args, parts.lambda, style⟩

/-- A call without parentheses. -/
def Call.ofItems (receiver : Option Receiver) (name : Token) (items : List Item)
    (style : CallStyle) : Expr :=
  .call ⟨receiver, name, none, some ⟨none, items, none⟩, none, style⟩

/-! ### Productions -/

namespace Parser

mutual

/-- The statements up to the end of the text or, in a block, up to the closing brace. -/
def statements : Nat → Mode → (inBlock : Bool) → Cursor → Except Fault (List Statement × Cursor)
  | 0, _, _, c => .error (c.fault .tooDeep)
  | n + 1, mode, inBlock, c =>
    if inBlock && c.isAt closeBrace then .ok ([], c)
    else if c.rest.isEmpty then
      if inBlock then .error (c.fault .unclosedBlock) else .ok ([], c)
    else do
      let (first, c) ← statement n mode c
      let (more, c) ← statements n mode inBlock c
      return (first :: more, c)

/-- One statement, with the `;` behind it. -/
def statement : Nat → Mode → Cursor → Except Fault (Statement × Cursor)
  | 0, _, c => .error (c.fault .tooDeep)
  | n + 1, mode, c =>
    match c.take? (·.is ";") with
    | some (semicolon, c) => .ok (.empty semicolon, c)
    | none =>
      if c.atImport then do
        let (path, c) ← c.importing
        return (.importing path, c)
      else do
        let (expr, c) ← statementExpr n mode false c
        let (semicolon, c) := c.optional ";"
        return (.expression expr semicolon, c)

/-- The expressions side by side of one statement. A control header at the end of its line takes the
next statement as its body; such a body stops in front of an `else` that is not its own. -/
def statementExpr : Nat → Mode → (isBody : Bool) → Cursor → Except Fault (Expr × Cursor)
  | 0, _, _, c => .error (c.fault .tooDeep)
  | n + 1, mode, isBody, c => do
    let (head, c) ← commandOrExpression n mode c
    let (tail, c) ← statementTail n mode isBody head [] c
    return (.ofSequence head tail, c)

/-- The expressions of a statement behind `head`, of which `before` have been read. -/
def statementTail :
    Nat → Mode → (isBody : Bool) → (head : Expr) → (before : List Expr) → Cursor →
      Except Fault (List Expr × Cursor)
  | 0, _, _, _, _, c => .error (c.fault .tooDeep)
  | n + 1, mode, isBody, head, before, c =>
    if isBody && c.isAt "else" && !head.isAtom "if" then .ok (before, c)
    else if !c.atStatementEnd mode then do
      let (expr, c) ← commandOrExpression n mode c
      statementTail n mode isBody head (before ++ [expr]) c
    else if endsControlHeader head before && c.atDetachedBody then do
      let (body, c) ← statementExpr n mode true c
      statementTail n mode isBody head (before ++ [body]) c
    else .ok (before, c)

/-- An expression or, where the dialect has them, a chain of commands. -/
def commandOrExpression : Nat → Mode → Cursor → Except Fault (Expr × Cursor)
  | 0, _, c => .error (c.fault .tooDeep)
  | n + 1, mode, c =>
    if !mode.caps.commandExpressions then expression n mode c
    else if c.atCommand then do
      let (name, c) ← c.name
      let (items, c) ← commandItems n mode c
      commandChain n mode (Call.ofItems none name items .command) c
    else do
      let (expr, c) ← expression n mode c
      match expr with
      | .field target dot name =>
        if c.nextIs Cursor.startsArgument then do
          let (items, c) ← commandItems n mode c
          commandChain n mode (Call.ofItems (some ⟨target, some dot⟩) name items .command) c
        else return (expr, c)
      | .call _ => commandChain n mode expr c
      | _ => return (expr, c)

/-- The further calls of a command chain on `target`: `version '1.2' apply false`. -/
def commandChain : Nat → Mode → (target : Expr) → Cursor → Except Fault (Expr × Cursor)
  | 0, _, _, c => .error (c.fault .tooDeep)
  | n + 1, mode, target, c =>
    if c.atChainLink then do
      let (name, c) ← c.name
      if c.isAt "(" then do
        let (parts, c) ← callParts n mode c
        commandChain n mode (parts.call (some ⟨target, none⟩) name .command) c
      else do
        let (items, c) ← commandItems n mode c
        commandChain n mode (Call.ofItems (some ⟨target, none⟩) name items .command) c
    else .ok (target, c)

/-- The arguments of a command. -/
def commandItems : Nat → Mode → Cursor → Except Fault (List Item × Cursor)
  | 0, _, c => .error (c.fault .tooDeep)
  | n + 1, mode, c => do
    let (expr, c) ← expression n mode c
    match c.optional "," with
    | (none, c) => return ([⟨expr, none⟩], c)
    | (some comma, c) => do
      let (more, c) ← commandItems n mode c
      return (⟨expr, some comma⟩ :: more, c)

/-- An expression: operands with operators between them, grouped from the left. -/
def expression : Nat → Mode → Cursor → Except Fault (Expr × Cursor)
  | 0, _, c => .error (c.fault .tooDeep)
  | n + 1, mode, c => do
    let (left, c) ← unary n mode c
    operators n mode left c

/-- The operators and operands behind `left`. -/
def operators : Nat → Mode → (left : Expr) → Cursor → Except Fault (Expr × Cursor)
  | 0, _, _, c => .error (c.fault .tooDeep)
  | n + 1, mode, left, c =>
    if c.atStatementEnd mode then .ok (left, c)
    else
      match c.take? (·.isOneOf binaryOperators) with
      | some (op, c) => do
        let (right, c) ← unary n mode c
        operators n mode (.binary left op right) c
      | none =>
        if c.atInfixedCall mode left then do
          let (name, c) ← c.name
          let (right, c) ← unary n mode c
          operators n mode (Call.ofItems (some ⟨left, none⟩) name [⟨right, none⟩] .infixed) c
        else .ok (left, c)

/-- An operand with the operators in front of and behind it. -/
def unary : Nat → Mode → Cursor → Except Fault (Expr × Cursor)
  | 0, _, c => .error (c.fault .tooDeep)
  | n + 1, mode, c =>
    match c.take? (·.isOneOf prefixOperators) with
    | some (op, c) => do
      let (operand, c) ← unary n mode c
      return (.prefixed op operand, c)
    | none => do
      let (operand, c) ← primary n mode c
      suffixes n mode operand c

/-- The members, indices and operators behind `operand`. -/
def suffixes : Nat → Mode → (operand : Expr) → Cursor → Except Fault (Expr × Cursor)
  | 0, _, _, c => .error (c.fault .tooDeep)
  | n + 1, mode, operand, c =>
    match c.take? (·.isOneOf memberDots) with
    | some (dot, c) => do
      let (name, c) ← c.take (fun t => t.kind == .ident || t.kind == .str) (.expectedMember dot.text)
      let (parts, c) ← callParts n mode c
      if parts.isEmpty then suffixes n mode (.field operand dot name) c
      else suffixes n mode (parts.call (some ⟨operand, some dot⟩) name .regular) c
    | none =>
      if c.isAtAttached "[" then do
        let (brackets, c) ← brackets n mode c
        suffixes n mode (.index operand brackets) c
      else
        match c.take? fun t => t.isOneOf postfixOperators && t.attached with
        | some (op, c) => suffixes n mode (.postfixed operand op) c
        | none => .ok (operand, c)

/-- A literal, a name, a call, a lambda, a group, a list, an annotation, or a stray operator. -/
def primary : Nat → Mode → Cursor → Except Fault (Expr × Cursor)
  | 0, _, c => .error (c.fault .tooDeep)
  | n + 1, mode, c =>
    match c.rest with
    | [] => .error (c.fault .expectedExpression)
    | t :: rest =>
      let after : Cursor := ⟨some t, rest⟩
      if t.kind == .unknown then .error (c.fault .unexpectedInput)
      else if t.isName then do
        let (parts, c) ← callParts n mode after
        if parts.isEmpty then return (.atom t, c)
        else return (parts.call none t .regular, c)
      else if t.isCloser then .error (c.fault .unexpectedCloser)
      else if t.is openBrace then do
        let (lambda, c) ← lambda n mode c
        return (.lambda lambda, c)
      else if t.is "(" then parenthesized n mode c
      else if t.is "[" then do
        let (brackets, c) ← brackets n mode c
        return (.list brackets, c)
      else if c.atAnnotated mode then annotated n mode c
      else .ok (.atom t, after)

/-- `(inner)`, or the empty `()`. -/
def parenthesized : Nat → Mode → Cursor → Except Fault (Expr × Cursor)
  | 0, _, c => .error (c.fault .tooDeep)
  | n + 1, mode, c => do
    let (opening, c) ← c.expect "("
    match c.take? (·.is ")") with
    | some (closing, c) => return (.list ⟨opening, [], closing⟩, c)
    | none => do
      let (inner, c) ← sequence n mode.inBrackets [] c
      let (closing, c) ← c.expect ")"
      return (.paren opening inner closing, c)

/-- The expressions side by side up to a closing bracket or one of `stops`. -/
def sequence : Nat → Mode → (stops : List String) → Cursor → Except Fault (Expr × Cursor)
  | 0, _, _, c => .error (c.fault .tooDeep)
  | n + 1, mode, stops, c => do
    let (head, c) ← expression n mode c
    let (tail, c) ← sequenceTail n mode stops c
    return (.ofSequence head tail, c)

/-- The further expressions of a sequence. -/
def sequenceTail : Nat → Mode → (stops : List String) → Cursor → Except Fault (List Expr × Cursor)
  | 0, _, _, c => .error (c.fault .tooDeep)
  | n + 1, mode, stops, c =>
    if c.rest.isEmpty || c.nextIs fun t => t.isCloser || t.isOneOf stops then .ok ([], c)
    else do
      let (first, c) ← expression n mode c
      let (more, c) ← sequenceTail n mode stops c
      return (first :: more, c)

/-- Type arguments, arguments in parentheses and a lambda, each if it is there. -/
def callParts : Nat → Mode → Cursor → Except Fault (CallParts × Cursor)
  | 0, _, c => .error (c.fault .tooDeep)
  | n + 1, mode, c => do
    let (types, c) := c.typeArgs?
    let (args, c) ←
      if c.isAtOnLine "(" then do
        let (args, c) ← arguments n mode c
        pure (some args, c)
      else pure (none, c)
    let (lambda, c) ←
      if c.isAtOnLine openBrace then do
        let (lambda, c) ← lambda n mode c
        pure (some lambda, c)
      else pure (none, c)
    return (⟨types, args, lambda⟩, c)

/-- Arguments in parentheses. -/
def arguments : Nat → Mode → Cursor → Except Fault (Arguments × Cursor)
  | 0, _, c => .error (c.fault .tooDeep)
  | n + 1, mode, c => do
    let (opening, c) ← c.expect "("
    let (items, c) ← items n mode.inBrackets ")" c
    let (closing, c) ← c.expect ")"
    return (⟨some opening, items, some closing⟩, c)

/-- Items in brackets. -/
def brackets : Nat → Mode → Cursor → Except Fault (Brackets × Cursor)
  | 0, _, c => .error (c.fault .tooDeep)
  | n + 1, mode, c => do
    let (opening, c) ← c.expect "["
    let (items, c) ← items n mode.inBrackets "]" c
    let (closing, c) ← c.expect "]"
    return (⟨opening, items, closing⟩, c)

/-- The items up to the token spelled `close`; a comma may stand in front of it. -/
def items : Nat → Mode → (close : String) → Cursor → Except Fault (List Item × Cursor)
  | 0, _, _, c => .error (c.fault .tooDeep)
  | n + 1, mode, close, c =>
    if c.isAt close then .ok ([], c)
    else do
      let (expr, c) ← sequence n mode [","] c
      match c.optional "," with
      | (none, c) => return ([⟨expr, none⟩], c)
      | (some comma, c) => do
        let (more, c) ← items n mode close c
        return (⟨expr, some comma⟩ :: more, c)

/-- A lambda with its parameters and its statements. -/
def lambda : Nat → Mode → Cursor → Except Fault (Lambda × Cursor)
  | 0, _, c => .error (c.fault .tooDeep)
  | n + 1, mode, c => do
    let (opening, c) ← c.expect openBrace
    let (params, c) := c.lambdaParams?
    let (body, c) ← statements n mode.inBlock true c
    let (closing, c) ← c.expect closeBrace
    return (⟨opening, params, body, closing⟩, c)

/-- An annotation and the expression it is about. -/
def annotated : Nat → Mode → Cursor → Except Fault (Expr × Cursor)
  | 0, _, c => .error (c.fault .tooDeep)
  | n + 1, mode, c => do
    let (marker, c) ← c.expect "@"
    let (first, c) ← c.name
    let (more, c) := Cursor.annotationPath c.rest.length c
    let (args, c) ←
      if c.isAtAttached "(" then do
        let (args, c) ← arguments n mode c
        pure (some args, c)
      else pure (none, c)
    let (expr, c) ←
      if !Cursor.isFileLevel (first :: more) && c.atAnnotatable then do
        let (expr, c) ← expression n mode c
        pure (some expr, c)
      else pure (none, c)
    return (.annotated marker (first :: more) args expr, c)

end

/-- A depth of recursion that suffices for `count` tokens. -/
def depthFor (count : Nat) : Nat :=
  16 * (count + 1)

end Parser

/-- The tree of a script in a dialect. -/
def parse (source : String) (dialect : Dialect) : Except ParseError Script :=
  let lexed := lex source
  let mode : Mode := ⟨dialect.capabilities, true⟩
  match Parser.statements (Parser.depthFor lexed.tokens.length) mode false ⟨none, lexed.tokens⟩ with
  | .ok (statements, _) => .ok ⟨dialect, statements, lexed.eof⟩
  | .error fault => .error ⟨fault, source⟩

end BuildPrune
