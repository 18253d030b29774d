import BuildPrune.Script.Dialect
import BuildPrune.Script.Token

/-!
# BuildPrune.Script.Tree

The tree of a build script. It is shallow: it knows calls in their three styles, lambdas, imports
and annotations, and keeps everything else as expressions that can be printed.

Every node has one view, the list of its `tokens` in the order of the text. Printing is a function
of that view, so a tree that holds the tokens of a text prints as that text. The leading trivia of a
node is the trivia of its `firstToken`, and `withLeading` replaces it.
-/

namespace BuildPrune

/-! ### Nodes without expressions inside -/

/-- `as Name` at the end of an import. -/
structure ImportAlias where
  keyword : Token
  name : Token
  deriving DecidableEq, Repr

/-- `import a.b.C`, `import a.b.*`, `import static a.B.c`, `import a.B as C`. -/
structure Import where
  keyword : Token
  modifier : Option Token
  /-- The names of the path and the dots between them. -/
  path : List Token
  asName : Option ImportAlias
  semicolon : Option Token
  deriving DecidableEq, Repr

/-- One type argument and the comma behind it. -/
structure TypeParam where
  tokens : List Token
  comma : Option Token
  deriving DecidableEq, Repr

/-- `<A, B<C>>` between the name of a call and its arguments. -/
structure TypeArgs where
  opening : Token
  params : List TypeParam
  closing : Token
  deriving DecidableEq, Repr

/-- `a, b ->` at the start of a lambda. -/
structure LambdaParams where
  tokens : List Token
  arrow : Token
  deriving DecidableEq, Repr

/-- How a call is written. -/
inductive CallStyle
  /-- `name(args)`, `name { }`, `target.name(args)`. -/
  | regular
  /-- `name arg, arg`, also chained: `a 'x' b 'y'`. -/
  | command
  /-- `target name arg`. -/
  | infixed
  deriving DecidableEq, Repr

/-! ### Expressions and statements -/

mutual

/-- An expression. -/
inductive Expr where
  /-- A literal, a name, a keyword or a stray operator. -/
  | atom (token : Token)
  | call (call : Call)
  | lambda (lambda : Lambda)
  /-- `@Name(args) expr`; an annotation of the whole file annotates no expression. -/
  | annotated (marker : Token) (name : List Token) (args : Option Arguments) (expr : Option Expr)
  /-- `target.name` -/
  | field (target : Expr) (dot name : Token)
  /-- `(inner)` -/
  | paren (opening : Token) (inner : Expr) (closing : Token)
  /-- `target[items]` -/
  | index (target : Expr) (brackets : Brackets)
  | binary (left : Expr) (op : Token) (right : Expr)
  | prefixed (op : Token) (operand : Expr)
  | postfixed (operand : Expr) (op : Token)
  /-- `[a, b]`, and the empty `()`. -/
  | list (brackets : Brackets)
  /-- Expressions side by side that form one statement: `val x by lazy { }`. -/
  | sequence (head : Expr) (tail : List Expr)

/-- A call. -/
structure Call where
  receiver : Option Receiver
  name : Token
  types : Option TypeArgs
  args : Option Arguments
  lambda : Option Lambda
  style : CallStyle

/-- What a call is made on. A command chain and an infixed call have no dot. -/
structure Receiver where
  target : Expr
  dot : Option Token

/-- The arguments of a call, without parentheses in a command and in an infixed call. -/
structure Arguments where
  opening : Option Token
  items : List Item
  closing : Option Token

/-- Items between brackets. -/
structure Brackets where
  opening : Token
  items : List Item
  closing : Token

/-- An argument and the comma behind it. -/
structure Item where
  expr : Expr
  comma : Option Token

/-- A block `{ params -> body }`. -/
structure Lambda where
  opening : Token
  params : Option LambdaParams
  body : List Statement
  closing : Token

/-- A statement. -/
inductive Statement where
  | importing (path : Import)
  | expression (expr : Expr) (semicolon : Option Token)
  /-- A `;` alone. -/
  | empty (semicolon : Token)

end

/-- A build script. -/
structure Script where
  dialect : Dialect
  statements : List Statement
  /-- The trivia after the last token. -/
  eof : String

/-! ### The tokens of a node -/

/-- The tokens of an import. -/
def Import.tokens (i : Import) : List Token :=
  i.keyword :: i.modifier.toList ++ i.path ++
    (match i.asName with
      | none => []
      | some a => [a.keyword, a.name]) ++
    i.semicolon.toList

/-- The tokens of a list of type parameters. -/
def TypeParam.listTokens (params : List TypeParam) : List Token :=
  params.flatMap fun p => p.tokens ++ p.comma.toList

/-- The tokens of a type argument list. -/
def TypeArgs.listTokens (types : TypeArgs) : List Token :=
  types.opening :: TypeParam.listTokens types.params ++ [types.closing]

/-- The tokens of the parameters of a lambda. -/
def LambdaParams.listTokens (params : LambdaParams) : List Token :=
  params.tokens ++ [params.arrow]

mutual

/-- The tokens of an expression. -/
def Expr.tokens : Expr → List Token
  | .atom token => [token]
  | .call call => call.tokens
  | .lambda lambda => lambda.tokens
  | .annotated marker name args expr =>
    marker :: name ++
      (match args with
        | none => []
        | some args => args.tokens) ++
      (match expr with
        | none => []
        | some expr => expr.tokens)
  | .field target dot name => target.tokens ++ [dot, name]
  | .paren opening inner closing => opening :: inner.tokens ++ [closing]
  | .index target brackets => target.tokens ++ brackets.tokens
  | .binary left op right => left.tokens ++ op :: right.tokens
  | .prefixed op operand => op :: operand.tokens
  | .postfixed operand op => operand.tokens ++ [op]
  | .list brackets => brackets.tokens
  | .sequence head tail => head.tokens ++ Expr.listTokens tail

/-- The tokens of expressions side by side. -/
def Expr.listTokens : List Expr → List Token
  | [] => []
  | expr :: rest => expr.tokens ++ Expr.listTokens rest

/-- The tokens of a call. -/
def Call.tokens : Call → List Token
  | ⟨receiver, name, types, args, lambda, _⟩ =>
    (match receiver with
      | none => []
      | some receiver => receiver.tokens) ++
    name ::
    (match types with
      | none => []
      | some types => types.listTokens) ++
    (match args with
      | none => []
      | some args => args.tokens) ++
    (match lambda with
      | none => []
      | some lambda => lambda.tokens)

/-- The tokens of a receiver and the dot behind it. -/
def Receiver.tokens : Receiver → List Token
  | ⟨target, dot⟩ => target.tokens ++ dot.toList

/-- The tokens of an argument list. -/
def Arguments.tokens : Arguments → List Token
  | ⟨opening, items, closing⟩ => opening.toList ++ Item.listTokens items ++ closing.toList

/-- The tokens of a bracketed list. -/
def Brackets.tokens : Brackets → List Token
  | ⟨opening, items, closing⟩ => opening :: Item.listTokens items ++ [closing]

/-- The tokens of an item and the comma behind it. -/
def Item.tokens : Item → List Token
  | ⟨expr, comma⟩ => expr.tokens ++ comma.toList

/-- The tokens of a list of items. -/
def Item.listTokens : List Item → List Token
  | [] => []
  | item :: rest => item.tokens ++ Item.listTokens rest

/-- The tokens of a lambda. -/
def Lambda.tokens : Lambda → List Token
  | ⟨opening, params, body, closing⟩ =>
    opening ::
    (match params with
      | none => []
      | some params => params.listTokens) ++
    Statement.listTokens body ++ [closing]

/-- The tokens of a statement. -/
def Statement.tokens : Statement → List Token
  | .importing path => path.tokens
  | .expression expr semicolon => expr.tokens ++ semicolon.toList
  | .empty semicolon => [semicolon]

/-- The tokens of a list of statements. -/
def Statement.listTokens : List Statement → List Token
  | [] => []
  | statement :: rest => statement.tokens ++ Statement.listTokens rest

end

/-- The tokens of a script. -/
def Script.tokens (script : Script) : List Token :=
  Statement.listTokens script.statements

/-! ### Printing -/

/-- The text of an expression without the trivia in front of it: the form that rules match. -/
def Expr.printed (e : Expr) : String :=
  printTrimmed e.tokens

/-- The text of a call without the trivia in front of it. -/
def Call.printed (c : Call) : String :=
  printTrimmed c.tokens

/-- The text of a statement. -/
def Statement.print (s : Statement) : String :=
  printTokens s.tokens

/-- The text of a statement without the trivia in front of it. -/
def Statement.printed (s : Statement) : String :=
  printTrimmed s.tokens

/-- The text of a script. -/
def Script.print (script : Script) : String :=
  printTokens script.tokens ++ script.eof

/-! ### The first token -/

mutual

/-- The token that an expression starts with. -/
def Expr.firstToken : Expr → Token
  | .atom token => token
  | .call call => call.firstToken
  | .lambda lambda => lambda.opening
  | .annotated marker _ _ _ => marker
  | .field target _ _ => target.firstToken
  | .paren opening _ _ => opening
  | .index target _ => target.firstToken
  | .binary left _ _ => left.firstToken
  | .prefixed op _ => op
  | .postfixed operand _ => operand.firstToken
  | .list brackets => brackets.opening
  | .sequence head _ => head.firstToken

/-- The token that a call starts with. -/
def Call.firstToken : Call → Token
  | ⟨receiver, name, _, _, _, _⟩ =>
    match receiver with
    | none => name
    | some receiver => receiver.firstToken

/-- The token that a receiver starts with. -/
def Receiver.firstToken : Receiver → Token
  | ⟨target, _⟩ => target.firstToken

end

/-- The token that a statement starts with. -/
def Statement.firstToken : Statement → Token
  | .importing path => path.keyword
  | .expression expr _ => expr.firstToken
  | .empty semicolon => semicolon

/-- The trivia in front of an expression. -/
def Expr.leading (e : Expr) : String :=
  e.firstToken.leading

/-- The trivia in front of a statement. -/
def Statement.leading (s : Statement) : String :=
  s.firstToken.leading

mutual

/-- The expression with other trivia in front. -/
def Expr.withLeading (leading : String) : Expr → Expr
  | .atom token => .atom (token.withLeading leading)
  | .call call => .call (call.withLeading leading)
  | .lambda lambda => .lambda { lambda with opening := lambda.opening.withLeading leading }
  | .annotated marker name args expr => .annotated (marker.withLeading leading) name args expr
  | .field target dot name => .field (target.withLeading leading) dot name
  | .paren opening inner closing => .paren (opening.withLeading leading) inner closing
  | .index target brackets => .index (target.withLeading leading) brackets
  | .binary left op right => .binary (left.withLeading leading) op right
  | .prefixed op operand => .prefixed (op.withLeading leading) operand
  | .postfixed operand op => .postfixed (operand.withLeading leading) op
  | .list brackets => .list { brackets with opening := brackets.opening.withLeading leading }
  | .sequence head tail => .sequence (head.withLeading leading) tail

/-- The call with other trivia in front. -/
def Call.withLeading (leading : String) : Call → Call
  | ⟨receiver, name, types, args, lambda, style⟩ =>
    match receiver with
    | none => ⟨none, name.withLeading leading, types, args, lambda, style⟩
    | some receiver => ⟨some (receiver.withLeading leading), name, types, args, lambda, style⟩

/-- The receiver with other trivia in front. -/
def Receiver.withLeading (leading : String) : Receiver → Receiver
  | ⟨target, dot⟩ => ⟨target.withLeading leading, dot⟩

end

/-- The statement with other trivia in front. -/
def Statement.withLeading (leading : String) : Statement → Statement
  | .importing path => .importing { path with keyword := path.keyword.withLeading leading }
  | .expression expr semicolon => .expression (expr.withLeading leading) semicolon
  | .empty semicolon => .empty (semicolon.withLeading leading)

end BuildPrune
