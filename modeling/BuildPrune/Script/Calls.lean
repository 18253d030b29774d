import BuildPrune.Script.Literal
import BuildPrune.Script.Tree

/-!
# BuildPrune.Script.Calls

What rules ask of a tree: its calls, outermost first, its imports, and the forms in which an
argument can be named.
-/

namespace BuildPrune

/-! ### Calls and imports -/

mutual

/-- The calls in an expression, each before those inside it. The arguments of an annotation are not
searched. -/
def Expr.calls : Expr → List Call
  | .atom _ => []
  | .call call => call :: call.innerCalls
  | .lambda lambda => lambda.calls
  | .annotated _ _ _ expr =>
    match expr with
    | none => []
    | some expr => expr.calls
  | .field target _ _ => target.calls
  | .paren _ inner _ => inner.calls
  | .index target brackets => target.calls ++ brackets.calls
  | .binary left _ right => left.calls ++ right.calls
  | .prefixed _ operand => operand.calls
  | .postfixed operand _ => operand.calls
  | .list brackets => brackets.calls
  | .sequence head tail => head.calls ++ Expr.listCalls tail

/-- The calls in expressions side by side. -/
def Expr.listCalls : List Expr → List Call
  | [] => []
  | expr :: rest => expr.calls ++ Expr.listCalls rest

/-- The calls in the receiver, the arguments and the lambda of a call. -/
def Call.innerCalls : Call → List Call
  | ⟨receiver, _, _, args, lambda, _⟩ =>
    (match receiver with
      | none => []
      | some receiver => receiver.calls) ++
    (match args with
      | none => []
      | some args => args.calls) ++
    (match lambda with
      | none => []
      | some lambda => lambda.calls)

/-- The calls in a receiver. -/
def Receiver.calls : Receiver → List Call
  | ⟨target, _⟩ => target.calls

/-- The calls in an argument list. -/
def Arguments.calls : Arguments → List Call
  | ⟨_, items, _⟩ => Item.listCalls items

/-- The calls in a bracketed list. -/
def Brackets.calls : Brackets → List Call
  | ⟨_, items, _⟩ => Item.listCalls items

/-- The calls in an item. -/
def Item.calls : Item → List Call
  | ⟨expr, _⟩ => expr.calls

/-- The calls in a list of items. -/
def Item.listCalls : List Item → List Call
  | [] => []
  | item :: rest => item.calls ++ Item.listCalls rest

/-- The calls in the body of a lambda. -/
def Lambda.calls : Lambda → List Call
  | ⟨_, _, body, _⟩ => Statement.listCalls body

/-- The calls in a statement. -/
def Statement.calls : Statement → List Call
  | .importing _ => []
  | .expression expr _ => expr.calls
  | .empty _ => []

/-- The calls in a list of statements. -/
def Statement.listCalls : List Statement → List Call
  | [] => []
  | statement :: rest => statement.calls ++ Statement.listCalls rest

end

/-- Every call in a script, outermost first. -/
def Script.calls (script : Script) : List Call :=
  Statement.listCalls script.statements

/-- The imported name: `org.example.Plugin`, `a.b.*`. -/
def Import.qualifiedName (i : Import) : String :=
  String.join (i.path.map Token.text)

/-- The import that a statement is. -/
def Statement.import? : Statement → Option Import
  | .importing path => some path
  | _ => none

/-- The imports at the top level of a script. -/
def Script.imports (script : Script) : List Import :=
  script.statements.filterMap Statement.import?

/-! ### Parts of a call -/

/-- The call that an expression is. -/
def Expr.call? : Expr → Option Call
  | .call c => some c
  | _ => none

/-- The expression that a statement is. -/
def Statement.expr? : Statement → Option Expr
  | .expression expr _ => some expr
  | _ => none

/-- The arguments of a call, a trailing lambda not among them. -/
def Call.items (call : Call) : List Item :=
  match call.args with
  | none => []
  | some args => args.items

/-- The type arguments as they are written: `KotlinCompile` in `withType<KotlinCompile>()`. -/
def Call.typeParameters (call : Call) : List String :=
  match call.types with
  | none => []
  | some types => types.params.map fun p => printTrimmed p.tokens

/-- The texts that name an argument: how it is written and, for a string literal without templates,
also the text between its quotes. -/
def Expr.argumentKeys (e : Expr) : List String :=
  let content? :=
    match e with
    | .atom token => if token.kind == .str then Literal.content? token.text else none
    | _ => none
  match content? with
  | some content => if content == e.printed then [e.printed] else [e.printed, content]
  | none => [e.printed]

end BuildPrune
