import BuildPrune.Script.Token

/-!
# BuildPrune.Script.ParseError

Why a text is not a build script. An error names the problem and the token that stood in the way;
where it points to and how it reads follow from these.
-/

namespace BuildPrune

/-- What the grammar missed, or what it could not use. -/
inductive Problem
  /-- The token of this spelling is missing. -/
  | expected (text : String)
  /-- The text ends inside a block. -/
  | unclosedBlock
  | expectedName
  | expectedExpression
  /-- This dot is not followed by a name or a string. -/
  | expectedMember (dot : String)
  /-- A token of kind `unknown`. -/
  | unexpectedInput
  /-- A closing bracket that closes nothing. -/
  | unexpectedCloser
  /-- The nesting exceeds the bound of the parser. -/
  | tooDeep
  deriving DecidableEq, Repr

/-- The wording of a problem. -/
def Problem.message : Problem → String
  | .expected text => "expected `" ++ text ++ "`"
  | .unclosedBlock => "unclosed block, expected `" ++ closeBrace ++ "`"
  | .expectedName => "expected a name"
  | .expectedExpression => "expected an expression"
  | .expectedMember dot => "expected a member name after `" ++ dot ++ "`"
  | .unexpectedInput => "unexpected input"
  | .unexpectedCloser => "unexpected closing delimiter"
  | .tooDeep => "nested too deeply"

/-- A problem and the token at which it shows, none at the end of the text. -/
structure Fault where
  problem : Problem
  found : Option Token
  deriving DecidableEq, Repr

/-- A fault in a given text. -/
structure ParseError extends Fault where
  source : String
  deriving DecidableEq, Repr

namespace ParseError

/-- Where the error points to: its token, or the end of the text. -/
def span (e : ParseError) : Span :=
  match e.found with
  | some token => token.span
  | none => ⟨e.source.utf8ByteSize, e.source.utf8ByteSize⟩

/-- The wording of the error. -/
def message (e : ParseError) : String :=
  let found :=
    match e.found with
    | some token =>
      if token.kind == .unknown then "unterminated literal or unrecognised character"
      else "found `" ++ token.text ++ "`"
    | none => "found end of input"
  e.problem.message ++ ", " ++ found

end ParseError

end BuildPrune
