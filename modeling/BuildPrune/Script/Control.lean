import BuildPrune.Script.Tree

/-!
# BuildPrune.Script.Control

Control statements whose bodies stand without braces. In the tree they are sequences: a keyword, a
condition in parentheses, a body, an `else` and its body, side by side. The questions here find the
headers in such a sequence: the parser asks them to attach a body on the next line, pruning to leave
no header without one.
-/

namespace BuildPrune

/-- One of `keywords`, alone or as the right operand of a binary expression, as in `x = if`. -/
def Expr.endsWithKeyword (keywords : List String) : Expr → Bool
  | .atom token => token.isIdent && keywords.contains token.text
  | .binary _ _ right => right.endsWithKeyword keywords
  | _ => false

/-- A parenthesised expression. -/
def Expr.isParen : Expr → Bool
  | .paren _ _ _ => true
  | _ => false

/-- A token spelled `text`, standing alone. -/
def Expr.isAtom (text : String) : Expr → Bool
  | .atom token => token.is text
  | _ => false

/-- The expressions side by side end in a header that still needs a body: `if (c)`, `while (c)`,
`for (x in xs)` or `else`. The `while (c)` of a `do` is complete. -/
def endsControlHeader (head : Expr) (tail : List Expr) : Bool :=
  match tail.reverse with
  | [] => head.endsWithKeyword ["else"]
  | last :: before =>
    let keyword := before.headD head
    last.endsWithKeyword ["else"] ||
      last.isParen &&
        (keyword.endsWithKeyword ["if", "for"] ||
          !head.endsWithKeyword ["do"] && keyword.endsWithKeyword ["while"])

/-- A statement that opens with a control keyword. An `if` that is used as a value does not. -/
def Expr.opensControl (head : Expr) : Bool :=
  head.isAtom "if" || head.isAtom "for" || head.isAtom "while"

/-- What follows `before` in a sequence is the body of a control header, as `b()` in
`if (a) b() else c()`. -/
def isControlBody (head : Expr) (before : List Expr) : Bool :=
  head.opensControl && endsControlHeader head before

end BuildPrune
