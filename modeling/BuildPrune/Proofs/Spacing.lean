import BuildPrune.Proofs.Joints
import BuildPrune.Proofs.Sweep
import BuildPrune.Proofs.TriviaCuts
import BuildPrune.Script.Control

/-!
# BuildPrune.Proofs.Spacing

Scripts that leave room for removals. When an entry goes, what precedes it and what follows it meet.
A bracket or a separator between them keeps them apart; where there is none, trivia has to:

* between two statements without a `;`, and in front of the first argument of a command;
* behind a command that can lose its last argument, and behind a control statement that can lose its
  `else`, where a closing bracket or a separator does as well.

`Expr.spaced` and its companions check this all over a tree.
-/

namespace BuildPrune

/-! ### Trivia that sets apart

Trivia sets tokens apart if it opens with a character that no token in front reaches over. If the
trivia in front of an entry does so, then so does what `repair` makes of it when the entry goes.
-/

/-- There is something that no token in front can be read into. -/
def SetsApart (text : List Char) : Prop :=
  text ≠ [] ∧ IsSoft text

instance (text : List Char) : Decidable (SetsApart text) :=
  inferInstanceAs (Decidable (_ ∧ _))

/-- What sets apart does so with more behind it, as it is told from the first characters. -/
theorem SetsApart.append {text : List Char} (h : SetsApart text) (more : List Char) :
    SetsApart (text ++ more) :=
  ⟨fun hempty => h.1 (List.append_eq_nil_iff.1 hempty).1, (isSoft_append h.1).2 h.2⟩

/-- A line break sets apart: no token goes on over it. -/
theorem setsApart_of_lineBreak {c : Char} (hc : Text.isLineBreak c = true) (text : List Char) :
    SetsApart (c :: text) := by
  have hcases : c = '\n' ∨ c = '\r' := by simpa [Text.isLineBreak] using hc
  refine ⟨List.cons_ne_nil c text, ?_⟩
  rcases hcases with rfl | rfl <;> simp [IsSoft, softCharacters]

/-- A front of soft text and what sets apart behind it. If the front is empty, what is behind it
opens the text, and else the front does. -/
theorem SetsApart.append_left {text more : List Char} (h : SetsApart more) (htext : IsSoft text) :
    SetsApart (text ++ more) := by
  by_cases hempty : text = []
  · rw [hempty, List.nil_append]
    exact h
  · exact SetsApart.append ⟨hempty, htext⟩ more

/-- A front of soft text is soft. If it is not empty it opens with the same character. -/
theorem IsSoft.of_isPrefix {text front : List Char} (h : IsSoft text) (hfront : front <+: text) :
    IsSoft front := by
  obtain ⟨more, rfl⟩ := hfront
  by_cases hempty : front = []
  · rw [hempty]
    exact isSoft_nil
  · exact (isSoft_append hempty).1 h

open Trivia in
/-- From its first line break on, a text that has one sets apart. -/
theorem setsApart_fromLineBreak {text : List Char} (h : hasLineBreak text = true) :
    SetsApart (fromLineBreak text) := by
  obtain ⟨c, rest, hc, hfrom, -⟩ := exists_lineBreak h
  rw [hfrom]
  exact setsApart_of_lineBreak hc rest

open Trivia in
/-- Behind a cut comes a line ending, or what follows from its line break on. The second is taken
where it has no more line feeds than are wanted. -/
theorem setsApart_behindCut {following : List Char} (hfollowing : hasLineBreak following = true)
    {feeds : Nat} (hfeeds : lineFeeds (fromLineBreak following) ≤ feeds) :
    SetsApart (behindCut feeds following) := by
  cases feeds with
  | zero =>
      rw [behindCut_zero (Nat.le_zero.1 hfeeds)]
      exact setsApart_fromLineBreak hfollowing
  | succ feeds =>
      rw [behindCut_succ]
      refine SetsApart.append ?_ _
      rcases lineEnding_cases following with hending | hending <;> rw [hending]
      · exact setsApart_of_lineBreak (by decide) _
      · exact setsApart_of_lineBreak (by decide) _

open Trivia in
/-- Where trivia sets a removed entry apart, what `repair` makes of it sets the next one apart. At
the start of a list a gap within the line is trimmed away; `hstart` keeps this case out, as trivia
that sets apart is not empty. -/
theorem SetsApart.repair {removed : List Char} (h : SetsApart removed) (following : List Char)
    {atStart : Bool} (hstart : atStart = true → removed = []) (atEnd : Bool) :
    SetsApart (repair removed following atStart atEnd) := by
  refine repair_cases atStart atEnd removed following ?noBreak ?onLine ?noBlank ?cut
  case noBreak =>
    intro _
    exact h.append _
  case onLine =>
    intro hfollowing _
    split
    · next hatStart => exact absurd (hstart hatStart) h.1
    · exact setsApart_fromLineBreak hfollowing
  case noBlank =>
    intro hfollowing _
    have hsoft : IsSoft (beforeLineBreak removed) := h.2.of_isPrefix (List.takeWhile_prefix _)
    exact (setsApart_fromLineBreak hfollowing).append_left hsoft
  case cut =>
    intro head space tail hfollowing hcut
    have hsoft : IsSoft head := h.2.of_isPrefix ⟨_, hcut.split⟩
    exact (setsApart_behindCut hfollowing (Nat.le_max_left _ _)).append_left hsoft

/-! ### Lists -/

/-- The statement ends with a `;`. -/
def Statement.endsSolid : Statement → Bool
  | .importing path => path.semicolon.isSome
  | .expression _ semicolon => semicolon.isSome
  | .empty _ => true

/-- Each statement is set apart from the one before it, unless that ends with a `;`, and so is what
follows the last. `solid` says that nothing can be read into what precedes the list. -/
def Statement.listApart : (solid : Bool) → List Statement → (trailer : String) → Bool
  | solid, [], trailer => solid || decide (IsSoft trailer.toList)
  | solid, s :: rest, trailer =>
    (solid || decide (SetsApart s.leading.toList)) && Statement.listApart s.endsSolid rest trailer

/-- What follows the items and the commas between them is soft, if there is an item that can go and
leave another at the end. -/
def Item.listApart (items : List Item) (rest : List Char) : Bool :=
  items.length < 2 ||
    decide (IsSoft rest) &&
      items.all fun item => item.comma.all fun comma => decide (IsSoft comma.leading.toList)

/-- The first argument of a command is set apart from its name, and so is each that can become the
first. -/
def Item.firstApart : List Item → Bool
  | [] => true
  | item :: more =>
    decide (SetsApart item.expr.leading.toList) &&
      more.all fun next => decide (IsSoft next.expr.leading.toList)

/-- What follows a sequence that can lose its last branch is soft, and so is what precedes its
bodies. -/
def Expr.branchesApart (head : Expr) (tail : List Expr) (rest : List Char) : Bool :=
  !head.opensControl ||
    decide (IsSoft rest) && tail.all fun expr => decide (IsSoft expr.leading.toList)

/-- Of a control statement, every branch must be set apart from what precedes it, and what follows
the whole must be soft. -/
theorem Expr.branchesApart_iff {head : Expr} (hopens : head.opensControl = true) {tail : List Expr}
    {rest : List Char} :
    head.branchesApart tail rest = true ↔ IsSoft rest ∧ ∀ e ∈ tail, IsSoft e.leading.toList := by
  simp [Expr.branchesApart, hopens]

/-- A control statement with a branch less leaves room too, which carries the induction over its
branches. -/
theorem Expr.branchesApart_of_cons {head e : Expr} {tail : List Expr} {rest : List Char}
    (h : head.branchesApart (e :: tail) rest = true) : head.branchesApart tail rest = true := by
  simp only [Expr.branchesApart, List.all_cons, Bool.or_eq_true, Bool.and_eq_true] at h ⊢
  exact h.imp_right fun h => ⟨h.1, h.2.2⟩

/-! ### Trees

The check goes through the tree and asks at each list what its form asks for. It can be computed,
so for a given script it is decided by evaluation. -/

mutual

/-- The expression leaves room for removals in front of `rest`. It is asked of the lists and
sequences in it, each with the text that follows it. -/
def Expr.spaced : Expr → (rest : List Char) → Bool
  | .atom _, _ => true
  | .call call, rest => call.spaced rest
  | .lambda lambda, rest => lambda.spaced rest
  | .annotated _ _ _ expr, rest =>
    match expr with
    | none => true
    | some expr => expr.spaced rest
  | .field target dot name, rest => target.spaced (spell [dot, name] rest)
  | .paren _ inner closing, rest => inner.spaced (spell [closing] rest)
  | .index target brackets, rest =>
    target.spaced (spell brackets.tokens rest) && brackets.spaced rest
  | .binary left op right, rest =>
    left.spaced (spell (op :: right.tokens) rest) && right.spaced rest
  | .prefixed _ operand, rest => operand.spaced rest
  | .postfixed operand op, rest => operand.spaced (spell [op] rest)
  | .list brackets, rest => brackets.spaced rest
  | .sequence head tail, rest =>
    head.spaced (spell (Expr.listTokens tail) rest) && Expr.listSpaced tail rest &&
      head.branchesApart tail rest

/-- Expressions side by side leave room for removals in front of `rest`. -/
def Expr.listSpaced : List Expr → (rest : List Char) → Bool
  | [], _ => true
  | expr :: more, rest =>
    expr.spaced (spell (Expr.listTokens more) rest) && Expr.listSpaced more rest

/-- The call leaves room for removals in front of `rest`. -/
def Call.spaced : Call → (rest : List Char) → Bool
  | ⟨receiver, name, types, args, lambda, _⟩, rest =>
    (match receiver with
      | none => true
      | some receiver =>
        receiver.spaced (spell (name :: (partTokens TypeArgs.listTokens types ++
          (partTokens Arguments.tokens args ++ partTokens Lambda.tokens lambda))) rest)) &&
    (match args with
      | none => true
      | some args => args.spaced (spell (partTokens Lambda.tokens lambda) rest)) &&
    (match lambda with
      | none => true
      | some lambda => lambda.spaced rest)

/-- The receiver leaves room for removals in front of `rest`. -/
def Receiver.spaced : Receiver → (rest : List Char) → Bool
  | ⟨target, dot⟩, rest => target.spaced (spell dot.toList rest)

/-- The arguments leave room for removals in front of `rest`. -/
def Arguments.spaced : Arguments → (rest : List Char) → Bool
  | ⟨opening, items, closing⟩, rest =>
    Item.listSpaced items (spell closing.toList rest) &&
      Item.listApart items (spell closing.toList rest) &&
      (opening.isSome || Item.firstApart items)

/-- The list leaves room for removals in front of `rest`. -/
def Brackets.spaced : Brackets → (rest : List Char) → Bool
  | ⟨_, items, closing⟩, rest =>
    Item.listSpaced items (spell [closing] rest) && Item.listApart items (spell [closing] rest)

/-- Each item leaves room for removals in front of what follows it. -/
def Item.listSpaced : List Item → (rest : List Char) → Bool
  | [], _ => true
  | ⟨expr, comma⟩ :: more, rest =>
    expr.spaced (spell (comma.toList ++ Item.listTokens more) rest) && Item.listSpaced more rest

/-- The lambda leaves room for removals in front of `rest`. -/
def Lambda.spaced : Lambda → (rest : List Char) → Bool
  | ⟨_, _, body, closing⟩, rest =>
    Statement.listSpaced body (spell [closing] rest) &&
      Statement.listApart true body closing.leading

/-- The statement leaves room for removals in front of `rest`. -/
def Statement.spaced : Statement → (rest : List Char) → Bool
  | .importing _, _ => true
  | .expression expr semicolon, rest => expr.spaced (spell semicolon.toList rest)
  | .empty _, _ => true

/-- Each statement leaves room for removals in front of what follows it. -/
def Statement.listSpaced : List Statement → (rest : List Char) → Bool
  | [], _ => true
  | statement :: more, rest =>
    statement.spaced (spell (Statement.listTokens more) rest) && Statement.listSpaced more rest

end

/-- The script leaves room for removals. -/
def Script.spaced (script : Script) : Bool :=
  Statement.listSpaced script.statements script.eof.toList &&
    Statement.listApart true script.statements script.eof

/-- A call leaves room if its parts do, each in front of the parts that follow it. -/
theorem Call.spaced_mk {receiver : Option Receiver} {name : Token} {types : Option TypeArgs}
    {args : Option Arguments} {lambda : Option Lambda} {style : CallStyle} {rest : List Char} :
    Call.spaced ⟨receiver, name, types, args, lambda, style⟩ rest = true ↔
      (∀ r ∈ receiver, r.spaced (spell (name :: (partTokens TypeArgs.listTokens types ++
        (partTokens Arguments.tokens args ++ partTokens Lambda.tokens lambda))) rest) = true) ∧
      (∀ a ∈ args, a.spaced (spell (partTokens Lambda.tokens lambda) rest) = true) ∧
      ∀ l ∈ lambda, l.spaced rest = true := by
  cases receiver <;> cases args <;> cases lambda <;> simp [Call.spaced, and_assoc]

end BuildPrune
