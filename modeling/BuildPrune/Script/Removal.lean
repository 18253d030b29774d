import BuildPrune.Script.Tree
import BuildPrune.Script.Trivia

/-!
# BuildPrune.Script.Removal

Removing an entry from a list of statements or of arguments. What stays takes over the trivia that
separated the entry from what precedes it, and no comma is left dangling.

Both lists can be swept as well: `Statement.sweep` and `Item.sweep` take one decision for each entry
and remove, from left to right, those that are decided against.
-/

namespace BuildPrune

/-! ### Statements -/

namespace Statement

/-- Hands the trivia of a removed statement on: to the first of the statements that follow it or,
if there is none, to the `trailer`, the trivia behind the list. `isFirst` says that no statement of
the list precedes the removed one. -/
def handOn (isFirst : Bool) (removed : Statement) (following : List Statement) (trailer : String) :
    List Statement × String :=
  let leading := removed.leading.toList
  let atStart := isFirst && leading.isEmpty
  match following with
  | next :: rest =>
    let repaired := Trivia.repair leading next.leading.toList atStart false
    (next.withLeading (String.ofList repaired) :: rest, trailer)
  | [] => ([], String.ofList (Trivia.repair leading trailer.toList atStart true))

/-- Removes the statement at `index`. The answer holds the list and the repaired trailer. -/
def remove (statements : List Statement) (index : Nat) (trailer : String) :
    List Statement × String :=
  match statements.drop index with
  | [] => (statements, trailer)
  | removed :: following =>
    let (rest, trailer) := handOn (index == 0) removed following trailer
    (statements.take index ++ rest, trailer)

/-- Replaces each statement by its decision and removes those with none. A statement keeps the
trivia in front of it that earlier removals have left there. -/
def sweep (isFirst : Bool) : (decisions : List (Option Statement)) → List Statement →
    (trailer : String) → List Statement × String
  | some decided :: decisions, statement :: rest, trailer =>
    let (swept, trailer) := sweep false decisions rest trailer
    (decided.withLeading statement.leading :: swept, trailer)
  | none :: decisions, statement :: rest, trailer =>
    let (rest, trailer) := handOn isFirst statement rest trailer
    sweep isFirst decisions rest trailer
  | _, rest, trailer => (rest, trailer)

/-- Removes the statements that `keep` is against, from left to right, and the entries of
`companions` that stand at the same places. -/
def sift {α : Type} (keep : Statement → Bool) (isFirst : Bool) : (companions : List α) →
    List Statement → (trailer : String) → List α × List Statement × String
  | companion :: companions, statement :: rest, trailer =>
    if keep statement then
      let (companions, rest, trailer) := sift keep false companions rest trailer
      (companion :: companions, statement :: rest, trailer)
    else
      let (rest, trailer) := handOn isFirst statement rest trailer
      sift keep isFirst companions rest trailer
  | companions, rest, trailer => (companions, rest, trailer)

end Statement

/-! ### Arguments -/

namespace Item

/-- The item with the trivia of the one that was removed in front of it, unless it starts a line. -/
def takeOver (removed : Item) (next : Item) : Item :=
  if next.expr.firstToken.startsLine then next
  else
    let blanks := Trivia.trimBlanks next.expr.leading.toList
    { next with expr := next.expr.withLeading (removed.expr.leading ++ String.ofList blanks) }

/-- The items with `comma` behind the last of them. -/
def closeWith (comma : Option Token) : List Item → List Item
  | [] => []
  | [last] => [{ last with comma }]
  | item :: rest => item :: closeWith comma rest

/-- Hands on what a removed item leaves: its trivia to the first of the items that follow it or, if
there is none, its comma to the last of those before it. -/
def handOn (before : List Item) (removed : Item) (following : List Item) :
    List Item × List Item :=
  match following with
  | next :: rest => (before, takeOver removed next :: rest)
  | [] => (closeWith removed.comma before, [])

/-- Removes the item at `index`. -/
def remove (items : List Item) (index : Nat) : List Item :=
  match items.drop index with
  | [] => items
  | removed :: following =>
    let (before, following) := handOn (items.take index) removed following
    before ++ following

/-- Replaces the expression of each item by its decision and removes the items with none. `before`
holds the items that have been decided. -/
def sweep (before : List Item) : (decisions : List (Option Expr)) → List Item → List Item
  | some decided :: decisions, item :: rest =>
    sweep (before ++ [{ item with expr := decided.withLeading item.expr.leading }]) decisions rest
  | none :: decisions, item :: rest =>
    let (before, rest) := handOn before item rest
    sweep before decisions rest
  | _, rest => before ++ rest

end Item

end BuildPrune
