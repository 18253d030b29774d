import BuildPrune.Text.Split

/-!
# BuildPrune.Diff

The difference between two texts, line by line. First some lines are chosen that both texts have in
the same order; what lies between them was removed from the one or added to the other. The choice is
made from a table of scores, which tends to long runs of common lines but does not always find the
longest common subsequence.
-/

namespace BuildPrune.Diff

/-- A stretch of lines. -/
inductive Hunk
  | same (lines : List String)
  | removed (lines : List String)
  | added (lines : List String)
  deriving DecidableEq, Repr

/-! ### Common lines -/

/-- The row of scores of a line against the lines of the other text, from the row above it. Two
equal lines score one more than the pair before them; two different ones take over the better of the
scores on the left and above. -/
def scoreRow (others : List String) (above : Option (Array Nat)) (line : String) : Array Nat :=
  others.foldl
    (fun row other =>
      let j := row.size
      let left := row.back?.getD 0
      row.push <|
        match above with
        | none => if other = line then 1 else left
        | some above =>
          if other = line then if j = 0 then 1 else above.getD (j - 1) 0 + 1
          else if j = 0 then above.getD 0 0
          else max left (above.getD j 0))
    #[]

/-- The rows of scores, one for each line. -/
def scores (lines others : List String) : Array (Array Nat) :=
  lines.foldl (fun rows line => rows.push (scoreRow others rows.back? line)) #[]

/-- Walks back through the first `n` lines and the first `m` others, and puts the common lines
that it meets before `found`. The score on the left of the first column is the last one of the row
above. -/
def walkBack (lines others : Array String) (table : Array (Array Nat)) (n m : Nat)
    (found : List String) : List String :=
  match n, m with
  | i + 1, j + 1 =>
    let line := lines.getD i ""
    if line = others.getD j "" then walkBack lines others table i j (line :: found)
    else if i = 0 then walkBack lines others table (i + 1) j found
    else
      let row := table.getD i #[]
      let above := table.getD (i - 1) #[]
      let left := if j = 0 then above.back?.getD 0 else row.getD (j - 1) 0
      if left > above.getD j 0 then walkBack lines others table (i + 1) j found
      else walkBack lines others table i (j + 1) found
  | _, _ => found
termination_by n + m

/-- Lines that both lists have, in the order of both. -/
def commonLines (lines others : List String) : List String :=
  walkBack lines.toArray others.toArray (scores lines others) lines.length others.length []

/-! ### Hunks -/

/-- The hunks before some others, where a stretch of common lines joins the one that follows. -/
def Hunk.cons : Hunk → List Hunk → List Hunk
  | .same lines, .same more :: rest => .same (lines ++ more) :: rest
  | hunk, rest => hunk :: rest

/-- The hunk of removed lines before some others, unless there are none. -/
def Hunk.consRemoved (lines : List String) (rest : List Hunk) : List Hunk :=
  if lines.isEmpty then rest else .removed lines :: rest

/-- The hunk of added lines before some others, unless there are none. -/
def Hunk.consAdded (lines : List String) (rest : List Hunk) : List Hunk :=
  if lines.isEmpty then rest else .added lines :: rest

/-- The hunks of two lists of lines around their common ones. -/
def hunksAround : (common lines others : List String) → List Hunk
  | [], lines, others => Hunk.consRemoved lines (Hunk.consAdded others [])
  | mark :: common, lines, others =>
    Hunk.consRemoved (lines.takeWhile (· ≠ mark)) <|
      Hunk.consAdded (others.takeWhile (· ≠ mark)) <|
        Hunk.cons (.same [mark]) <|
          hunksAround common (lines.dropWhile (· ≠ mark)).tail (others.dropWhile (· ≠ mark)).tail

/-- The lines of a list, of which a single empty one counts as none. -/
def orNone (lines : List String) : List String :=
  if lines = [""] then [] else lines

/-- The hunks that lead from one text to another. -/
def hunks (before after : String) : List Hunk :=
  let lines := Text.split '\n' before
  let others := Text.split '\n' after
  hunksAround (orNone (commonLines lines others)) (orNone lines) (orNone others)

end BuildPrune.Diff
