/-!
# BuildPrune.Text.Split

A text cut at every occurrence of a mark, be it one of characters or of bytes. Joining the pieces
with the mark gives the text back (`intercalate_cut`).
-/

namespace BuildPrune.Text

variable {α : Type} [DecidableEq α]

/-- The pieces of `text` between the marks. There is always at least one, which may be empty. -/
def cut (mark : α) (text : List α) : List (List α) :=
  text.foldr
    (fun c pieces =>
      if c = mark then [] :: pieces
      else
        match pieces with
        | [] => [[c]]
        | piece :: rest => (c :: piece) :: rest)
    [[]]

theorem cut_cons (mark c : α) (text : List α) :
    cut mark (c :: text) =
      if c = mark then [] :: cut mark text
      else
        match cut mark text with
        | [] => [[c]]
        | piece :: rest => (c :: piece) :: rest := rfl

theorem cut_ne_nil (mark : α) (text : List α) : cut mark text ≠ [] := by
  cases text with
  | nil => simp [cut]
  | cons c rest =>
    rw [cut_cons]
    split
    · simp
    · split <;> simp

/-- The pieces with the marks between them are the text. -/
theorem intercalate_cut (mark : α) (text : List α) :
    [mark].intercalate (cut mark text) = text := by
  induction text with
  | nil => rfl
  | cons c rest ih =>
    obtain ⟨piece, pieces, hsplit⟩ := List.exists_cons_of_ne_nil (cut_ne_nil mark rest)
    rw [cut_cons, hsplit]
    rw [hsplit] at ih
    by_cases hc : c = mark
    · simp [List.intercalate_cons_cons, hc, ih]
    · cases pieces with
      | nil => simpa [hc] using ih
      | cons next more =>
        simp only [hc, if_false, List.intercalate_cons_cons] at ih ⊢
        simpa using ih

/-- The pieces of `text` between the marks. -/
def split (mark : Char) (text : String) : List String :=
  (cut mark text.toList).map String.ofList

/-- `text` ends in `ending`. -/
def endsWith (text ending : String) : Bool :=
  ending.toList.isSuffixOf text.toList

/-- `text` starts with `start`. -/
def startsWith (text start : String) : Bool :=
  start.toList.isPrefixOf text.toList

end BuildPrune.Text
