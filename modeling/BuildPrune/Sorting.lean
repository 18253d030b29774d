/-!
# BuildPrune.Sorting

Sorting by insertion. The result has the elements of the list (`sortBy_perm`), and is in order if
the order is total and transitive (`pairwise_sortBy`).
-/

namespace BuildPrune

variable {α : Type}

/-- Puts an element in front of the first that it may precede. -/
def insertBy (le : α → α → Bool) (a : α) : List α → List α
  | [] => [a]
  | b :: rest => if le a b then a :: b :: rest else b :: insertBy le a rest

/-- The elements of a list in order. -/
def sortBy (le : α → α → Bool) (xs : List α) : List α :=
  xs.foldr (insertBy le) []

theorem insertBy_perm (le : α → α → Bool) (a : α) (xs : List α) :
    (insertBy le a xs).Perm (a :: xs) := by
  induction xs with
  | nil => exact .refl _
  | cons b rest ih =>
    unfold insertBy
    split
    · exact .refl _
    · exact (ih.cons b).trans (.swap a b rest)

/-- Sorting changes only the order of the elements. -/
theorem sortBy_perm (le : α → α → Bool) (xs : List α) : (sortBy le xs).Perm xs := by
  induction xs with
  | nil => exact .refl _
  | cons a rest ih => exact (insertBy_perm le a (sortBy le rest)).trans (ih.cons a)

theorem pairwise_insertBy {le : α → α → Bool} (total : ∀ a b, le a b || le b a)
    (trans : ∀ a b c, le a b → le b c → le a c) (a : α) {xs : List α}
    (sorted : xs.Pairwise fun x y => le x y) : (insertBy le a xs).Pairwise fun x y => le x y := by
  induction xs with
  | nil => simp [insertBy]
  | cons b rest ih =>
    obtain ⟨first, others⟩ := List.pairwise_cons.1 sorted
    unfold insertBy
    split
    · rename_i hab
      refine List.pairwise_cons.2 ⟨fun x hx => ?_, sorted⟩
      rcases List.mem_cons.1 hx with rfl | hx
      · exact hab
      · exact trans a b x hab (first x hx)
    · rename_i hab
      have hba : le b a = true := by simpa [hab] using total a b
      refine List.pairwise_cons.2 ⟨fun x hx => ?_, ih others⟩
      rcases List.mem_cons.1 ((insertBy_perm le a rest).mem_iff.1 hx) with rfl | hx
      · exact hba
      · exact first x hx

/-- The result of sorting is in order. -/
theorem pairwise_sortBy {le : α → α → Bool} (total : ∀ a b, le a b || le b a)
    (trans : ∀ a b c, le a b → le b c → le a c) (xs : List α) :
    (sortBy le xs).Pairwise fun x y => le x y := by
  induction xs with
  | nil => exact .nil
  | cons a rest ih => exact pairwise_insertBy total trans a ih

theorem insertBy_map {β : Type} (le : β → β → Bool) (f : α → β) (a : α) (xs : List α) :
    insertBy le (f a) (xs.map f) = (insertBy (fun x y => le (f x) (f y)) a xs).map f := by
  induction xs with
  | nil => rfl
  | cons b rest ih =>
    rw [List.map_cons, insertBy, insertBy, ih]
    split <;> rfl

/-- To sort what a list is mapped to is to sort the list by it. -/
theorem sortBy_map {β : Type} (le : β → β → Bool) (f : α → β) (xs : List α) :
    sortBy le (xs.map f) = (sortBy (fun x y => le (f x) (f y)) xs).map f := by
  induction xs with
  | nil => rfl
  | cons a rest ih =>
    show insertBy le (f a) (sortBy le (rest.map f)) = _
    rw [ih, insertBy_map]
    rfl

end BuildPrune
