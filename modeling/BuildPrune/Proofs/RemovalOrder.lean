import BuildPrune.Proofs.Reading
import BuildPrune.Proofs.RepairOrder
import BuildPrune.Proofs.Siblings

/-!
# BuildPrune.Proofs.RemovalOrder

**Two removals from a list of statements, in one order or the other.** A removal changes the trivia
behind the removed statement and nothing else of the list (`Statement.remove_split`). If a statement
stands between the two, each of them changes a place of its own and the order does not matter. If
they stand side by side, both orders leave the same statements, and what they leave in front of
what follows is compared in `BuildPrune.Proofs.RepairOrder`.

`Statement.removeDown_eq_removeUp_iff` says so of every list and trailer. At the top of a file the
order does matter (`Statement.not_removals_commute`): a comment in front of the second statement
becomes the first line of the file when the first goes, and there it no longer counts as the
comment of the statement below it.
-/

namespace BuildPrune

/-! ### Two places of a list

Any list with two places in it is three lists around two entries. That the middle one is empty or
not makes the two cases. -/

theorem exists_split {α : Type} {list : List α} {index : Nat} (h : index < list.length) :
    ∃ front entry rest, list = front ++ entry :: rest ∧ front.length = index :=
  ⟨list.take index, list[index], list.drop (index + 1), by simp,
    List.length_take_of_le (Nat.le_of_lt h)⟩

/-- Two entries of a list stand side by side, or there is one between them. -/
theorem beside_or_apart {α : Type} {list : List α} {i j : Nat} (hij : i < j)
    (hj : j < list.length) :
    (j = i + 1 ∧ ∃ front first second rest,
      list = front ++ first :: second :: rest ∧ front.length = i) ∨
    (j ≠ i + 1 ∧ ∃ front first next between second rest,
      list = front ++ first :: next :: (between ++ second :: rest) ∧
        front.length = i ∧ i + between.length + 2 = j) := by
  obtain ⟨front, first, below, rfl, hfront⟩ := exists_split (Nat.lt_trans hij hj)
  rw [List.length_append, List.length_cons] at hj
  match below with
  | [] =>
      rw [List.length_nil] at hj
      omega
  | next :: below =>
      rw [List.length_cons] at hj
      obtain hbeside | hapart := Nat.eq_or_lt_of_le (Nat.succ_le_of_lt hij)
      · exact .inl ⟨hbeside.symm, front, first, next, below, rfl, hfront⟩
      · obtain ⟨between, second, rest, rfl, hbetween⟩ :
            ∃ between second rest, below = between ++ second :: rest ∧
              between.length = j - (i + 2) := exists_split (by omega)
        exact .inr ⟨by omega, front, first, next, between, second, rest, rfl, hfront, by omega⟩

namespace Statement

/-! ### Statements

What a removal changes is the trivia in front of the next statement, or of the trailer if there is
none. So of a list only that trivia is compared, and everything else is the same in both orders.
-/

/-- Removes the statement at `i` and then the one that stood at `j`, further down. As the first is
gone by then, that is one place further up. -/
def removeDown (statements : List Statement) (i j : Nat) (trailer : String) :
    List Statement × String :=
  let (left, trailer) := remove statements i trailer
  remove left (j - 1) trailer

/-- Removes the statement at `j` and then the one at `i`, further up. -/
def removeUp (statements : List Statement) (i j : Nat) (trailer : String) :
    List Statement × String :=
  let (left, trailer) := remove statements j trailer
  remove left i trailer

/-- The trivia in front of the statement at `index`; behind the last one, the trailer. It is what a
removal hands on to. -/
def triviaAt (statements : List Statement) (trailer : String) (index : Nat) : List Char :=
  match statements[index]? with
  | some statement => statement.leading.toList
  | none => trailer.toList

/-- Whether the statement at `index` opens the list, with nothing in front of it. -/
def opensAt (statements : List Statement) (trailer : String) (index : Nat) : Bool :=
  index == 0 && (triviaAt statements trailer index).isEmpty

variable {statements front between rest : List Statement} {first second : Statement}

theorem triviaAt_append (front rest : List Statement) (trailer : String) (index : Nat) :
    triviaAt (front ++ rest) trailer (front.length + index) = triviaAt rest trailer index := by
  rw [triviaAt, List.getElem?_append_right (Nat.le_add_right _ _), Nat.add_sub_cancel_left,
    triviaAt]

/-- What a removal does to a list: in front of the entry nothing changes, and behind it the trivia
of what comes next, be it a statement or the end. -/
theorem remove_split {index : Nat} (hindex : front.length = index) (s : Statement)
    (rest : List Statement) (trailer : String) :
    remove (front ++ s :: rest) index trailer =
      (front ++ (handOn (index == 0) s rest trailer).1,
        (handOn (index == 0) s rest trailer).2) := by
  rw [← hindex, remove_append]

theorem handOn_cons (isFirst : Bool) (s next : Statement) (rest : List Statement)
    (trailer : String) :
    handOn isFirst s (next :: rest) trailer = (next.withLeading (String.ofList (Trivia.repair
      s.leading.toList next.leading.toList (isFirst && s.leading.toList.isEmpty) false)) :: rest,
      trailer) :=
  rfl

theorem handOn_nil (isFirst : Bool) (s : Statement) (trailer : String) :
    handOn isFirst s [] trailer = ([], String.ofList (Trivia.repair s.leading.toList
      trailer.toList (isFirst && s.leading.toList.isEmpty) true)) :=
  rfl

/-- Trivia in front of a statement is told apart, so lists of statements that differ there are
different. -/
theorem withLeading_inj {s : Statement} {text more : List Char} :
    s.withLeading (String.ofList text) = s.withLeading (String.ofList more) ↔ text = more := by
  constructor
  · intro heq
    have hleading := congrArg (fun s => s.leading.toList) heq
    simpa using hleading
  · rintro rfl
    rfl

/-! ### The two orders

Apart, each removal has its own place to hand trivia to. Beside each other, both end at the same
place, and it has to be seen what is there after one order and after the other. -/

/-- With a statement between them, the two do not meet: each removal changes the trivia of a
statement that the other leaves alone. -/
theorem removeDown_eq_removeUp_of_apart {i j : Nat} (hfront : front.length = i)
    (hbetween : i + between.length + 2 = j) (first next second : Statement)
    (rest : List Statement) (trailer : String) :
    removeDown (front ++ first :: next :: (between ++ second :: rest)) i j trailer =
      removeUp (front ++ first :: next :: (between ++ second :: rest)) i j trailer := by
  have hdown (next' : Statement) : (front ++ next' :: between).length = j - 1 := by
    rw [List.length_append, List.length_cons]
    omega
  have hup : (front ++ first :: next :: between).length = j := by
    rw [List.length_append, List.length_cons, List.length_cons]
    omega
  have hfirst : (j - 1 == 0) = false := beq_eq_false_iff_ne.2 (by omega)
  have hsecond : (j == 0) = false := beq_eq_false_iff_ne.2 (by omega)
  have hsplit (next' : Statement) : front ++ next' :: (between ++ second :: rest) =
      (front ++ next' :: between) ++ second :: rest := by
    rw [List.append_assoc, List.cons_append]
  have hwhole : front ++ first :: next :: (between ++ second :: rest) =
      (front ++ first :: next :: between) ++ second :: rest := by
    rw [List.append_assoc, List.cons_append, List.cons_append]
  -- The upper removal changes `next` alone, and the lower one nothing in front of `second`.
  rw [removeDown, remove_split hfront, handOn_cons]
  simp only
  rw [hsplit, remove_split (hdown _), removeUp, hwhole, remove_split hup, hfirst, hsecond]
  simp only [List.append_assoc, List.cons_append]
  rw [remove_split hfront, handOn_cons]

/-- Side by side, the two leave the same statements. The orders agree exactly if they agree on the
trivia in front of the next one. -/
theorem removeDown_eq_removeUp_of_beside {i : Nat} (hfront : front.length = i)
    (first second : Statement) (rest : List Statement) (trailer : String) :
    removeDown (front ++ first :: second :: rest) i (i + 1) trailer =
        removeUp (front ++ first :: second :: rest) i (i + 1) trailer ↔
      Trivia.OrdersAgree first.leading.toList second.leading.toList
        (triviaAt rest trailer 0) (i == 0 && first.leading.toList.isEmpty) rest.isEmpty := by
  have hup : (front ++ [first]).length = i + 1 := by
    rw [List.length_append, List.length_singleton, hfront]
  have hwhole : front ++ first :: second :: rest = (front ++ [first]) ++ second :: rest := by
    rw [List.append_assoc, List.singleton_append]
  have hsecond : (i + 1 == 0) = false := rfl
  rw [← Trivia.repair_comm_iff, removeDown, remove_split hfront, handOn_cons]
  simp only [Nat.add_sub_cancel]
  rw [remove_split hfront, removeUp, hwhole, remove_split hup, hsecond]
  simp only
  cases rest with
  | nil =>
      rw [handOn_nil, handOn_nil]
      simp only
      rw [List.append_nil, List.append_nil, remove_split hfront, handOn_nil]
      simp [triviaAt, String.ofList_inj]
  | cons next rest =>
      rw [handOn_cons, handOn_cons]
      simp only
      rw [List.append_assoc, List.singleton_append, remove_split hfront, handOn_cons]
      simp [triviaAt, withLeading_inj]

theorem triviaAt_beside {i : Nat} (hfront : front.length = i) (first second : Statement)
    (rest : List Statement) (trailer : String) :
    triviaAt (front ++ first :: second :: rest) trailer i = first.leading.toList ∧
      triviaAt (front ++ first :: second :: rest) trailer (i + 1) = second.leading.toList ∧
      triviaAt (front ++ first :: second :: rest) trailer (i + 2) = triviaAt rest trailer 0 := by
  have hat := triviaAt_append front (first :: second :: rest) trailer
  rw [hfront] at hat
  exact ⟨hat 0, hat 1, hat 2⟩

/-- Two removals from a list commute, unless the statements stand side by side and the trivia in
front of them tells the orders apart.

`Trivia.OrdersAgree` lists what must hold of the three pieces of trivia that meet; it is decidable,
and about these three alone. -/
theorem removeDown_eq_removeUp_iff (statements : List Statement) (trailer : String) {i j : Nat}
    (hij : i < j) (hj : j < statements.length) :
    removeDown statements i j trailer = removeUp statements i j trailer ↔
      (j = i + 1 → Trivia.OrdersAgree (triviaAt statements trailer i)
        (triviaAt statements trailer j) (triviaAt statements trailer (j + 1))
        (opensAt statements trailer i) (j + 1 == statements.length)) := by
  obtain ⟨rfl, front, first, second, rest, rfl, hfront⟩ |
    ⟨hapart, front, first, next, between, second, rest, rfl, hfront, hbetween⟩ :=
      beside_or_apart hij hj
  · have hend : (i + 1 + 1 == (front ++ first :: second :: rest).length) = rest.isEmpty := by
      cases rest with
      | nil => simp [hfront]
      | cons =>
          simp [hfront]
          omega
    obtain ⟨hfirst, hsecond, hbehind⟩ := triviaAt_beside hfront first second rest trailer
    rw [removeDown_eq_removeUp_of_beside hfront, opensAt, hfirst, hsecond, hbehind, hend]
    exact ⟨fun hagree _ => hagree, fun hagree => hagree rfl⟩
  · exact iff_of_true (removeDown_eq_removeUp_of_apart hfront hbetween _ _ _ _ _) (absurd · hapart)

/-- A section between the two stays in both orders, and the comment of the lower one goes. -/
theorem removeDown_eq_removeUp_section :
    ∃ script, parse "a()\n// about b\nb()\n\n// section\n\n// about c\nc()\nd()\n" .groovy =
        .ok script ∧
      1 < 2 ∧ 2 < script.statements.length ∧
      removeDown script.statements 1 2 script.eof = removeUp script.statements 1 2 script.eof := by
  have hagree : (parse "a()\n// about b\nb()\n\n// section\n\n// about c\nc()\nd()\n"
      .groovy).toOption.any (fun script => decide (2 < script.statements.length ∧
        Trivia.OrdersAgree (triviaAt script.statements script.eof 1)
          (triviaAt script.statements script.eof 2) (triviaAt script.statements script.eof 3)
          (opensAt script.statements script.eof 1) (3 == script.statements.length))) = true := by
    decide +kernel
  obtain ⟨script, hparse, hagree⟩ := ok_of_any hagree
  obtain ⟨hlength, hagree⟩ := of_decide_eq_true hagree
  exact ⟨script, hparse, by decide, hlength,
    (removeDown_eq_removeUp_iff _ _ (by decide) hlength).2 fun _ => hagree⟩

/-- From the top, the comment of the second statement stays as the first line of the file. -/
theorem not_removals_commute :
    ¬∀ (source : String) (dialect : Dialect) (script : Script), parse source dialect = .ok script →
      ∀ i j, i < j → j < script.statements.length →
        removeDown script.statements i j script.eof =
          removeUp script.statements i j script.eof := by
  intro h
  have hdiffer : (parse "a()\n// about b\nb()\nc()\n" .groovy).toOption.any (fun script =>
      decide (1 < script.statements.length ∧
        (removeDown script.statements 0 1 script.eof).1.map leading = ["// about b\n"] ∧
        (removeUp script.statements 0 1 script.eof).1.map leading = [""])) = true := by
    decide +kernel
  obtain ⟨script, hparse, hdiffer⟩ := ok_of_any hdiffer
  obtain ⟨hlength, hdown, hup⟩ := of_decide_eq_true hdiffer
  rw [h _ _ script hparse 0 1 (by decide) hlength, hup] at hdown
  exact absurd hdown (by decide)

/-- Below the top of a list and above its end, removals commute where lines end in line feeds alone
and no white space stands in front of these. -/
theorem removeDown_eq_removeUp_of_tidy {trailer : String} {i j : Nat} (hij : i < j)
    (hj : j + 1 < statements.length) (hopens : opensAt statements trailer i = false)
    (hreturn : ∀ index, '\r' ∉ triviaAt statements trailer index)
    (hline : ∀ index, Text.trimEnd (Trivia.beforeLineBreak (triviaAt statements trailer index)) =
      Trivia.beforeLineBreak (triviaAt statements trailer index)) :
    removeDown statements i j trailer = removeUp statements i j trailer := by
  obtain ⟨rfl, front, first, second, rest, rfl, hfront⟩ |
    ⟨-, front, first, next, between, second, rest, rfl, hfront, hbetween⟩ :=
      beside_or_apart hij (Nat.lt_of_succ_lt hj)
  · obtain ⟨hfirst, hsecond, hbehind⟩ := triviaAt_beside hfront first second rest trailer
    have hrest : rest.isEmpty = false := by
      cases rest with
      | nil => simp [hfront] at hj
      | cons => rfl
    rw [opensAt, hfirst] at hopens
    rw [removeDown_eq_removeUp_of_beside hfront, hopens, hrest]
    exact .of_tidy (hfirst ▸ hline i) (hsecond ▸ hreturn (i + 1)) (hbehind ▸ hreturn (i + 2))
  · exact removeDown_eq_removeUp_of_apart hfront hbetween _ _ _ _ _

end Statement

end BuildPrune
