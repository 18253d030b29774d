import BuildPrune.Proofs.LineBreaks
import BuildPrune.Proofs.RemovalOrder

/-!
# BuildPrune.Proofs.ArgumentOrder

**Two removals from a list of arguments, in one order or the other.** An argument that goes hands
its trivia on to the next one, or its comma to the one in front of it. Handing on trivia is
associative (`Item.takeOver_assoc`), and the comma of the last argument comes to stand behind
whichever is the last in the end (`Item.remove_closeWith`), so both orders leave the same list
(`Item.remove_comm`).

Statements are not as simple: what their trivia keeps depends on the order
(`Statement.removeDown_eq_removeUp_iff`).
-/

namespace BuildPrune.Item

variable {items front between rest : List Item}

/-! ### Trivia that is handed on -/

/-- An argument that starts a line keeps its trivia, and what the removed one had goes with it. -/
theorem takeOver_of_startsLine {next : Item} (h : next.expr.firstToken.startsLine = true)
    (removed : Item) : takeOver removed next = next :=
  if_pos h

theorem takeOver_of_onLine {next : Item} (h : next.expr.firstToken.startsLine = false)
    (removed : Item) :
    takeOver removed next = { next with expr := next.expr.withLeading (removed.expr.leading ++
      String.ofList (Trivia.trimBlanks next.expr.leading.toList)) } :=
  if_neg (Bool.eq_false_iff.1 h)

/-- The third of three arguments is handed the same trivia, whichever of the two in front of it goes
first. If it starts a line it keeps its own; else it has what the second would have had. -/
theorem takeOver_assoc (first second next : Item) :
    takeOver (takeOver first second) next = takeOver first (takeOver second next) := by
  cases hnext : next.expr.firstToken.startsLine with
  | true =>
      rw [takeOver_of_startsLine hnext, takeOver_of_startsLine hnext, takeOver_of_startsLine hnext]
  | false =>
      have hmoved := startsLine_takeOver second next
      rw [hnext, Bool.or_false] at hmoved
      cases hsecond : second.expr.firstToken.startsLine with
      | true =>
          -- What the second hands on starts a line, and the first hands on no more.
          rw [takeOver_of_startsLine hsecond, takeOver_of_startsLine (hmoved.trans hsecond)]
      | false =>
          rw [takeOver_of_onLine (hmoved.trans hsecond), takeOver_of_onLine hnext,
            takeOver_of_onLine hnext, takeOver_of_onLine hsecond]
          simp [Expr.leading_withLeading, Trivia.trimBlanks_append_trimBlanks, String.append_assoc]

/-! ### Commas that are handed on -/

/-- The last item of a list is the last of its second part, if there is one. -/
theorem closeWith_append_of_ne (comma : Option Token) (hrest : rest ≠ []) : ∀ front : List Item,
    closeWith comma (front ++ rest) = front ++ closeWith comma rest
  | [] => rfl
  | [item] => by
      obtain ⟨next, more, rfl⟩ := List.exists_cons_of_ne_nil hrest
      rfl
  | item :: next :: front =>
      congrArg (item :: ·) (closeWith_append_of_ne comma hrest (next :: front))

/-! ### Both orders

As for statements there are two cases: the two items stand apart, and each removal changes a place
of its own, or they stand side by side. In the second case the last item is treated for itself,
since it has no neighbour to take its trivia. -/

section Orders

variable {i j : Nat}

/-- An argument with another behind it hands its trivia on. -/
theorem remove_next (hfront : front.length = i) (item next : Item) (rest : List Item) :
    remove (front ++ item :: next :: rest) i = front ++ takeOver item next :: rest := by
  rw [← hfront, remove_append, handOn]

/-- The last argument hands its comma on. -/
theorem remove_last (hfront : front.length = i) (last : Item) :
    remove (front ++ [last]) i = closeWith last.comma front := by
  rw [← hfront, remove_append, handOn, List.append_nil]

/-- Trivia is handed on as before if the comma behind the list is another. This is what one of the
orders does after the last argument went. -/
theorem remove_closeWith (hfront : front.length = i) (comma : Option Token) (item next : Item)
    (rest : List Item) : remove (front ++ item :: closeWith comma (next :: rest)) i =
      front ++ closeWith comma (takeOver item next :: rest) := by
  cases rest with
  | nil =>
      rw [closeWith, remove_next hfront, closeWith, takeOver, takeOver]
      split <;> rfl
  | cons => exact remove_next hfront item next _

/-- With an argument between them, the two do not meet. The second may be the last one, and then its
comma goes to an argument that the first removal did not touch. -/
theorem remove_comm_of_apart (hfront : front.length = i) (hbetween : i + between.length + 2 = j)
    (first next second : Item) (rest : List Item) :
    remove (remove (front ++ first :: next :: (between ++ second :: rest)) i) (j - 1) =
      remove (remove (front ++ first :: next :: (between ++ second :: rest)) j) i := by
  have hdown : (front ++ takeOver first next :: between).length = j - 1 := by
    rw [List.length_append, List.length_cons]
    omega
  have hup : (front ++ first :: next :: between).length = j := by
    rw [List.length_append, List.length_cons, List.length_cons]
    omega
  have hleft : front ++ takeOver first next :: (between ++ second :: rest) =
      (front ++ takeOver first next :: between) ++ second :: rest := by
    rw [List.append_assoc, List.cons_append]
  have hwhole : front ++ first :: next :: (between ++ second :: rest) =
      (front ++ first :: next :: between) ++ second :: rest := by
    rw [List.append_assoc, List.cons_append, List.cons_append]
  rw [remove_next hfront, hleft, hwhole]
  cases rest with
  | nil =>
      have hclose : closeWith second.comma (front ++ first :: next :: between) =
          front ++ first :: closeWith second.comma (next :: between) := by
        rw [closeWith_append_of_ne _ (List.cons_ne_nil _ _), closeWith]
        exact List.cons_ne_nil _ _
      rw [remove_last hdown, remove_last hup, hclose, remove_closeWith hfront,
        closeWith_append_of_ne _ (List.cons_ne_nil _ _)]
  | cons after rest =>
      rw [remove_next hdown, remove_next hup, List.append_assoc, List.append_assoc,
        List.cons_append, List.cons_append, List.cons_append, remove_next hfront]

/-- Side by side, the two hand on the same trivia or the same comma: to the third argument, or to
the one in front of both if there is none. -/
theorem remove_comm_of_beside (hfront : front.length = i) (first second : Item)
    (rest : List Item) :
    remove (remove (front ++ first :: second :: rest) i) i =
      remove (remove (front ++ first :: second :: rest) (i + 1)) i := by
  have hup : (front ++ [first]).length = i + 1 := by
    rw [List.length_append, List.length_singleton, hfront]
  have hwhole : front ++ first :: second :: rest = (front ++ [first]) ++ second :: rest := by
    rw [List.append_assoc, List.singleton_append]
  rw [remove_next hfront, hwhole]
  cases rest with
  | nil =>
      rw [remove_last hfront, remove_last hup, closeWith_append, remove_last hfront, comma_takeOver]
  | cons next rest =>
      rw [remove_next hfront, remove_next hup, List.append_assoc, List.singleton_append,
        remove_next hfront, takeOver_assoc]

end Orders

theorem remove_of_length_le {index : Nat} (h : items.length ≤ index) : remove items index = items := by
  rw [remove, List.drop_of_length_le h]

/-- A removal leaves one argument less, so indices behind it move by one. -/
theorem length_remove {index : Nat} (h : index < items.length) :
    (remove items index).length + 1 = items.length := by
  obtain ⟨front, item, rest, rfl, hfront⟩ := exists_split h
  cases rest with
  | nil =>
      have hlength := congrArg List.length (map_expr_closeWith item.comma front)
      rw [List.length_map, List.length_map] at hlength
      rw [remove_last hfront, hlength, List.length_append, List.length_singleton]
  | cons next rest =>
      rw [remove_next hfront]
      simp [Nat.add_assoc]

/-- Two removals from a list of arguments commute: removing the argument at `i` and then the one
that stood at `j` leaves what the opposite order leaves, comments, white space and commas included.

This needs no condition on the trivia, unlike the removal of statements, because an argument hands
its trivia on without cutting it. -/
theorem remove_comm (items : List Item) {i j : Nat} (hij : i < j) :
    remove (remove items i) (j - 1) = remove (remove items j) i := by
  by_cases hj : j < items.length
  · obtain ⟨rfl, front, first, second, rest, rfl, hfront⟩ |
      ⟨-, front, first, next, between, second, rest, rfl, hfront, hbetween⟩ :=
        beside_or_apart hij hj
    · exact remove_comm_of_beside hfront first second rest
    · exact remove_comm_of_apart hfront hbetween first next second rest
  · -- Behind the list there is nothing to remove.
    rw [Nat.not_lt] at hj
    rw [remove_of_length_le hj]
    refine remove_of_length_le ?_
    by_cases hi : i < items.length
    · have hlength := length_remove hi
      omega
    · rw [Nat.not_lt] at hi
      rw [remove_of_length_le hi]
      omega

/-- The second argument and the last one, behind which there is a comma. -/
theorem remove_comm_lines :
    ∃ script call args, parse "f(a, b,\n    c, /* d */ d,)\n" .kotlin = .ok script ∧
      script.calls.head? = some call ∧ call.args = some args ∧ 1 < 3 ∧
      remove (remove args.items 1) (3 - 1) = remove (remove args.items 3) 1 ∧
      printTokens (listTokens (remove (remove args.items 3) 1)) = "a,\n    c," := by
  have hread : (parse "f(a, b,\n    c, /* d */ d,)\n" .kotlin).toOption.any (fun script =>
      script.calls.head?.any fun call => call.args.any fun args =>
        printTokens (listTokens (remove (remove args.items 3) 1)) == "a,\n    c,") = true := by
    decide +kernel
  obtain ⟨script, hparse, hread⟩ := ok_of_any hread
  obtain ⟨call, hcall, hread⟩ := (Option.any_eq_true _ _).1 hread
  obtain ⟨args, hargs, hprint⟩ := (Option.any_eq_true _ _).1 hread
  exact ⟨script, call, args, hparse, hcall, hargs, by decide,
    remove_comm args.items (by decide), beq_iff_eq.1 hprint⟩

end BuildPrune.Item
