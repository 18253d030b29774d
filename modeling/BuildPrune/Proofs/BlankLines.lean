import BuildPrune.Proofs.RemovalOrder

/-!
# BuildPrune.Proofs.BlankLines

**Blank lines do not accumulate.** The gap of a text is the stretch of its white space with the most
line feeds (`Trivia.widestGap`). When a statement goes, two pieces of trivia meet, and what `repair`
joins them to has no wider gap than one of the two (`Trivia.widestGap_repair_le`): wherever it puts
two texts side by side, one of them has no line feeds where they meet
(`Trivia.widestGap_append_le`), and the gap that it writes itself is as wide as one it has found.

So any number of removals from a list of statements leaves no gap that is wider than the widest
there was (`Statement.widestGap_removeEach_le`).
-/

namespace BuildPrune

namespace Trivia

open Text

variable {text more : List Char}

/-- The stretches of white space of a text, those of no length between two other characters
included. -/
def gaps (text : List Char) : List (List Char) :=
  text.splitOnP (!isWhiteSpace ·)

/-- The most line feeds that stand in one stretch of white space of the text. -/
def widestGap (text : List Char) : Nat :=
  ((gaps text).map (·.count '\n')).foldr max 0

/-! ### From one character to the next

The widest gap is a maximum over all stretches of white space. It is computed along the text, so
that a proof by induction on the text has to look at one character and the stretch that it may
belong to. -/

theorem openingSpace_cons (c : Char) (text : List Char) :
    openingSpace (c :: text) = if isWhiteSpace c then c :: openingSpace text else [] :=
  List.takeWhile_cons

/-- White space in front of a text widens its first gap; any other character puts an empty gap in
front of it. -/
theorem gaps_cons (c : Char) (text : List Char) :
    gaps (c :: text) =
      if isWhiteSpace c then (gaps text).modifyHead (c :: ·) else [] :: gaps text := by
  rw [gaps, List.splitOnP_cons_eq_if_modifyHead, gaps]
  cases isWhiteSpace c <;> rfl

/-- The first gap is the white space that opens the text. It may be empty, so every text has a
gap. -/
theorem exists_gaps (text : List Char) : ∃ rest, gaps text = openingSpace text :: rest := by
  induction text with
  | nil => exact ⟨[], rfl⟩
  | cons c text ih =>
      obtain ⟨rest, hgaps⟩ := ih
      rw [gaps_cons, openingSpace_cons, hgaps]
      split
      · exact ⟨rest, rfl⟩
      · exact ⟨_, rfl⟩

/-- The widest gap opens the text, or it is one of what follows the first character. The gap of a
text is thus found character by character, and so are the facts about it below. -/
theorem widestGap_cons (c : Char) (text : List Char) :
    widestGap (c :: text) = max (lineFeeds (c :: text)) (widestGap text) := by
  obtain ⟨rest, hgaps⟩ := exists_gaps text
  have hmore := List.count_le_count_cons (a := '\n') (b := c) (l := openingSpace text)
  rw [widestGap, widestGap, lineFeeds, gaps_cons, openingSpace_cons, hgaps]
  split
  · rw [List.modifyHead_cons, List.map_cons, List.map_cons, List.foldr_cons, List.foldr_cons]
    omega
  · rw [List.map_cons, List.foldr_cons]

/-- The line feeds in front of a text stand in one gap. -/
theorem lineFeeds_le_widestGap (text : List Char) : lineFeeds text ≤ widestGap text := by
  cases text with
  | nil => exact Nat.le_refl 0
  | cons c text =>
      rw [widestGap_cons]
      exact Nat.le_max_left _ _

/-- Part of a text from some place on has no wider gap. A gap that is cut has fewer line feeds. -/
theorem widestGap_le_of_suffix (h : more <:+ text) : widestGap more ≤ widestGap text := by
  obtain ⟨front, rfl⟩ := h
  induction front with
  | nil => exact Nat.le_refl _
  | cons c front ih =>
      rw [List.cons_append, widestGap_cons]
      exact Nat.le_trans ih (Nat.le_max_right _ _)

theorem lineFeeds_le_count (text : List Char) : lineFeeds text ≤ text.count '\n' :=
  (List.takeWhile_sublist _).count_le _

theorem lineFeeds_of_noFeed (h : '\n' ∉ text) : lineFeeds text = 0 :=
  Nat.le_zero.1 (Nat.le_trans (lineFeeds_le_count text) (Nat.le_of_eq (List.count_eq_zero.2 h)))

/-- More text behind can only widen the white space in front. -/
theorem lineFeeds_le_append (text more : List Char) : lineFeeds text ≤ lineFeeds (text ++ more) := by
  by_cases hspace : trimStart text = []
  · have hall := space_of_trimStart hspace
    rw [lineFeeds_space_append hall]
    exact Nat.le_add_right_of_le (lineFeeds_le_count text)
  · exact Nat.le_of_eq (lineFeeds_append hspace more).symm

/-- Part of a text up to some place has no wider gap. -/
theorem widestGap_le_append (text more : List Char) :
    widestGap text ≤ widestGap (text ++ more) := by
  induction text with
  | nil => exact Nat.zero_le _
  | cons c text ih =>
      have hfeeds := lineFeeds_le_append (c :: text) more
      rw [List.cons_append] at hfeeds ⊢
      rw [widestGap_cons, widestGap_cons]
      omega

/-- No gap has more line feeds than the text. -/
theorem widestGap_le_count (text : List Char) : widestGap text ≤ text.count '\n' := by
  induction text with
  | nil => exact Nat.le_refl 0
  | cons c text ih =>
      have hopening := lineFeeds_le_count (c :: text)
      have hmore := List.count_le_count_cons (a := '\n') (b := c) (l := text)
      rw [widestGap_cons]
      omega

/-! ### Two texts side by side

A stretch can begin in one text and end in the other. Its line feeds are those at the end of the
first and those at the start of the second, so if one of these numbers is zero then the gap is no
wider than in one of the two. -/

/-- The line feeds in the white space that closes the text. -/
def closingFeeds (text : List Char) : Nat :=
  lineFeeds text.reverse

theorem closingFeeds_le_cons (c : Char) (text : List Char) :
    closingFeeds text ≤ closingFeeds (c :: text) := by
  rw [closingFeeds, closingFeeds, List.reverse_cons]
  exact lineFeeds_le_append _ _

theorem closingFeeds_of_noFeed (h : '\n' ∉ text) : closingFeeds text = 0 :=
  lineFeeds_of_noFeed fun hmem => h (List.mem_reverse.1 hmem)

/-- A trimmed text closes with no line feeds. -/
theorem closingFeeds_of_closed (h : trimEnd text = text) : closingFeeds text = 0 := by
  refine lineFeeds_of_sharp (List.dropWhile_eq_self_iff.2 fun hlength => ?_)
  rw [← List.head_eq_getElem_zero (List.length_pos_iff.1 hlength), List.head_reverse]
  simpa using last_of_closed h _ (List.getLast?_eq_some_getLast _)

/-- In front of two texts stand no more line feeds than in front of one of them, if the first does
not end in line feeds that the second goes on with. -/
theorem lineFeeds_append_le (h : closingFeeds text = 0 ∨ lineFeeds more = 0) :
    lineFeeds (text ++ more) ≤ max (lineFeeds text) (lineFeeds more) := by
  by_cases hspace : trimStart text = []
  · have hall := space_of_trimStart hspace
    have hreverse : openingSpace text.reverse = text.reverse :=
      List.takeWhile_eq_self_iff.2 fun c hc => hall c (List.mem_reverse.1 hc)
    have hopening : openingSpace text = text := List.takeWhile_eq_self_iff.2 hall
    have hfeeds : lineFeeds text = text.count '\n' := by rw [lineFeeds, hopening]
    rw [closingFeeds, lineFeeds, hreverse, List.count_reverse] at h
    rw [lineFeeds_space_append hall, hfeeds]
    omega
  · rw [lineFeeds_append hspace]
    exact Nat.le_max_left _ _

/-- Side by side, two texts have no wider gap if one of them has no line feeds where they meet.
Every other gap is in one of the two. -/
theorem widestGap_append_le (h : closingFeeds text = 0 ∨ lineFeeds more = 0) :
    widestGap (text ++ more) ≤ max (widestGap text) (widestGap more) := by
  induction text with
  | nil => exact Nat.le_max_right _ _
  | cons c text ih =>
      have hopening := lineFeeds_append_le h
      have hfeeds := lineFeeds_le_widestGap more
      have hrest := ih (h.imp_left fun hclosing =>
        Nat.le_zero.1 (Nat.le_trans (closingFeeds_le_cons c text) (Nat.le_of_eq hclosing)))
      rw [List.cons_append] at hopening ⊢
      rw [widestGap_cons, widestGap_cons]
      omega

/-! ### Repaired trivia

The cases are those of `repair`. Where it writes a gap of its own, the number of line endings is
that of one of the two gaps that meet there. -/

/-- Behind a cut stands a gap of the width that was asked for, and then what follows without its
own. -/
theorem widestGap_behindCut_le (feeds : Nat) (following : List Char) :
    widestGap (behindCut feeds following) ≤ max feeds (widestGap following) := by
  have hendings := widestGap_le_count (List.replicate feeds (lineEnding following)).flatten
  have hrest : widestGap (dropBlankLines (fromLineBreak following)) ≤ widestGap following :=
    widestGap_le_of_suffix ((dropBlankLines_suffix _).trans (List.dropWhile_suffix _))
  rw [count_endings] at hendings
  rw [behindCut]
  refine Nat.le_trans (widestGap_append_le (.inr (lineFeeds_dropBlankLines _))) ?_
  omega

/-- The gap above a removed statement is one of the trivia in front of it. So the width that
`repair` writes was found there, or in front of what follows. -/
theorem Cut.count_le_widestGap {head space tail : List Char} (h : Cut text head space tail) :
    space.count '\n' ≤ widestGap text := by
  have hgap := lineFeeds_le_widestGap (space ++ tail)
  rw [lineFeeds_space_append h.blank] at hgap
  have hsuffix : space ++ tail <:+ text := ⟨head, h.split⟩
  have hmore := widestGap_le_of_suffix hsuffix
  omega

/-- The gaps of repaired trivia are no wider than those of the two pieces of trivia that meet.

One case for each way in which `repair` joins them (`repair_cases`). In each of them one of the two
has no line feeds where they meet, because it was trimmed there or cut at its line break. -/
theorem widestGap_repair_le (removed following : List Char) (atStart atEnd : Bool) :
    widestGap (repair removed following atStart atEnd) ≤
      max (widestGap removed) (widestGap following) := by
  have hfrom : widestGap (fromLineBreak following) ≤ widestGap following :=
    widestGap_le_of_suffix (List.dropWhile_suffix _)
  refine repair_cases (motive := fun text => widestGap text ≤ _) atStart atEnd removed following
    ?noBreak ?onLine ?noBlank ?cut
  case noBreak =>
    intro hfollowing
    have hblanks : widestGap (trimBlanks following) ≤ widestGap following :=
      widestGap_le_of_suffix (List.dropWhile_suffix _)
    -- Where the two pieces meet no gap opens: one of them has no line feed there.
    have hopening : lineFeeds (trimBlanks following) = 0 :=
      lineFeeds_of_noFeed (feed_not_mem (hasLineBreak_trimBlanks hfollowing))
    refine Nat.le_trans (widestGap_append_le (.inr hopening)) ?_
    omega
  case onLine =>
    intro _ _
    have htrim : widestGap (trimStart (fromLineBreak following)) ≤
        widestGap (fromLineBreak following) :=
      widestGap_le_of_suffix (List.dropWhile_suffix _)
    split <;> omega
  case noBlank =>
    intro _ _
    have hline : widestGap (beforeLineBreak removed) ≤ widestGap removed := by
      conv_rhs => rw [← beforeLineBreak_append_fromLineBreak removed]
      exact widestGap_le_append _ _
    have hclosing : closingFeeds (beforeLineBreak removed) = 0 :=
      closingFeeds_of_noFeed (feed_not_mem (hasLineBreak_beforeLineBreak removed))
    refine Nat.le_trans (widestGap_append_le (.inl hclosing)) ?_
    omega
  case cut =>
    intro head space tail _ hcut
    have hhead : widestGap head ≤ widestGap removed := by
      rw [← hcut.split]
      exact widestGap_le_append _ _
    have hspace := hcut.count_le_widestGap
    have habove : (if atEnd then 0 else space.count '\n') ≤ widestGap removed := by
      split <;> omega
    have hfeeds := lineFeeds_le_widestGap (fromLineBreak following)
    generalize (if atEnd then 0 else space.count '\n') = above at habove ⊢
    -- Behind the cut the wider of the two gaps is left, and each is a gap of a piece.
    have hbehind := widestGap_behindCut_le
      (max (lineFeeds (fromLineBreak following)) above) following
    refine Nat.le_trans (widestGap_append_le (.inl (closingFeeds_of_closed hcut.closed))) ?_
    omega

end Trivia

/-! ### Lists of statements

That no gap of the trivia is wider than some bound is a property that `repair` preserves, and a
removal touches trivia in no other way. By induction it holds after any number of removals. -/

/-- The gaps of the trivia have at most `most` line feeds. -/
def gapsUpTo (most : Nat) : Edge :=
  .both fun text => Trivia.widestGap text.toList ≤ most

/-- A bound on the gaps is thus a property of trivia that removals preserve, all over a tree. -/
theorem gapsUpTo_repairClosed (most : Nat) : RepairClosed (gapsUpTo most) (gapsUpTo most) :=
  .of_repair (Trivia.widestGap · ≤ most) fun _ _ hremoved hfollowing =>
    Nat.le_trans (Trivia.widestGap_repair_le _ _ _ _) (Nat.max_le.2 ⟨hremoved, hfollowing⟩)

/-- Removing one statement preserves what `repair` does, also at an index that the list does not
have. -/
theorem StatementsEdged.remove {edge : Edge} (hclosed : RepairClosed edge edge)
    {statements : List Statement} {trailer : String}
    (h : StatementsEdged edge edge statements trailer) (index : Nat) :
    StatementsEdged edge edge (Statement.remove statements index trailer).1
      (Statement.remove statements index trailer).2 := by
  by_cases hindex : index < statements.length
  · obtain ⟨front, s, rest, rfl, hfront⟩ := exists_split hindex
    rw [Statement.remove_split hfront]
    rw [statementsEdged_iff, List.forall_mem_append, and_assoc, ← statementsEdged_iff] at h ⊢
    exact ⟨h.1, h.2.handOn hclosed _⟩
  · rw [Nat.not_lt] at hindex
    rw [Statement.remove, List.drop_of_length_le hindex]
    exact h

namespace Statement

/-- Removes statements one after another. Each index counts in the list that the removals before it
have left. -/
def removeEach (statements : List Statement) (trailer : String) : (indices : List Nat) →
    List Statement × String
  | [] => (statements, trailer)
  | index :: indices =>
    let (left, trailer) := remove statements index trailer
    removeEach left trailer indices

/-- What a removal preserves, any number of them does. The indices count in the lists that are left,
so the induction is on them with any list. -/
theorem edged_removeEach {edge : Edge} (hclosed : RepairClosed edge edge) :
    ∀ (indices : List Nat) {statements : List Statement} {trailer : String},
      StatementsEdged edge edge statements trailer →
        StatementsEdged edge edge (removeEach statements trailer indices).1
          (removeEach statements trailer indices).2
  | [], _, _, h => h
  | index :: indices, _, _, h => edged_removeEach hclosed indices (h.remove hclosed index)

/-- The most line feeds that stand in one stretch of white space of the trivia in front of the
statements and behind the list. -/
def widestGap (statements : List Statement) (trailer : String) : Nat :=
  (statements.map fun s => Trivia.widestGap s.leading.toList).foldr max
    (Trivia.widestGap trailer.toList)

/-- The widest gap of a list is bounded as all of its trivia are. -/
theorem widestGap_le_iff {statements : List Statement} {trailer : String} {most : Nat} :
    widestGap statements trailer ≤ most ↔
      StatementsEdged (gapsUpTo most) (gapsUpTo most) statements trailer := by
  induction statements with
  | nil => exact Iff.rfl
  | cons s rest ih =>
      rw [StatementsEdged, ← ih]
      exact Nat.max_le

/-- Blank lines do not accumulate: any number of removals from a list of statements leaves no gap
that has more line feeds than the widest gap of the list, neither in front of a statement nor in the
trailer. -/
theorem widestGap_removeEach_le (statements : List Statement) (trailer : String)
    (indices : List Nat) :
    (∀ s ∈ (removeEach statements trailer indices).1,
        Trivia.widestGap s.leading.toList ≤ widestGap statements trailer) ∧
      Trivia.widestGap (removeEach statements trailer indices).2.toList ≤
        widestGap statements trailer := by
  have hedged := widestGap_le_iff.1 (Nat.le_refl (widestGap statements trailer))
  have hleft := edged_removeEach (gapsUpTo_repairClosed _) indices hedged
  exact statementsEdged_iff.1 hleft

/-- The wider of the two gaps around a removed call stays, in front of the comment behind it. -/
theorem widestGap_removeEach_le_comment :
    ∃ script s, parse "a()\n\n\nb()\n\n// c\nc()\n" .groovy = .ok script ∧
      widestGap script.statements script.eof = 3 ∧
      s ∈ (removeEach script.statements script.eof [1]).1 ∧ s.leading = "\n\n\n// c\n" ∧
      Trivia.widestGap s.leading.toList ≤ widestGap script.statements script.eof := by
  have hread : (parse "a()\n\n\nb()\n\n// c\nc()\n" .groovy).toOption.any (fun script =>
      widestGap script.statements script.eof == 3 &&
        (removeEach script.statements script.eof [1]).1.getLast?.any
          (·.leading == "\n\n\n// c\n")) = true := by
    decide +kernel
  obtain ⟨script, hparse, hread⟩ := ok_of_any hread
  obtain ⟨hwidest, hlast⟩ := Bool.and_eq_true_iff.1 hread
  obtain ⟨s, hs, hleading⟩ := (Option.any_eq_true _ _).1 hlast
  have hmem := List.mem_of_getLast? hs
  exact ⟨script, s, hparse, beq_iff_eq.1 hwidest, hmem, beq_iff_eq.1 hleading,
    (widestGap_removeEach_le script.statements script.eof [1]).1 s hmem⟩

end Statement

end BuildPrune
