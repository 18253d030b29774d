import Mathlib.Tactic.MkIffOfInductiveProp
import BuildPrune.Proofs.Siblings
import BuildPrune.Proofs.TriviaCuts

/-!
# BuildPrune.Proofs.RepairOrder

Two statements side by side go, and their trivia is repaired twice: from the top, what the first
leaves in front of the second is repaired again when the second goes; from below, the second is
repaired into what is behind it, and the first into that. `Trivia.repair_comm_iff` says when the two
agree, as five conditions on the trivia (`Trivia.OrdersAgree`), which can be decided.

The cases follow `repair`: whether there is a line break behind, between and in front of the two
statements, and whether the trivia in front has a blank line. What matters of the trivia between
them is whether it has a *section*, a comment that has a line of its own and is set apart by a blank
line (`Trivia.keepsSection`), as that stays when the second statement goes.
-/

namespace BuildPrune

namespace Trivia

open Text

/-! ### Trivia with a section

Between the two statements, the trivia above its last blank line stays when the second statement
goes. If that is no more than white space, it is of no account for what happens next. -/

/-- A comment of the trivia that has a line of its own is set apart by a blank line: it stays when
the statement goes. -/
def keepsSection (text : List Char) : Bool :=
  (beforeBlankLine (trimStart (fromLineBreak text))).isSome

variable {first second behind front : List Char}

/-- A line without its trailing blanks is still a line without a break. -/
theorem hasLineBreak_trimEnd {text : List Char} (h : hasLineBreak text = false) :
    hasLineBreak (trimEnd text) = false := by
  obtain ⟨space, -, htext⟩ := trimEnd_append text
  rw [← htext, hasLineBreak_append, Bool.or_eq_false_iff] at h
  exact h.1

/-- If the second is no section and begins with one line feed at most, then no blank line comes
about where it meets the line in front. -/
theorem noBlank_of_few (hsection : keepsSection second = false)
    (hfew : lineFeeds (fromLineBreak second) ≤ 1) (hfront : hasLineBreak front = false) :
    beforeBlankLine (front ++ fromLineBreak second) = none := by
  refine beforeBlankLine_append_left (feed_not_mem hfront) ?_
  rw [← openingSpace_append_trimStart (fromLineBreak second)]
  exact beforeBlankLine_of_feeds hfew (trimStart_trimStart _)
    (by simpa [keepsSection] using hsection)

/-- With two or more line feeds at the beginning of the second there is a blank line, and it is
right behind the line in front.

So what is kept of both is that line, without its trailing blanks. -/
theorem cut_of_feeds (hsection : keepsSection second = false)
    (hfeeds : 2 ≤ lineFeeds (fromLineBreak second)) (hfront : hasLineBreak front = false) :
    ∃ space, Cut (front ++ fromLineBreak second) (trimEnd front) space
      (trimStart (fromLineBreak second)) ∧
        space.count '\n' = lineFeeds (fromLineBreak second) := by
  have hlast : beforeBlankLine (trimStart (fromLineBreak second)) = none := by
    simpa [keepsSection] using hsection
  obtain ⟨space, hcut, more, -, htext, rfl⟩ := Cut.of_space front
    isWhiteSpace_of_mem_openingSpace hfeeds (trimStart_trimStart _) hlast
  rw [openingSpace_append_trimStart] at hcut
  have hnone : more.count '\n' = 0 := by
    rw [List.count_eq_zero]
    intro hmem
    rw [← htext] at hfront
    exact feed_not_mem hfront (List.mem_append_right _ hmem)
  exact ⟨_, hcut, by rw [List.count_append, hnone, Nat.zero_add, lineFeeds]⟩

/-- What is kept of trivia with a section. -/
structure Section (second kept space tail : List Char) : Prop where
  cut : Cut (fromLineBreak second) kept space tail
  sharp : trimStart kept ≠ []

/-- Trivia that keep a section are a section, then a blank line, and then whatever is behind it. -/
theorem exists_section (h : keepsSection second = true) :
    ∃ kept space tail, Section second kept space tail := by
  obtain ⟨before, hbefore⟩ := Option.isSome_iff_exists.1 h
  obtain ⟨space, tail, hcut⟩ := exists_cut hbefore
  have hne := hcut.head_ne_nil (trimStart_trimStart _)
  have hfront := hcut.append hne (openingSpace (fromLineBreak second))
  rw [openingSpace_append_trimStart] at hfront
  refine ⟨_, space, tail, hfront, ?_⟩
  rw [trimStart_space_append isWhiteSpace_of_mem_openingSpace]
  intro hspace
  exact hne (hcut.closed ▸ trimEnd_of_space (space_of_trimStart hspace))

namespace Section

variable {kept space tail : List Char}

/-- A section is not empty, for it would be a blank line otherwise. -/
theorem kept_ne_nil (h : Section second kept space tail) : kept ≠ [] := by
  rintro rfl
  exact h.sharp rfl

/-- A section stays one behind a line in front: the blank line that ends it is the first one
still. -/
theorem append (h : Section second kept space tail) (front : List Char) :
    Cut (front ++ fromLineBreak second) (front ++ kept) space tail :=
  h.cut.append h.kept_ne_nil front

/-- To trim the trivia at the start is to trim the section, because there is something in it. -/
theorem trimStart_eq (h : Section second kept space tail) :
    trimStart (fromLineBreak second) = trimStart kept ++ (space ++ tail) := by
  rw [← h.cut.split, trimStart_append h.sharp]

/-- A trimmed section ends in the same blank line. -/
theorem trimStart (h : Section second kept space tail) :
    Cut (trimStart (fromLineBreak second)) (Text.trimStart kept) space tail where
  split := h.trimStart_eq.symm
  closed := by
    have hclosed := h.cut.closed
    rw [← openingSpace_append_trimStart kept] at hclosed
    rwa [trimEnd_append_of_ne, List.append_cancel_left_eq] at hclosed
    intro hempty
    obtain ⟨more, hmore, hsplit⟩ := trimEnd_append (Text.trimStart kept)
    rw [hempty, List.nil_append] at hsplit
    have hspace := trimStart_space_append hmore []
    rw [hsplit, List.append_nil, trimStart_trimStart] at hspace
    exact h.sharp hspace
  blank := h.cut.blank
  feeds := h.cut.feeds
  sharp := h.cut.sharp
  last := h.cut.last

/-- A section begins with its line break, so nothing of it is on the line of the entry in front. -/
theorem fromLineBreak_append (h : Section second kept space tail) (more : List Char) :
    fromLineBreak (kept ++ more) = kept ++ more := by
  have hfrom := (lineBreak_fromLineBreak second).2
  have hne := h.kept_ne_nil
  rw [← h.cut.split] at hfrom
  cases kept with
  | nil => contradiction
  | cons c kept =>
      rw [fromLineBreak, List.cons_append, List.dropWhile_eq_self_iff] at hfrom
      have hc := hfrom (Nat.zero_lt_succ _)
      rw [List.cons_append, fromLineBreak_cons (by simpa using hc)]

theorem lineFeeds_append (h : Section second kept space tail) (more : List Char) :
    lineFeeds (kept ++ more) = lineFeeds (fromLineBreak second) := by
  rw [← h.cut.split, Trivia.lineFeeds_append h.sharp, Trivia.lineFeeds_append h.sharp]

theorem openingSpace_eq (h : Section second kept space tail) :
    openingSpace kept = openingSpace (fromLineBreak second) := by
  rw [← h.cut.split, openingSpace_append h.sharp]

end Section

/-! ### What removing the second leaves

In the order from the top, the second removal works on what the first has left. These lemmas say
what that is, by the blank lines of the trivia between the two. -/

variable {kept space tail : List Char} (atStart atEnd : Bool)

/-- Of trivia that begin with one line feed at most and have no section, the front of their line is
left, and then what is behind. -/
theorem repair_of_few (hbehind : hasLineBreak behind = true) (hsecond : hasLineBreak second = true)
    (hsection : keepsSection second = false) (hfew : lineFeeds (fromLineBreak second) ≤ 1) :
    repair second behind atStart atEnd = beforeLineBreak second ++ fromLineBreak behind := by
  refine repair_of_noBlank _ _ hbehind hsecond ?_
  have hnone := noBlank_of_few hsection hfew (hasLineBreak_beforeLineBreak second)
  rwa [beforeLineBreak_append_fromLineBreak] at hnone

/-- Where the second began with a blank line, that is kept up to the line in front, and the gap
behind is as wide as the wider one of both. -/
theorem repair_of_feeds (hbehind : hasLineBreak behind = true)
    (hsection : keepsSection second = false) (hfeeds : 2 ≤ lineFeeds (fromLineBreak second)) :
    repair second behind atStart atEnd = trimEnd (beforeLineBreak second) ++ behindCut
      (max (lineFeeds (fromLineBreak behind))
        (if atEnd then 0 else lineFeeds (fromLineBreak second))) behind := by
  obtain ⟨space, hcut, hcount⟩ :=
    cut_of_feeds hsection hfeeds (hasLineBreak_beforeLineBreak second)
  rw [beforeLineBreak_append_fromLineBreak] at hcut
  rw [repair_of_cut _ _ hbehind hcut, hcount]

/-- A section of the second is kept, with the wider one of the gaps behind it. -/
theorem repair_of_section (hbehind : hasLineBreak behind = true)
    (h : Section second kept space tail) :
    repair second behind atStart atEnd = beforeLineBreak second ++ (kept ++ behindCut
      (max (lineFeeds (fromLineBreak behind)) (if atEnd then 0 else space.count '\n')) behind) := by
  have hcut := h.append (beforeLineBreak second)
  rw [beforeLineBreak_append_fromLineBreak] at hcut
  rw [repair_of_cut _ _ hbehind hcut, List.append_assoc]

/-- If the second is no section, what is left after it is removed has no section either, unless one
is behind. In both cases its beginning is known. -/
theorem repair_plain (hbehind : hasLineBreak behind = true) (hsecond : hasLineBreak second = true)
    (hsection : keepsSection second = false) :
    let left := repair second behind atStart atEnd
    trimStart (fromLineBreak left) = trimStart (fromLineBreak behind) ∧
      dropBlankLines (fromLineBreak left) = dropBlankLines (fromLineBreak behind) ∧
      lineEnding left = lineEnding behind ∧
      ∀ n, 2 ≤ n → max (lineFeeds (fromLineBreak left)) (if atEnd then 0 else n) =
        max (lineFeeds (fromLineBreak behind))
          (if atEnd then 0 else max (lineFeeds (fromLineBreak second)) n) := by
  intro left
  -- Two line feeds are a blank line in front of all comments, so nothing but its gap is left.
  by_cases hfeeds : 2 ≤ lineFeeds (fromLineBreak second)
  · have hfrom := fromLineBreak_behindCut (le_max_left (lineFeeds (fromLineBreak behind))
      (if atEnd then 0 else lineFeeds (fromLineBreak second)))
    have hending := lineEnding_behindCut (le_max_left (lineFeeds (fromLineBreak behind))
      (if atEnd then 0 else lineFeeds (fromLineBreak second)))
    have hnone := hasLineBreak_trimEnd (hasLineBreak_beforeLineBreak second)
    simp only [left, repair_of_feeds _ _ hbehind hsection hfeeds]
    rw [(lineBreak_append_left hnone _).2, lineEnding_append_left hnone, hfrom, hending]
    refine ⟨trimStart_behindCut, dropBlankLines_behindCut, rfl, fun n hn => ?_⟩
    rw [lineFeeds_behindCut]
    cases atEnd <;> simp
  · have hnone := hasLineBreak_beforeLineBreak second
    simp only [left, repair_of_few _ _ hbehind hsecond hsection (by omega)]
    rw [(lineBreak_append_left hnone _).2, lineEnding_append_left hnone,
      (lineBreak_fromLineBreak behind).2, lineEnding_fromLineBreak]
    refine ⟨rfl, rfl, rfl, fun n hn => ?_⟩
    cases atEnd <;> simp
    omega

/-! ### The statement in front goes as well

For each case of `repair` at the first statement, what the two orders come to is computed and
compared. Where they do not always agree the comparison is left as a condition on line feeds and
line endings. -/

theorem trimBlanks_append_trimBlanks (text more : List Char) :
    trimBlanks (text ++ trimBlanks more) = trimBlanks text ++ trimBlanks more := by
  rw [trimBlanks, trimBlanks, trimBlanks, List.dropWhile_append]
  split
  · next hempty =>
      rw [List.isEmpty_iff.1 hempty, List.nil_append, List.dropWhile_idempotent]
  · rfl

/-- Runs of line endings are the same exactly if they are as long and end lines in the same way.
Here Windows line endings can tell the orders apart. -/
theorem endings_eq_iff {m n : Nat} (hm : 0 < m) {text more : List Char} :
    (List.replicate m (lineEnding text)).flatten = (List.replicate n (lineEnding more)).flatten ↔
      m = n ∧ lineEnding text = lineEnding more := by
  constructor
  · intro heq
    have hcount := congrArg (List.count '\n') heq
    rw [count_endings, count_endings] at hcount
    obtain rfl : m = n := hcount
    refine ⟨rfl, ?_⟩
    obtain ⟨m, rfl⟩ : ∃ k, m = k + 1 := ⟨m - 1, by omega⟩
    rw [List.replicate_succ, List.replicate_succ, List.flatten_cons, List.flatten_cons] at heq
    rcases lineEnding_cases text with htext | htext <;>
      rcases lineEnding_cases more with hmore | hmore <;> rw [htext, hmore] at heq ⊢
    · simp at heq
    · simp at heq
  · rintro ⟨rfl, heq⟩
    rw [heq]

section Orders

variable {atStart atEnd} {atStart' : Bool}

/-- Neither the second nor what is behind begins a line, so both orders only join what is on one
line. -/
theorem comm_noBreak (hbehind : hasLineBreak behind = false)
    (hsecond : hasLineBreak second = false) :
    repair (repair first second atStart false) behind atStart' atEnd =
      repair first (repair second behind false atEnd) atStart atEnd := by
  have hleft : hasLineBreak (second ++ trimBlanks behind) = false := by
    rw [hasLineBreak_append, hsecond, hasLineBreak_trimBlanks hbehind, Bool.or_self]
  rw [repair_of_noBreak _ _ hsecond, repair_of_noBreak _ _ hbehind, repair_of_noBreak _ _ hbehind,
    repair_of_noBreak _ _ hleft, trimBlanks_append_trimBlanks, List.append_assoc]

theorem fromLineBreak_append_trimBlanks (hsecond : hasLineBreak second = true)
    (behind : List Char) :
    hasLineBreak (second ++ trimBlanks behind) = true ∧
      fromLineBreak (second ++ trimBlanks behind) = fromLineBreak second ++ trimBlanks behind := by
  refine ⟨?_, (lineBreak_append hsecond _).2⟩
  rw [hasLineBreak_append, hsecond, Bool.true_or]

/-- The second begins a line and the first does not. The orders can differ at the start of a list
only, and there only if nothing is left of the second and what is behind opens with space that one
of the orders trims away. -/
theorem comm_onLine_iff (hbehind : hasLineBreak behind = false)
    (hsecond : hasLineBreak second = true) (hfirst : hasLineBreak first = false) :
    repair (repair first second atStart false) behind atStart' atEnd =
        repair first (repair second behind false atEnd) atStart atEnd ↔
      (atStart = true → trimStart (fromLineBreak second) = [] →
        trimStart (trimBlanks behind) = trimBlanks behind) := by
  obtain ⟨hbreak, hfrom⟩ := fromLineBreak_append_trimBlanks hsecond behind
  rw [repair_of_noBreak _ _ hbehind, repair_of_noBreak _ _ hbehind,
    repair_of_onLine _ _ hsecond hfirst, repair_of_onLine _ _ hbreak hfirst, hfrom]
  cases atStart with
  | false => simp
  | true =>
      by_cases hspace : trimStart (fromLineBreak second) = []
      · simp [hspace, trimStart_space_append (space_of_trimStart hspace), eq_comm]
      · simp [hspace, trimStart_append hspace]

/-- The first has no blank line, so none can be kept in one order and lost in the other. -/
theorem comm_noBlank (hbehind : hasLineBreak behind = false)
    (hsecond : hasLineBreak second = true) (hfirst : hasLineBreak first = true)
    (hnone : beforeBlankLine first = none) :
    repair (repair first second atStart false) behind atStart' atEnd =
      repair first (repair second behind false atEnd) atStart atEnd := by
  obtain ⟨hbreak, hfrom⟩ := fromLineBreak_append_trimBlanks hsecond behind
  rw [repair_of_noBreak _ _ hbehind, repair_of_noBreak _ _ hbehind,
    repair_of_noBlank _ _ hsecond hfirst hnone, repair_of_noBlank _ _ hbreak hfirst hnone, hfrom,
    List.append_assoc]

theorem behindCut_append_trimBlanks (feeds : Nat) (hbehind : hasLineBreak behind = false)
    (hsecond : hasLineBreak second = true) :
    behindCut feeds (second ++ trimBlanks behind) =
      behindCut feeds second ++ trimBlanks behind := by
  have hfeed := feed_not_mem (hasLineBreak_trimBlanks hbehind)
  rw [behindCut, lineEnding_append_right second hfeed,
    (fromLineBreak_append_trimBlanks hsecond behind).2, (opening_append _ hfeed).2,
    ← List.append_assoc, behindCut]

theorem behindCut_inj {m n : Nat} : behindCut m second = behindCut n second ↔ m = n := by
  constructor
  · intro heq
    have hfeeds := congrArg lineFeeds heq
    rwa [lineFeeds_behindCut, lineFeeds_behindCut] at hfeeds
  · rintro rfl
    rfl

/-- At the end of a list a gap counts for nothing, and everywhere else the wider one is taken. -/
theorem gap_eq_iff {m n : Nat} :
    max m n = max m (if atEnd = true then 0 else n) ↔ (atEnd = true → n ≤ m) := by
  cases atEnd with
  | false => simp
  | true =>
      rw [if_pos rfl, Nat.max_zero]
      exact ⟨fun heq _ => by omega, fun hle => Nat.max_eq_left (hle rfl)⟩

/-- The first has a blank line, and what is behind does not begin a line. At the end of a list the
gap of the first is dropped in one order, so there it must not be the wider one. -/
theorem comm_cut_noBreak_iff {head space tail : List Char} (hbehind : hasLineBreak behind = false)
    (hsecond : hasLineBreak second = true) (hcut : Cut first head space tail) :
    repair (repair first second atStart false) behind atStart' atEnd =
        repair first (repair second behind false atEnd) atStart atEnd ↔
      (atEnd = true → space.count '\n' ≤ lineFeeds (fromLineBreak second)) := by
  have hfeed := feed_not_mem (hasLineBreak_trimBlanks hbehind)
  obtain ⟨hbreak, hfrom⟩ := fromLineBreak_append_trimBlanks hsecond behind
  rw [repair_of_noBreak _ _ hbehind, repair_of_noBreak _ _ hbehind,
    repair_of_cut _ _ hsecond hcut, repair_of_cut _ _ hbreak hcut, hfrom,
    (opening_append _ hfeed).1, behindCut_append_trimBlanks _ hbehind hsecond, List.append_assoc,
    List.append_cancel_left_eq, List.append_cancel_right_eq, behindCut_inj,
    if_neg Bool.false_ne_true, gap_eq_iff]

/-- The second does not begin a line, so to remove it before or after the first makes no difference
to the lines around. -/
theorem comm_lined (hbehind : hasLineBreak behind = true) (hsecond : hasLineBreak second = false)
    (hfirst : hasLineBreak first = true) :
    repair (repair first second atStart false) behind atStart' atEnd =
      repair first (repair second behind false atEnd) atStart atEnd := by
  rw [repair_of_noBreak _ _ hsecond, repair_of_onLine _ _ hbehind hsecond, if_neg (by simp),
    repair_fromLineBreak _ _ hbehind,
    repair_append _ _ hbehind hfirst (hasLineBreak_trimBlanks hsecond)]

theorem trimStart_fromLineBreak_lt {text : List Char} (h : hasLineBreak text = true) :
    (trimStart (fromLineBreak text)).length < (fromLineBreak text).length := by
  obtain ⟨c, rest, hc, hfrom, -⟩ := exists_lineBreak h
  have hspace : isWhiteSpace c = true := by
    have hcases : c = '\n' ∨ c = '\r' := by simpa [isLineBreak] using hc
    rcases hcases with rfl | rfl <;> decide
  rw [hfrom, trimStart, List.dropWhile_cons_of_pos hspace]
  exact Nat.lt_succ_of_le (List.dropWhile_suffix _).length_le

/-- Neither of the two begins a line, and what is behind does. Then the orders agree if the list
starts here in both of them or in neither. -/
theorem comm_onLine_noBreak_iff (hbehind : hasLineBreak behind = true)
    (hsecond : hasLineBreak second = false) (hfirst : hasLineBreak first = false) :
    repair (repair first second atStart false) behind atStart' atEnd =
        repair first (repair second behind false atEnd) atStart atEnd ↔ atStart' = atStart := by
  have hboth : hasLineBreak (first ++ trimBlanks second) = false := by
    rw [hasLineBreak_append, hfirst, hasLineBreak_trimBlanks hsecond, Bool.or_self]
  have hlt := trimStart_fromLineBreak_lt hbehind
  have hne : trimStart (fromLineBreak behind) ≠ fromLineBreak behind := by
    intro heq
    rw [heq] at hlt
    exact Nat.lt_irrefl _ hlt
  rw [repair_of_noBreak _ _ hsecond, repair_of_onLine _ _ hbehind hsecond, if_neg (by simp),
    repair_fromLineBreak _ _ hbehind, repair_of_onLine _ _ hbehind hboth,
    repair_of_onLine _ _ hbehind hfirst]
  cases atStart <;> cases atStart' <;> simp [hne, hne.symm]

/-- To remove the second when the first is gone already is to remove it and to take what is left
from its line break on.

This relates the two orders in all cases in which the second begins a line. -/
theorem repair_removed_fromLineBreak (atStart' : Bool) (hbehind : hasLineBreak behind = true)
    (hsecond : hasLineBreak second = true) :
    repair (fromLineBreak second) behind atStart' atEnd =
      fromLineBreak (repair second behind atStart atEnd) := by
  have hnone := hasLineBreak_beforeLineBreak second
  have hempty : hasLineBreak [] = false := rfl
  -- A comment above a blank line is kept as a section. Without one, two line feeds are a blank
  -- line by themselves, and fewer leave none.
  by_cases hsection : keepsSection second = true
  · obtain ⟨kept, space, tail, h⟩ := exists_section hsection
    rw [repair_of_section _ _ hbehind h, repair_of_cut _ _ hbehind h.cut,
      (lineBreak_append_left hnone _).2, h.fromLineBreak_append]
  · rw [Bool.not_eq_true] at hsection
    by_cases hfeeds : 2 ≤ lineFeeds (fromLineBreak second)
    · obtain ⟨space, hcut, hcount⟩ := cut_of_feeds hsection hfeeds hempty
      rw [List.nil_append] at hcut
      rw [repair_of_feeds _ _ hbehind hsection hfeeds, repair_of_cut _ _ hbehind hcut, hcount,
        (lineBreak_append_left (hasLineBreak_trimEnd hnone) _).2,
        fromLineBreak_behindCut (le_max_left _ _)]
      rfl
    · have hfew := noBlank_of_few hsection (by omega) hempty
      rw [repair_of_few _ _ hbehind hsecond hsection (by omega),
        repair_of_noBlank _ _ hbehind (hasLineBreak_fromLineBreak hsecond) hfew,
        (lineBreak_append_left hnone _).2, (lineBreak_fromLineBreak behind).2,
        (lineBreak_fromLineBreak second).1]
      rfl

/-- Behind the start of a list the orders agree if the first does not begin a line: what is left of
the second follows the line in front in both. -/
theorem comm_behind (hbehind : hasLineBreak behind = true) (hsecond : hasLineBreak second = true)
    (hfirst : hasLineBreak first = false) :
    repair (repair first second false false) behind atStart' atEnd =
      repair first (repair second behind false atEnd) false atEnd := by
  have hbreak := hasLineBreak_repair hsecond behind false atEnd
  rw [repair_of_onLine _ _ hsecond hfirst, repair_of_onLine _ _ hbreak hfirst,
    if_neg Bool.false_ne_true, if_neg Bool.false_ne_true,
    repair_removed_fromLineBreak _ hbehind hsecond]

/-- At the start of a list there is no line in front. The orders agree there if nothing is left of
the second, or if it keeps a section. -/
theorem comm_start_iff (hbehind : hasLineBreak behind = true) (hsecond : hasLineBreak second = true)
    (hstart : atStart' = (trimStart (fromLineBreak second)).isEmpty) :
    repair (repair [] second true false) behind atStart' atEnd =
        repair [] (repair second behind false atEnd) true atEnd ↔
      trimStart (fromLineBreak second) = [] ∨ keepsSection second = true := by
  have hbreak := hasLineBreak_repair hsecond behind false atEnd
  rw [repair_of_onLine _ _ hsecond rfl, repair_of_onLine _ _ hbreak rfl, if_pos rfl, if_pos rfl]
  by_cases hsection : keepsSection second = true
  · obtain ⟨kept, space, tail, h⟩ := exists_section hsection
    rw [repair_of_cut _ _ hbehind h.trimStart, repair_of_section _ _ hbehind h,
      (lineBreak_append_left (hasLineBreak_beforeLineBreak second) _).2, h.fromLineBreak_append,
      trimStart_append h.sharp]
    simp [hsection]
  · rw [Bool.not_eq_true] at hsection
    obtain ⟨htrim, -⟩ := repair_plain false atEnd hbehind hsecond hsection
    have hlt := trimStart_fromLineBreak_lt hbehind
    rw [htrim]
    by_cases hempty : trimStart (fromLineBreak second) = []
    · rw [hempty, hstart, hempty, repair_of_onLine _ _ hbehind rfl]
      simp
    · -- The comment in front of the second statement stays, as a first line of the list.
      refine iff_of_false (fun heq => ?_) (by simp [hempty, hsection])
      have hlength := congrArg List.length heq
      have hfalse : atStart' = false := by rw [hstart, List.isEmpty_eq_false_iff.2 hempty]
      by_cases hline : hasLineBreak (trimStart (fromLineBreak second)) = true
      · have hnone : beforeBlankLine (trimStart (fromLineBreak second)) = none := by
          simpa [keepsSection] using hsection
        rw [repair_of_noBlank _ _ hbehind hline hnone, List.length_append] at hlength
        omega
      · rw [repair_of_onLine _ _ hbehind (eq_false_of_ne_true hline), hfalse,
          if_neg Bool.false_ne_true] at hlength
        omega

/-- The first begins a line and has no blank line. Then the orders differ only if the second brings
a blank line and no section, and blanks end the line of the first: one of the orders trims these. -/
theorem comm_noBlank_iff (hbehind : hasLineBreak behind = true)
    (hsecond : hasLineBreak second = true) (hfirst : hasLineBreak first = true)
    (hnone : beforeBlankLine first = none) :
    repair (repair first second atStart false) behind atStart' atEnd =
        repair first (repair second behind false atEnd) atStart atEnd ↔
      (2 ≤ lineFeeds (fromLineBreak second) → keepsSection second = false →
        trimEnd (beforeLineBreak first) = beforeLineBreak first) := by
  have hline := hasLineBreak_beforeLineBreak first
  have hempty : hasLineBreak [] = false := rfl
  have hbreak := hasLineBreak_repair hsecond behind false atEnd
  have hboth : hasLineBreak (beforeLineBreak first ++ fromLineBreak second) = true := by
    rw [hasLineBreak_append, hasLineBreak_fromLineBreak hsecond, Bool.or_true]
  rw [repair_of_noBlank _ _ hsecond hfirst hnone, repair_of_noBlank _ _ hbreak hfirst hnone,
    ← repair_removed_fromLineBreak false hbehind hsecond]
  by_cases hsection : keepsSection second = true
  · obtain ⟨kept, space, tail, h⟩ := exists_section hsection
    rw [repair_of_cut _ _ hbehind (h.append _), repair_of_cut _ _ hbehind h.cut,
      List.append_assoc]
    simp [hsection]
  · rw [Bool.not_eq_true] at hsection
    by_cases hfeeds : 2 ≤ lineFeeds (fromLineBreak second)
    · obtain ⟨space, hcut, hcount⟩ := cut_of_feeds hsection hfeeds hline
      obtain ⟨space', hcut', hcount'⟩ := cut_of_feeds hsection hfeeds hempty
      rw [List.nil_append] at hcut'
      -- From the top, the only blank line comes to stand behind the line in front of the two.
      rw [repair_of_cut _ _ hbehind hcut, repair_of_cut _ _ hbehind hcut', hcount, hcount']
      simp [hfeeds, hsection, trimEnd]
    · have hfew := noBlank_of_few hsection (by omega) hline
      have hfew' := noBlank_of_few hsection (by omega) hempty
      rw [List.nil_append] at hfew'
      rw [repair_of_noBlank _ _ hbehind hboth hfew,
        repair_of_noBlank _ _ hbehind (hasLineBreak_fromLineBreak hsecond) hfew',
        (lineBreak_append_left hline _).1, (lineBreak_fromLineBreak second).1]
      simp [hfeeds]

/-- The first has a blank line: the general case. The orders can differ only if the second keeps
a section, and then in how the lines of the gap end or, at the end of a list, in how many there
are. -/
theorem comm_cut_iff {head space tail : List Char} (hbehind : hasLineBreak behind = true)
    (hsecond : hasLineBreak second = true) (hcut : Cut first head space tail) :
    repair (repair first second atStart false) behind atStart' atEnd =
        repair first (repair second behind false atEnd) atStart atEnd ↔
      (keepsSection second = true →
        lineEnding second = lineEnding (repair second behind false atEnd) ∧
          (atEnd = true → space.count '\n' ≤ lineFeeds (fromLineBreak second))) := by
  have hbreak := hasLineBreak_repair hsecond behind false atEnd
  have hfeeds := hcut.feeds
  rw [repair_of_cut _ _ hsecond hcut, repair_of_cut _ _ hbreak hcut, if_neg Bool.false_ne_true]
  by_cases hsection : keepsSection second = true
  · obtain ⟨kept, space', tail', h⟩ := exists_section hsection
    have hfrom := congrArg fromLineBreak (repair_of_section false atEnd hbehind h)
    rw [(lineBreak_append_left (hasLineBreak_beforeLineBreak second) _).2,
      h.fromLineBreak_append] at hfrom
    -- Both orders keep the section of the second statement and differ in what is in front of it.
    have hcut' := h.trimStart.append h.sharp (head ++ ((List.replicate
      (max (lineFeeds (fromLineBreak second)) (space.count '\n')) (lineEnding second)).flatten ++
        afterLastLineFeed (openingSpace (fromLineBreak second))))
    rw [List.append_assoc, List.append_assoc, ← dropBlankLines, ← behindCut] at hcut'
    rw [repair_of_cut _ _ hbehind hcut']
    generalize repair second behind false atEnd = left at hfrom ⊢
    have hkept : dropBlankLines kept =
        afterLastLineFeed (openingSpace (fromLineBreak second)) ++ Text.trimStart kept := by
      rw [dropBlankLines, h.openingSpace_eq]
    simp only [behindCut, hfrom, h.lineFeeds_append, dropBlankLines_append h.sharp, hkept,
      List.append_assoc, List.append_cancel_left_eq, List.append_cancel_right_eq]
    rw [endings_eq_iff (by omega), gap_eq_iff]
    simp [hsection, and_comm]
  · -- Without a section all blank lines are in one gap, whichever goes first.
    rw [Bool.not_eq_true] at hsection
    obtain ⟨-, hdrop, hending, hmax⟩ :=
      repair_plain false atEnd hbehind hsecond hsection
    have hcut' : Cut (head ++ behindCut (max (lineFeeds (fromLineBreak second))
        (space.count '\n')) second) head ((List.replicate (max (lineFeeds (fromLineBreak second))
        (space.count '\n')) (lineEnding second)).flatten ++
          afterLastLineFeed (openingSpace (fromLineBreak second)))
        (trimStart (fromLineBreak second)) := by
      refine ⟨by rw [List.append_assoc, ← dropBlankLines, ← behindCut], hcut.closed,
        List.forall_mem_append.2 ⟨space_endings _ _, space_afterLastLineFeed _⟩, ?_,
        trimStart_trimStart _, by simpa [keepsSection] using hsection⟩
      rw [List.count_append, count_endings]
      omega
    refine iff_of_true ?_ (by simp [hsection])
    rw [repair_of_cut _ _ hbehind hcut', List.count_append, count_endings,
      List.count_eq_zero.2 (feed_not_mem_afterLastLineFeed _), Nat.add_zero, hmax _ hfeeds]
    simp only [behindCut, hdrop, hending]

end Orders

/-! ### Both orders

The cases are put together into one statement for all trivia. The five conditions are about single
features of the trivia, so that each of them can be checked on its own. -/

/-- When it does not matter which of two statements side by side is removed first. `first` and
`second` are the trivia in front of them, and `behind` is the trivia behind them. `atStart` says
that they open the list with nothing in front of them, `atEnd` that no statement follows. -/
@[mk_iff]
structure OrdersAgree (first second behind : List Char) (atStart atEnd : Bool) : Prop where
  /-- Nothing of the trivia between the statements comes to open the list, or a section of it stays
  in either order. -/
  opening : atStart = true → hasLineBreak behind = true →
    repair [] second true false = [] ∨ keepsSection second = true
  /-- On the line behind them stand no blanks but spaces and tabs, if a line break between them goes
  as the first thing of the list. -/
  blanks : atStart = true → hasLineBreak behind = false → hasLineBreak second = true →
    trimStart (fromLineBreak second) = [] → trimStart (trimBlanks behind) = trimBlanks behind
  /-- No white space ends the line in front of them, if the gap has its only blank line between
  them. -/
  line : hasLineBreak first = true → beforeBlankLine first = none → hasLineBreak behind = true →
    2 ≤ lineFeeds (fromLineBreak second) → keepsSection second = false →
      trimEnd (beforeLineBreak first) = beforeLineBreak first
  /-- The lines end alike in front of a section that stays. -/
  ending : (beforeBlankLine first).isSome = true → hasLineBreak behind = true →
    keepsSection second = true → lineEnding second = lineEnding (repair second behind false atEnd)
  /-- At the end of the list, the gap in front of the statements is not wider than the one between
  them, unless both go. -/
  gap : atEnd = true → ∀ before ∈ beforeBlankLine first, hasLineBreak second = true →
    (hasLineBreak behind = true → keepsSection second = true) →
      lineFeeds (first.drop (trimEnd before).length) ≤ lineFeeds (fromLineBreak second)

section

variable {atStart' atEnd : Bool}

/-- The conditions for both orders, if the first is on a line with what is in front of it. -/
theorem ordersAgree_of_onLine_iff (isFirst : Bool) (hfirst : hasLineBreak first = false) :
    repair (repair first second (isFirst && first.isEmpty) false) behind
          (isFirst && (repair first second (isFirst && first.isEmpty) false).isEmpty) atEnd =
        repair first (repair second behind false atEnd) (isFirst && first.isEmpty) atEnd ↔
      OrdersAgree first second behind (isFirst && first.isEmpty) atEnd := by
  have hnone : beforeBlankLine first = none := by
    have hfeed := beforeBlankLine_append_right [] (feed_not_mem hfirst)
    rwa [List.nil_append] at hfeed
  rw [ordersAgree_iff]
  by_cases hbehind : hasLineBreak behind = true
  · by_cases hsecond : hasLineBreak second = true
    · -- In front of everything, the line break between the two does not stay.
      by_cases hstart : (isFirst && first.isEmpty) = true
      · obtain ⟨rfl, rfl⟩ : isFirst = true ∧ first = [] := by simpa using hstart
        have hleft := repair_of_onLine true false hsecond hfirst
        rw [if_pos rfl] at hleft
        rw [show (true && [].isEmpty) = true from rfl,
          comm_start_iff hbehind hsecond (by rw [hleft]; rfl)]
        simp [hbehind, hsecond, hfirst, hnone, hleft]
      · rw [Bool.not_eq_true] at hstart
        rw [hstart]
        refine iff_of_true (comm_behind hbehind hsecond hfirst) ?_
        simp [hfirst, hnone]
    · rw [Bool.not_eq_true] at hsecond
      have hbare : fromLineBreak second = [] := fromLineBreak_of_noBreak hsecond
      rw [comm_onLine_noBreak_iff hbehind hsecond hfirst, repair_of_noBreak _ _ hsecond,
        repair_of_noBreak _ _ hsecond]
      cases isFirst <;> cases first <;>
        simp [hbehind, hsecond, hfirst, hnone, keepsSection, hbare, beforeBlankLine, trimStart]
  · rw [Bool.not_eq_true] at hbehind
    by_cases hsecond : hasLineBreak second = true
    · rw [comm_onLine_iff hbehind hsecond hfirst]
      simp [hbehind, hsecond, hfirst, hnone]
    · rw [Bool.not_eq_true] at hsecond
      refine iff_of_true (comm_noBreak hbehind hsecond) ?_
      simp [hbehind, hsecond, hfirst, hnone]

/-- The conditions, if the first begins a line and has no blank line. -/
theorem ordersAgree_of_noBlank_iff (hfirst : hasLineBreak first = true)
    (hnone : beforeBlankLine first = none) :
    repair (repair first second false false) behind atStart' atEnd =
        repair first (repair second behind false atEnd) false atEnd ↔
      OrdersAgree first second behind false atEnd := by
  rw [ordersAgree_iff]
  by_cases hsecond : hasLineBreak second = true
  · by_cases hbehind : hasLineBreak behind = true
    · rw [comm_noBlank_iff hbehind hsecond hfirst hnone]
      simp [hbehind, hfirst, hnone]
    · rw [Bool.not_eq_true] at hbehind
      refine iff_of_true (comm_noBlank hbehind hsecond hfirst hnone) ?_
      simp [hbehind, hnone]
  · rw [Bool.not_eq_true] at hsecond
    have hbare : fromLineBreak second = [] := fromLineBreak_of_noBreak hsecond
    refine iff_of_true ?_ ?_
    · by_cases hbehind : hasLineBreak behind = true
      · exact comm_lined hbehind hsecond hfirst
      · exact comm_noBreak (eq_false_of_ne_true hbehind) hsecond
    · simp [hbare, hnone, lineFeeds, openingSpace]

/-- The conditions, if the first has a blank line. -/
theorem ordersAgree_of_cut_iff {before : List Char}
    (hbefore : beforeBlankLine first = some before) :
    repair (repair first second false false) behind atStart' atEnd =
        repair first (repair second behind false atEnd) false atEnd ↔
      OrdersAgree first second behind false atEnd := by
  obtain ⟨space, tail, hcut⟩ := exists_cut hbefore
  obtain ⟨before', hbefore', hhead, hcount⟩ := hcut.exists_before
  rw [ordersAgree_iff]
  by_cases hsecond : hasLineBreak second = true
  · by_cases hbehind : hasLineBreak behind = true
    · rw [comm_cut_iff hbehind hsecond hcut]
      simp only [hbehind, hsecond, hbefore, hcount, Option.isSome_some, Option.mem_some_iff,
        forall_eq', forall_const, reduceCtorEq, false_implies, implies_true, true_and]
      exact ⟨fun h => ⟨fun hkeeps => (h hkeeps).1, fun hend hkeeps => (h hkeeps).2 hend⟩,
        fun h hkeeps => ⟨h.1 hkeeps, fun hend => h.2 hend hkeeps⟩⟩
    · rw [Bool.not_eq_true] at hbehind
      rw [comm_cut_noBreak_iff hbehind hsecond hcut]
      simp [hbehind, hsecond, hbefore, hcount]
  · rw [Bool.not_eq_true] at hsecond
    have hbare : fromLineBreak second = [] := fromLineBreak_of_noBreak hsecond
    refine iff_of_true ?_ ?_
    · by_cases hbehind : hasLineBreak behind = true
      · exact comm_lined hbehind hsecond hcut.hasLineBreak
      · exact comm_noBreak (eq_false_of_ne_true hbehind) hsecond
    · simp [hbare, hbefore, hsecond, keepsSection, trimStart, beforeBlankLine]

end

/-- Removing two entries that stand next to each other leaves the same in either order exactly if
the five conditions of `OrdersAgree` hold of their trivia.

The cases are those of the trivia of the first: without a line break, without a blank line, with
one. -/
theorem repair_comm_iff (isFirst atEnd : Bool) (first second behind : List Char) :
    repair (repair first second (isFirst && first.isEmpty) false) behind
          (isFirst && (repair first second (isFirst && first.isEmpty) false).isEmpty) atEnd =
        repair first (repair second behind false atEnd) (isFirst && first.isEmpty) atEnd ↔
      OrdersAgree first second behind (isFirst && first.isEmpty) atEnd := by
  -- Trivia with a line break is not empty, so then the first statement does not open the text.
  by_cases hfirst : hasLineBreak first = true
  · have hne : (isFirst && first.isEmpty) = false := by
      cases first with
      | nil => cases hfirst
      | cons => rw [List.isEmpty_cons, Bool.and_false]
    rw [hne]
    cases hbefore : beforeBlankLine first with
    | none => exact ordersAgree_of_noBlank_iff hfirst hbefore
    | some before => exact ordersAgree_of_cut_iff hbefore
  · exact ordersAgree_of_onLine_iff isFirst (eq_false_of_ne_true hfirst)

set_option synthInstance.maxSize 512 in
instance (first second behind : List Char) (atStart atEnd : Bool) :
    Decidable (OrdersAgree first second behind atStart atEnd) :=
  decidable_of_iff _ (ordersAgree_iff first second behind atStart atEnd).symm

/-! ### Tidy trivia

Away from the ends of the list, the conditions hold in files that a formatter has been over: there
are no carriage returns in them, and no blanks at the end of a line. -/

theorem lineEnding_of_noReturn {text : List Char} (h : '\r' ∉ text) : lineEnding text = ['\n'] := by
  induction text with
  | nil => rfl
  | cons c text ih =>
      rw [List.mem_cons, not_or] at h
      rw [lineEnding_cons (Ne.symm h.1), ih h.2]

/-- Away from both ends of a list the orders always agree if no blanks end the line of the first and
no line ends in a carriage return.

These are the trivia of files that a formatter has been over. -/
theorem OrdersAgree.of_tidy (hline : trimEnd (beforeLineBreak first) = beforeLineBreak first)
    (hsecond : '\r' ∉ second) (hbehind : '\r' ∉ behind) :
    OrdersAgree first second behind false false where
  opening := by simp
  blanks := by simp
  line := fun _ _ _ _ _ => hline
  gap := by simp
  ending := by
    intro _ hbreak hsection
    obtain ⟨kept, space, tail, h⟩ := exists_section hsection
    have hkept : '\r' ∉ kept := by
      intro hmem
      have hfrom := (List.dropWhile_suffix _).subset (h.cut.split ▸ List.mem_append_left _ hmem)
      exact hsecond hfrom
    rw [lineEnding_of_noReturn hsecond, lineEnding_of_noReturn]
    rw [repair_of_section _ _ hbreak h, behindCut, lineEnding_of_noReturn hbehind]
    have hbefore : '\r' ∉ beforeLineBreak second := fun hmem =>
      hsecond ((List.takeWhile_prefix _).subset hmem)
    have hdrop : '\r' ∉ dropBlankLines (fromLineBreak behind) := fun hmem =>
      hbehind (((dropBlankLines_suffix _).trans (List.dropWhile_suffix _)).subset hmem)
    simp [hbefore, hkept, hdrop]

end Trivia

end BuildPrune
