import Mathlib.Data.List.DropRight
import BuildPrune.Proofs.LineBreaks

/-!
# BuildPrune.Proofs.TriviaCuts

Where trivia is cut when a statement goes. `repair` keeps of the trivia in front of the statement
what its last blank line sets apart. `Trivia.Cut text head space tail` says what that is: `head` is
kept, the blank line is in the white space `space`, and `tail` goes with the statement. A text with
a blank line has a cut (`exists_cut`), a cut determines what `repair` keeps (`repair_of_cut`), and
a text is cut behind what is put in front of it (`Cut.append`).

Around that, one lemma for each way in which the scans of `BuildPrune.Script.Trivia` go over two
texts side by side.
-/

namespace BuildPrune.Trivia

open Text

variable {text more space tail : List Char}

/-! ### White space in front -/

theorem trimStart_trimStart (text : List Char) : trimStart (trimStart text) = trimStart text :=
  List.dropWhile_idempotent _ text

theorem trimStart_space_append (hspace : ∀ c ∈ space, isWhiteSpace c = true) (text : List Char) :
    trimStart (space ++ text) = trimStart text :=
  List.dropWhile_append_of_pos hspace

theorem openingSpace_space_append (hspace : ∀ c ∈ space, isWhiteSpace c = true)
    (text : List Char) : openingSpace (space ++ text) = space ++ openingSpace text :=
  List.takeWhile_append_of_pos hspace

theorem openingSpace_of_sharp (h : trimStart tail = tail) : openingSpace tail = [] := by
  have hsplit := openingSpace_append_trimStart tail
  rw [h] at hsplit
  exact List.append_left_eq_self.1 hsplit

theorem space_of_trimStart (h : trimStart text = []) : ∀ c ∈ text, isWhiteSpace c = true :=
  List.dropWhile_eq_nil_iff.1 h

/-- What is no white space stops the white space in front. -/
theorem trimStart_append (h : trimStart text ≠ []) (more : List Char) :
    trimStart (text ++ more) = trimStart text ++ more := by
  induction text with
  | nil => exact absurd rfl h
  | cons c text ih =>
      rw [trimStart, List.dropWhile_cons] at h
      rw [trimStart, trimStart, List.cons_append, List.dropWhile_cons, List.dropWhile_cons]
      split
      · next hc =>
          rw [if_pos hc] at h
          exact ih h
      · rfl

theorem openingSpace_append (h : trimStart text ≠ []) (more : List Char) :
    openingSpace (text ++ more) = openingSpace text := by
  have hsplit := (openingSpace_append_trimStart (text ++ more)).trans
    (congrArg (· ++ more) (openingSpace_append_trimStart text).symm)
  rwa [trimStart_append h, List.append_assoc, List.append_cancel_right_eq] at hsplit

/-! ### White space behind -/

theorem trimEnd_of_space (hspace : ∀ c ∈ space, isWhiteSpace c = true) : trimEnd space = [] := by
  induction space with
  | nil => rfl
  | cons c space ih =>
      obtain ⟨hc, hspace⟩ := List.forall_mem_cons.1 hspace
      rw [trimEnd, ih hspace]
      simp [hc]

theorem trimEnd_append_of_ne (text : List Char) (h : trimEnd more ≠ []) :
    trimEnd (text ++ more) = text ++ trimEnd more := by
  induction text with
  | nil => rfl
  | cons c text ih =>
      rw [List.cons_append, trimEnd, ih]
      cases hkept : text ++ trimEnd more with
      | nil => exact absurd (List.append_eq_nil_iff.1 hkept).2 h
      | cons d kept => simp [hkept]

theorem trimEnd_append_space (text : List Char) (hspace : ∀ c ∈ space, isWhiteSpace c = true) :
    trimEnd (text ++ space) = trimEnd text := by
  induction text with
  | nil => exact trimEnd_of_space hspace
  | cons c text ih => rw [List.cons_append, trimEnd, ih, trimEnd]

/-- What is left of a text closes with no white space. -/
theorem last_of_closed (h : trimEnd text = text) : ∀ c ∈ text.getLast?, isWhiteSpace c = false := by
  cases text using List.reverseRecOn with
  | nil => simp
  | append_singleton front c =>
      intro d hd
      obtain rfl : c = d := by simpa using hd
      by_contra hc
      rw [Bool.not_eq_false] at hc
      obtain ⟨space, -, hfront⟩ := trimEnd_append front
      rw [trimEnd_append_space front (List.forall_mem_singleton.2 hc)] at h
      have hlength := congrArg List.length hfront
      simp [h] at hlength

theorem trimEnd_trimEnd (text : List Char) : trimEnd (trimEnd text) = trimEnd text := by
  obtain ⟨space, hspace, htext⟩ := trimEnd_append text
  conv_rhs => rw [← htext]
  rw [trimEnd_append_space _ hspace]

/-! ### Line feeds in front -/

theorem lineFeeds_space_append (hspace : ∀ c ∈ space, isWhiteSpace c = true) (text : List Char) :
    lineFeeds (space ++ text) = space.count '\n' + lineFeeds text := by
  rw [lineFeeds, openingSpace_space_append hspace, List.count_append, lineFeeds]

theorem lineFeeds_append (h : trimStart text ≠ []) (more : List Char) :
    lineFeeds (text ++ more) = lineFeeds text := by
  rw [lineFeeds, openingSpace_append h, lineFeeds]

theorem lineFeeds_of_sharp (h : trimStart tail = tail) : lineFeeds tail = 0 := by
  rw [lineFeeds, openingSpace_of_sharp h, List.count_nil]

/-! ### Blank lines

A blank line is a line feed with only white space up to the next one. It can begin in one text and
end in the next, so that the lemmas about two texts ask where the line feeds are. -/

/-- The first line ends where it did. -/
theorem takeWhile_append_of_mem (h : '\n' ∈ text) (more : List Char) :
    (text ++ more).takeWhile (· != '\n') = text.takeWhile (· != '\n') := by
  rw [List.takeWhile_append, if_neg]
  intro hlength
  have hall := List.takeWhile_eq_self_iff.1
    (List.IsPrefix.eq_of_length (List.takeWhile_prefix _) hlength)
  simpa using hall '\n' h

theorem startsBlankLine_append (text : List Char) (h : '\n' ∉ more) :
    startsBlankLine (text ++ more) = startsBlankLine text := by
  by_cases hfeed : '\n' ∈ text
  · simp [startsBlankLine, takeWhile_append_of_mem hfeed, hfeed]
  · simp [startsBlankLine, hfeed, h]

/-- Without line feeds behind it, a text has the blank lines it had. What is added then stands on
its last line. -/
theorem beforeBlankLine_append_right (text : List Char) (h : '\n' ∉ more) :
    beforeBlankLine (text ++ more) = beforeBlankLine text := by
  induction text with
  | nil =>
      rw [List.nil_append, beforeBlankLine]
      induction more with
      | nil => rfl
      | cons c more ih =>
          rw [List.mem_cons, not_or] at h
          rw [beforeBlankLine, ih h.2]
          simp [Ne.symm h.1]
  | cons c text ih =>
      rw [List.cons_append, beforeBlankLine, beforeBlankLine, ih, startsBlankLine_append text h]

/-- The last blank line of the second text is the last of both, since `repair` looks for it from the
end. -/
theorem beforeBlankLine_append_some (text : List Char) {before : List Char}
    (h : beforeBlankLine more = some before) :
    beforeBlankLine (text ++ more) = some (text ++ before) := by
  induction text with
  | nil => exact h
  | cons c text ih => rw [List.cons_append, beforeBlankLine, ih, List.cons_append]

theorem beforeBlankLine_suffix (h : beforeBlankLine (text ++ more) = none) :
    beforeBlankLine more = none := by
  cases hmore : beforeBlankLine more with
  | none => rfl
  | some before =>
      rw [beforeBlankLine_append_some text hmore] at h
      cases h

/-- Without line feeds in front of it, a text has the blank lines it had. -/
theorem beforeBlankLine_append_left (h : '\n' ∉ text) (hmore : beforeBlankLine more = none) :
    beforeBlankLine (text ++ more) = none := by
  induction text with
  | nil => exact hmore
  | cons c text ih =>
      rw [List.mem_cons, not_or] at h
      rw [List.cons_append, beforeBlankLine, ih h.2]
      simp [Ne.symm h.1]

/-- A single line feed in front of what is no white space makes no blank line. -/
theorem startsBlankLine_of_sharp (hfeed : '\n' ∉ space) (hsharp : trimStart tail = tail) :
    startsBlankLine (space ++ tail) = false := by
  cases tail with
  | nil => simp [startsBlankLine, hfeed]
  | cons c tail =>
      have hc : isWhiteSpace c = false := by
        rw [trimStart, List.dropWhile_eq_self_iff] at hsharp
        simpa using hsharp (Nat.zero_lt_succ _)
      have hne : c ≠ '\n' := by
        rintro rfl
        exact absurd hc (by decide)
      have hline : ∀ d ∈ space, (d != '\n') = true := by
        intro d hd
        rw [bne_iff_ne]
        rintro rfl
        exact hfeed hd
      rw [startsBlankLine, List.takeWhile_append_of_pos hline, List.takeWhile_cons_of_pos (by
        simpa using hne)]
      simp [hc]

/-- Fewer than two line feeds in front of what is no white space make no blank line. -/
theorem beforeBlankLine_of_feeds (hcount : space.count '\n' ≤ 1)
    (hsharp : trimStart tail = tail) (hlast : beforeBlankLine tail = none) :
    beforeBlankLine (space ++ tail) = none := by
  induction space with
  | nil => exact hlast
  | cons c space ih =>
      rw [List.count_cons] at hcount
      rw [List.cons_append, beforeBlankLine, ih (by omega)]
      by_cases hc : c = '\n'
      · have hfeed : '\n' ∉ space := by
          rw [← List.count_eq_zero]
          simp [hc] at hcount
          omega
        simp [startsBlankLine_of_sharp hfeed hsharp]
      · simp [hc]

/-- Two line feeds in white space make a blank line. It need not begin with the first of them, but
only white space stands in front of it. -/
theorem exists_beforeBlankLine (hspace : ∀ c ∈ space, isWhiteSpace c = true)
    (hcount : 2 ≤ space.count '\n') (hsharp : trimStart tail = tail)
    (hlast : beforeBlankLine tail = none) :
    ∃ before, beforeBlankLine (space ++ tail) = some before ∧
      ∀ c ∈ before, isWhiteSpace c = true := by
  induction space with
  | nil => simp at hcount
  | cons c space ih =>
      obtain ⟨hc, hrest⟩ := List.forall_mem_cons.1 hspace
      rw [List.cons_append, beforeBlankLine]
      by_cases hmore : 2 ≤ space.count '\n'
      · obtain ⟨before, hbefore, hall⟩ := ih hrest hmore
        exact ⟨c :: before, by rw [hbefore], List.forall_mem_cons.2 ⟨hc, hall⟩⟩
      · -- The line feed in front is the first of the last two.
        obtain ⟨rfl, hfeed⟩ : c = '\n' ∧ '\n' ∈ space := by
          rw [← List.count_pos_iff]
          by_cases hne : c = '\n'
          · simp only [hne, List.count_cons_self] at hcount
            exact ⟨hne, by omega⟩
          · rw [List.count_cons_of_ne hne] at hcount
            omega
        have hblank : startsBlankLine (space ++ tail) = true := by
          have hline : (space ++ tail).takeWhile (· != '\n') = space.takeWhile (· != '\n') :=
            takeWhile_append_of_mem hfeed tail
          have hall : (space.takeWhile (· != '\n')).all isWhiteSpace = true :=
            List.all_eq_true.2 fun d hd => hrest d ((List.takeWhile_prefix _).subset hd)
          rw [startsBlankLine, hline, hall]
          simp [hfeed]
        have hnone := beforeBlankLine_of_feeds (Nat.le_of_lt_succ (Nat.lt_of_not_le hmore)) hsharp
          hlast
        exact ⟨[], by simp [hnone, hblank], by simp⟩

/-! ### Cuts

What `repair` keeps is not the text in front of the last blank line, but that without the white
space at its end. A cut names the three parts, so that proofs can go on with equations between
texts. -/

/-- What a blank line sets apart of the trivia in front of a statement: `head` in front of the white
space with the last blank line, and `tail` behind it. -/
structure Cut (text head space tail : List Char) : Prop where
  split : head ++ (space ++ tail) = text
  closed : trimEnd head = head
  blank : ∀ c ∈ space, isWhiteSpace c = true
  feeds : 2 ≤ space.count '\n'
  sharp : trimStart tail = tail
  last : beforeBlankLine tail = none

namespace Cut

variable {head : List Char}

/-- A cut is where the last blank line is. -/
theorem exists_before (h : Cut text head space tail) :
    ∃ before, beforeBlankLine text = some before ∧ trimEnd before = head ∧
      lineFeeds (text.drop head.length) = space.count '\n' := by
  obtain ⟨before, hbefore, hall⟩ := exists_beforeBlankLine h.blank h.feeds h.sharp h.last
  refine ⟨head ++ before, ?_, ?_, ?_⟩
  · rw [← h.split, beforeBlankLine_append_some head hbefore]
  · rw [trimEnd_append_space head hall, h.closed]
  · rw [← h.split, List.drop_left, lineFeeds_space_append h.blank, lineFeeds_of_sharp h.sharp,
      Nat.add_zero]

/-- Behind what is put in front of it, a text is cut where it was, if something is kept of it. -/
theorem append (h : Cut text head space tail) (hhead : head ≠ []) (front : List Char) :
    Cut (front ++ text) (front ++ head) space tail where
  split := by rw [List.append_assoc, h.split]
  closed := by
    rw [trimEnd_append_of_ne front (by rw [h.closed]; exact hhead), h.closed]
  blank := h.blank
  feeds := h.feeds
  sharp := h.sharp
  last := h.last

/-- A text is cut in front of white space with a blank line, if there is none behind it. -/
theorem of_space (front : List Char) (hspace : ∀ c ∈ space, isWhiteSpace c = true)
    (hfeeds : 2 ≤ space.count '\n') (hsharp : trimStart tail = tail)
    (hlast : beforeBlankLine tail = none) :
    ∃ space', Cut (front ++ (space ++ tail)) (trimEnd front) space' tail ∧
      ∃ more, (∀ c ∈ more, isWhiteSpace c = true) ∧ trimEnd front ++ more = front ∧
        space' = more ++ space := by
  obtain ⟨more, hmore, hfront⟩ := trimEnd_append front
  refine ⟨more ++ space, ⟨?_, trimEnd_trimEnd front, ?_, ?_, hsharp, hlast⟩, more, hmore, hfront,
    rfl⟩
  · rw [List.append_assoc, ← List.append_assoc, hfront]
  · exact List.forall_mem_append.2 ⟨hmore, hspace⟩
  · rw [List.count_append]
    omega

end Cut

/-- The last blank line of a text. -/
theorem beforeBlankLine_eq_some {before : List Char} (h : beforeBlankLine text = some before) :
    ∃ rest, before ++ '\n' :: rest = text ∧ startsBlankLine rest = true ∧
      beforeBlankLine rest = none := by
  induction text generalizing before with
  | nil => simp [beforeBlankLine] at h
  | cons c text ih =>
      rw [beforeBlankLine] at h
      split at h
      · next before' hbefore' =>
          cases h
          obtain ⟨rest, hrest, hblank⟩ := ih hbefore'
          exact ⟨rest, by rw [List.cons_append, hrest], hblank⟩
      · next hnone =>
          split at h
          · next hblank =>
              cases h
              obtain ⟨hc, hstarts⟩ := Bool.and_eq_true_iff.1 hblank
              exact ⟨text, by rw [List.nil_append, beq_iff_eq.1 hc], hstarts, hnone⟩
          · cases h

/-- A line feed ends a blank line. -/
theorem mem_openingSpace_of_blank (h : startsBlankLine text = true) : '\n' ∈ openingSpace text := by
  obtain ⟨hfeed, hline⟩ := Bool.and_eq_true_iff.1 h
  have hsplit := List.takeWhile_append_dropWhile (p := (· != '\n')) (l := text)
  have hrest := List.head?_dropWhile_not (· != '\n') text
  cases hdrop : text.dropWhile (· != '\n') with
  | nil =>
      rw [List.contains_iff_mem] at hfeed
      have hall := List.dropWhile_eq_nil_iff.1 hdrop _ hfeed
      simp at hall
  | cons c rest =>
      rw [hdrop] at hrest hsplit
      obtain rfl : c = '\n' := by simpa using hrest
      rw [← hsplit, openingSpace_space_append (List.all_eq_true.1 hline), openingSpace,
        List.takeWhile_cons_of_pos (by decide)]
      simp

/-- A text with a blank line has a cut. -/
theorem exists_cut {before : List Char} (h : beforeBlankLine text = some before) :
    ∃ space tail, Cut text (trimEnd before) space tail := by
  obtain ⟨rest, hrest, hblank, hlast⟩ := beforeBlankLine_eq_some h
  obtain ⟨more, hmore, hbefore⟩ := trimEnd_append before
  have hsplit := openingSpace_append_trimStart rest
  refine ⟨more ++ '\n' :: openingSpace rest, trimStart rest, ⟨?_, trimEnd_trimEnd before, ?_, ?_,
    trimStart_trimStart rest, ?_⟩⟩
  · rw [List.append_assoc, ← List.append_assoc, hbefore, List.cons_append, hsplit, hrest]
  · exact List.forall_mem_append.2 ⟨hmore, List.forall_mem_cons.2
      ⟨by decide, isWhiteSpace_of_mem_openingSpace⟩⟩
  · have hfeed := List.count_pos_iff.2 (mem_openingSpace_of_blank hblank)
    rw [List.count_append, List.count_cons_self]
    omega
  · rw [← hsplit] at hlast
    exact beforeBlankLine_suffix hlast

/-- Of a text that opens with something else than white space, something is kept. -/
theorem Cut.head_ne_nil {head : List Char} (h : Cut text head space tail)
    (hsharp : trimStart text = text) : head ≠ [] := by
  rintro rfl
  have hspace := openingSpace_of_sharp hsharp
  rw [← h.split, List.nil_append, openingSpace_space_append h.blank] at hspace
  have hfeeds := h.feeds
  rw [(List.append_eq_nil_iff.1 hspace).1] at hfeeds
  simp at hfeeds

/-! ### Line breaks -/

theorem feed_not_mem (h : hasLineBreak text = false) : '\n' ∉ text := by
  intro hmem
  have hbreak := List.any_eq_false.1 h _ hmem
  simp [isLineBreak] at hbreak

theorem hasLineBreak_of_feed (h : '\n' ∈ text) : hasLineBreak text = true :=
  List.any_eq_true.2 ⟨'\n', h, by decide⟩

theorem hasLineBreak_beforeLineBreak (text : List Char) :
    hasLineBreak (beforeLineBreak text) = false := by
  rw [hasLineBreak, List.any_eq_false]
  intro c hc
  simpa using List.mem_takeWhile_imp hc

theorem beforeLineBreak_append_fromLineBreak (text : List Char) :
    beforeLineBreak text ++ fromLineBreak text = text :=
  List.takeWhile_append_dropWhile

/-- What has no line break comes in front of the first one. -/
theorem lineBreak_append_left (h : hasLineBreak text = false) (more : List Char) :
    beforeLineBreak (text ++ more) = text ++ beforeLineBreak more ∧
      fromLineBreak (text ++ more) = fromLineBreak more := by
  have hall : ∀ c ∈ text, (!isLineBreak c) = true := by
    intro c hc
    simpa using List.any_eq_false.1 h c hc
  exact ⟨List.takeWhile_append_of_pos hall, List.dropWhile_append_of_pos hall⟩

/-- The first line break stays the first. -/
theorem lineBreak_append (h : hasLineBreak text = true) (more : List Char) :
    beforeLineBreak (text ++ more) = beforeLineBreak text ∧
      fromLineBreak (text ++ more) = fromLineBreak text ++ more := by
  obtain ⟨c, rest, hc, hfrom, hsplit⟩ := exists_lineBreak h
  obtain ⟨hbefore, hbehind⟩ :=
    lineBreak_append_left (hasLineBreak_beforeLineBreak text) ((c :: rest) ++ more)
  rw [← List.append_assoc, hsplit] at hbefore hbehind
  rw [hbefore, hbehind, hfrom]
  simp [beforeLineBreak, fromLineBreak, hc]

theorem fromLineBreak_of_noBreak (h : hasLineBreak text = false) : fromLineBreak text = [] := by
  have hnone := (lineBreak_append_left h []).2
  rwa [List.append_nil] at hnone

theorem lineBreak_fromLineBreak (text : List Char) :
    beforeLineBreak (fromLineBreak text) = [] ∧
      fromLineBreak (fromLineBreak text) = fromLineBreak text := by
  obtain ⟨hbefore, hfrom⟩ :=
    lineBreak_append_left (hasLineBreak_beforeLineBreak text) (fromLineBreak text)
  rw [beforeLineBreak_append_fromLineBreak] at hbefore hfrom
  exact ⟨List.append_right_eq_self.1 hbefore.symm, hfrom.symm⟩

/-! ### Dropping blank lines -/

theorem afterLastLineFeed_append (text : List Char) (h : '\n' ∉ more) :
    afterLastLineFeed (text ++ more) = afterLastLineFeed text ++ more := by
  have hline : ∀ c ∈ more.reverse, (c != '\n') = true := by
    intro c hc
    rw [bne_iff_ne]
    rintro rfl
    exact h (List.mem_reverse.1 hc)
  rw [afterLastLineFeed, List.reverse_append, List.takeWhile_append_of_pos hline,
    List.reverse_append, List.reverse_reverse, afterLastLineFeed]

theorem feed_not_mem_afterLastLineFeed (text : List Char) : '\n' ∉ afterLastLineFeed text := by
  rw [afterLastLineFeed, List.mem_reverse]
  intro hmem
  have hfeed := List.mem_takeWhile_imp hmem
  simp at hfeed

theorem afterLastLineFeed_suffix (text : List Char) : afterLastLineFeed text <:+ text := by
  have hprefix := List.takeWhile_prefix (p := (· != '\n')) (l := text.reverse)
  rw [← List.reverse_suffix, List.reverse_reverse] at hprefix
  exact hprefix

/-- The indentation of the first line that is not blank. -/
theorem space_afterLastLineFeed (text : List Char) :
    ∀ c ∈ afterLastLineFeed (openingSpace text), isWhiteSpace c = true :=
  fun c hc => isWhiteSpace_of_mem_openingSpace c ((afterLastLineFeed_suffix _).subset hc)

theorem trimStart_dropBlankLines (text : List Char) :
    trimStart (dropBlankLines text) = trimStart text := by
  rw [dropBlankLines, trimStart_space_append (space_afterLastLineFeed text), trimStart_trimStart]

theorem lineFeeds_dropBlankLines (text : List Char) : lineFeeds (dropBlankLines text) = 0 := by
  rw [dropBlankLines, lineFeeds_space_append (space_afterLastLineFeed text),
    lineFeeds_of_sharp (trimStart_trimStart text),
    List.count_eq_zero.2 (feed_not_mem_afterLastLineFeed _)]

theorem dropBlankLines_suffix (text : List Char) : dropBlankLines text <:+ text := by
  obtain ⟨front, hfront⟩ := afterLastLineFeed_suffix (openingSpace text)
  refine ⟨front, ?_⟩
  rw [dropBlankLines, ← List.append_assoc, hfront, openingSpace_append_trimStart]

theorem dropBlankLines_append (h : trimStart text ≠ []) (more : List Char) :
    dropBlankLines (text ++ more) = dropBlankLines text ++ more := by
  rw [dropBlankLines, openingSpace_append h, trimStart_append h, ← List.append_assoc,
    dropBlankLines]

/-- Without line feeds behind it, a text has the blank lines in front that it had. It may be white
space throughout, which `dropBlankLines_append` does not allow. -/
theorem opening_append (text : List Char) (h : '\n' ∉ more) :
    lineFeeds (text ++ more) = lineFeeds text ∧
      dropBlankLines (text ++ more) = dropBlankLines text ++ more := by
  by_cases hspace : trimStart text = []
  · have hall := space_of_trimStart hspace
    have hopening : openingSpace text = text := by
      have hsplit := openingSpace_append_trimStart text
      rwa [hspace, List.append_nil] at hsplit
    have hfeeds : '\n' ∉ openingSpace more := fun hmem => h ((List.takeWhile_prefix _).subset hmem)
    constructor
    · rw [lineFeeds_space_append hall, lineFeeds, lineFeeds, hopening, List.count_eq_zero.2 hfeeds,
        Nat.add_zero]
    · rw [dropBlankLines, openingSpace_space_append hall, trimStart_space_append hall,
        afterLastLineFeed_append text hfeeds, List.append_assoc, openingSpace_append_trimStart,
        dropBlankLines, hopening, hspace, List.append_nil]
  · exact ⟨lineFeeds_append hspace more, dropBlankLines_append hspace more⟩

/-! ### Line endings -/

theorem lineEnding_cons {c : Char} (hc : c ≠ '\r') (text : List Char) :
    lineEnding (c :: text) = lineEnding text := by
  rw [lineEnding]
  rintro rest rfl
  exact absurd rfl hc

/-- What has no line break has no line ending of its own, so that of the text behind it counts. -/
theorem lineEnding_append_left (h : hasLineBreak text = false) (more : List Char) :
    lineEnding (text ++ more) = lineEnding more := by
  induction text with
  | nil => rfl
  | cons c text ih =>
      rw [hasLineBreak, List.any_cons, Bool.or_eq_false_iff] at h
      have hc : c ≠ '\r' := by
        rintro rfl
        exact absurd h.1 (by decide)
      rw [List.cons_append, lineEnding_cons hc, ih h.2]

theorem lineEnding_fromLineBreak (text : List Char) :
    lineEnding (fromLineBreak text) = lineEnding text := by
  conv_rhs => rw [← beforeLineBreak_append_fromLineBreak text]
  rw [lineEnding_append_left (hasLineBreak_beforeLineBreak text)]

theorem lineEnding_of_feed (h : '\n' ∉ text) : lineEnding text = ['\n'] := by
  fun_induction lineEnding text with
  | case1 => simp at h
  | case2 c rest _ ih => exact ih fun hmem => h (List.mem_cons_of_mem _ hmem)
  | case3 => rfl

/-- Without line feeds behind it, a text has the line ending it had. -/
theorem lineEnding_append_right (text : List Char) (h : '\n' ∉ more) :
    lineEnding (text ++ more) = lineEnding text := by
  fun_induction lineEnding text with
  | case1 rest => rw [List.cons_append, List.cons_append, lineEnding]
  | case2 c rest hpair ih =>
      rw [List.cons_append, lineEnding, ih]
      intro rest' hc heq
      cases rest with
      | nil =>
          rw [List.nil_append] at heq
          exact h (by rw [heq]; simp)
      | cons d rest => exact hpair rest hc (by rw [(List.cons.inj heq).1])
  | case3 => exact lineEnding_of_feed h

/-- A text without carriage returns in its line endings has none at its end. -/
theorem lineEnding_suffix (h : lineEnding text = ['\n']) (hsuffix : more <:+ text) :
    lineEnding more = ['\n'] := by
  obtain ⟨front, rfl⟩ := hsuffix
  induction front with
  | nil => exact h
  | cons c front ih =>
      refine ih ?_
      rw [List.cons_append] at h
      generalize front ++ more = rest at h
      unfold lineEnding at h
      split at h
      · cases h
      · next heq =>
          cases heq
          exact h
      · next heq => cases heq

/-! ### Behind a cut

`repair` joins what it keeps with line endings of its own and the trivia behind. All questions
about the result are questions about this second part, as what is kept ends sharply. -/

/-- What stands behind a cut: `feeds` line endings and the trivia behind the removed statement. -/
def behindCut (feeds : Nat) (following : List Char) : List Char :=
  (List.replicate feeds (lineEnding following)).flatten ++ dropBlankLines (fromLineBreak following)

section BehindCut

variable {feeds : Nat} {following : List Char}

theorem space_endings (feeds : Nat) (following : List Char) :
    ∀ c ∈ (List.replicate feeds (lineEnding following)).flatten, isWhiteSpace c = true := by
  intro c hc
  obtain ⟨ending, hending, hc⟩ := List.mem_flatten.1 hc
  rw [List.eq_of_mem_replicate hending] at hc
  have hspace : ∀ c ∈ ['\r', '\n'], isWhiteSpace c = true := List.all_eq_true.1 (by decide)
  rcases lineEnding_cases following with heq | heq <;> rw [heq] at hc
  · exact hspace c hc
  · exact hspace c (List.mem_cons_of_mem _ hc)

theorem count_endings (feeds : Nat) (following : List Char) :
    (List.replicate feeds (lineEnding following)).flatten.count '\n' = feeds := by
  have hone : (lineEnding following).count '\n' = 1 := by
    rcases lineEnding_cases following with heq | heq <;> rw [heq] <;> decide
  rw [List.count_flatten, List.map_replicate, hone, List.sum_replicate_nat, Nat.mul_one]

theorem lineFeeds_behindCut : lineFeeds (behindCut feeds following) = feeds := by
  rw [behindCut, lineFeeds_space_append (space_endings feeds following), count_endings,
    lineFeeds_dropBlankLines, Nat.add_zero]

theorem trimStart_behindCut :
    trimStart (behindCut feeds following) = trimStart (fromLineBreak following) := by
  rw [behindCut, trimStart_space_append (space_endings feeds following), trimStart_dropBlankLines]

theorem behindCut_zero (h : lineFeeds (fromLineBreak following) = 0) :
    behindCut 0 following = fromLineBreak following :=
  dropBlankLines_of_lineFeeds h

theorem behindCut_succ (feeds : Nat) (following : List Char) :
    behindCut (feeds + 1) following = lineEnding following ++ behindCut feeds following := by
  rw [behindCut, behindCut, List.replicate_succ, List.flatten_cons, List.append_assoc]

/-- Line endings end in a line feed. -/
theorem exists_endings (feeds : Nat) (following : List Char) :
    ∃ front, (List.replicate (feeds + 1) (lineEnding following)).flatten = front ++ ['\n'] := by
  rw [List.replicate_succ', List.flatten_append, List.flatten_singleton]
  rcases lineEnding_cases following with heq | heq <;> rw [heq]
  · exact ⟨(List.replicate feeds ['\r', '\n']).flatten ++ ['\r'], by simp⟩
  · exact ⟨_, rfl⟩

theorem dropBlankLines_behindCut :
    dropBlankLines (behindCut feeds following) = dropBlankLines (fromLineBreak following) := by
  cases feeds with
  | zero => exact dropBlankLines_of_lineFeeds (lineFeeds_dropBlankLines _)
  | succ feeds =>
      obtain ⟨front, hfront⟩ := exists_endings feeds following
      have hspace : openingSpace (behindCut (feeds + 1) following) =
          (front ++ ['\n']) ++ afterLastLineFeed (openingSpace (fromLineBreak following)) := by
        rw [behindCut, openingSpace_space_append (space_endings _ following), hfront,
          dropBlankLines, openingSpace_space_append (space_afterLastLineFeed _),
          openingSpace_of_sharp (trimStart_trimStart _), List.append_nil]
      have hlast : afterLastLineFeed (front ++ ['\n']) = [] := by
        simp [afterLastLineFeed]
      rw [dropBlankLines, hspace, trimStart_behindCut,
        afterLastLineFeed_append _ (feed_not_mem_afterLastLineFeed _), hlast, List.nil_append,
        dropBlankLines]

theorem fromLineBreak_cons {c : Char} (hc : isLineBreak c = true) (text : List Char) :
    fromLineBreak (c :: text) = c :: text := by
  rw [fromLineBreak, List.dropWhile_cons_of_neg]
  simp [hc]

/-- With the line feeds that open the trivia behind it, what stands behind a cut opens with a line
break. Where no line feed is kept, that is the break of the trivia itself. -/
theorem fromLineBreak_behindCut (hfeeds : lineFeeds (fromLineBreak following) ≤ feeds) :
    fromLineBreak (behindCut feeds following) = behindCut feeds following := by
  cases feeds with
  | zero =>
      rw [behindCut_zero (Nat.le_zero.1 hfeeds)]
      exact (lineBreak_fromLineBreak following).2
  | succ feeds =>
      rw [behindCut_succ]
      rcases lineEnding_cases following with heq | heq <;> rw [heq] <;>
        exact fromLineBreak_cons (by decide) _

theorem lineEnding_behindCut (hfeeds : lineFeeds (fromLineBreak following) ≤ feeds) :
    lineEnding (behindCut feeds following) = lineEnding following := by
  rcases lineEnding_cases following with hending | hending
  · cases feeds with
    | zero => rw [behindCut_zero (Nat.le_zero.1 hfeeds), lineEnding_fromLineBreak]
    | succ feeds => rw [behindCut_succ, hending, List.cons_append, List.cons_append, lineEnding]
  · rw [hending]
    clear hfeeds
    induction feeds with
    | zero =>
        exact lineEnding_suffix hending
          ((dropBlankLines_suffix _).trans (List.dropWhile_suffix _))
    | succ feeds ih =>
        rw [behindCut_succ, hending, List.singleton_append, lineEnding_cons (by decide), ih]

end BehindCut

/-! ### Repaired trivia

These are the equations by which `repair` is opened elsewhere: one for each of its branches, with
what the branch has tested. -/

section Repair

variable {removed following head : List Char} (atStart atEnd : Bool)

theorem repair_of_noBreak (hfollowing : hasLineBreak following = false) :
    repair removed following atStart atEnd = removed ++ trimBlanks following := by
  simp [repair, hfollowing]

theorem repair_of_onLine (hfollowing : hasLineBreak following = true)
    (hremoved : hasLineBreak removed = false) :
    repair removed following atStart atEnd =
      if atStart then trimStart (fromLineBreak following) else fromLineBreak following := by
  simp [repair, hfollowing, hremoved]

theorem repair_of_noBlank (hfollowing : hasLineBreak following = true)
    (hremoved : hasLineBreak removed = true) (hnone : beforeBlankLine removed = none) :
    repair removed following atStart atEnd =
      beforeLineBreak removed ++ fromLineBreak following := by
  simp [repair, hfollowing, hremoved, hnone]

theorem Cut.feed_mem (h : Cut text head space tail) : '\n' ∈ text := by
  have hfeed : '\n' ∈ space := List.count_pos_iff.1 (by have := h.feeds; omega)
  rw [← h.split]
  simp [hfeed]

theorem Cut.hasLineBreak (h : Cut text head space tail) : hasLineBreak text = true :=
  hasLineBreak_of_feed h.feed_mem

/-- What is kept of trivia with a blank line, and the gap behind it: of the two gaps that meet the
wider one stays, and at the end of a list only the one behind. -/
theorem repair_of_cut (hfollowing : Trivia.hasLineBreak following = true)
    (h : Cut removed head space tail) :
    repair removed following atStart atEnd = head ++ behindCut
      (max (lineFeeds (fromLineBreak following)) (if atEnd then 0 else space.count '\n'))
      following := by
  obtain ⟨before, hbefore, hhead, hfeeds⟩ := h.exists_before
  simp [repair, hfollowing, h.hasLineBreak, hbefore, hhead, hfeeds, behindCut]

/-- What repaired trivia is made of, by the line breaks of the two pieces of trivia that meet: there
is none behind the statement, or only there, or in both, and then with or without a blank line in
front. -/
theorem repair_cases {motive : List Char → Prop} (removed following : List Char)
    (noBreak : Trivia.hasLineBreak following = false → motive (removed ++ trimBlanks following))
    (onLine : Trivia.hasLineBreak following = true → Trivia.hasLineBreak removed = false →
      motive (if atStart then trimStart (fromLineBreak following) else fromLineBreak following))
    (noBlank : Trivia.hasLineBreak following = true → beforeBlankLine removed = none →
      motive (beforeLineBreak removed ++ fromLineBreak following))
    (cut : ∀ {head space tail}, Trivia.hasLineBreak following = true →
      Cut removed head space tail → motive (head ++ behindCut
        (max (lineFeeds (fromLineBreak following)) (if atEnd then 0 else space.count '\n'))
        following)) :
    motive (repair removed following atStart atEnd) := by
  cases hfollowing : Trivia.hasLineBreak following with
  | false =>
      rw [repair_of_noBreak _ _ hfollowing]
      exact noBreak hfollowing
  | true =>
      cases hremoved : Trivia.hasLineBreak removed with
      | false =>
          rw [repair_of_onLine _ _ hfollowing hremoved]
          exact onLine hfollowing hremoved
      | true =>
          cases hbefore : beforeBlankLine removed with
          | none =>
              rw [repair_of_noBlank _ _ hfollowing hremoved hbefore]
              exact noBlank hfollowing hbefore
          | some before =>
              obtain ⟨space, tail, hcut⟩ := exists_cut hbefore
              rw [repair_of_cut _ _ hfollowing hcut]
              exact cut hfollowing hcut

/-- Of the trivia behind a statement, what stands on its line does not matter if there is more. -/
theorem repair_fromLineBreak (hfollowing : Trivia.hasLineBreak following = true) :
    repair removed (fromLineBreak following) atStart atEnd =
      repair removed following atStart atEnd := by
  simp [repair, hasLineBreak_fromLineBreak hfollowing, hfollowing,
    (lineBreak_fromLineBreak following).2, lineEnding_fromLineBreak]

/-- Of the trivia in front of a statement, what stands on its line goes with it. So indentation and
comments behind the last line break make no difference to what is kept. -/
theorem repair_append (hfollowing : Trivia.hasLineBreak following = true)
    (hremoved : Trivia.hasLineBreak removed = true) (hmore : Trivia.hasLineBreak more = false)
    (atStart' : Bool) :
    repair (removed ++ more) following atStart atEnd = repair removed following atStart' atEnd := by
  have hbreak : Trivia.hasLineBreak (removed ++ more) = true := by
    rw [hasLineBreak_append, hremoved, Bool.true_or]
  have hbefore := beforeBlankLine_append_right removed (feed_not_mem hmore)
  cases hnone : beforeBlankLine removed with
  | none =>
      rw [hnone] at hbefore
      rw [repair_of_noBlank _ _ hfollowing hbreak hbefore,
        repair_of_noBlank _ _ hfollowing hremoved hnone, (lineBreak_append hremoved more).1]
  | some before =>
      have hle : (trimEnd before).length ≤ removed.length := by
        obtain ⟨space, tail, hcut⟩ := exists_cut hnone
        rw [← hcut.split, List.length_append]
        exact Nat.le_add_right _ _
      rw [hnone] at hbefore
      simp [repair, hfollowing, hbreak, hremoved, hbefore, hnone, List.drop_append_of_le_length hle,
        (opening_append _ (feed_not_mem hmore)).1]

end Repair

end BuildPrune.Trivia
