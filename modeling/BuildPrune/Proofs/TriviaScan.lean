import Mathlib.Data.List.TakeWhile
import BuildPrune.Proofs.Spelling
import BuildPrune.Script.Trivia

/-!
# BuildPrune.Proofs.TriviaScan

Reading trivia character by character. `Trivia.scan` is an automaton that stops where a block
comment runs over the end of its line: these are the comments that `Trivia.repair` cannot cut. What
it accepts is read as trivia by the lexer (`skips_of_scan`), and it accepts what `repair` makes of
two texts that it accepts (`scan_repair`).
-/

namespace BuildPrune.Trivia

open Text

/-! ### The automaton

It has a state for each kind of piece and for each mark of which only one character was read. In a
block comment it stops at a line break, where the lexer would go on. -/

/-- Where in trivia a character stands. What the next character can be depends on nothing else of
what was read before. -/
inductive Place
  /-- At the start of the script, where a `#!` line may be. -/
  | start
  /-- Behind the `#` of a `#!` line. -/
  | hash
  /-- Between pieces. -/
  | between
  /-- Behind the first `/` of a comment. -/
  | slash
  /-- In a `#!` line or a `//` comment. -/
  | line
  /-- In a block comment. -/
  | block
  /-- In a block comment, behind a `*`. -/
  | star
  deriving DecidableEq, Repr

namespace Place

/-- The place behind a character that stands between pieces. -/
def fromBetween (c : Char) : Option Place :=
  if c == '/' then some slash
  else if isLineBreak c || Lexer.isBlank c then some between
  else none

/-- The place behind a character. -/
def next : Place → Char → Option Place
  | start, c => if c == '#' then some hash else fromBetween c
  | hash, c => if c == '!' then some line else none
  | between, c => fromBetween c
  | slash, c => if c == '/' then some line else if c == '*' then some block else none
  | line, c => some (if isLineBreak c then between else line)
  | block, c => if isLineBreak c then none else some (if c == '*' then star else block)
  | star, c =>
    if isLineBreak c then none
    else some (if c == '/' then between else if c == '*' then star else block)

/-- No piece is open. -/
def IsClosed (place : Place) : Prop :=
  place = start ∨ place = between

/-- No piece is open but one that the end of the line closes. -/
def IsOutside (place : Place) : Prop :=
  place = start ∨ place = between ∨ place = line

instance (place : Place) : Decidable place.IsClosed :=
  inferInstanceAs (Decidable (_ ∨ _))

instance (place : Place) : Decidable place.IsOutside :=
  inferInstanceAs (Decidable (_ ∨ _))

theorem IsClosed.isOutside {place : Place} (h : place.IsClosed) : place.IsOutside := by
  rcases h with rfl | rfl
  · exact .inl rfl
  · exact .inr (.inl rfl)

end Place

/-- The place behind a text that is read from `place` on. -/
def scan (place : Place) (text : List Char) : Option Place :=
  text.foldlM Place.next place

@[simp] theorem scan_cons (place : Place) (c : Char) (text : List Char) :
    scan place (c :: text) = (place.next c).bind fun p => scan p text := by
  simp [scan, List.foldlM_cons, Option.bind_eq_bind]

@[simp] theorem scan_append (place : Place) (text more : List Char) :
    scan place (text ++ more) = (scan place text).bind fun p => scan p more := by
  simp [scan, List.foldlM_append, Option.bind_eq_bind]

/-! ### Line breaks -/

/-- A line break can follow what is outside of block comments, and only that. This is where the
automaton is stricter than the lexer. -/
theorem next_lineBreak {place : Place} {c : Char} (hc : isLineBreak c = true) :
    place.next c = if place.IsOutside then some .between else none := by
  have hcases : c = '\n' ∨ c = '\r' := by simpa [isLineBreak] using hc
  rcases hcases with rfl | rfl <;> cases place <;> decide

theorem isOutside_of_scan_lineBreak {place q : Place} {c : Char} {text : List Char}
    (hc : isLineBreak c = true) (h : scan place (c :: text) = some q) :
    place.IsOutside ∧ scan .between text = some q := by
  rw [scan_cons, next_lineBreak hc] at h
  split at h
  · next houtside => exact ⟨houtside, h⟩
  · cases h

theorem scan_of_lineBreak {place q : Place} {c : Char} {text : List Char}
    (hc : isLineBreak c = true) (hplace : place.IsOutside) (h : scan .between text = some q) :
    scan place (c :: text) = some q := by
  rw [scan_cons, next_lineBreak hc, if_pos hplace]
  exact h

/-- A text with a line break is its first line and what starts with the break. -/
theorem exists_lineBreak {text : List Char} (h : hasLineBreak text = true) :
    ∃ c rest, isLineBreak c = true ∧ fromLineBreak text = c :: rest ∧
      beforeLineBreak text ++ c :: rest = text := by
  have hsplit : beforeLineBreak text ++ fromLineBreak text = text := List.takeWhile_append_dropWhile
  cases hfrom : fromLineBreak text with
  | nil =>
      obtain ⟨c, hmem, hc⟩ := List.any_eq_true.1 h
      have hnot := List.dropWhile_eq_nil_iff.1 hfrom c hmem
      simp [hc] at hnot
  | cons c rest =>
      have hhead := List.head?_dropWhile_not (!isLineBreak ·) text
      rw [fromLineBreak] at hfrom
      rw [hfrom] at hhead
      refine ⟨c, rest, by simpa using hhead, rfl, ?_⟩
      rw [fromLineBreak, hfrom] at hsplit
      exact hsplit

/-- Both sides of the first line break are scanned on their own. So a text may be cut there, and
what is behind the cut may follow any other text that is outside of block comments. -/
theorem scan_lineBreak {place q : Place} {text : List Char} (h : scan place text = some q)
    (hbreak : hasLineBreak text = true) :
    (∃ m, scan place (beforeLineBreak text) = some m ∧ m.IsOutside) ∧
      ∀ m : Place, m.IsOutside → scan m (fromLineBreak text) = some q := by
  obtain ⟨c, rest, hc, hfrom, hsplit⟩ := exists_lineBreak hbreak
  rw [← hsplit, scan_append, Option.bind_eq_some_iff] at h
  obtain ⟨m, hm, hrest⟩ := h
  obtain ⟨houtside, hrest⟩ := isOutside_of_scan_lineBreak hc hrest
  refine ⟨⟨m, hm, houtside⟩, fun m' hm' => ?_⟩
  rw [hfrom]
  exact scan_of_lineBreak hc hm' hrest

/-! ### White space

Behind white space between pieces the automaton is where it was in front of it. So `repair` may
drop any of it, and may put in line endings of its own. -/

/-- White space between pieces leaves nothing open. -/
theorem next_whiteSpace {c : Char} {m : Place} (hc : isWhiteSpace c = true)
    (h : Place.next .between c = some m) : m = .between := by
  simp only [Place.next, Place.fromBetween] at h
  split at h
  · next hslash =>
      obtain rfl : c = '/' := by simpa using hslash
      exact absurd hc (by decide)
  · split at h
    · exact (Option.some.inj h).symm
    · cases h

/-- Of the white space in front, any part may go: between pieces, white space is nothing that
something else depends on. -/
theorem scan_whiteSpace {q : Place} {space rest : List Char}
    (hspace : ∀ c ∈ space, isWhiteSpace c = true) (h : scan .between (space ++ rest) = some q) :
    ∀ kept : List Char, (∀ c ∈ kept, c ∈ space) → scan .between (kept ++ rest) = some q := by
  have hnext : ∀ c ∈ space, Place.next .between c = some .between := by
    induction space with
    | nil => simp
    | cons c space ih =>
        rw [List.cons_append, scan_cons, Option.bind_eq_some_iff] at h
        obtain ⟨m, hm, h⟩ := h
        obtain ⟨hc, hspace⟩ := List.forall_mem_cons.1 hspace
        obtain rfl := next_whiteSpace hc hm
        exact List.forall_mem_cons.2 ⟨hm, ih hspace h⟩
  have hskip : ∀ kept : List Char, (∀ c ∈ kept, c ∈ space) →
      scan .between (kept ++ rest) = scan .between rest := by
    intro kept hkept
    induction kept with
    | nil => rfl
    | cons c kept ih =>
        obtain ⟨hc, hkept⟩ := List.forall_mem_cons.1 hkept
        rw [List.cons_append, scan_cons, hnext c hc]
        exact ih hkept
  intro kept hkept
  rw [hskip kept hkept, ← hskip space fun c hc => hc]
  exact h

theorem openingSpace_append_trimStart (text : List Char) :
    openingSpace text ++ trimStart text = text :=
  List.takeWhile_append_dropWhile

theorem isWhiteSpace_of_mem_openingSpace {text : List Char} :
    ∀ c ∈ openingSpace text, isWhiteSpace c = true :=
  fun _ hc => List.mem_takeWhile_imp hc

/-- Part of the white space that opens a text, and the rest. -/
theorem scan_keepSpace {q : Place} {text : List Char} (h : scan .between text = some q)
    (kept : List Char) (hkept : ∀ c ∈ kept, c ∈ openingSpace text) :
    scan .between (kept ++ trimStart text) = some q := by
  rw [← openingSpace_append_trimStart text] at h
  exact scan_whiteSpace isWhiteSpace_of_mem_openingSpace h kept hkept

theorem scan_trimStart {q : Place} {text : List Char} (h : scan .between text = some q) :
    scan .between (trimStart text) = some q :=
  scan_keepSpace h [] (by simp)

theorem scan_dropBlankLines {q : Place} {text : List Char} (h : scan .between text = some q) :
    scan .between (dropBlankLines text) = some q := by
  refine scan_keepSpace h _ fun c hc => ?_
  rw [afterLastLineFeed, List.mem_reverse] at hc
  exact List.mem_reverse.1 ((List.takeWhile_prefix _).subset hc)

theorem scan_trimBlanks {q : Place} {text : List Char} (h : scan .between text = some q) :
    scan .between (trimBlanks text) = some q := by
  rw [← List.takeWhile_append_dropWhile (p := fun c => c == ' ' || c == '\t') (l := text)] at h
  refine scan_whiteSpace (fun c hc => ?_) h [] (by simp)
  have hblank := List.mem_takeWhile_imp hc
  have hcases : c = ' ' ∨ c = '\t' := by simpa using hblank
  rcases hcases with rfl | rfl <;> decide

/-! ### Blank lines -/

theorem beforeBlankLine_append {text head : List Char} (h : beforeBlankLine text = some head) :
    ∃ rest, head ++ '\n' :: rest = text := by
  induction text generalizing head with
  | nil => simp [beforeBlankLine] at h
  | cons c text ih =>
      rw [beforeBlankLine] at h
      split at h
      · next head' hhead' =>
          cases h
          obtain ⟨rest, hrest⟩ := ih hhead'
          exact ⟨rest, by rw [List.cons_append, hrest]⟩
      · split at h
        · next hblank =>
            cases h
            obtain ⟨hc, -⟩ := Bool.and_eq_true_iff.1 hblank
            exact ⟨text, by rw [List.nil_append, beq_iff_eq.1 hc]⟩
        · cases h

theorem trimEnd_append (text : List Char) :
    ∃ space, (∀ c ∈ space, isWhiteSpace c = true) ∧ trimEnd text ++ space = text := by
  induction text with
  | nil => exact ⟨[], by simp, rfl⟩
  | cons c text ih =>
      obtain ⟨space, hspace, htext⟩ := ih
      rw [trimEnd]
      split
      · next hempty =>
          rw [hempty, List.nil_append] at htext
          subst htext
          split
          · next hc => exact ⟨c :: space, List.forall_mem_cons.2 ⟨hc, hspace⟩, rfl⟩
          · exact ⟨space, hspace, rfl⟩
      · exact ⟨space, hspace, by rw [List.cons_append, htext]⟩

/-- White space does not close a block comment. So what is outside of comments behind white space
was outside in front of it. -/
theorem isOutside_of_scan_space {m q : Place} {space : List Char}
    (hspace : ∀ c ∈ space, isWhiteSpace c = true) (h : scan m space = some q)
    (hq : q.IsOutside) : m.IsOutside := by
  induction space generalizing m with
  | nil =>
      cases h
      exact hq
  | cons c space ih =>
      obtain ⟨hc, hspace⟩ := List.forall_mem_cons.1 hspace
      rw [scan_cons, Option.bind_eq_some_iff] at h
      obtain ⟨m', hm', h⟩ := h
      have hm'outside := ih hspace h
      have hne : c ≠ '/' ∧ c ≠ '*' ∧ c ≠ '!' ∧ c ≠ '#' := by
        refine ⟨?_, ?_, ?_, ?_⟩ <;> rintro rfl <;> exact absurd hc (by decide)
      obtain ⟨hslash, hstar, hbang, -⟩ := hne
      cases m with
      | start | between | line => decide
      | hash | slash => simp [Place.next, hslash, hstar, hbang] at hm'
      | block | star =>
          simp only [Place.next, hslash, hstar, beq_iff_eq, if_false] at hm'
          split at hm'
          · cases hm'
          · cases hm'
            exact absurd hm'outside (by decide)

theorem lineEnding_cases (text : List Char) :
    lineEnding text = ['\r', '\n'] ∨ lineEnding text = ['\n'] := by
  fun_induction lineEnding text with
  | case1 => exact .inl rfl
  | case2 c rest _ ih => exact ih
  | case3 => exact .inr rfl

/-- One line ending or more close what is outside of block comments. -/
theorem scan_lineEndings {m : Place} {text : List Char} (hm : m.IsOutside) (n : Nat) :
    scan m (List.replicate (n + 1) (lineEnding text)).flatten = some .between := by
  have hend : ∀ m : Place, m.IsOutside → scan m (lineEnding text) = some .between := by
    intro m hm
    rcases lineEnding_cases text with hending | hending <;> rw [hending] <;>
      rcases hm with rfl | rfl | rfl <;> decide
  induction n generalizing m with
  | zero =>
      rw [List.replicate_one, List.flatten_singleton]
      exact hend m hm
  | succ n ih =>
      rw [List.replicate_succ, List.flatten_cons, scan_append, hend m hm]
      exact ih (.inr (.inl rfl))

/-- Without a line feed in the white space in front there is no blank line to drop. -/
theorem dropBlankLines_of_lineFeeds {text : List Char} (h : lineFeeds text = 0) :
    dropBlankLines text = text := by
  have hnone : ∀ c ∈ (openingSpace text).reverse, (c != '\n') = true := by
    intro c hc
    have hfeeds := List.count_eq_zero.1 h
    rw [bne_iff_ne]
    rintro rfl
    exact hfeeds (List.mem_reverse.1 hc)
  have hall : (openingSpace text).reverse.takeWhile (· != '\n') = (openingSpace text).reverse :=
    List.takeWhile_eq_self_iff.2 hnone
  rw [dropBlankLines, afterLastLineFeed, hall, List.reverse_reverse, openingSpace_append_trimStart]

/-! ### Repaired trivia -/

/-- What can stand between pieces can stand at the start of a script. -/
theorem scan_start {q : Place} {text : List Char} (h : scan .between text = some q) :
    ∃ q', scan .start text = some q' ∧ (q' = q ∨ q' = .start ∧ q = .between) := by
  cases text with
  | nil =>
      cases h
      exact ⟨.start, rfl, .inr ⟨rfl, rfl⟩⟩
  | cons c text =>
      have hnext : Place.next .start c = Place.next .between c := by
        rw [scan_cons, Option.bind_eq_some_iff] at h
        obtain ⟨m, hm, -⟩ := h
        simp only [Place.next, beq_iff_eq]
        rw [if_neg]
        rintro rfl
        exact absurd hm (by simp [Place.next, Place.fromBetween, isLineBreak, Lexer.isBlank])
      refine ⟨q, ?_, .inl rfl⟩
      rw [scan_cons, hnext, ← scan_cons]
      exact h

theorem scan_closed {place q : Place} {text : List Char} (hplace : place.IsClosed)
    (h : scan .between text = some q) :
    ∃ q', scan place text = some q' ∧ (q' = q ∨ q' = .start ∧ q = .between) := by
  rcases hplace with rfl | rfl
  · exact scan_start h
  · exact ⟨q, h, .inl rfl⟩

/-- What `repair` keeps above a blank line ends outside of block comments, although white space and
the blank line itself are cut off its end. -/
theorem exists_scan_trimEnd {place r : Place} {text before : List Char}
    (hbefore : beforeBlankLine text = some before) (h : scan place text = some r) :
    ∃ m, scan place (trimEnd before) = some m ∧ m.IsOutside := by
  -- The cut is at a line feed, so what precedes it is outside of block comments.
  obtain ⟨tail, htail⟩ := beforeBlankLine_append hbefore
  rw [← htail, scan_append, Option.bind_eq_some_iff] at h
  obtain ⟨m, hm, htail⟩ := h
  obtain ⟨houtside, -⟩ := isOutside_of_scan_lineBreak (by decide) htail
  obtain ⟨space, hspace, hhead⟩ := trimEnd_append before
  rw [← hhead, scan_append, Option.bind_eq_some_iff] at hm
  obtain ⟨m', hm', hm⟩ := hm
  exact ⟨m', hm', isOutside_of_scan_space hspace hm houtside⟩

/-- The line endings of a gap can take the place of those that open a text. -/
theorem scan_gap {m q : Place} {text following : List Char} (hm : m.IsOutside)
    (h : ∀ m : Place, m.IsOutside → scan m text = some q) {gap : Nat}
    (hgap : lineFeeds text ≤ gap) :
    scan m ((List.replicate gap (lineEnding following)).flatten ++ dropBlankLines text) =
      some q := by
  cases gap with
  | zero =>
      rw [dropBlankLines_of_lineFeeds (Nat.le_zero.1 hgap)]
      exact h m hm
  | succ n =>
      rw [scan_append, scan_lineEndings hm n]
      exact scan_dropBlankLines (h .between (.inr (.inl rfl)))

/-- The trivia that `repair` puts together can be scanned if both its parts can, the first of them
to its end. The cases are those of `repair`, and in each the parts meet at a line break or at
blanks. -/
theorem scan_repair {place r q : Place} {removed following : List Char} (atStart atEnd : Bool)
    (hplace : place.IsClosed) (hremoved : scan place removed = some r) (hr : r.IsClosed)
    (hfollowing : scan .between following = some q) :
    ∃ q', scan place (repair removed following atStart atEnd) = some q' ∧
      (q' = q ∨ q' = .start ∧ q = .between) := by
  unfold repair
  split
  · obtain ⟨q', hq', hsame⟩ := scan_closed hr (scan_trimBlanks hfollowing)
    exact ⟨q', by rw [scan_append, hremoved]; exact hq', hsame⟩
  · next hbreak =>
      have hbreak : hasLineBreak following = true := by simpa using hbreak
      obtain ⟨-, hrest⟩ := scan_lineBreak hfollowing hbreak
      split
      · split
        · exact scan_closed hplace (scan_trimStart (hrest .between (.inr (.inl rfl))))
        · exact ⟨q, hrest place hplace.isOutside, .inl rfl⟩
      · next hremovedBreak =>
          have hremovedBreak : hasLineBreak removed = true := by simpa using hremovedBreak
          split
          · obtain ⟨⟨m, hm, houtside⟩, -⟩ := scan_lineBreak hremoved hremovedBreak
            exact ⟨q, by rw [scan_append, hm]; exact hrest m houtside, .inl rfl⟩
          · next before hbefore =>
              obtain ⟨m, hm, houtside⟩ := exists_scan_trimEnd hbefore hremoved
              refine ⟨q, ?_, .inl rfl⟩
              rw [List.append_assoc, scan_append, hm]
              exact scan_gap houtside hrest (Nat.le_max_left _ _)

/-! ### Scanned trivia is read as trivia

The lexer takes a piece at a time, the automaton a character. The step from one to the other is by
the length of the text that is left. -/

theorem afterBlockComment_skip {c : Char} (hc : c ≠ '*') (more : List Char) :
    Lexer.afterBlockComment (c :: more) = Lexer.afterBlockComment more := by
  rw [Lexer.afterBlockComment]
  exact fun _ hstar => absurd hstar hc

theorem afterBlockComment_star {c : Char} (hc : c ≠ '/') (more : List Char) :
    Lexer.afterBlockComment ('*' :: c :: more) = Lexer.afterBlockComment (c :: more) := by
  rw [Lexer.afterBlockComment]
  intro _ _ hcons
  exact hc (List.cons.inj hcons).1

/-- The text goes on behind what is `opened` of a block comment. The lexer reads the comment to its
end, and from there a scan comes to `q`. -/
def ClosesBlock (q : Place) (opened text : List Char) : Prop :=
  ∃ body tail, body ++ tail = text ∧ scan .between tail = some q ∧
    ∀ rest, Lexer.afterBlockComment (opened ++ (body ++ rest)) = some rest

theorem ClosesBlock.cons {q : Place} {opened opened' text : List Char} {c : Char}
    (h : ClosesBlock q opened' text)
    (hread : ∀ more, Lexer.afterBlockComment (opened ++ c :: more) =
      Lexer.afterBlockComment (opened' ++ more)) :
    ClosesBlock q opened (c :: text) := by
  obtain ⟨body, tail, htext, htail, hclose⟩ := h
  refine ⟨c :: body, tail, by rw [List.cons_append, htext], htail, fun rest => ?_⟩
  rw [List.cons_append, hread, hclose]

/-- A block comment that is scanned to its end, from its text and from behind a `*` in it. The two
are proved together, as the automaton goes back and forth between them. -/
theorem closesBlock {q : Place} (hq : q.IsOutside) : ∀ text : List Char,
    (scan .block text = some q → ClosesBlock q [] text) ∧
      (scan .star text = some q → ClosesBlock q ['*'] text)
  | [] => by
      -- The comment is not closed, so the scan does not end outside of it.
      constructor <;> intro h <;> cases h <;> exact absurd hq (by decide)
  | c :: text => by
      obtain ⟨ihblock, ihstar⟩ := closesBlock hq text
      constructor
      · intro h
        rw [scan_cons, Option.bind_eq_some_iff] at h
        obtain ⟨m, hm, h⟩ := h
        simp only [Place.next] at hm
        split at hm
        · cases hm
        · cases hm
          split at h
          · next hc =>
              obtain rfl := beq_iff_eq.1 hc
              exact (ihstar h).cons fun _ => rfl
          · next hc => exact (ihblock h).cons (afterBlockComment_skip (by simpa using hc))
      · intro h
        rw [scan_cons, Option.bind_eq_some_iff] at h
        obtain ⟨m, hm, h⟩ := h
        simp only [Place.next] at hm
        split at hm
        · cases hm
        · cases hm
          split at h
          · next hc =>
              obtain rfl := beq_iff_eq.1 hc
              exact ⟨['/'], text, rfl, h, fun _ => rfl⟩
          · next hslash =>
              have hbehind := afterBlockComment_star (c := c) (by simpa using hslash)
              split at h
              · next hc =>
                  obtain rfl := beq_iff_eq.1 hc
                  exact (ihstar h).cons hbehind
              · next hc =>
                  refine (ihblock h).cons fun more => (hbehind more).trans ?_
                  exact afterBlockComment_skip (by simpa using hc) more

/-- The rest of a line that is scanned in a comment, and what starts with the line break. -/
theorem scan_line {q : Place} {text : List Char} (h : scan .line text = some q) :
    (fromLineBreak text = [] → q = .line) ∧
      (fromLineBreak text ≠ [] → scan .between (fromLineBreak text) = some q) := by
  induction text with
  | nil =>
      cases h
      exact ⟨fun _ => rfl, fun hne => absurd rfl hne⟩
  | cons c text ih =>
      rw [scan_cons] at h
      by_cases hc : isLineBreak c = true
      · have hfrom : fromLineBreak (c :: text) = c :: text := by
          rw [fromLineBreak, List.dropWhile_cons_of_neg (by simp [hc])]
        rw [hfrom]
        refine ⟨fun hnil => (List.cons_ne_nil c text hnil).elim, fun _ => ?_⟩
        rw [next_lineBreak hc, if_pos (by decide)] at h
        exact scan_of_lineBreak hc (by decide) h
      · have hfrom : fromLineBreak (c :: text) = fromLineBreak text := by
          rw [fromLineBreak, List.dropWhile_cons_of_pos (by simp [hc]), fromLineBreak]
        simp only [Place.next, hc, Option.bind_some] at h
        rw [hfrom]
        exact ih h

/-- The text opens with nothing that would belong to a line break or a blank in front of it. -/
def IsSharp (text : List Char) : Prop :=
  ∀ c ∈ text.head?, isLineBreak c = false ∧ Lexer.isBlank c = false

theorem IsSharp.dropWhile_append {p : Char → Bool} {text rest : List Char} (hrest : IsSharp rest)
    (hp : ∀ c, p c = true → isLineBreak c = true ∨ Lexer.isBlank c = true) :
    (text ++ rest).dropWhile p = text.dropWhile p ++ rest := by
  induction text with
  | nil =>
      cases rest with
      | nil => rfl
      | cons c rest =>
          obtain ⟨hbreak, hblank⟩ := hrest c rfl
          refine List.dropWhile_cons_of_neg fun hc => ?_
          rcases hp c hc with h | h
          · exact absurd h (by simp [hbreak])
          · exact absurd h (by simp [hblank])
  | cons c text ih =>
      by_cases hc : p c = true
      · rw [List.cons_append, List.dropWhile_cons_of_pos hc, List.dropWhile_cons_of_pos hc, ih]
      · rw [List.cons_append, List.dropWhile_cons_of_neg hc, List.dropWhile_cons_of_neg hc,
          List.cons_append]

/-- A line that is scanned to its end ends where it does in front of other text. -/
theorem fromLineBreak_append {q : Place} {text rest : List Char} (h : scan .line text = some q)
    (hend : q = .line → rest = []) :
    Lexer.fromLineBreak (text ++ rest) = fromLineBreak text ++ rest := by
  cases hfrom : fromLineBreak text with
  | nil =>
      rw [hend ((scan_line h).1 hfrom), List.append_nil, List.append_nil]
      exact hfrom
  | cons c tail =>
      rw [Lexer.fromLineBreak, List.dropWhile_append, ← fromLineBreak.eq_1, hfrom]
      rfl

/-- A `//` comment is one piece of trivia. -/
theorem trivia?_line {q : Place} {text rest : List Char} (h : scan .line text = some q)
    (hend : q = .line → rest = []) :
    Lexer.trivia? ('/' :: '/' :: (text ++ rest)) = some (fromLineBreak text ++ rest) := by
  rw [Lexer.trivia?, fromLineBreak_append h hend]

theorem scan_dropBlank {q : Place} {text : List Char} (h : scan .between text = some q) :
    scan .between (text.dropWhile Lexer.isBlank) = some q := by
  induction text with
  | nil => exact h
  | cons c text ih =>
      by_cases hc : Lexer.isBlank c = true
      · have hslash : c ≠ '/' := by
          rintro rfl
          exact absurd hc (by decide)
        rw [scan_cons] at h
        simp only [Place.next, Place.fromBetween, beq_iff_eq, hslash, hc, Bool.or_true, if_true,
          if_false, Option.bind_some] at h
        rw [List.dropWhile_cons_of_pos hc]
        exact ih h
      · rw [List.dropWhile_cons_of_neg hc]
        exact h

theorem trivia?_lineBreak {c : Char} {text : List Char} (hc : isLineBreak c = true)
    (hpair : ∀ tail, c = '\r' → text ≠ '\n' :: tail) : Lexer.trivia? (c :: text) = some text := by
  have hslash : c ≠ '/' := by
    rintro rfl
    exact absurd hc (by decide)
  rw [Lexer.trivia?, if_pos hc]
  · exact fun tail hcr htail => hpair tail hcr htail
  · exact fun _ hc _ => hslash hc
  · exact fun _ hc _ => hslash hc

theorem trivia?_blank {c : Char} {text : List Char} (hc : Lexer.isBlank c = true) :
    Lexer.trivia? (c :: text) = some (text.dropWhile Lexer.isBlank) := by
  have hcases : c = ' ' ∨ c = '\t' ∨ c = '\x0c' ∨ c = '\uFEFF' := by
    simpa [Lexer.isBlank, or_assoc] using hc
  rcases hcases with rfl | rfl | rfl | rfl <;> rfl

/-- The text opens with a piece of trivia, behind which a scan goes on to `q` or there is nothing.
It is a piece in front of `rest` as well. -/
def OpensWithPiece (q : Place) (rest text : List Char) : Prop :=
  ∃ piece tail, piece ++ tail = text ∧
    Lexer.trivia? (piece ++ (tail ++ rest)) = some (tail ++ rest) ∧
    (tail = [] ∨ scan .between tail = some q)

/-- Behind a slash, a scan goes through a comment. -/
theorem opensWithPiece_comment {q : Place} (hq : q.IsOutside) {rest : List Char}
    (hend : q = .line → rest = []) {text : List Char} (h : scan .slash text = some q) :
    OpensWithPiece q rest ('/' :: text) := by
  cases text with
  | nil =>
      cases h
      exact absurd hq (by decide)
  | cons d text =>
      rw [scan_cons, Option.bind_eq_some_iff] at h
      obtain ⟨m, hm, h⟩ := h
      simp only [Place.next] at hm
      split at hm
      · next hd =>
          obtain rfl := beq_iff_eq.1 hd
          cases hm
          obtain ⟨front, hfront⟩ : fromLineBreak text <:+ text := List.dropWhile_suffix _
          refine ⟨'/' :: '/' :: front, fromLineBreak text, by simp [hfront], ?_, ?_⟩
          · have hread := trivia?_line h hend
            rw [← hfront, List.append_assoc, hfront] at hread
            exact hread
          · by_cases hfrom : fromLineBreak text = []
            · exact .inl hfrom
            · exact .inr ((scan_line h).2 hfrom)
      · split at hm
        · next hd =>
            obtain rfl := beq_iff_eq.1 hd
            cases hm
            obtain ⟨body, tail, htext, htail, hread⟩ := (closesBlock hq text).1 h
            exact ⟨'/' :: '*' :: body, tail, by simp [htext], hread (tail ++ rest), .inr htail⟩
        · cases hm

theorem opensWithPiece_lineBreak {q : Place} {rest : List Char} (hrest : IsSharp rest) {c : Char}
    {text : List Char} (hc : isLineBreak c = true) (h : scan .between text = some q) :
    OpensWithPiece q rest (c :: text) := by
  by_cases hpair : c = '\r' ∧ ∃ tail, text = '\n' :: tail
  · obtain ⟨rfl, tail, rfl⟩ := hpair
    exact ⟨['\r', '\n'], tail, rfl, rfl, .inr (isOutside_of_scan_lineBreak (by decide) h).2⟩
  · refine ⟨[c], text, rfl, ?_, .inr h⟩
    rw [List.singleton_append]
    refine trivia?_lineBreak hc fun tail hcr htext => ?_
    -- A line feed behind it would be of the text, or what follows is not sharp.
    cases text with
    | nil =>
        rw [List.nil_append] at htext
        have hsharp := hrest '\n' (by rw [htext]; rfl)
        exact absurd hsharp.1 (by decide)
    | cons d text =>
        rw [List.cons_append, List.cons.injEq] at htext
        exact hpair ⟨hcr, text, by rw [htext.1]⟩

theorem opensWithPiece_blank {q : Place} {rest : List Char} (hrest : IsSharp rest) {c : Char}
    {text : List Char} (hc : Lexer.isBlank c = true) (h : scan .between text = some q) :
    OpensWithPiece q rest (c :: text) := by
  refine ⟨c :: text.takeWhile Lexer.isBlank, text.dropWhile Lexer.isBlank, ?_, ?_, ?_⟩
  · rw [List.cons_append, List.takeWhile_append_dropWhile]
  · rw [List.cons_append, ← List.append_assoc, List.takeWhile_append_dropWhile,
      trivia?_blank hc, hrest.dropWhile_append fun _ hc => .inr hc]
  · exact .inr (scan_dropBlank h)

/-- Scanned trivia opens with a piece of trivia. Its first character says whether that is a comment,
a line break or blanks. -/
theorem opensWithPiece {q : Place} (hq : q.IsOutside) {rest : List Char} (hrest : IsSharp rest)
    (hend : q = .line → rest = []) {c : Char} {text : List Char}
    (h : scan .between (c :: text) = some q) : OpensWithPiece q rest (c :: text) := by
  rw [scan_cons, Option.bind_eq_some_iff] at h
  obtain ⟨m, hm, h⟩ := h
  simp only [Place.next, Place.fromBetween] at hm
  split at hm
  · next hslash =>
      obtain rfl := beq_iff_eq.1 hslash
      cases hm
      exact opensWithPiece_comment hq hend h
  · split at hm
    · next hspace =>
        cases hm
        rcases Bool.or_eq_true_iff.1 hspace with hbreak | hblank
        · exact opensWithPiece_lineBreak hrest hbreak h
        · exact opensWithPiece_blank hrest hblank h
    · cases hm

/-- Scanned trivia is read as trivia in front of a token and at the end of the text. A `//` comment
can be left open at the end only. -/
theorem skips_of_scan {q : Place} (hq : q.IsOutside) {rest : List Char} (hrest : IsSharp rest)
    (hend : q = .line → rest = []) (text : List Char) (h : scan .between text = some q) :
    Lexer.Skips text rest := by
  induction hn : text.length using Nat.strongRecOn generalizing text with
  | _ n ih =>
      cases text with
      | nil => exact .done
      | cons c text =>
          obtain ⟨piece, tail, htext, hread, hmore⟩ := opensWithPiece hq hrest hend h
          have hlt : (tail ++ rest).length < (piece ++ (tail ++ rest)).length :=
            Lexer.length_lt_of_trivia? hread
          have hlength : tail.length < n := by
            rw [← hn, ← htext]
            simp only [List.length_append] at hlt ⊢
            omega
          rw [← htext]
          refine .piece hread ?_
          rcases hmore with rfl | hmore
          · exact .done
          · exact ih tail.length hlength tail hmore rfl

/-- The `#!` line of a script ends with its line. -/
theorem shebang_line {q : Place} {text rest : List Char} (h : scan .line text = some q)
    (hend : q = .line → rest = []) :
    Lexer.shebang ('#' :: '!' :: (text ++ rest)) = '#' :: '!' :: beforeLineBreak text := by
  have hsplit : '#' :: '!' :: (text ++ rest) =
      ('#' :: '!' :: beforeLineBreak text) ++ (fromLineBreak text ++ rest) := by
    rw [List.cons_append, List.cons_append, ← List.append_assoc, beforeLineBreak, fromLineBreak,
      List.takeWhile_append_dropWhile]
  rw [Lexer.shebang, Lexer.shebang?, fromLineBreak_append h hend]
  show (Lexer.before ('#' :: '!' :: (text ++ rest)) _).toList = _
  rw [hsplit, Lexer.before_self_append, String.toList_ofList]

/-- At the start of a script trivia is read as such behind its `#!` line. -/
theorem skips_of_scan_start {q : Place} (hq : q.IsOutside) {rest : List Char} (hrest : IsSharp rest)
    (hend : q = .line → rest = []) (text : List Char) (h : scan .start text = some q)
    (hshebang : text = [] → Lexer.shebang rest = []) :
    ∃ trivia, text = Lexer.shebang (text ++ rest) ++ trivia ∧ Lexer.Skips trivia rest := by
  cases text with
  | nil => exact ⟨[], by simp [hshebang rfl], .done⟩
  | cons c text =>
      by_cases hhash : c = '#'
      · subst hhash
        cases text with
        | nil =>
            cases h
            exact absurd hq (by decide)
        | cons d text =>
            have hmark : d = '!' := by
              by_contra hne
              simp [Place.next, hne] at h
            subst hmark
            have hline : scan .line text = some q := h
            refine ⟨fromLineBreak text, ?_, ?_⟩
            · rw [List.cons_append, List.cons_append, shebang_line hline hend, List.cons_append,
                List.cons_append, beforeLineBreak, fromLineBreak, List.takeWhile_append_dropWhile]
            · by_cases hfrom : fromLineBreak text = []
              · rw [hfrom]
                exact .done
              · exact skips_of_scan hq hrest hend _ ((scan_line hline).2 hfrom)
      · have hnext : Place.next .start c = Place.next .between c := by
          simp [Place.next, hhash]
        have hnone : Lexer.shebang (c :: text ++ rest) = [] := by
          rw [Lexer.shebang, List.cons_append, Lexer.shebang?]
          exact fun _ htext => hhash (List.cons.inj htext).1
        refine ⟨c :: text, by rw [hnone, List.nil_append], skips_of_scan hq hrest hend _ ?_⟩
        rw [scan_cons, ← hnext, ← scan_cons]
        exact h

end BuildPrune.Trivia
