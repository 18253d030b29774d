import BuildPrune.Proofs.BlankLines
import BuildPrune.Proofs.Thinning
import BuildPrune.Proofs.TokenTails

/-!
# BuildPrune.Proofs.LineEndings

**Lines end as they did.** A script whose lines all end in a carriage return with a line feed keeps
such lines, and a script without carriage returns or without line feeds gets none
(`Pruner.lineEndings_visitScript`).

A visit writes nothing but texts of the script, braces, and what `repair` makes of trivia. So it
preserves a property of texts that can be told from the texts of tokens and of the trivia between
them, that braces have and that `repair` preserves (`Persists`, `Persists.visitScript`).

That line breaks are pairs is such a property, as no text of a script starts or ends inside a line
break: no token does (`Token.StandsBefore.last_ne`), and `repair` cuts trivia where no line feed
comes next or no carriage return was last (`Trivia.endsInPairs_repair`).
-/

namespace BuildPrune

/-! ### Pairs

Where a text is cut between the two characters of a line break, the pieces do not end in pairs
although the whole does. So the cuts of `repair` are looked at one by one: at each of them no line
feed comes next, or no carriage return was last. -/

namespace Text

/-- Every line break of the text is a carriage return with a line feed. A single one of the two,
wherever it stands, is not allowed. -/
def endsInPairs : List Char → Bool
  | '\r' :: '\n' :: text => endsInPairs text
  | c :: text => !isLineBreak c && endsInPairs text
  | [] => true

variable {text more : List Char}

/-- A character that does not open a pair of its own must be no line break. -/
theorem endsInPairs_cons {c : Char} (h : c = '\r' → ∀ rest, text ≠ '\n' :: rest) :
    endsInPairs (c :: text) = (!isLineBreak c && endsInPairs text) := by
  rw [endsInPairs]
  rintro rest rfl rfl
  exact h rfl rest rfl

/-- Between two texts, no line break is cut if the first does not end in a carriage return or the
second does not open with a line feed. Then both have their line breaks to themselves. -/
theorem endsInPairs_append
    (h : (∀ c ∈ text.getLast?, c ≠ '\r') ∨ (∀ c ∈ more.head?, c ≠ '\n')) :
    endsInPairs (text ++ more) = (endsInPairs text && endsInPairs more) := by
  fun_induction endsInPairs text with
  | case1 text ih =>
      have hmore := h.imp_left fun hlast c hc =>
        hlast c (List.mem_getLast?_cons (List.mem_getLast?_cons hc))
      rw [List.cons_append, List.cons_append, endsInPairs, ih hmore]
  | case2 c text hpair ih =>
      have hmore := h.imp_left fun hlast c hc => hlast c (List.mem_getLast?_cons hc)
      rw [List.cons_append, endsInPairs_cons, ih hmore, Bool.and_assoc]
      -- The two texts make no line break with their ends.
      rintro rfl rest heq
      cases text with
      | nil =>
          rw [List.nil_append] at heq
          rcases h with hlast | hhead
          · exact hlast '\r' rfl rfl
          · exact hhead '\n' (by rw [heq]; rfl) rfl
      | cons d text =>
          obtain rfl := (List.cons.inj heq).1
          exact hpair text rfl rfl
  | case3 => rfl

/-- The last character of such a text is no carriage return, because a line feed follows each. -/
theorem last_of_endsInPairs (h : endsInPairs text = true) : ∀ c ∈ text.getLast?, c ≠ '\r' := by
  cases text using List.reverseRecOn with
  | nil => simp
  | append_singleton front d =>
      rintro c hc rfl
      obtain rfl : d = '\r' := by simpa using hc
      rw [endsInPairs_append (.inr (by simp))] at h
      exact absurd (Bool.and_eq_true_iff.1 h).2 (by decide)

theorem endsInPairs_both (htext : endsInPairs text = true) (hmore : endsInPairs more = true) :
    endsInPairs (text ++ more) = true := by
  rw [endsInPairs_append (.inl (last_of_endsInPairs htext)), htext, hmore]
  rfl

end Text

namespace Trivia

open Text

variable {text more : List Char}

theorem endsInPairs_of_noBreak (h : hasLineBreak text = false) : endsInPairs text = true := by
  induction text with
  | nil => rfl
  | cons c text ih =>
      rw [hasLineBreak, List.any_cons, Bool.or_eq_false_iff] at h
      rw [endsInPairs_cons, h.1, ih h.2]
      · rfl
      · rintro rfl
        exact absurd h.1 (by decide)

theorem last_of_noBreak (h : hasLineBreak text = false) : ∀ c ∈ text.getLast?, c ≠ '\r' :=
  last_of_endsInPairs (endsInPairs_of_noBreak h)

/-- A text without line feeds in front does not open in the middle of a line break. -/
theorem head_of_lineFeeds (h : lineFeeds text = 0) : ∀ c ∈ text.head?, c ≠ '\n' := by
  rintro c hc rfl
  obtain ⟨rest, rfl⟩ : ∃ rest, text = '\n' :: rest := by
    cases text with
    | nil => simp at hc
    | cons d rest =>
        obtain rfl : d = '\n' := by simpa using hc
        exact ⟨rest, rfl⟩
  rw [lineFeeds, openingSpace, List.takeWhile_cons_of_pos (by decide)] at h
  simp at h

/-- What is left of a text from a place on where no line feed comes first. The place is then not
inside a line break. -/
theorem endsInPairs_of_suffix (h : endsInPairs text = true) (hsuffix : more <:+ text)
    (hfeeds : lineFeeds more = 0) : endsInPairs more = true := by
  obtain ⟨front, rfl⟩ := hsuffix
  rw [endsInPairs_append (.inr (head_of_lineFeeds hfeeds))] at h
  exact (Bool.and_eq_true_iff.1 h).2

theorem endsInPairs_fromLineBreak (h : endsInPairs text = true) :
    endsInPairs (fromLineBreak text) = true := by
  rw [← beforeLineBreak_append_fromLineBreak text,
    endsInPairs_append (.inl (last_of_noBreak (hasLineBreak_beforeLineBreak text)))] at h
  exact (Bool.and_eq_true_iff.1 h).2

/-- What is kept of trivia ends with no white space, so with no part of a line break. -/
theorem Cut.endsInPairs_head {head space tail : List Char} (hcut : Cut text head space tail)
    (h : endsInPairs text = true) : endsInPairs head = true := by
  have hlast : ∀ c ∈ head.getLast?, c ≠ '\r' := by
    rintro c hc rfl
    exact absurd (last_of_closed hcut.closed '\r' hc) (by decide)
  rw [← hcut.split, endsInPairs_append (.inl hlast)] at h
  exact (Bool.and_eq_true_iff.1 h).1

/-- The line ending that a text uses is that of its lines, and `repair` writes this one into the
gap. -/
theorem lineEnding_of_endsInPairs (h : endsInPairs text = true)
    (hbreak : hasLineBreak text = true) : lineEnding text = ['\r', '\n'] := by
  fun_induction endsInPairs text with
  | case1 => rw [lineEnding]
  | case2 c text hpair ih =>
      obtain ⟨hc, htext⟩ := Bool.and_eq_true_iff.1 h
      rw [Bool.not_eq_true'] at hc
      rw [hasLineBreak, List.any_cons, hc, Bool.false_or] at hbreak
      rw [lineEnding_cons, ih htext hbreak]
      rintro rfl
      exact absurd hc (by decide)
  | case3 => cases hbreak

theorem endsInPairs_behindCut (feeds : Nat) {following : List Char}
    (h : endsInPairs following = true) (hbreak : hasLineBreak following = true) :
    endsInPairs (behindCut feeds following) = true := by
  induction feeds with
  | zero =>
      exact endsInPairs_of_suffix (endsInPairs_fromLineBreak h) (dropBlankLines_suffix _)
        (lineFeeds_dropBlankLines _)
  | succ feeds ih =>
      rw [behindCut_succ, lineEnding_of_endsInPairs h hbreak]
      exact ih

/-- `repair` cuts no line break, and the lines it ends are ended like those of the trivia. One case
for each way in which it joins the two. -/
theorem endsInPairs_repair {removed following : List Char} (atStart atEnd : Bool)
    (hremoved : endsInPairs removed = true) (hfollowing : endsInPairs following = true) :
    endsInPairs (repair removed following atStart atEnd) = true := by
  have hrest := endsInPairs_fromLineBreak hfollowing
  refine repair_cases (motive := fun text => endsInPairs text = true) atStart atEnd removed
    following ?noBreak ?onLine ?noBlank ?cut
  case noBreak =>
    intro hbehind
    exact endsInPairs_both hremoved (endsInPairs_of_noBreak (hasLineBreak_trimBlanks hbehind))
  case onLine =>
    intro _ _
    split
    · exact endsInPairs_of_suffix hrest (List.dropWhile_suffix _)
        (lineFeeds_of_sharp (trimStart_trimStart _))
    · exact hrest
  case noBlank =>
    intro _ _
    exact endsInPairs_both (endsInPairs_of_noBreak (hasLineBreak_beforeLineBreak _)) hrest
  case cut =>
    intro head space tail hbehind hcut
    exact endsInPairs_both (hcut.endsInPairs_head hremoved)
      (endsInPairs_behindCut _ hfollowing hbehind)

/-! ### Characters -/

theorem mem_behindCut {c : Char} {feeds : Nat} {following : List Char}
    (h : c ∈ behindCut feeds following) : c ∈ lineEnding following ∨ c ∈ following := by
  induction feeds with
  | zero => exact .inr (((dropBlankLines_suffix _).trans (List.dropWhile_suffix _)).subset h)
  | succ feeds ih =>
      rw [behindCut_succ, List.mem_append] at h
      exact h.elim .inl ih

/-- `repair` writes no characters but those of the trivia and, in the place of line feeds, line
endings like the ones behind the statement. So a character that neither has can only come from a
line ending. -/
theorem mem_repair {c : Char} {removed following : List Char} {atStart atEnd : Bool}
    (h : c ∈ repair removed following atStart atEnd) :
    c ∈ removed ∨ c ∈ following ∨ '\n' ∈ removed ∧ c ∈ lineEnding following := by
  have hrest : fromLineBreak following <:+ following := List.dropWhile_suffix _
  revert h
  refine repair_cases (motive := fun text => c ∈ text → _) atStart atEnd removed following
    ?noBreak ?onLine ?noBlank ?cut
  case noBreak =>
    intro _ h
    exact (List.mem_append.1 h).imp_right fun hmem => .inl ((List.dropWhile_suffix _).subset hmem)
  case onLine =>
    intro _ _ h
    refine .inr (.inl (hrest.subset ?_))
    split at h
    · exact (List.dropWhile_suffix _).subset h
    · exact h
  case noBlank =>
    intro _ _ h
    exact (List.mem_append.1 h).imp (fun hmem => (List.takeWhile_prefix _).subset hmem)
      fun hmem => .inl (hrest.subset hmem)
  case cut =>
    intro head space tail _ hcut h
    rcases List.mem_append.1 h with hhead | hmem
    · exact .inl (hcut.split ▸ List.mem_append_left _ hhead)
    · exact .inr ((mem_behindCut hmem).elim (fun hending => .inr ⟨hcut.feed_mem, hending⟩) .inl)

end Trivia

/-- Tokens stand between line breaks, never inside one. So the property of a text is the property of
its pieces. -/
theorem Token.StandsBefore.endsInPairs_split {t : Token} {rest : List Char}
    (hstands : t.StandsBefore rest)
    (h : Text.endsInPairs (t.leading.toList ++ (t.text.toList ++ rest)) = true) :
    Text.endsInPairs t.leading.toList = true ∧ Text.endsInPairs t.text.toList = true ∧
      Text.endsInPairs rest = true := by
  have hhead : ∀ c ∈ (t.text.toList ++ rest).head?, c ≠ '\n' := by
    rintro c hc rfl
    exact absurd (hstands.isSharp _ hc).1 (by decide)
  have hlast : ∀ c ∈ t.text.toList.getLast?, c ≠ '\r' := by
    rintro c hc rfl
    exact absurd (hstands.last_ne _ hc) (by decide)
  rw [Text.endsInPairs_append (.inr hhead), Text.endsInPairs_append (.inl hlast),
    Bool.and_eq_true, Bool.and_eq_true] at h
  exact h

/-! ### Properties of all that is written

A property persists if texts can be put together and parted at their tokens without losing it, if
braces have it, and if `repair` keeps it. What is said about line endings are cases of one
theorem. -/

/-- A property of texts that a visit preserves: what is written has it if what is read has it. -/
structure Persists (property : List Char → Prop) : Prop where
  nil : property []
  append {text more : List Char} (htext : property text) (hmore : property more) :
    property (text ++ more)
  /-- A text is parted at its tokens. -/
  split {t : Token} {rest : List Char} (hstands : t.StandsBefore rest)
    (h : property (t.leading.toList ++ (t.text.toList ++ rest))) :
    property t.leading.toList ∧ property t.text.toList ∧ property rest
  braces : property openBrace.toList ∧ property closeBrace.toList
  repair {removed following : List Char} (atStart atEnd : Bool) (hremoved : property removed)
    (hfollowing : property following) : property (Trivia.repair removed following atStart atEnd)

/-- That all line breaks are pairs persists. -/
theorem persists_endsInPairs : Persists fun text => Text.endsInPairs text = true where
  nil := rfl
  append := Text.endsInPairs_both
  split := Token.StandsBefore.endsInPairs_split
  braces := by decide
  repair := Trivia.endsInPairs_repair

/-- Line breaks of a kind that a script does not have are not written. -/
theorem persists_not_mem {c : Char} (hc : Text.isLineBreak c = true) :
    Persists fun text => c ∉ text := by
  have hcases : c = '\n' ∨ c = '\r' := by simpa [Text.isLineBreak] using hc
  refine ⟨List.not_mem_nil, ?_, ?_, ?_, ?_⟩
  · intro text more htext hmore hmem
    exact (List.mem_append.1 hmem).elim htext hmore
  · intro t rest _ h
    simpa [not_or] using h
  · rcases hcases with rfl | rfl <;> decide
  · intro removed following atStart atEnd hremoved hfollowing hmem
    rcases Trivia.mem_repair hmem with hmem | hmem | ⟨hfeed, hending⟩
    · exact hremoved hmem
    · exact hfollowing hmem
    · rcases hcases with rfl | rfl
      · exact hremoved hfeed
      · rw [Trivia.lineEnding_of_noReturn hfollowing] at hending
        exact absurd hending (by decide)

/-- Every text of the script has the property: that of each token, the trivia in front of it, and
the trivia behind the tokens. -/
def Script.Throughout (property : List Char → Prop) (script : Script) : Prop :=
  (∀ t ∈ script.tokens, property t.leading.toList ∧ property t.text.toList) ∧
    property script.eof.toList

theorem Script.print_eq_spell (script : Script) :
    script.print.toList = spell script.tokens script.eof.toList := by
  rw [Script.print, String.toList_append, spell]

namespace Persists

variable {property : List Char → Prop}

/-- The texts of tokens that stand have the property if all of them, put together, have it. -/
theorem of_spell (hproperty : Persists property) : ∀ {tokens : List Token} {rest : List Char},
    Stand tokens rest → property (spell tokens rest) →
      (∀ t ∈ tokens, property t.leading.toList ∧ property t.text.toList) ∧ property rest
  | [], rest, _, h => by
      rw [spell_nil] at h
      exact ⟨by simp, h⟩
  | t :: tokens, rest, ⟨hstands, hstand⟩, h => by
      rw [spell_cons] at h
      obtain ⟨hleading, htext, hmore⟩ := hproperty.split hstands h
      obtain ⟨htokens, hrest⟩ := hproperty.of_spell hstand hmore
      exact ⟨List.forall_mem_cons.2 ⟨⟨hleading, htext⟩, htokens⟩, hrest⟩

/-- So what a text is, its script is throughout. -/
theorem throughout_of_parse (hproperty : Persists property) {source : String} {dialect : Dialect}
    {script : Script} (h : parse source dialect = .ok script) (hsource : property source.toList) :
    script.Throughout property := by
  obtain ⟨htokens, heof⟩ := tokens_of_parse h
  have hstand : Stand script.tokens script.eof.toList := by
    rw [htokens, heof]
    exact stand_lex source
  refine hproperty.of_spell hstand ?_
  rw [← Script.print_eq_spell, print_of_parse h]
  exact hsource

/-- What the texts of a script are, those of the visited script are. The trivia is followed by
`edged_visitScript`, and the texts of tokens by `forall_text_visitScript`. -/
theorem throughout_visitScript (hproperty : Persists property) (p : Pruner) {script : Script}
    (h : script.Throughout property) : (p.visitScript script).1.Throughout property := by
  obtain ⟨htokens, heof⟩ := h
  have hclosed := RepairClosed.of_repair property hproperty.repair
  have hvisited := p.tokensEdged_visitScript hclosed hclosed hclosed hproperty.nil
    (tokensEdged_iff.2 ⟨fun t ht => (htokens t ht).1, heof⟩)
  have htexts := p.forall_text_visitScript (property ·.toList) hproperty.braces fun t ht =>
    (htokens t ht).2
  obtain ⟨hleadings, heof'⟩ := tokensEdged_iff.1 hvisited
  exact ⟨fun t ht => ⟨hleadings t ht, htexts t ht⟩, heof'⟩

theorem print (hproperty : Persists property) {script : Script} (h : script.Throughout property) :
    property script.print.toList := by
  obtain ⟨htokens, heof⟩ := h
  rw [Script.print_eq_spell]
  generalize script.tokens = tokens at htokens
  induction tokens with
  | nil => rwa [spell_nil]
  | cons t tokens ih =>
      obtain ⟨⟨hleading, htext⟩, hrest⟩ := List.forall_mem_cons.1 htokens
      rw [spell_cons]
      exact hproperty.append hleading (hproperty.append htext (ih hrest))

/-- What a text is, the printed script is that a visit leaves of it: it is taken apart into texts,
visited, and put together again. -/
theorem visitScript (hproperty : Persists property) {source : String} {dialect : Dialect}
    {script : Script} (h : parse source dialect = .ok script) (p : Pruner)
    (hsource : property source.toList) : property (p.visitScript script).1.print.toList :=
  hproperty.print (hproperty.throughout_visitScript p (hproperty.throughout_of_parse h hsource))

end Persists

/-! ### Line endings -/

/-- Lines end as they did. If every line break of a text is a carriage return with a line feed, so
is every one of the script that a visit leaves of it. If the text has no carriage return, or no line
feed, there is none in what is left. -/
theorem Pruner.lineEndings_visitScript {source : String} {dialect : Dialect} {script : Script}
    (h : parse source dialect = .ok script) (p : Pruner) :
    (Text.endsInPairs source.toList = true →
        Text.endsInPairs (p.visitScript script).1.print.toList = true) ∧
      ('\r' ∉ source.toList → '\r' ∉ (p.visitScript script).1.print.toList) ∧
      ('\n' ∉ source.toList → '\n' ∉ (p.visitScript script).1.print.toList) := by
  have habsent {c : Char} (hc : Text.isLineBreak c = true) (hsource : c ∉ source.toList) :
      c ∉ (p.visitScript script).1.print.toList :=
    (persists_not_mem hc).visitScript h p hsource
  refine ⟨fun hpairs => ?_, habsent rfl, habsent rfl⟩
  exact persists_endsInPairs.visitScript h p hpairs

/-- One script with lines that end each way, and the gap above a removed call in each. -/
theorem Pruner.lineEndings_visitScript_gap :
    (∃ script, parse "a()\r\n\r\n// c\r\nrm()\r\nb()\r\n" .groovy = .ok script ∧
      (visitScript { rules := { methods := ["rm"] } } script).1.print = "a()\r\n\r\nb()\r\n" ∧
      Text.endsInPairs
        (visitScript { rules := { methods := ["rm"] } } script).1.print.toList = true) ∧
    (∃ script, parse "a()\n\n// c\nrm()\nb()\n" .groovy = .ok script ∧
      (visitScript { rules := { methods := ["rm"] } } script).1.print = "a()\n\nb()\n" ∧
      '\r' ∉ (visitScript { rules := { methods := ["rm"] } } script).1.print.toList) ∧
    ∃ script, parse "a()\r\r// c\rrm()\rb()\r" .groovy = .ok script ∧
      (visitScript { rules := { methods := ["rm"] } } script).1.print = "a()\rb()\r" ∧
      '\n' ∉ (visitScript { rules := { methods := ["rm"] } } script).1.print.toList := by
  have hpairs : (parse "a()\r\n\r\n// c\r\nrm()\r\nb()\r\n" .groovy).toOption.any (fun script =>
      (visitScript { rules := { methods := ["rm"] } } script).1.print ==
        "a()\r\n\r\nb()\r\n") = true := by
    decide +kernel
  have hfeeds : (parse "a()\n\n// c\nrm()\nb()\n" .groovy).toOption.any (fun script =>
      (visitScript { rules := { methods := ["rm"] } } script).1.print == "a()\n\nb()\n") = true := by
    decide +kernel
  have hreturns : (parse "a()\r\r// c\rrm()\rb()\r" .groovy).toOption.any (fun script =>
      (visitScript { rules := { methods := ["rm"] } } script).1.print == "a()\rb()\r") = true := by
    decide +kernel
  obtain ⟨pairs, hpairs, hprint⟩ := ok_of_any hpairs
  obtain ⟨feeds, hfeeds, hprint'⟩ := ok_of_any hfeeds
  obtain ⟨returns, hreturns, hprint''⟩ := ok_of_any hreturns
  exact ⟨⟨pairs, hpairs, beq_iff_eq.1 hprint,
      (lineEndings_visitScript hpairs _).1 (by decide)⟩,
    ⟨feeds, hfeeds, beq_iff_eq.1 hprint', (lineEndings_visitScript hfeeds _).2.1 (by decide)⟩,
    returns, hreturns, beq_iff_eq.1 hprint'', (lineEndings_visitScript hreturns _).2.2 (by decide)⟩

end BuildPrune
