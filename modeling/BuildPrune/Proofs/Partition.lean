import BuildPrune.Proofs.Relexing
import BuildPrune.Proofs.TriviaCuts

/-!
# BuildPrune.Proofs.Partition

**Lexing partitions the text.** Every character of a text belongs to one token or to the trivia in
front of one, or to the trivia behind the last (`partitions_lex`).

That nothing is lost is an equation of texts (`print_lex`). Where the pieces are is one of bytes:
the spans of the tokens count the bytes that were read (`Lexer.laid_readFrom`), so they tile the
bytes of the text (`tiles_of_laid`). What the pieces between them are is read off the steps of the
lexer: each step over trivia is one over white space or over one comment (`Lexer.trivia?_cases`),
and what stops the last of them, a token or the end of the text, continues no comment
(`Lexer.isTrivia_of_skips`).
-/

namespace BuildPrune

open Text

/-! ### Bytes

Positions are counted in bytes, as in the spans of tokens. Tiles are spans that follow each other
without a gap, so that what each of them covers can be cut out of the bytes of the text. -/

/-- From byte `start` on, `source` is the trivia in front of the first token, the text of that token
from where its span starts to where it stops, and so on to the trivia behind the last token. No span
is empty. -/
def Tiles (source : ByteArray) (start : Nat) : List Token → (eof : String) → Prop
  | [], eof => start ≤ source.size ∧ source.extract start source.size = eof.toByteArray
  | t :: tokens, eof =>
    (start ≤ t.span.start ∧ source.extract start t.span.start = t.leading.toByteArray) ∧
    (t.span.start < t.span.stop ∧
      source.extract t.span.start t.span.stop = t.text.toByteArray) ∧
    Tiles source t.span.stop tokens eof

section Tiles

variable {source : ByteArray} {start : Nat} {tokens : List Token} {eof : String}

/-- Behind a place the spans begin no earlier than there. -/
theorem Tiles.start_le (h : Tiles source start tokens eof) : ∀ t ∈ tokens, start ≤ t.span.start := by
  induction tokens generalizing start with
  | nil => simp
  | cons t tokens ih =>
      obtain ⟨⟨hle, -⟩, ⟨hlt, -⟩, hmore⟩ := h
      refine List.forall_mem_cons.2 ⟨hle, fun u hu => ?_⟩
      have hbehind := ih hmore u hu
      omega

/-- The spans are in the order of the tokens, and none begins inside another, since the trivia in
front of a token begins where the token before it stopped. -/
theorem Tiles.pairwise (h : Tiles source start tokens eof) :
    tokens.Pairwise fun t u => t.span.start < u.span.start ∧ t.span.stop ≤ u.span.start := by
  induction tokens generalizing start with
  | nil => exact .nil
  | cons t tokens ih =>
      obtain ⟨-, ⟨hlt, -⟩, hmore⟩ := h
      refine .cons (fun u hu => ?_) (ih hmore)
      have hbehind := hmore.start_le u hu
      omega

end Tiles

/-- The spans of the tokens count the bytes of the tokens and of their trivia, from `offset` on. -/
def Laid (offset : Nat) : List Token → Prop
  | [] => True
  | t :: tokens =>
    t.span = ⟨offset + t.leading.utf8ByteSize, offset + t.print.utf8ByteSize⟩ ∧
      Laid (offset + t.print.utf8ByteSize) tokens

/-- Reading counts the bytes that are read. The trivia that is pending was counted already, so the
offset is behind it. The induction follows the steps of the lexer. -/
theorem Lexer.laid_readFrom (n : Nat) (pending : String) (offset : Nat) (text : List Char)
    (start : Nat) (hstart : start + pending.utf8ByteSize = offset) :
    Laid start (readFrom n pending offset text).tokens := by
  fun_induction readFrom n pending offset text generalizing start with
  | case1 | case2 => trivial
  | case3 n pending offset c cs text rest hread piece ih =>
      refine ih start ?_
      rw [String.utf8ByteSize_append]
      omega
  | case4 n pending offset c cs text hread kind rest htoken piece stop more ih =>
      have hstop : start + (pending ++ piece).utf8ByteSize = stop := by
        rw [String.utf8ByteSize_append]
        omega
      refine ⟨?_, ?_⟩
      · rw [Token.print, hstop, hstart]
      · rw [Token.print, hstop]
        exact ih stop (Nat.add_zero stop)

/-- The bytes of a text that stand behind others. Slices are taken of bytes and texts are put
together of characters; this is where the two meet. -/
theorem extract_behind (front text rest : String) :
    (front ++ (text ++ rest)).toByteArray.extract front.utf8ByteSize
      (front.utf8ByteSize + text.utf8ByteSize) = text.toByteArray := by
  have hbehind := ByteArray.extract_append_size_add (a := front.toByteArray)
    (b := (text ++ rest).toByteArray) (i := 0) (j := text.utf8ByteSize)
  rw [String.size_toByteArray, Nat.add_zero] at hbehind
  rw [String.toByteArray_append, hbehind, String.toByteArray_append]
  exact ByteArray.extract_append_eq_left String.size_toByteArray.symm

/-- Tokens that stand, with spans that count their bytes, tile their text. That they stand is used
for one thing: a token that stands has a character, so no span is empty. -/
theorem tiles_of_laid {tokens : List Token} {eof : String} (hstand : Stand tokens eof.toList)
    (front : String) (h : Laid front.utf8ByteSize tokens) :
    Tiles (front ++ (printTokens tokens ++ eof)).toByteArray front.utf8ByteSize tokens eof := by
  -- The front of the text grows by one token at a time, and the spans count from its start.
  induction tokens generalizing front with
  | nil =>
      have hrest := extract_behind front eof ""
      rw [String.append_empty, ← String.utf8ByteSize_append, ← String.size_toByteArray] at hrest
      rw [printTokens_nil, String.empty_append]
      refine ⟨?_, hrest⟩
      rw [String.size_toByteArray, String.utf8ByteSize_append]
      exact Nat.le_add_right _ _
  | cons t tokens ih =>
      obtain ⟨hspan, hlaid⟩ := h
      obtain ⟨⟨htext, -⟩, hstand⟩ := hstand
      have hpositive : 0 < t.text.utf8ByteSize := Nat.pos_of_ne_zero fun hzero =>
        htext (String.toList_eq_nil_iff.2 (String.utf8ByteSize_eq_zero_iff.1 hzero))
      have hprint : t.print.utf8ByteSize = t.leading.utf8ByteSize + t.text.utf8ByteSize :=
        String.utf8ByteSize_append
      have hleading := extract_behind front t.leading (t.text ++ (printTokens tokens ++ eof))
      have hbytes := extract_behind (front ++ t.leading) t.text (printTokens tokens ++ eof)
      have hmore := ih hstand (front ++ t.print) (by rwa [String.utf8ByteSize_append])
      have hsource : front ++ (printTokens (t :: tokens) ++ eof) =
          front ++ (t.leading ++ (t.text ++ (printTokens tokens ++ eof))) := by
        rw [printTokens_cons, Token.print, String.append_assoc, String.append_assoc]
      rw [String.append_assoc, String.utf8ByteSize_append, Nat.add_assoc, ← hprint] at hbytes
      rw [Token.print, String.append_assoc, String.append_assoc, ← Token.print,
        String.utf8ByteSize_append] at hmore
      have hlt : front.utf8ByteSize + t.leading.utf8ByteSize <
          front.utf8ByteSize + t.print.utf8ByteSize := by omega
      rw [hsource, Tiles, hspan]
      exact ⟨⟨Nat.le_add_right _ _, hleading⟩, ⟨hlt, hbytes⟩, hmore⟩

/-! ### Trivia

What is trivia is said here without the lexer: white space and comments in a row, where a line
comment ends with its line and a block comment with the first `*/`. A `#!` line may be in front if
it opens the text. -/

/-- The line ends in front of the text: a line break comes next, or nothing does and that is `atEnd`
of the whole text. -/
def endsLine (atEnd : Bool) : List Char → Bool
  | [] => atEnd
  | c :: _ => isLineBreak c

/-- Text that is nothing but white space, line breaks and comments, each of them complete: a `//`
comment goes to the end of its line, and a block comment to the first `*/` in it. -/
inductive IsTrivia (atEnd : Bool) : List Char → Prop
  | nil : IsTrivia atEnd []
  | space {c : Char} {text : List Char} (hc : isLineBreak c = true ∨ Lexer.isBlank c = true)
      (hmore : IsTrivia atEnd text) : IsTrivia atEnd (c :: text)
  | lineComment {comment text : List Char} (hline : Trivia.hasLineBreak comment = false)
      (hends : endsLine atEnd text = true) (hmore : IsTrivia atEnd text) :
      IsTrivia atEnd ('/' :: '/' :: (comment ++ text))
  | blockComment {comment text : List Char} (hcomment : ¬ ['*', '/'] <:+: comment)
      (hmore : IsTrivia atEnd text) :
      IsTrivia atEnd ('/' :: '*' :: (comment ++ '*' :: '/' :: text))

/-- Trivia that may open with a `#!` line. -/
inductive OpensText (atEnd : Bool) : List Char → Prop
  | trivia {text : List Char} (htext : IsTrivia atEnd text) : OpensText atEnd text
  | shebang {line text : List Char} (hline : Trivia.hasLineBreak line = false)
      (hends : endsLine atEnd text = true) (htext : IsTrivia atEnd text) :
      OpensText atEnd ('#' :: '!' :: (line ++ text))

/-- White space in front of trivia makes trivia. -/
theorem IsTrivia.spaces {atEnd : Bool} {space text : List Char}
    (hspace : ∀ c ∈ space, isLineBreak c = true ∨ Lexer.isBlank c = true)
    (h : IsTrivia atEnd text) : IsTrivia atEnd (space ++ text) := by
  induction space with
  | nil => exact h
  | cons c space ih =>
      obtain ⟨hc, hspace⟩ := List.forall_mem_cons.1 hspace
      exact .space hc (ih hspace)

/-- Where the line ends in front of trivia and what stops it, it ends in front of the trivia: what
stops trivia is no line break. -/
theorem endsLine_of_head {trivia rest : List Char} (hrest : Trivia.IsSharp rest)
    (hhead : ∀ c ∈ (trivia ++ rest).head?, isLineBreak c = true) :
    endsLine rest.isEmpty trivia = true := by
  cases trivia with
  | cons c trivia => exact hhead c rfl
  | nil =>
      cases rest with
      | nil => rfl
      | cons c rest => exact absurd ((hhead c rfl).symm.trans (hrest c rfl).1) (by decide)

namespace Lexer

/-- The first `*/` of a text closes a comment. What is passed on the way holds none. -/
theorem afterBlockComment_some {text rest : List Char} (h : afterBlockComment text = some rest) :
    ∃ comment, comment ++ '*' :: '/' :: rest = text ∧ ¬ ['*', '/'] <:+: comment := by
  fun_induction afterBlockComment text with
  | case1 text =>
      cases h
      exact ⟨[], rfl, by simp⟩
  | case2 c text hopen ih =>
      obtain ⟨comment, rfl, hcomment⟩ := ih h
      refine ⟨c :: comment, rfl, fun hinfix => ?_⟩
      rcases List.infix_cons_iff.1 hinfix with ⟨more, hprefix⟩ | hinfix
      · rw [List.cons_append, List.cons_append, List.nil_append, List.cons.injEq] at hprefix
        obtain ⟨rfl, rfl⟩ := hprefix
        exact hopen _ rfl rfl
      · exact hcomment hinfix
  | case3 => cases h

/-- A line is what is in front of its line break, or of the end of the text. -/
theorem exists_line (text : List Char) :
    ∃ line, line ++ fromLineBreak text = text ∧ Trivia.hasLineBreak line = false ∧
      ∀ c ∈ (fromLineBreak text).head?, isLineBreak c = true := by
  refine ⟨_, Trivia.beforeLineBreak_append_fromLineBreak text,
    Trivia.hasLineBreak_beforeLineBreak text, fun c hc => ?_⟩
  have hhead := List.head?_dropWhile_not (!isLineBreak ·) text
  rw [← fromLineBreak, Option.mem_def.1 hc] at hhead
  simpa using hhead

/-- One step over trivia is one over white space, over a comment to the end of its line, or over a
closed comment. -/
theorem trivia?_cases {piece tail : List Char} (h : trivia? (piece ++ tail) = some tail) :
    (∀ c ∈ piece, isLineBreak c = true ∨ isBlank c = true) ∨
      (∃ comment, piece = '/' :: '/' :: comment ∧ Trivia.hasLineBreak comment = false ∧
        ∀ c ∈ tail.head?, isLineBreak c = true) ∨
      ∃ comment, piece = '/' :: '*' :: (comment ++ ['*', '/']) ∧ ¬ ['*', '/'] <:+: comment := by
  generalize htext : piece ++ tail = text at h
  unfold trivia? at h
  split at h
  · cases h
    obtain rfl : piece = ['\r', '\n'] := List.append_cancel_right htext
    exact .inl (by simp [isLineBreak])
  · next text =>
      obtain ⟨comment, hcomment, hline, hhead⟩ := exists_line text
      cases h
      have hpiece := htext.trans (congrArg ('/' :: '/' :: ·) hcomment.symm)
      exact .inr (.inl ⟨comment, List.append_cancel_right hpiece, hline, hhead⟩)
  · next text =>
      obtain ⟨comment, hcomment, hclosed⟩ := afterBlockComment_some h
      refine .inr (.inr ⟨comment, List.append_cancel_right (htext.trans ?_), hclosed⟩)
      simp [← hcomment]
  · next c text _ _ _ =>
      split at h
      · next hc =>
          cases h
          obtain rfl : piece = [c] := List.append_cancel_right htext
          exact .inl (by simp [hc])
      · split at h
        · next hc =>
            cases h
            have hpiece := htext.trans
              (congrArg (c :: ·) (List.takeWhile_append_dropWhile (p := isBlank)).symm)
            obtain rfl : piece = c :: text.takeWhile isBlank := List.append_cancel_right hpiece
            refine .inl (List.forall_mem_cons.2 ⟨.inr hc, fun d hd => .inr ?_⟩)
            exact List.mem_takeWhile_imp hd
        · cases h
  · cases h

/-- What is skipped in front of a token, or at the end of the text, is trivia. The induction is on
the steps; the last one is stopped by something that continues no comment. -/
theorem isTrivia_of_skips {trivia rest : List Char} (h : Skips trivia rest)
    (hrest : Trivia.IsSharp rest) : IsTrivia rest.isEmpty trivia := by
  induction h with
  | done => exact .nil
  | @piece piece trivia rest hpiece _ ih =>
      have hmore := ih hrest
      obtain hspace | ⟨comment, rfl, hline, hhead⟩ | ⟨comment, rfl, hclosed⟩ := trivia?_cases hpiece
      · exact .spaces hspace hmore
      · exact .lineComment hline (endsLine_of_head hrest hhead) hmore
      · have hall := IsTrivia.blockComment hclosed hmore
        simpa using hall

/-- The `#!` line of a text goes to the end of its line, and there is one at the start of the text
at most. -/
theorem shebang_cases (text : List Char) :
    shebang text = [] ∨ ∃ line rest, shebang text = '#' :: '!' :: line ∧
      Trivia.hasLineBreak line = false ∧ shebang text ++ rest = text ∧
      ∀ c ∈ rest.head?, isLineBreak c = true := by
  cases hread : shebang? text with
  | none => exact .inl (by rw [shebang, hread])
  | some rest =>
      have hsplit : shebang text ++ rest = text := by
        rw [shebang, hread]
        exact before_append (shebang?_suffix hread)
      unfold shebang? at hread
      split at hread
      · next text =>
          obtain ⟨line, htext, hline, hhead⟩ := exists_line text
          cases hread
          have hshebang := hsplit.trans (congrArg ('#' :: '!' :: ·) htext.symm)
          exact .inr ⟨line, _, List.append_cancel_right hshebang, hline, hsplit, hhead⟩
      · cases hread

/-- What a text opens with in front of its first token, or at its end, is trivia that may open with
a `#!` line. -/
theorem opensText_of_skips {trivia rest : List Char} (h : Skips trivia rest)
    (hrest : Trivia.IsSharp rest) {text : List Char}
    (htext : text = shebang text ++ (trivia ++ rest)) :
    OpensText rest.isEmpty (shebang text ++ trivia) := by
  have htrivia := isTrivia_of_skips h hrest
  obtain hnone | ⟨line, rest', hsome, hline, hsplit, hhead⟩ := shebang_cases text
  · rw [hnone]
    exact .trivia htrivia
  · obtain rfl : rest' = trivia ++ rest := List.append_cancel_left (hsplit.trans htext)
    rw [hsome]
    exact .shebang hline (endsLine_of_head hrest hhead) htrivia

end Lexer

/-! ### The whole text -/

/-- Trivia in front of a token, where no comment may run into the token, and at the end of the text,
where a comment may end with the text. -/
def triviaEdge : Edge where
  lead text := IsTrivia false text.toList
  trail text := IsTrivia true text.toList

/-- As `triviaEdge`, at the start of the text. -/
def openingEdge : Edge where
  lead text := OpensText false text.toList
  trail text := OpensText true text.toList

theorem Token.StandsBefore.isEmpty_append {t : Token} {rest : List Char} (h : t.StandsBefore rest) :
    (t.text.toList ++ rest).isEmpty = false :=
  List.isEmpty_eq_false_iff.2 (List.append_ne_nil_of_left_ne_nil h.1 rest)

/-- Behind the first token, all that is between tokens is trivia. In front of a token no comment may
run into it, which the token itself excludes by standing there. -/
theorem tokensEdged_of_skipped : ∀ {tokens : List Token} {eof : String},
    Skipped [] tokens eof → Stand tokens eof.toList → TokensEdged triviaEdge triviaEdge tokens eof
  | [], eof, ⟨trivia, heof, hskips⟩, _ => by
      show IsTrivia true eof.toList
      rw [heof]
      exact Lexer.isTrivia_of_skips hskips (by simp [Trivia.IsSharp])
  | t :: tokens, eof, ⟨⟨trivia, hleading, hskips⟩, hmore⟩, ⟨hstands, hstand⟩ => by
      refine ⟨?_, tokensEdged_of_skipped hmore hstand⟩
      show IsTrivia false t.leading.toList
      have htrivia := Lexer.isTrivia_of_skips hskips hstands.isSharp
      rw [hstands.isEmpty_append] at htrivia
      rw [hleading]
      exact htrivia

/-- All that is between the tokens of a text is trivia. -/
theorem tokensEdged_lex (source : String) :
    TokensEdged openingEdge triviaEdge (lex source).tokens (lex source).eof := by
  obtain ⟨hskipped, hstand⟩ := spelledAfter_iff.1 (spelled_lex source)
  generalize (lex source).tokens = tokens at hskipped hstand
  generalize (lex source).eof = eof at hskipped hstand
  cases tokens with
  | nil =>
      obtain ⟨trivia, heof, hskips⟩ := hskipped
      rw [spell_nil] at heof
      show OpensText true eof.toList
      have hopens := Lexer.opensText_of_skips hskips (by simp [Trivia.IsSharp])
        (by rw [List.append_nil, ← heof])
      rwa [← heof] at hopens
  | cons t tokens =>
      obtain ⟨⟨trivia, hleading, hskips⟩, hmore⟩ := hskipped
      obtain ⟨hstands, hstand⟩ := hstand
      refine ⟨?_, tokensEdged_of_skipped hmore hstand⟩
      show OpensText false t.leading.toList
      have hopens := Lexer.opensText_of_skips hskips hstands.isSharp
        (by rw [← List.append_assoc, ← hleading, ← spell_cons])
      rw [hstands.isEmpty_append] at hopens
      rw [hleading]
      exact hopens

/-- The tokens and the trivia of a lexed text partition it: nothing of the text is left out, nothing
is counted twice, and each piece is what it is named for. -/
structure Partitions (source : String) (lexed : Lexed) : Prop where
  /-- The tokens, each behind its trivia, and the trivia behind the last are the text. -/
  whole : printTokens lexed.tokens ++ lexed.eof = source
  /-- The bytes at a span are the token, and those from one span to the next are the trivia in front
  of the next token. -/
  tiles : Tiles source.toByteArray 0 lexed.tokens lexed.eof
  /-- The spans ascend and have no byte in common. -/
  ascend : lexed.tokens.Pairwise fun t u =>
    t.span.start < u.span.start ∧ t.span.stop ≤ u.span.start
  /-- Each token is read as what it is in front of what follows it, and opens no trivia there. -/
  stand : Stand lexed.tokens lexed.eof.toList
  /-- What is between the tokens is trivia, opened by a `#!` line only at the start of the text. -/
  trivia : TokensEdged openingEdge triviaEdge lexed.tokens lexed.eof

/-- The spans of the tokens of a text count its bytes from the start. -/
theorem laid_lex (source : String) : Laid 0 (lex source).tokens := by
  obtain ⟨n, rest, -, -, hlex⟩ := Lexer.lex_eq_readFrom source
  rw [hlex]
  exact Lexer.laid_readFrom n _ _ rest 0 (Nat.zero_add _)

/-- Lexing partitions the text. Reading a text always comes to an end, at the end of the text: what
is left behind the last token is trivia, like what is in front of each token.

The pieces print as the text, the spans tile its bytes in order, every token stands, and what is
between tokens is white space and complete comments. -/
theorem partitions_lex (source : String) : Partitions source (lex source) := by
  have htiles := tiles_of_laid (stand_lex source) "" (laid_lex source)
  rw [print_lex, String.empty_append] at htiles
  exact ⟨print_lex source, htiles, htiles.pairwise, stand_lex source, tokensEdged_lex source⟩

/-- Spans count bytes: `é` has two. -/
example : (lex "#!g\n/* é */a // c\n").tokens.map Token.span = [⟨12, 13⟩] := by
  decide +kernel

end BuildPrune
