import BuildPrune.Proofs.NodeTokens
import BuildPrune.Proofs.TokenEnds

/-!
# BuildPrune.Proofs.Joints

Lists of tokens that end where they should. `Joined tokens rest` says that each of the tokens ends
in front of what follows it, up to the text `rest`. Whether it does depends on how `rest` looks and
not on more (`Joined.of_resembles`), so tokens can be put in the place of others if they are joined
and look alike from in front (`Mimics`), piece by piece (`Mimics.append`).

Brackets, separators and arrows end in front of everything (`Token.EndsBefore.of_solid`): behind
them any text can be changed.
-/

namespace BuildPrune

/-! ### Tokens that end in front of everything

Most punctuation could be the start of something longer, as `-` is of `->`. Brackets, separators
and arrows cannot, and so they are read as they are whatever comes next. -/

/-- The spellings that no text behind them can be read into: brackets, separators and the arrow. -/
def solidTexts : List String :=
  ["(", ")", "[", "]", openBrace, closeBrace, ",", ";", "->"]

/-- Those of them that no token in front can be read into. -/
def softTexts : List String :=
  [")", "]", openBrace, closeBrace, ",", ";"]

namespace Lexer

/-- None of the solid texts opens like a trivia, a literal, a number or a name. So the lexer comes
to its marks in front of each of them. -/
theorem solid_starts : ∀ text ∈ solidTexts, ∀ c ∈ text.toList.head?,
    c ∉ triviaStarts ∧ (c ≠ '"' ∧ c ≠ '\'') ∧ c.isDigit = false ∧ c ≠ '\x60' ∧
      (Text.isIdentifierStart c || c == '_' || c == '$') = false := by
  have hall : solidTexts.all (fun text => text.toList.head?.toList.all fun c =>
      decide (c ∉ triviaStarts ∧ (c ≠ '"' ∧ c ≠ '\'') ∧ c.isDigit = false ∧ c ≠ '\x60' ∧
        (Text.isIdentifierStart c || c == '_' || c == '$') = false)) = true := by
    decide
  intro text htext c hc
  exact forall_mem_of_all (List.all_eq_true.1 hall text htext) c (Option.mem_toList.2 hc)

/-- No mark goes on from a solid text. This is why the longest mark that fits is the solid text
itself, whatever follows. -/
theorem eq_of_solid_isPrefix : ∀ text ∈ solidTexts, ∀ p ∈ punctuation,
    text.toList <+: p.toList → p = text := by
  have hall : solidTexts.all (fun text => punctuation.all fun p =>
      decide (text.toList <+: p.toList → p = text)) = true := by
    decide
  intro text htext
  exact forall_mem_of_all (List.all_eq_true.1 hall text htext)

/-- The solid texts are marks of the lexer. -/
theorem solid_punctuation : ∀ text ∈ solidTexts, text ∈ punctuation ∧ text.toList ≠ [] :=
  forall_mem_of_all (by decide)

/-- Punctuation that no spelling carries on is read on its own. The lexer tries the longer marks
first, and none of these fits. -/
theorem punctuation?_of_solid {text : String} (hsolid : text ∈ solidTexts) (rest : List Char) :
    punctuation? (text.toList ++ rest) = some rest := by
  refine punctuation?_of_longest ?_ fun hrest n hlt _ hmem => ?_
  · rw [String.ofList_toList]
    exact (solid_punctuation text hsolid).1
  · have hfront : text.toList <+: (text.toList ++ rest).take n :=
      List.prefix_take_iff.2 ⟨List.prefix_append _ _, Nat.le_of_lt hlt⟩
    have hsame := eq_of_solid_isPrefix text hsolid _ hmem (by rwa [String.toList_ofList])
    have hlength := congrArg (fun s => s.toList.length) hsame
    have hpositive := List.length_pos_iff.2 hrest
    simp only [String.toList_ofList, List.length_take, List.length_append] at hlength
    omega

/-- In front of a solid text the lexer skips nothing and reads the text as a mark, in front of
everything. -/
theorem token_of_solid {text : String} (hsolid : text ∈ solidTexts) (rest : List Char) :
    trivia? (text.toList ++ rest) = none ∧ token (text.toList ++ rest) = (.punct, rest) := by
  have hread := punctuation?_of_solid hsolid rest
  obtain ⟨c, tail, htext⟩ := List.exists_cons_of_ne_nil (solid_punctuation text hsolid).2
  obtain ⟨htrivia, hquotes, hdigit, hbacktick, hname⟩ :=
    solid_starts text hsolid c (by rw [htext]; rfl)
  rw [htext, List.cons_append] at hread ⊢
  refine ⟨trivia?_of_not_mem htrivia _, ?_⟩
  have hnumber : number? (c :: (tail ++ rest)) = none := by simp [number?, hdigit]
  have hidentifier : identifier? (c :: (tail ++ rest)) = none := by
    rw [identifier?, if_neg (by simp [hname])]
    exact hbacktick
  rw [token, literal?_of_ne hquotes, hnumber, hidentifier, hread]

end Lexer

/-- A mark with a solid text ends in front of everything. -/
theorem Token.endsBefore_of_solid {t : Token} (hkind : t.kind = .punct)
    (hsolid : t.text ∈ solidTexts) (rest : List Char) : t.EndsBefore rest := by
  obtain ⟨htrivia, htoken⟩ := Lexer.token_of_solid hsolid rest
  refine ⟨⟨(Lexer.solid_punctuation _ hsolid).2, htrivia, by rw [htoken, hkind]⟩, ?_⟩
  refine ⟨by simp [hkind], by simp [hkind], fun htext => ?_, fun htext => ?_⟩
  · rw [htext] at hsolid
    exact absurd hsolid (by decide)
  · rw [htext] at hsolid
    exact absurd hsolid (by decide)

/-- A bracket, a separator or an arrow that ends somewhere ends in front of everything. That it is
punctuation follows from where it ended before. -/
theorem Token.EndsBefore.of_solid {t : Token} {rest : List Char} (h : t.EndsBefore rest)
    (hsolid : t.text ∈ solidTexts) (rest' : List Char) : t.EndsBefore rest' := by
  have hkind : t.kind = .punct := by
    have hread := h.stands.2.2
    rw [(Lexer.token_of_solid hsolid rest).2] at hread
    exact (Prod.mk.inj hread).1.symm
  exact Token.endsBefore_of_solid hkind hsolid rest'

/-- The trivia in front of a token does not matter for where it ends. -/
theorem Token.EndsBefore.withLeading {t : Token} {rest : List Char} (h : t.EndsBefore rest)
    (leading : String) : (t.withLeading leading).EndsBefore rest :=
  ⟨h.stands, h.clear.known, h.clear.literal, h.clear.comment, h.clear.shebang⟩

/-! ### Texts that open softly -/

@[simp] theorem isSoft_nil : IsSoft [] := by
  simp [IsSoft]

/-- Whether a text is soft is told by its first character. -/
theorem isSoft_append {text rest : List Char} (h : text ≠ []) :
    IsSoft (text ++ rest) ↔ IsSoft text := by
  cases text with
  | nil => contradiction
  | cons c text => simp [IsSoft]

/-- Soft trivia in front of a closing bracket or a separator, or none: either way the spelling opens
softly. -/
theorem isSoft_spell {t : Token} (htext : t.text ∈ softTexts) (hleading : IsSoft t.leading.toList)
    (tokens : List Token) (rest : List Char) : IsSoft (spell (t :: tokens) rest) := by
  have hstarts : ∀ text ∈ softTexts, text.toList ≠ [] ∧ IsSoft text.toList :=
    forall_mem_of_all (by decide)
  obtain ⟨hne, hsoft⟩ := hstarts t.text htext
  rw [spell_cons]
  by_cases hempty : t.leading.toList = []
  · rw [hempty, List.nil_append, isSoft_append hne]
    exact hsoft
  · rw [isSoft_append hempty]
    exact hleading

/-! ### Tokens that are joined

Each token ends in front of the text of those behind it. A list is joined if its parts are, each
in front of the text of the next one. -/

/-- Each token ends in front of what follows it. -/
def Joined : List Token → (rest : List Char) → Prop
  | [], _ => True
  | t :: tokens, rest => t.EndsBefore (spell tokens rest) ∧ Joined tokens rest

@[simp] theorem joined_nil (rest : List Char) : Joined [] rest := trivial

@[simp] theorem joined_cons {t : Token} {tokens : List Token} {rest : List Char} :
    Joined (t :: tokens) rest ↔ t.EndsBefore (spell tokens rest) ∧ Joined tokens rest := Iff.rfl

/-- Two lists of tokens are joined one after the other if the first is in front of the spelling of
the second. -/
@[simp] theorem joined_append {tokens more : List Token} {rest : List Char} :
    Joined (tokens ++ more) rest ↔ Joined tokens (spell more rest) ∧ Joined more rest := by
  induction tokens with
  | nil => simp
  | cons t tokens ih => simp [ih, and_assoc]

/-- Behind the same tokens, texts that look alike still do: if there is a token, both spellings open
with it. -/
theorem Resembles.spell {before after : List Char} (h : Resembles before after)
    (tokens : List Token) : Resembles (spell tokens before) (BuildPrune.spell tokens after) :=
  h.append _

/-- Tokens stay joined in front of a text that looks alike. The induction passes the resemblance on
to the spelling behind each token. -/
theorem Joined.of_resembles {before after : List Char} (hlike : Resembles before after) :
    ∀ {tokens : List Token}, Joined tokens before → Joined tokens after
  | [], _ => trivial
  | _ :: tokens, ⟨hends, hmore⟩ =>
      ⟨hends.of_resembles (hlike.spell tokens), hmore.of_resembles hlike⟩

/-- Tokens that are joined in front of some text are joined in front of every soft text, since a
soft text ends what any other text ends. -/
theorem Joined.of_isSoft {tokens : List Token} {before after : List Char}
    (h : Joined tokens before) (hafter : IsSoft after) : Joined tokens after :=
  h.of_resembles (.inl hafter)

/-- Trivia in front of an expression is in front of its first token, and the others keep what
follows them. -/
theorem Expr.joined_withLeading {e : Expr} {rest : List Char} (h : Joined e.tokens rest)
    (leading : String) : Joined (e.withLeading leading).tokens rest := by
  obtain ⟨tokens, htokens, hwith⟩ := e.exists_tokens
  rw [htokens] at h
  rw [hwith]
  exact ⟨h.1.withLeading leading, h.2⟩

/-- The same for statements. -/
theorem Statement.joined_withLeading {s : Statement} {rest : List Char} (h : Joined s.tokens rest)
    (leading : String) : Joined (s.withLeading leading).tokens rest := by
  obtain ⟨tokens, htokens, hwith⟩ := s.exists_tokens
  rw [htokens] at h
  rw [hwith]
  exact ⟨h.1.withLeading leading, h.2⟩

/-! ### Tokens in the place of others

Tokens mimic others if they are joined wherever those are, and from in front look like them. So in
a list any part can be exchanged for one that mimics it, without a look at the rest of the list.
-/

/-- The tokens `new` in front of `after` are joined and look like the tokens `old` in front of
`before`. -/
structure Mimics (old new : List Token) (before after : List Char) : Prop where
  joined : Joined new after
  like : Resembles (spell old before) (spell new after)

/-- No tokens mimic none, in front of texts that look alike. -/
theorem Mimics.nil {before after : List Char} (hlike : Resembles before after) :
    Mimics [] [] before after :=
  ⟨trivial, hlike⟩

/-- Tokens mimic themselves. What stays in a tree need not be looked into. -/
theorem Mimics.same {tokens : List Token} {before after : List Char} (h : Joined tokens before)
    (hlike : Resembles before after) : Mimics tokens tokens before after :=
  ⟨h.of_resembles hlike, hlike.spell tokens⟩

/-- Piece by piece: the first pieces are compared in front of the spellings of the second. -/
theorem Mimics.append {old new old' new' : List Token} {before after : List Char}
    (h : Mimics old new (spell old' before) (spell new' after))
    (h' : Mimics old' new' before after) : Mimics (old ++ old') (new ++ new') before after := by
  refine ⟨joined_append.2 ⟨h.joined, h'.joined⟩, ?_⟩
  rw [spell_append, spell_append]
  exact h.like

/-- Tokens in front stay. They were joined in front of the old tokens, which the new ones look
like. -/
theorem Mimics.prepend {tokens old new : List Token} {before after : List Char}
    (h : Joined tokens (spell old before)) (h' : Mimics old new before after) :
    Mimics (tokens ++ old) (tokens ++ new) before after :=
  (Mimics.same h h'.like).append h'

/-- Tokens behind stay, if what follows these looks alike. -/
theorem Mimics.extend {old new tokens : List Token} {before after : List Char}
    (h : Joined tokens before) (hlike : Resembles before after)
    (h' : Mimics old new (spell tokens before) (spell tokens after)) :
    Mimics (old ++ tokens) (new ++ tokens) before after :=
  h'.append (.same h hlike)

/-- A single token in front stays. -/
theorem Mimics.cons {t : Token} {old new : List Token} {before after : List Char}
    (h : t.EndsBefore (spell old before)) (h' : Mimics old new before after) :
    Mimics (t :: old) (t :: new) before after :=
  Mimics.prepend (show Joined [t] (spell old before) from ⟨h, trivial⟩) h'

/-- Behind a bracket, a separator or an arrow anything can change. This is where lists and blocks
lose their entries: between the opening mark and the closing one. -/
theorem Mimics.of_solid {t : Token} {old new : List Token} {before after : List Char}
    (hsolid : t.text ∈ solidTexts) (h : t.EndsBefore (spell old before)) (hnew : Joined new after) :
    Mimics (t :: old) (t :: new) before after := by
  refine ⟨⟨h.of_solid hsolid _, hnew⟩, ?_⟩
  have hstarts : ∀ text ∈ solidTexts, text.toList.head? ≠ some '.' :=
    forall_mem_of_all (by decide)
  rw [spell_cons, spell_cons, ← List.append_assoc, ← List.append_assoc]
  cases htext : t.leading.toList ++ t.text.toList with
  | nil => exact absurd (List.append_eq_nil_iff.1 htext).2 h.stands.1
  | cons c tail =>
      cases tail with
      | nil =>
          -- A single character is the token itself, and no such token is a point.
          have hlength := congrArg List.length htext
          have hpositive := List.length_pos_iff.2 h.stands.1
          rw [List.length_append, List.length_singleton] at hlength
          have hempty : t.leading.toList = [] := List.eq_nil_of_length_eq_zero (by omega)
          rw [hempty, List.nil_append] at htext
          refine .inr ⟨rfl, fun hpoint => absurd hpoint ?_⟩
          have hhead := hstarts t.text hsolid
          rw [htext] at hhead
          exact hhead
      | cons d tail => exact .inr ⟨rfl, fun _ => .inr rfl⟩

end BuildPrune
