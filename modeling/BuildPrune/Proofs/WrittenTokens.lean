import BuildPrune.Proofs.Joints
import BuildPrune.Proofs.Relexing

/-!
# BuildPrune.Proofs.WrittenTokens

Texts that are written down token by token. The tokens of a text are the ones that it was written
from, up to their places in it, if each of them is read as what it is in front of what follows it
and the trivia between them is tidy (`lex_written`).

* `IsName`: a name that can stand in a script as it is. It ends in front of everything that does not
  carry it on (`Token.standsBefore_of_identifier`), and is neither an operator nor a keyword.
* `Token.word`, `Token.mark`: names and punctuation with the trivia in front of them.
-/

namespace BuildPrune

open Text

/-! ### Names

A name is what the lexer reads as one identifier and the grammar takes for no keyword. It needs to
be known of a name where it ends, and that it is none of the tokens that the grammar asks for. -/

/-- The text is read as one identifier. -/
def IsIdentifier (name : String) : Prop :=
  Lexer.token name.toList = (.ident, [])

/-- The text is an identifier that names something. -/
def IsName (name : String) : Prop :=
  IsIdentifier name ∧ name ∉ keywords

instance (name : String) : Decidable (IsIdentifier name) :=
  inferInstanceAs (Decidable (Lexer.token name.toList = (.ident, [])))

instance (name : String) : Decidable (IsName name) :=
  inferInstanceAs (Decidable (IsIdentifier name ∧ name ∉ keywords))

/-- No identifier is carried on by `rest`. -/
def EndsIdentifier (rest : List Char) : Prop :=
  ∀ c ∈ rest.head?, (isIdentifierContinue c || c == '$') = false

instance (rest : List Char) : Decidable (EndsIdentifier rest) :=
  decidable_of_iff (rest.head?.all fun c => !(isIdentifierContinue c || c == '$')) (by
    simp [EndsIdentifier, Option.all_eq_true])

theorem Lexer.identifier?_append {text rest : List Char} (h : identifier? text = some [])
    (hrest : EndsIdentifier rest) : identifier? (text ++ rest) = some rest := by
  cases text with
  | nil => simp [identifier?] at h
  | cons c text =>
      by_cases hbacktick : c = '\x60'
      · subst hbacktick
        rw [List.cons_append, identifier?]
        rw [identifier?, ← text.append_nil] at h
        exact afterBacktick_append h rest
      · rw [identifier?] at h
        · split at h
          · next hstart =>
              have hname := List.dropWhile_eq_nil_iff.1 (Option.some.inj h)
              rw [List.cons_append, identifier?]
              · rw [if_pos hstart, List.dropWhile_append_of_pos hname]
                cases rest with
                | nil => rfl
                | cons d rest =>
                    rw [List.dropWhile_cons_of_neg]
                    simp [hrest d rfl]
              · exact hbacktick
          · cases h
        · exact hbacktick

/-- What an identifier opens with opens neither trivia nor another kind of token. So the lexer comes
to try an identifier there. -/
theorem IsIdentifier.cases {name : String} (h : IsIdentifier name) :
    ∃ c text, name.toList = c :: text ∧ Lexer.number? (c :: text) = none ∧
      Lexer.identifier? (c :: text) = some [] ∧
        (c = '\x60' ∨ (isIdentifierStart c || c == '_' || c == '$') = true) := by
  rcases Lexer.token_cases h with ⟨hkind, -⟩ | ⟨-, ⟨hkind, -⟩ | ⟨hnumber, ⟨-, hread⟩ |
    ⟨-, ⟨hkind, -⟩ | ⟨hkind, -⟩⟩⟩⟩
  · cases hkind
  · cases hkind
  · cases hname : name.toList with
    | nil => simp [hname, Lexer.identifier?] at hread
    | cons c text =>
        rw [hname] at hnumber hread
        refine ⟨c, text, rfl, hnumber, hread, ?_⟩
        by_cases hbacktick : c = '\x60'
        · exact .inl hbacktick
        · rw [Lexer.identifier?] at hread
          · split at hread
            · next hstart => exact .inr hstart
            · cases hread
          · exact hbacktick
  · cases hkind
  · cases hkind

/-- An identifier ends in front of everything that does not carry it on. Between backticks it does
so in front of anything. -/
theorem Token.standsBefore_of_identifier {t : Token} {rest : List Char} (hkind : t.kind = .ident)
    (h : IsIdentifier t.text) (hrest : EndsIdentifier rest) : t.StandsBefore rest := by
  obtain ⟨c, text, htext, hnumber, hread, hstart⟩ := h.cases
  obtain ⟨htrivia, hquotes⟩ := Lexer.not_mem_of_startsName hstart
  have hread' := Lexer.identifier?_append hread hrest
  rw [Token.StandsBefore, htext, hkind]
  refine ⟨List.cons_ne_nil c text, Lexer.trivia?_of_not_mem htrivia _, ?_⟩
  rw [Lexer.token, hread', List.cons_append, Lexer.literal?_of_ne hquotes,
    Lexer.number?_eq_none hnumber]

/-- An identifier does not open a `#!` line. -/
theorem IsIdentifier.head_ne {name : String} (h : IsIdentifier name) :
    name.toList.head? ≠ some '#' := by
  obtain ⟨c, text, hname, -, -, hstart⟩ := h.cases
  rw [hname, List.head?_cons]
  rintro ⟨rfl⟩
  exact absurd hstart (by decide)

/-- The spellings of punctuation are no identifiers. -/
theorem not_isIdentifier_punctuation : ∀ text ∈ Lexer.punctuation, ¬IsIdentifier text :=
  forall_mem_of_all (by decide +kernel)

/-- A name is spelled like none of the tokens that the grammar asks for. So no production takes it
for an operator or a keyword. -/
theorem IsName.not_mem {name : String} (h : IsName name) {texts : List String}
    (htexts : ∀ text ∈ texts, text ∈ Lexer.punctuation ∨ text ∈ keywords) : name ∉ texts := by
  intro hmem
  rcases htexts name hmem with hpunctuation | hkeyword
  · exact not_isIdentifier_punctuation name hpunctuation h.1
  · exact h.2 hkeyword

/-! ### Tokens -/

namespace Token

/-- A name or a keyword with trivia in front. -/
def word (leading text : String) : Token :=
  ⟨leading, .ident, text, {}⟩

/-- A bracket, a separator or an operator with trivia in front. -/
def mark (leading text : String) : Token :=
  ⟨leading, .punct, text, {}⟩

end Token

namespace Token

variable {t : Token} {leading text : String}

theorem lexeme_eq_word : t.lexeme = (word leading text).lexeme ↔
    t.leading = leading ∧ t.kind = .ident ∧ t.text = text := by
  simp [lexeme, word]

theorem lexeme_eq_mark : t.lexeme = (mark leading text).lexeme ↔
    t.leading = leading ∧ t.kind = .punct ∧ t.text = text := by
  simp [lexeme, mark]

theorem isName_of_kind (h : t.kind = .ident) (htext : IsName t.text) : t.isName = true := by
  simp [isName, isKeyword, isIdent, h, htext.2]

theorem not_isName_of_keyword (h : t.kind = .ident) (htext : t.text ∈ keywords) :
    t.isName = false := by
  simp [isName, isKeyword, isIdent, h, htext]

theorem not_isName_of_kind (h : t.kind ≠ .ident) : t.isName = false := by
  simp [isName, isIdent, h]

theorem is_of_text (h : t.kind = .ident ∨ t.kind = .punct) (htext : t.text = text) :
    t.is text = true := by
  rcases h with h | h <;> simp [is, h, htext]

end Token

theorem stand_word {leading text : String} {tokens : List Token} {rest : List Char}
    (htext : IsIdentifier text) (hends : EndsIdentifier (spell tokens rest))
    (hmore : Stand tokens rest) : Stand (.word leading text :: tokens) rest :=
  ⟨Token.standsBefore_of_identifier rfl htext hends, hmore⟩

theorem stand_mark {leading text : String} {tokens : List Token} {rest : List Char}
    (htext : text ∈ solidTexts) (hmore : Stand tokens rest) :
    Stand (.mark leading text :: tokens) rest :=
  ⟨(Token.endsBefore_of_solid rfl htext _).stands, hmore⟩

/-! ### Texts -/

/-- Tokens that stand are read back if the trivia between and behind them is tidy and no `#!` line
opens their text. Their places in the text may be others than those they were made with. -/
theorem lex_written {tokens : List Token} {eof : String} (hstand : Stand tokens eof.toList)
    (htidy : TokensEdged (tidyEdge .between) (tidyEdge .between) tokens eof)
    (hopens : (spell tokens eof.toList).head? ≠ some '#') :
    (lex (printTokens tokens ++ eof)).tokens.map Token.lexeme = tokens.map Token.lexeme ∧
      (lex (printTokens tokens ++ eof)).eof = eof := by
  have hspelled : Spelled tokens eof := by
    have hshebang : Lexer.shebang (spell tokens eof.toList) = [] := by
      rw [Lexer.shebang]
      cases htext : spell tokens eof.toList with
      | nil => rfl
      | cons c text =>
          rw [htext] at hopens
          rw [Lexer.shebang?]
          intro rest hrest
          rw [List.cons.inj hrest |>.1] at hopens
          exact hopens rfl
    rw [Spelled, hshebang, spelledAfter_iff]
    exact ⟨skipped_of_stand htidy hstand, hstand⟩
  exact spelled_iff.1 hspelled

end BuildPrune
