import BuildPrune.Proofs.TokenEnds
import BuildPrune.Script.Calls

/-!
# BuildPrune.Proofs.QuotedLiterals

Literals that hold plain text. Between the quotes of a literal, a text in which no character has a
meaning of its own (`Literal.IsPlain`) is read up to the closing quotes and no further, in each of
the four forms (`Literal.isClosed_around`), and the quotes are what `Literal.content?` takes off
(`Literal.content?_around`). So the literal is named by what is between its quotes and by how it is
written (`Expr.any_argumentKeys_literal`).
-/

namespace BuildPrune

/-! ### Plain text

No character of plain text ends a literal, opens a template or takes the meaning from the next
one. Which characters these are depends on the quotes. -/

namespace Literal

/-- The quotes of a literal. -/
inductive Quotes
  | single
  | double
  | tripleSingle
  | tripleDouble
  deriving DecidableEq

/-- How the quotes are written. -/
def Quotes.text : Quotes → String
  | single => "'"
  | double => "\""
  | tripleSingle => "'''"
  | tripleDouble => "\"\"\""

/-- The literal of a text. -/
def Quotes.around (quotes : Quotes) (content : String) : String :=
  quotes.text ++ content ++ quotes.text

/-- The characters that have a meaning between quotes. -/
def specialCharacters : List Char :=
  ['\'', '"', '\\', '$', '\n', '\r']

/-- The characters that have a meaning between single quotes. -/
def singleCharacters : List Char :=
  ['\'', '\\', '\n', '\r']

/-- The characters that have a meaning between double quotes. -/
def doubleCharacters : List Char :=
  ['"', '\\', '$', '\n', '\r']

/-- Every character of the text stands for itself between quotes. -/
def IsPlain (content : List Char) : Prop :=
  ∀ c ∈ content, c ∉ specialCharacters

instance (content : List Char) : Decidable (IsPlain content) :=
  List.decidableBAll (· ∉ specialCharacters) content

theorem IsPlain.not_mem {content : List Char} (h : IsPlain content) {c : Char}
    (hc : c ∈ specialCharacters) : c ∉ content :=
  fun hmem => h c hmem hc

theorem IsPlain.head?_ne {content : List Char} (h : IsPlain content) {c : Char}
    (hc : c ∈ specialCharacters) : content.head? ≠ some c :=
  fun heq => h.not_mem hc (List.mem_of_mem_head? heq)

/-- Plain text has none of the characters at which a scan between single quotes stops. -/
theorem IsPlain.single {content : List Char} (h : IsPlain content) :
    ∀ c ∈ content, c ∉ singleCharacters := by
  have hspecial : ∀ c ∈ singleCharacters, c ∈ specialCharacters := forall_mem_of_all (by decide)
  exact fun c hc hsingle => h c hc (hspecial c hsingle)

/-- Plain text has none of the characters at which a scan between double quotes stops, the `$` of a
template among them. -/
theorem IsPlain.double {content : List Char} (h : IsPlain content) :
    ∀ c ∈ content, c ∉ doubleCharacters := by
  have hspecial : ∀ c ∈ doubleCharacters, c ∈ specialCharacters := forall_mem_of_all (by decide)
  exact fun c hc hdouble => h c hc (hspecial c hdouble)

/-! ### Scanning plain text

A scanner goes over plain text character by character. Of three quotes it must be seen that none
of the shorter sequences in the text is the closing one, which is why plain text has no quotes at
all. -/

section Scan

variable {content : List Char} (rest : List Char)

/-- Between single quotes, the scan reads plain text up to the closing quote. The induction is on
the text, since each character takes one step. -/
theorem afterSingle_plain (h : ∀ c ∈ content, c ∉ singleCharacters) :
    afterSingle (content ++ '\'' :: rest) = some rest := by
  induction content with
  | nil => rw [List.nil_append, afterSingle]
  | cons c content ih =>
      obtain ⟨hc, hcontent⟩ := List.forall_mem_cons.1 h
      simp only [singleCharacters, List.mem_cons, List.not_mem_nil, or_false, not_or] at hc
      rw [List.cons_append, afterSingle]
      · simp [hc, ih hcontent]
      · exact fun _ _ heq => absurd heq hc.2.1
      · exact hc.1

/-- Between triple single quotes a quote could stand alone, but plain text has none, so the first
three in a row are the closing ones. -/
theorem afterTripleSingle_plain (h : IsPlain content) :
    afterTripleSingle (content ++ '\'' :: '\'' :: '\'' :: rest) = some rest := by
  induction content with
  | nil => rw [List.nil_append, afterTripleSingle]
  | cons c content ih =>
      obtain ⟨hc, hcontent⟩ := List.forall_mem_cons.1 h
      simp only [specialCharacters, List.mem_cons, List.not_mem_nil, or_false, not_or] at hc
      rw [List.cons_append, afterTripleSingle]
      · exact ih hcontent
      · exact fun _ _ heq => absurd heq hc.2.2.1
      · exact fun _ heq => absurd heq hc.1

/-- A character that means nothing between double quotes takes one step of the scan. -/
theorem afterDouble_plain_cons {n : Nat} {c : Char} (hc : c ∉ doubleCharacters) :
    afterDouble (n + 1) (c :: rest) = afterDouble n rest := by
  simp only [doubleCharacters, List.mem_cons, List.not_mem_nil, or_false, not_or] at hc
  rw [afterDouble]
  · simp [hc]
  · exact fun _ _ heq => absurd heq hc.2.1
  · exact hc.1
  · exact fun _ heq => absurd heq hc.2.2.1

/-- Between double quotes, the scan reads plain text up to the closing quote, if it has a step for
each character and one for the quote. -/
theorem afterDouble_plain (h : ∀ c ∈ content, c ∉ doubleCharacters) :
    ∀ {n : Nat}, content.length < n → afterDouble n (content ++ '"' :: rest) = some rest := by
  induction content with
  | nil =>
      intro n hn
      obtain ⟨n, rfl⟩ := Nat.exists_eq_add_one.2 hn
      rw [List.nil_append, afterDouble]
  | cons c content ih =>
      intro n hn
      obtain ⟨n, rfl⟩ := Nat.exists_eq_add_one.2 (Nat.zero_lt_of_lt hn)
      obtain ⟨hc, hcontent⟩ := List.forall_mem_cons.1 h
      rw [List.cons_append, afterDouble_plain_cons _ hc]
      exact ih hcontent (Nat.lt_of_succ_lt_succ hn)

/-- Behind triple double quotes the scan takes more quotes, if there are any: of a run of quotes the
last three close the literal. -/
theorem afterTripleDouble_plain (h : IsPlain content) : ∀ {n : Nat}, content.length < n →
    afterTripleDouble n (content ++ '"' :: '"' :: '"' :: rest) =
      some (rest.dropWhile (· == '"')) := by
  induction content with
  | nil =>
      intro n hn
      obtain ⟨n, rfl⟩ : ∃ m, n = m + 1 := ⟨n - 1, by simp at hn; omega⟩
      rw [List.nil_append, afterTripleDouble]
  | cons c content ih =>
      intro n hn
      obtain ⟨n, rfl⟩ : ∃ m, n = m + 1 := ⟨n - 1, by simp at hn; omega⟩
      obtain ⟨hc, hcontent⟩ := List.forall_mem_cons.1 h
      simp only [specialCharacters, List.mem_cons, List.not_mem_nil, or_false, not_or] at hc
      rw [List.cons_append, afterTripleDouble]
      · exact ih hcontent (by simpa using hn)
      · exact fun _ heq => absurd heq hc.2.1
      · exact fun _ heq => absurd heq hc.2.2.2.1

end Scan

/-! ### The forms of literals -/

/-- One quote, a text that does not open with it and a quote are not three quotes in front of a text
that does not open with it either. So the lexer does not take `''` in front of something else for
the start of a triple literal. -/
theorem not_triple {quote : Char} {content rest : List Char} (hcontent : content.head? ≠ some quote)
    (hrest : rest.head? ≠ some quote) (tail : List Char) :
    content ++ quote :: rest ≠ quote :: quote :: tail := by
  intro heq
  cases content with
  | nil =>
      rw [List.nil_append] at heq
      rw [(List.cons.inj heq).2] at hrest
      exact hrest rfl
  | cons c content => exact hcontent (by rw [(List.cons.inj heq).1, List.head?_cons])

section Forms

variable (double tripleDouble : List Char → Option (List Char)) {content rest : List Char}

/-- A double quote opens a literal in double quotes, unless it is the first of three. -/
theorem literalBy_double (hcontent : content.head? ≠ some '"') (hrest : rest.head? ≠ some '"') :
    literalBy double tripleDouble ('"' :: (content ++ '"' :: rest)) =
      double (content ++ '"' :: rest) := by
  rw [literalBy]
  exact fun tail heq => not_triple hcontent hrest tail heq

/-- A single quote opens a literal in single quotes, unless it is the first of three. -/
theorem literalBy_single (hcontent : content.head? ≠ some '\'') (hrest : rest.head? ≠ some '\'') :
    literalBy double tripleDouble ('\'' :: (content ++ '\'' :: rest)) =
      afterSingle (content ++ '\'' :: rest) := by
  rw [literalBy]
  exact fun tail heq => not_triple hcontent hrest tail heq

end Forms

/-- A literal of plain text is read to its end in front of anything but a quote. For the triple
forms, a quote behind the literal would be taken for one of its own. -/
theorem isClosed_around (quotes : Quotes) {content : String} (h : IsPlain content.toList) :
    IsClosed (quotes.around content).toList := by
  intro rest hrest
  have hsingle : rest.head? ≠ some '\'' := fun heq => (hrest _ heq).2 rfl
  have hdouble : rest.head? ≠ some '"' := fun heq => (hrest _ heq).1 rfl
  have htext : (quotes.around content).toList ++ rest =
      quotes.text.toList ++ (content.toList ++ (quotes.text.toList ++ rest)) := by
    simp [Quotes.around]
  rw [literal?, htext]
  -- Whether one quote or three open the literal is seen from the text behind the first.
  cases quotes with
  | single =>
      show literalBy _ _ ('\'' :: (content.toList ++ '\'' :: rest)) = some rest
      rw [literalBy_single _ _ (h.head?_ne (by decide)) hsingle, afterSingle_plain rest h.single]
  | double =>
      show literalBy (afterDouble _) _ ('"' :: (content.toList ++ '"' :: rest)) = some rest
      rw [literalBy_double _ _ (h.head?_ne (by decide)) hdouble, afterDouble_plain rest h.double]
      have hquote : 0 < Quotes.double.text.toList.length := by decide
      simp only [List.length_append]
      omega
  | tripleSingle =>
      show literalBy _ _
        ('\'' :: '\'' :: '\'' :: (content.toList ++ '\'' :: '\'' :: '\'' :: rest)) = some rest
      rw [literalBy, afterTripleSingle_plain rest h, Option.some_or]
  | tripleDouble =>
      show literalBy _ (afterTripleDouble _)
        ('"' :: '"' :: '"' :: (content.toList ++ '"' :: '"' :: '"' :: rest)) = some rest
      have hstop : rest.dropWhile (· == '"') = rest := by
        cases rest with
        | nil => rfl
        | cons c rest =>
            rw [List.dropWhile_cons_of_neg]
            simpa using hdouble
      rw [literalBy, afterTripleDouble_plain rest h, Option.some_or, hstop]
      simp [Quotes.text]
      omega

/-! ### The text between the quotes -/

/-- Taking off quotes that are there gives what is between them. -/
theorem stripQuote_around (quote content : List Char) :
    stripQuote quote (quote ++ (content ++ quote)) = some content := by
  have hlength : (quote ++ (content ++ quote)).length - 2 * quote.length = content.length := by
    simp
    omega
  rw [stripQuote, List.drop_left, hlength, List.take_left]
  simp

/-- Behind one quote, plain text and a quote do not make it three. So the triple quotes, which are
tried first, are not found on a literal in single or double quotes. -/
theorem not_pair_prefix {quote : Char} {content : List Char}
    (hcontent : content.head? ≠ some quote) : ¬[quote, quote] <+: content ++ [quote] := by
  rintro ⟨tail, htail⟩
  exact not_triple hcontent (by simp) tail htail.symm

/-- Between the quotes of a literal of plain text stands the text, for each of the four forms. -/
theorem content?_around (quotes : Quotes) {content : String} (h : IsPlain content.toList) :
    content? (quotes.around content) = some content := by
  have htext : (quotes.around content).toList =
      quotes.text.toList ++ (content.toList ++ quotes.text.toList) := by
    simp [Quotes.around]
  have hplain : '$' ∉ content.toList := h.not_mem (by decide)
  rw [content?, htext]
  cases quotes with
  | single =>
      have hpair := not_pair_prefix (h.head?_ne (show '\'' ∈ specialCharacters by decide))
      have hstrip : stripQuote ['\''] ('\'' :: (content.toList ++ ['\''])) = some content.toList :=
        stripQuote_around _ _
      simp [Quotes.text, hpair, hstrip]
  | double =>
      have hpair := not_pair_prefix (h.head?_ne (show '"' ∈ specialCharacters by decide))
      have hstrip : stripQuote ['"'] ('"' :: (content.toList ++ ['"'])) = some content.toList :=
        stripQuote_around _ _
      simp [Quotes.text, hpair, hstrip, hplain]
  | tripleSingle =>
      have hstrip : stripQuote ['\'', '\'', '\'']
          ('\'' :: '\'' :: '\'' :: (content.toList ++ ['\'', '\'', '\''])) = some content.toList :=
        stripQuote_around _ _
      simp [Quotes.text, hstrip]
  | tripleDouble =>
      have hstrip : stripQuote ['"', '"', '"']
          ('"' :: '"' :: '"' :: (content.toList ++ ['"', '"', '"'])) = some content.toList :=
        stripQuote_around _ _
      simp [Quotes.text, hstrip, hplain]

end Literal

/-- A literal of plain text is named by the text and by how it is written. A rule can thus name a
dependency with or without quotes, and means the same one. -/
theorem Expr.any_argumentKeys_literal {t : Token} {quotes : Literal.Quotes} {content : String}
    (hkind : t.kind = .str) (htext : t.text = quotes.around content)
    (h : Literal.IsPlain content.toList) (texts : List String) :
    (Expr.atom t).argumentKeys.any texts.contains = true ↔
      content ∈ texts ∨ quotes.around content ∈ texts := by
  have hprinted : (Expr.atom t).printed = quotes.around content := by
    simp [Expr.printed, Expr.tokens, printTrimmed, htext]
  have hcontent : (if (t.kind == TokenKind.str) = true then Literal.content? t.text else none) =
      some content := by
    rw [if_pos (by simp [hkind]), htext, Literal.content?_around quotes h]
  rw [Expr.argumentKeys]
  simp only [hcontent, hprinted]
  by_cases hsame : content = quotes.around content
  · simp [← hsame]
  · simp [hsame, or_comm]

end BuildPrune
