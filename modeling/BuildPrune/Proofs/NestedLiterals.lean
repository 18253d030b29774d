import BuildPrune.Proofs.QuotedLiterals

/-!
# BuildPrune.Proofs.NestedLiterals

Literals with templates, nested to any depth. `Templated` is the grammar of what stands between the
double quotes of a literal and between the braces of a template, where literals stand again. A rule
of the grammar is one step of the scanner of its site, and the parts of a rule are read by scanners
that have fuel for them (`Templated.scans`); so a brace or a quote of an inner part ends nothing but
that part, and the literal is one token in front of anything but a quote (`lex_templated`).

Two literals side by side are left out of the grammar: three of their quotes would open another one.
-/

namespace BuildPrune

namespace Literal

/-! ### The grammar

What stands between quotes and what stands between braces are one grammar, told apart by the site.
In code, braces are balanced and quotes open literals; in a literal, only a template leads back to
code. -/

/-- Where a text with templates stands. -/
inductive Site
  /-- Between the double quotes of a literal. -/
  | quotes
  /-- Between the braces of a template or between braces in it, directly behind a literal or not. -/
  | braces (afterLiteral : Bool)

/-- The characters that have a meaning between the braces of a template. -/
def braceCharacters : List Char :=
  ['{', '}', '"', '\'']

/-- A text with templates, as it stands at a site. Behind a literal no other one may follow
directly, as three of their quotes would be read as the opening of a long one. -/
inductive Templated : Site → List Char → Prop
  | nil {site : Site} : Templated site []
  /-- A character that stands for itself between quotes. -/
  | plain {c : Char} {rest : List Char} (hc : c ∉ doubleCharacters)
      (hrest : Templated .quotes rest) : Templated .quotes (c :: rest)
  | escape (c : Char) {rest : List Char} (hrest : Templated .quotes rest) :
      Templated .quotes ('\\' :: c :: rest)
  | template {body rest : List Char} (hbody : Templated (.braces false) body)
      (hrest : Templated .quotes rest) : Templated .quotes ('$' :: '{' :: (body ++ '}' :: rest))
  /-- A character that stands for itself in a template. -/
  | code {afterLiteral : Bool} {c : Char} {rest : List Char} (hc : c ∉ braceCharacters)
      (hrest : Templated (.braces false) rest) : Templated (.braces afterLiteral) (c :: rest)
  /-- Braces in a template. -/
  | block {afterLiteral : Bool} {body rest : List Char} (hbody : Templated (.braces false) body)
      (hrest : Templated (.braces false) rest) :
      Templated (.braces afterLiteral) ('{' :: (body ++ '}' :: rest))
  | double {content rest : List Char} (hcontent : Templated .quotes content)
      (hrest : Templated (.braces true) rest) :
      Templated (.braces false) ('"' :: (content ++ '"' :: rest))
  | single {content rest : List Char} (hcontent : ∀ c ∈ content, c ∉ singleCharacters)
      (hrest : Templated (.braces true) rest) :
      Templated (.braces false) ('\'' :: (content ++ '\'' :: rest))

/-- A double-quoted literal with templates. -/
def IsTemplated (literal : String) : Prop :=
  ∃ content, Templated .quotes content ∧ literal.toList = '"' :: (content ++ ['"'])

/-- The text between double quotes does not open with one, so the opening quote is not taken for the
first of three. -/
theorem Templated.head?_ne {content : List Char} (h : Templated .quotes content) :
    content.head? ≠ some '"' := by
  cases h with
  | nil => simp
  | plain hc _ =>
      rintro heq
      cases heq
      exact hc (by decide)
  | escape | template => simp

/-- No quote follows a literal in braces. The index of `Templated.braces` records that a literal was
just read, for this reason. -/
theorem Templated.not_quote {text : List Char} (h : Templated (.braces true) text)
    (rest : List Char) {quote : Char} (hquote : quote = '"' ∨ quote = '\'') :
    (text ++ '}' :: rest).head? ≠ some quote := by
  have hspecial : quote ∈ braceCharacters ∧ quote ≠ '}' ∧ quote ≠ '{' := by
    rcases hquote with rfl | rfl <;> decide
  intro heq
  cases h with
  | nil => exact hspecial.2.1 (Option.some.inj heq).symm
  | code hc _ => exact hc (Option.some.inj heq ▸ hspecial.1)
  | block => exact hspecial.2.2 (Option.some.inj heq).symm

/-! ### Steps of the scanners

Each of these is one step of a scanner at a text that opens in a given way. They are stated with
the fuel that the step hands on, since the scanners call each other. -/

section Steps

variable {n : Nat} {text rest after : List Char}

/-- A template between double quotes is passed as a whole: the scan goes on behind the brace that
its body ends in front of. -/
theorem afterDouble_template (h : templateBody n text = '}' :: after) :
    afterDouble (n + 1) ('$' :: '{' :: text) = afterDouble n after := by
  simp only [afterDouble, h]

/-- The body of a template ends in front of the first brace that nothing inside has opened. -/
theorem templateBody_closing (n : Nat) (rest : List Char) :
    templateBody n ('}' :: rest) = '}' :: rest := by
  cases n with
  | zero => rw [templateBody]
  | succ n => rw [templateBody, Lexer.literalBy_of_ne (by decide)]

/-- A character that means nothing between braces takes one step. -/
theorem templateBody_code {c : Char} (hc : c ∉ braceCharacters) :
    templateBody (n + 1) (c :: rest) = templateBody n rest := by
  simp only [braceCharacters, List.mem_cons, List.not_mem_nil, or_false, not_or] at hc
  rw [templateBody, Lexer.literalBy_of_ne hc.2.2]
  · exact hc.1
  · exact hc.2.1

/-- Braces inside a body are passed as a whole, by the same scan. -/
theorem templateBody_block (h : templateBody n text = '}' :: after) :
    templateBody (n + 1) ('{' :: text) = templateBody n after := by
  rw [templateBody, Lexer.literalBy_of_ne (by decide)]
  simp only [h]

/-- A literal inside a body is passed as a whole. What it holds is scanned with one step less, and
that is what bounds the nesting. -/
theorem templateBody_literal
    (h : literalBy (afterDouble n) (afterTripleDouble n) text = some rest) :
    templateBody (n + 1) text = templateBody n rest := by
  rw [templateBody.eq_def]
  simp only [h]

end Steps

/-! ### Whole texts

By induction on the grammar. A part is scanned by the scanner of its own site, which has to stop
exactly where the part ends, and the scanner around it then goes on from there. -/

/-- The scanner of a site reads the text to its end, if it has fuel for the characters. What comes
behind the quote or the brace that ends it makes no difference. -/
def Site.Scans : Site → List Char → Prop
  | .quotes, text => ∀ n rest, text.length < n →
      afterDouble n (text ++ '"' :: rest) = some rest
  | .braces _, text => ∀ n rest, text.length ≤ n →
      templateBody n (text ++ '}' :: rest) = '}' :: rest

namespace Site.Scans

variable {afterLiteral : Bool} {c : Char} {body content text : List Char}

/-- Nothing is read to its end at once. -/
theorem nil (site : Site) : site.Scans [] := by
  cases site with
  | quotes =>
      intro n rest hn
      obtain ⟨n, rfl⟩ := Nat.exists_eq_add_one.2 hn
      rw [List.nil_append, afterDouble]
  | braces => exact fun n rest _ => templateBody_closing n rest

/-- A rule of the grammar for each step of a scan, from here on: a character that stands for
itself, -/
theorem plain (hc : c ∉ doubleCharacters) (htext : Scans .quotes text) :
    Scans .quotes (c :: text) := by
  intro n rest hn
  obtain ⟨n, rfl⟩ := Nat.exists_eq_add_one.2 (Nat.zero_lt_of_lt hn)
  rw [List.cons_append, afterDouble_plain_cons _ hc]
  exact htext n rest (Nat.lt_of_succ_lt_succ hn)

/-- an escaped character, whatever it is, -/
theorem escape (htext : Scans .quotes text) : Scans .quotes ('\\' :: c :: text) := by
  intro n rest hn
  obtain ⟨n, rfl⟩ := Nat.exists_eq_add_one.2 (Nat.zero_lt_of_lt hn)
  rw [List.cons_append, List.cons_append, afterDouble]
  simp only [List.length_cons] at hn
  exact htext n rest (by omega)

/-- a template with its body, -/
theorem template (hbody : Scans (.braces false) body) (htext : Scans .quotes text) :
    Scans .quotes ('$' :: '{' :: (body ++ '}' :: text)) := by
  intro n rest hn
  obtain ⟨n, rfl⟩ := Nat.exists_eq_add_one.2 (Nat.zero_lt_of_lt hn)
  simp only [List.length_cons, List.length_append] at hn
  have hread := hbody n (text ++ '"' :: rest) (by omega)
  simp only [List.cons_append, List.append_assoc]
  rw [afterDouble_template hread]
  exact htext n rest (by omega)

/-- a character of a body, which also ends the position behind a literal, -/
theorem code (hc : c ∉ braceCharacters) (htext : Scans (.braces false) text) :
    Scans (.braces afterLiteral) (c :: text) := by
  intro n rest hn
  obtain ⟨n, rfl⟩ := Nat.exists_eq_add_one.2 (Nat.lt_of_lt_of_le (Nat.succ_pos _) hn)
  rw [List.cons_append, templateBody_code hc]
  exact htext n rest (Nat.le_of_succ_le_succ hn)

/-- and a block in a body. -/
theorem block (hbody : Scans (.braces false) body) (htext : Scans (.braces false) text) :
    Scans (.braces afterLiteral) ('{' :: (body ++ '}' :: text)) := by
  intro n rest hn
  obtain ⟨n, rfl⟩ := Nat.exists_eq_add_one.2 (Nat.lt_of_lt_of_le (Nat.succ_pos _) hn)
  simp only [List.length_cons, List.length_append] at hn
  have hread := hbody n (text ++ '}' :: rest) (by omega)
  simp only [List.cons_append, List.append_assoc]
  rw [templateBody_block hread]
  exact htext n rest (by omega)

/-- A literal is passed as a whole, if it is read to its end in front of what follows it. How it is
read depends on its quotes, so this is left to the caller. -/
theorem literal {quote : Char} (htext : Scans (.braces true) text)
    (hread : ∀ n rest, content.length < n →
      literalBy (afterDouble n) (afterTripleDouble n)
        (quote :: (content ++ quote :: (text ++ '}' :: rest))) = some (text ++ '}' :: rest)) :
    Scans (.braces false) (quote :: (content ++ quote :: text)) := by
  intro n rest hn
  obtain ⟨n, rfl⟩ := Nat.exists_eq_add_one.2 (Nat.lt_of_lt_of_le (Nat.succ_pos _) hn)
  simp only [List.length_cons, List.length_append] at hn
  simp only [List.cons_append, List.append_assoc]
  rw [templateBody_literal (hread n rest (by omega))]
  exact htext n rest (by omega)

end Site.Scans

/-- A text of the grammar is read to its end and no further. The induction is on the grammar; of the
scanners it uses one step for each rule, and the fuel is the number of characters. -/
theorem Templated.scans {site : Site} {text : List Char} (h : Templated site text) :
    site.Scans text := by
  induction h with
  | @nil site => exact .nil site
  | plain hc _ ih => exact ih.plain hc
  | escape _ _ ih => exact ih.escape
  | template _ _ ihbody ih => exact ihbody.template ih
  | code hc _ ih => exact ih.code hc
  | block _ _ ihbody ih => exact ihbody.block ih
  | double hcontent hrest ihcontent ih =>
      refine ih.literal fun n rest hn => ?_
      rw [literalBy_double _ _ hcontent.head?_ne (hrest.not_quote rest (.inl rfl))]
      exact ihcontent n _ hn
  | single hcontent hrest ih =>
      refine ih.literal fun n rest _ => ?_
      rw [literalBy_single _ _ (fun heq => hcontent _ (List.mem_of_mem_head? heq) (by decide))
        (hrest.not_quote rest (.inr rfl))]
      exact afterSingle_plain _ hcontent

/-- In front of anything but a double quote, a literal with templates is read to its end. Behind an
empty literal, a double quote would make it three. -/
theorem IsTemplated.literal? {literal : String} (h : IsTemplated literal) {rest : List Char}
    (hrest : rest.head? ≠ some '"') : literal? (literal.toList ++ rest) = some rest := by
  obtain ⟨content, hcontent, htext⟩ := h
  have hsplit : literal.toList ++ rest = '"' :: (content ++ '"' :: rest) := by simp [htext]
  rw [hsplit, Literal.literal?, literalBy_double _ _ hcontent.head?_ne hrest]
  refine hcontent.scans _ rest ?_
  rw [List.length_cons, List.length_append]
  exact Nat.lt_succ_of_le (Nat.le_add_right _ _)

end Literal

/-! ### Tokens -/

/-- A literal with templates is one token, whatever follows it but a double quote. Its text is the
literal, from the first byte to the last, and there is no trivia in front. -/
theorem lex_templated {literal continuation : String} (hliteral : Literal.IsTemplated literal)
    (hcontinuation : continuation.toList.head? ≠ some '"') :
    (lex (literal ++ continuation)).tokens.head? =
      some ⟨"", .str, literal, ⟨0, literal.utf8ByteSize⟩⟩ := by
  obtain ⟨text, htext⟩ : ∃ text, literal.toList ++ continuation.toList = '"' :: text := by
    obtain ⟨content, -, hquotes⟩ := hliteral
    exact ⟨content ++ '"' :: continuation.toList, by simp [hquotes]⟩
  have hshebang : Lexer.shebang? (literal.toList ++ continuation.toList) = none := by
    rw [htext, Lexer.shebang?]
    exact fun _ heq => absurd (List.cons.inj heq).1 (by decide)
  have htrivia : Lexer.trivia? (literal.toList ++ continuation.toList) = none := by
    rw [htext, Lexer.trivia?_of_not_mem (by decide)]
  have htoken : Lexer.token (literal.toList ++ continuation.toList) =
      (.str, continuation.toList) := by
    rw [Lexer.token, hliteral.literal? hcontinuation]
  have hlength : (literal.toList ++ continuation.toList).length = text.length + 1 := by
    rw [htext, List.length_cons]
  rw [lex, String.toList_append, hshebang]
  simp only
  rw [hlength, Lexer.readFrom_token (by simp [htext]) htrivia htoken, Lexer.before_self_append]
  simp

/-- Quotes and braces in a literal in braces in a template: `"a ${{ "${'}'}" }} \""`. -/
def Literal.nestedSample : String :=
  "\"a $\x7b\x7b \"$\x7b'\x7d'\x7d\" \x7d\x7d \\\"\""

/-- In front of a call, the sample is one token of 22 bytes. -/
theorem lex_templated_nestedSample :
    Literal.IsTemplated Literal.nestedSample ∧
      (lex (Literal.nestedSample ++ ".trim()")).tokens.head? =
        some ⟨"", .str, Literal.nestedSample, ⟨0, 22⟩⟩ := by
  have hspace : ' ' ∉ Literal.braceCharacters := by decide
  have hinner : Literal.Templated .quotes _ :=
    .template (.single (by simp [Literal.singleCharacters] : ∀ c ∈ ['}'], _) .nil) .nil
  have htemplate : Literal.Templated (.braces false) _ :=
    .block (.code hspace (.double hinner (.code hspace .nil))) .nil
  have hliteral : Literal.IsTemplated Literal.nestedSample :=
    ⟨_, .plain (by decide : 'a' ∉ _) (.plain (by decide : ' ' ∉ _)
      (.template htemplate (.plain (by decide : ' ' ∉ _) (.escape '"' .nil)))), by decide⟩
  have hcontinuation : ".trim()".toList.head? ≠ some '"' := by decide
  exact ⟨hliteral, lex_templated hliteral hcontinuation⟩

end BuildPrune
