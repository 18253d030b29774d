import BuildPrune.Text.Raw

/-!
# BuildPrune.Proofs.RawTexts

What is shown for the bytes of a name. A text is shown as it is (`shown_ofText`). What is shown
without `U+FFFD` is the text that the bytes are (`ofText_shown`), so a name that means something to
a path, such as `..`, is shown like no other name. A slash is shown only for a slash
(`slash_notMem_ofText_shown`).
-/

namespace BuildPrune.RawText

/-! ### Texts -/

theorem ofText_append (text more : String) :
    (ofText (text ++ more)).bytes = (ofText text).bytes ++ (ofText more).bytes := by
  simp [ofText]

/-- The bytes of a text are its UTF-8. -/
theorem toByteArray_ofText (text : String) : (ofText text).bytes.toByteArray = text.toUTF8 := by
  show text.toList.utf8Encode = text.toByteArray
  exact String.utf8Encode_toList

theorem toByteArray_injective {bytes other : List UInt8}
    (h : bytes.toByteArray = other.toByteArray) : bytes = other := by
  have hdata := congrArg ByteArray.data h
  rw [List.data_toByteArray, List.data_toByteArray] at hdata
  exact List.toArray_inj hdata

/-- A name is the text that its bytes spell, if they spell one. -/
theorem text?_eq_some_iff {raw : RawText} {text : String} :
    raw.text? = some text ↔ raw = ofText text := by
  unfold text? String.fromUTF8?
  constructor
  · intro h
    split at h
    · next hvalid =>
      cases h
      have hbytes := toByteArray_ofText (String.fromUTF8 raw.bytes.toByteArray hvalid)
      exact congrArg mk (toByteArray_injective hbytes).symm
    · cases h
  · rintro rfl
    have hvalid : (ofText text).bytes.toByteArray.IsValidUTF8 := by
      rw [toByteArray_ofText]
      exact text.isValidUTF8
    rw [dif_pos hvalid, Option.some.injEq]
    apply String.toByteArray_inj.1
    exact toByteArray_ofText text

theorem isText_iff {raw : RawText} : raw.IsText ↔ raw.text?.isSome = true := by
  rw [Option.isSome_iff_exists, IsText]
  exact exists_congr fun text => text?_eq_some_iff.symm

instance (raw : RawText) : Decidable raw.IsText :=
  decidable_of_iff _ isText_iff.symm

/-- Texts differ as their bytes do. -/
theorem ofText_injective {text other : String} (h : ofText text = ofText other) : text = other := by
  have htext := text?_eq_some_iff.2 (rfl : ofText text = ofText text)
  rw [h, text?_eq_some_iff.2 rfl] at htext
  exact (Option.some.inj htext).symm

/-! ### Characters

Decoding goes from character to character, and what the first one is depends on the bytes at the
start only. So the encoding of a text is decoded as the text, whatever comes behind it. -/

/-- Bytes that open with the encoding of a character are read as that character. The encoding of a
character is no front of that of another. -/
theorem firstChar?_append (c : Char) (rest : List UInt8) :
    firstChar? (String.utf8EncodeChar c ++ rest) = some c := by
  have hlength := c.utf8Size_le_four
  have htake : (String.utf8EncodeChar c ++ rest).take 4 =
      String.utf8EncodeChar c ++ rest.take (4 - c.utf8Size) := by
    rw [List.take_append, List.take_of_length_le, String.length_utf8EncodeChar]
    rwa [String.length_utf8EncodeChar]
  rw [firstChar?, htake, List.toByteArray_append]
  exact ByteArray.utf8DecodeChar?_utf8EncodeChar_append

/-- And what is read as a character is its encoding. -/
theorem eq_append_of_firstChar? {bytes : List UInt8} {c : Char} (h : firstChar? bytes = some c) :
    ∃ rest, bytes = String.utf8EncodeChar c ++ rest := by
  obtain ⟨more, hmore⟩ := ByteArray.exists_of_utf8DecodeChar?_eq_some h
  have hdata := congrArg (fun bytes => bytes.data.toList) hmore
  simp at hdata
  refine ⟨more.data.toList ++ bytes.drop 4, ?_⟩
  rw [← List.append_assoc, ← hdata, List.take_append_drop]

/-- Bytes that are passed over show nothing. -/
theorem charsFrom_append (front rest : List UInt8) :
    charsFrom front.length (front ++ rest) = charsFrom 0 rest := by
  induction front with
  | nil => rfl
  | cons byte front ih => exact ih

theorem charsFrom_encode (c : Char) (rest : List UInt8) :
    charsFrom 0 (String.utf8EncodeChar c ++ rest) = c :: charsFrom 0 rest := by
  have hfirst := firstChar?_append c rest
  obtain ⟨byte, more, hbytes⟩ := List.exists_cons_of_ne_nil (String.utf8EncodeChar_ne_nil (c := c))
  have hlength : c.utf8Size - 1 = more.length := by
    rw [← String.length_utf8EncodeChar, hbytes]
    rfl
  rw [hbytes, List.cons_append] at hfirst ⊢
  rw [charsFrom, hfirst]
  simp only
  rw [hlength, charsFrom_append]

/-- A text is shown as it is. The induction is on its characters, each of which is read back from
its bytes. -/
theorem shown_ofText (text : String) : (ofText text).shown = text := by
  have hchars : ∀ chars : List Char, charsFrom 0 (chars.flatMap String.utf8EncodeChar) = chars := by
    intro chars
    induction chars with
    | nil => rfl
    | cons c rest ih => rw [List.flatMap_cons, charsFrom_encode, ih]
  rw [shown, ofText, hchars, String.ofList_toList]

theorem IsText.ofText_shown {raw : RawText} (h : raw.IsText) : ofText raw.shown = raw := by
  obtain ⟨text, rfl⟩ := h
  rw [shown_ofText]

/-! ### What is not shown as something else

Bytes that are no character are shown as `U+FFFD`. If that character does not occur then every
byte was part of one that is shown, and so the text has the same bytes as the name. -/

/-- The cases of what is shown: a character that is there, or the one that stands for what is
none. -/
theorem charsFrom_cases (byte : UInt8) (rest : List UInt8) :
    (∃ c more, byte :: rest = String.utf8EncodeChar c ++ more ∧
      charsFrom 0 (byte :: rest) = c :: charsFrom 0 more) ∨
    ∃ skip, charsFrom 0 (byte :: rest) = '\uFFFD' :: charsFrom skip rest := by
  cases hfirst : firstChar? (byte :: rest) with
  | some c =>
    obtain ⟨more, hbytes⟩ := eq_append_of_firstChar? hfirst
    exact .inl ⟨c, more, hbytes, by rw [hbytes, charsFrom_encode]⟩
  | none => exact .inr ⟨_, by rw [charsFrom, hfirst]⟩

/-- What is shown without `U+FFFD` is the text that the bytes are. So two names that are shown alike
either are alike, or show this character. -/
theorem ofText_shown {raw : RawText} (h : '\uFFFD' ∉ raw.shown.toList) : ofText raw.shown = raw := by
  have hchars : ∀ bytes, '\uFFFD' ∉ charsFrom 0 bytes →
      (charsFrom 0 bytes).flatMap String.utf8EncodeChar = bytes := by
    intro bytes
    induction hlength : bytes.length using Nat.strongRecOn generalizing bytes with
    | ind length ih =>
      intro hnone
      cases bytes with
      | nil => rfl
      | cons byte rest =>
        rcases charsFrom_cases byte rest with ⟨c, more, hbytes, hchars⟩ | ⟨skip, hchars⟩
        · rw [hchars, List.mem_cons, not_or] at hnone
          have hsize := c.utf8Size_pos
          have hshorter : more.length < length := by
            rw [← hlength, hbytes, List.length_append, String.length_utf8EncodeChar]
            omega
          rw [hchars, List.flatMap_cons, ih _ hshorter _ rfl hnone.2, ← hbytes]
        · rw [hchars] at hnone
          exact absurd List.mem_cons_self hnone
  rw [shown, String.toList_ofList] at h
  cases raw
  rw [shown, ofText, String.toList_ofList, hchars _ h]

/-- A slash is shown only for a slash. -/
theorem slash_mem_of_shown {raw : RawText} (h : '/' ∈ raw.shown.toList) : 0x2F ∈ raw.bytes := by
  rw [shown, String.toList_ofList] at h
  suffices hchars : ∀ skip bytes, '/' ∈ charsFrom skip bytes → (0x2F : UInt8) ∈ bytes from
    hchars 0 raw.bytes h
  intro skip bytes
  induction bytes generalizing skip with
  | nil =>
    intro hmem
    cases skip <;> cases hmem
  | cons byte rest ih =>
    intro hmem
    cases skip with
    | succ skip => exact List.mem_cons_of_mem _ (ih skip hmem)
    | zero =>
      rw [charsFrom] at hmem
      split at hmem
      · next c hfirst =>
        rcases List.mem_cons.1 hmem with rfl | hlater
        · obtain ⟨more, hbytes⟩ := eq_append_of_firstChar? hfirst
          rw [hbytes]
          exact List.mem_append_left _ (by decide)
        · exact List.mem_cons_of_mem _ (ih _ hlater)
      · rcases List.mem_cons.1 hmem with hstray | hlater
        · exact absurd hstray (by decide)
        · exact List.mem_cons_of_mem _ (ih _ hlater)

/-- The byte of a slash stands in the encoding of no other character. -/
theorem eq_slash_of_mem {c : Char} (h : 0x2F ∈ String.utf8EncodeChar c) : c = '/' := by
  have hbyte : ∀ n < 256, UInt8.ofNat n = 0x2F → n = 0x2F := by
    intro n hn heq
    have hnat := congrArg UInt8.toNat heq
    rwa [UInt8.toNat_ofNat', Nat.mod_eq_of_lt hn] at hnat
  have hvalue : c.val.toNat = 0x2F := by
    -- Every byte of a longer character is above all bytes that are characters.
    unfold String.utf8EncodeChar at h
    simp only at h
    split at h
    · exact hbyte _ (by omega) (List.mem_singleton.1 h).symm
    · exfalso
      split at h
      · simp only [List.mem_cons, List.not_mem_nil, or_false] at h
        rcases h with h | h <;> · have := hbyte _ (by omega) h.symm; omega
      · split at h
        · simp only [List.mem_cons, List.not_mem_nil, or_false] at h
          rcases h with h | h | h <;> · have := hbyte _ (by omega) h.symm; omega
        · simp only [List.mem_cons, List.not_mem_nil, or_false] at h
          rcases h with h | h | h | h <;> · have := hbyte _ (by omega) h.symm; omega
  exact Char.ext (UInt32.toNat_inj.1 hvalue)

/-- Where no slash is, none is shown. So what is shown for a name is a piece of what is shown for a
path. -/
theorem slash_notMem_ofText_shown {raw : RawText} (h : 0x2F ∉ raw.bytes) :
    0x2F ∉ (ofText raw.shown).bytes := by
  intro hmem
  obtain ⟨c, hc, hbyte⟩ := List.mem_flatMap.1 hmem
  rw [eq_slash_of_mem hbyte] at hc
  exact h (slash_mem_of_shown hc)

end BuildPrune.RawText
