import CodeCoach.Json.Parser
import CodeCoach.Json.Printer
import CodeCoach.Proofs.Digits

/-!
# Strings and numbers of JSON are read back

* `Json.stringBody_quote`: a quoted string is read up to its closing quote;
* `Json.Ends`, for a text that does not go on with a number;
* `Json.number_nat`, `Json.number_neg`: whole numbers of 64 bits are read back, and
  `Json.number_decimal` says what becomes of a digit, a point and further digits.
-/

namespace CodeCoach.Json

/-! ### Strings -/

theorem hexValue_hexDigit : ∀ n < 16, hexValue (hexDigit n) = some n := by decide

/-- The escape of a character below the space that has no shorter one. -/
theorem unicodeEscape_hexDigits {c : Char} (h : c.toNat < 32) (rest : List Char) :
    unicodeEscape ('0' :: '0' :: hexDigit (c.toNat / 16) :: hexDigit (c.toNat % 16) :: rest) =
      some (c, rest) := by
  have hzero : hexValue '0' = some 0 := by decide
  have hvalue : ((0 * 16 + 0) * 16 + c.toNat / 16) * 16 + c.toNat % 16 = c.toNat := by omega
  have hfour : hexFour ('0' :: '0' :: hexDigit (c.toNat / 16) :: hexDigit (c.toNat % 16) :: rest) =
      some (c.toNat, rest) := by
    simp only [hexFour, hzero, hexValue_hexDigit (c.toNat / 16) (by omega),
      hexValue_hexDigit (c.toNat % 16) (by omega), Option.bind_eq_bind, Option.bind_some, hvalue]
    rfl
  have hlow : (decide (c.toNat < 0xD800) || decide (0xE000 ≤ c.toNat)) = true := by
    simp only [Bool.or_eq_true, decide_eq_true_eq]
    omega
  rw [unicodeEscape, hfour]
  simp only [Option.bind_eq_bind, Option.bind_some, hlow, if_true, Char.ofNat_toNat]
  rfl

/-- The characters whose escape is a single letter or sign. -/
def shortEscapes : List Char := ['\x22', '\x5c', '\n', '\r', '\t', '\x08', '\x0c']

theorem stringBody_shortEscape {c : Char} (h : c ∈ shortEscapes) (read : List Char) (fuel : Nat)
    (rest : List Char) :
    stringBody read (fuel + 1) (quoteChar c ++ rest) = stringBody (c :: read) fuel rest := by
  simp only [shortEscapes, List.mem_cons, List.not_mem_nil, or_false] at h
  rcases h with rfl | rfl | rfl | rfl | rfl | rfl | rfl <;> rfl

/-- Every character takes one step to read, with its escape or without. -/
theorem stringBody_quoteChar (read : List Char) (fuel : Nat) (c : Char) (rest : List Char) :
    stringBody read (fuel + 1) (quoteChar c ++ rest) = stringBody (c :: read) fuel rest := by
  by_cases hshort : c ∈ shortEscapes
  · exact stringBody_shortEscape hshort read fuel rest
  simp only [shortEscapes, List.mem_cons, List.not_mem_nil, or_false, not_or] at hshort
  by_cases hlow : c.toNat < 0x20
  · have hquote : quoteChar c =
        ['\x5c', 'u', '0', '0', hexDigit (c.toNat / 16), hexDigit (c.toNat % 16)] := by
      simp [quoteChar, hshort, hlow]
    rw [hquote]
    simp only [List.cons_append, List.nil_append, stringBody, escape]
    rw [unicodeEscape_hexDigits hlow]
    rfl
  · have hquote : quoteChar c = [c] := by simp [quoteChar, hshort, hlow]
    rw [hquote]
    simp [stringBody, hshort, hlow]

theorem quoteChar_ne_nil (c : Char) : quoteChar c ≠ [] := by
  unfold quoteChar
  repeat' split
  all_goals simp

theorem length_le_flatMap_quoteChar (cs : List Char) :
    cs.length ≤ (cs.flatMap quoteChar).length := by
  induction cs with
  | nil => simp
  | cons c cs ih =>
    have := List.length_pos_iff.2 (quoteChar_ne_nil c)
    rw [List.flatMap_cons, List.length_append, List.length_cons]
    omega

theorem stringBody_flatMap (cs rest read : List Char) {fuel : Nat} (h : cs.length < fuel) :
    stringBody read fuel (cs.flatMap quoteChar ++ '\x22' :: rest) =
      some (String.ofList (read.reverse ++ cs), rest) := by
  induction cs generalizing read fuel with
  | nil =>
    obtain ⟨fuel, rfl⟩ : ∃ k, fuel = k + 1 := ⟨fuel - 1, by simp at h; omega⟩
    simp [stringBody]
  | cons c cs ih =>
    obtain ⟨fuel, rfl⟩ : ∃ k, fuel = k + 1 := ⟨fuel - 1, by simp at h; omega⟩
    rw [List.flatMap_cons, List.append_assoc, stringBody_quoteChar,
      ih (c :: read) (by simpa using h)]
    simp

/-- The string of a quoted text after its first quote. -/
theorem stringBody_quote (s : String) (rest : List Char) :
    stringBody [] ((s.toList.flatMap quoteChar ++ '\x22' :: rest).length + 1)
      (s.toList.flatMap quoteChar ++ '\x22' :: rest) = some (s, rest) := by
  have := length_le_flatMap_quoteChar s.toList
  rw [stringBody_flatMap]
  · simp
  · rw [List.length_append]
    omega

/-! ### Numbers -/

/-- The text does not go on with a number. -/
def Ends (cs : List Char) : Prop :=
  ∀ c ∈ cs.head?, ¬ c.isDigit ∧ c ≠ '.' ∧ c ≠ 'e' ∧ c ≠ 'E'

theorem ends_nil : Ends [] := by simp [Ends]

theorem ends_cons {c : Char} {cs : List Char} :
    Ends (c :: cs) ↔ ¬ c.isDigit ∧ c ≠ '.' ∧ c ≠ 'e' ∧ c ≠ 'E' := by
  simp [Ends]

theorem Ends.noDigit {cs : List Char} (h : Ends cs) : NoDigit cs := fun c hc => (h c hc).1

theorem Ends.afterWhole {rest : List Char} (h : Ends rest) (negative : Bool) (n : Nat) :
    afterWhole negative n rest = some (whole negative n, rest) := by
  cases rest with
  | nil => rfl
  | cons c rest =>
    obtain ⟨-, hpoint, he, hE⟩ := ends_cons.1 h
    simp [Json.afterWhole, hpoint, he, hE]

theorem Ends.withExponent {rest : List Char} (h : Ends rest) (negative : Bool) (n : Nat)
    (start : Int) :
    withExponent negative n start rest =
      (scale n start).map fun f => (signed negative f, rest) := by
  cases rest with
  | nil => rfl
  | cons c rest =>
    obtain ⟨-, -, he, hE⟩ := ends_cons.1 h
    simp [Json.withExponent, he, hE]

/-- No number but zero begins with the digit zero. -/
theorem head_toDigits {n : Nat} (h : 0 < n) (ds : List Char) : Nat.toDigits 10 n ≠ '0' :: ds := by
  induction n using Nat.strongRecOn generalizing ds with
  | ind n ih =>
    by_cases h10 : n < 10
    · rw [Nat.toDigits_of_lt_base h10]
      simp
      omega
    · rw [Nat.toDigits_of_base_le (by decide) (by omega)]
      intro e
      obtain ⟨d, ds', hds⟩ :=
        List.exists_cons_of_ne_nil (Nat.toDigits_ne_nil (n := n / 10) (b := 10))
      rw [hds, List.cons_append] at e
      obtain ⟨rfl, -⟩ := List.cons.inj e
      exact ih (n / 10) (by omega) (by omega) ds' hds

theorem unsignedNumber_natChars {n : Nat} (hn : n ≤ maxWord) (negative : Bool) {rest : List Char}
    (h : NoDigit rest) :
    unsignedNumber negative (Decimal.natChars n ++ rest) = Json.afterWhole negative n rest := by
  unfold unsignedNumber Decimal.natChars
  rw [takeDigits_append (isDigit_toDigits n) h]
  -- Zero is read on its own, since no other number may begin with it.
  by_cases hzero : n = 0
  · subst hzero
    rfl
  · have hread : readWord 0 0 (Nat.toDigits 10 n) = (n, (Nat.toDigits 10 n).length, []) := by
      rw [readWord_eq 0 0 _ (by simpa using hn)]
      simp
    obtain ⟨d, ds, hds⟩ := List.exists_cons_of_ne_nil (Nat.toDigits_ne_nil (n := n) (b := 10))
    have hd : d ≠ '0' := by
      rintro rfl
      exact head_toDigits (by omega) ds hds
    rw [hds] at hread ⊢
    simp [hd, hread]

/-- A number without a sign is read as such. -/
theorem number_natChars {n : Nat} (hn : n ≤ maxWord) {rest : List Char} (h : NoDigit rest) :
    number (Decimal.natChars n ++ rest) = Json.afterWhole false n rest := by
  obtain ⟨d, ds, hds⟩ := List.exists_cons_of_ne_nil (Nat.toDigits_ne_nil (n := n) (b := 10))
  have hminus : d ≠ '-' := by
    rintro rfl
    exact absurd (isDigit_toDigits n '-' (by simp [hds])) (by decide)
  have hnumber := unsignedNumber_natChars hn false h
  unfold Decimal.natChars at *
  rw [hds, List.cons_append] at hnumber ⊢
  unfold number
  simpa [hminus] using hnumber

theorem number_nat {n : Nat} (hn : n ≤ maxWord) {rest : List Char} (h : Ends rest) :
    number (Decimal.natChars n ++ rest) = some (int n, rest) := by
  rw [number_natChars hn h.noDigit, h.afterWhole]
  rfl

theorem number_neg {n : Nat} (h0 : 0 < n) (hn : n ≤ 0x8000000000000000) {rest : List Char}
    (h : Ends rest) : number ('-' :: Decimal.natChars n ++ rest) = some (int (-n), rest) := by
  show unsignedNumber true (Decimal.natChars n ++ rest) = _
  rw [unsignedNumber_natChars (by unfold maxWord; omega) true h.noDigit, h.afterWhole]
  simp [whole, h0, hn]

/-- A number with a point is a float, scaled down by the digits after the point. -/
theorem number_decimal {n : Nat} (hn : n ≤ maxWord) {ds : List Char} (hds : ∀ c ∈ ds, c.isDigit)
    (hne : ds ≠ []) (hfits : Nat.ofDigitChars 10 ds n ≤ maxWord) {rest : List Char}
    (h : Ends rest) :
    number (Decimal.natChars n ++ '.' :: (ds ++ rest)) =
      (scale (Nat.ofDigitChars 10 ds n) (-ds.length)).map fun f => (float f, rest) := by
  rw [number_natChars hn (noDigit_cons.2 (by decide))]
  show fraction false n 0 (ds ++ rest) = _
  unfold fraction
  rw [takeDigits_append hds h.noDigit]
  simp only [readWord_eq n 0 ds hfits]
  rw [if_neg (by simpa using hne), h.withExponent]
  simp [signed]

end CodeCoach.Json
