import CodeCoach.Instant.Text
import CodeCoach.Json.Number
import Mathlib.Algebra.Group.Nat.Defs
import Mathlib.Data.List.TakeDrop

/-!
# Digits in a text

Two readers take numbers off the start of a text, that of instants and that of JSON.  Each takes the
digits in front of a text that has no further digit.

* `NoDigit`, for such texts;
* `Instant.number_append`, `Instant.number_padded`: digits that were written are read back;
* `Json.takeDigits_append`, `Json.readWord_eq`: as long as the number fits 64 bits, all of its
  digits are read.
-/

namespace CodeCoach

/-- The text does not begin with a digit. -/
def NoDigit (cs : List Char) : Prop := ∀ c ∈ cs.head?, ¬ c.isDigit

theorem noDigit_nil : NoDigit [] := by simp [NoDigit]

theorem noDigit_cons {c : Char} {cs : List Char} : NoDigit (c :: cs) ↔ ¬ c.isDigit := by
  simp [NoDigit]

theorem NoDigit.takeWhile {cs : List Char} (h : NoDigit cs) : cs.takeWhile Char.isDigit = [] := by
  cases cs with
  | nil => rfl
  | cons c cs => rw [List.takeWhile_cons_of_neg (noDigit_cons.1 h)]

theorem NoDigit.dropWhile {cs : List Char} (h : NoDigit cs) : cs.dropWhile Char.isDigit = cs := by
  cases cs with
  | nil => rfl
  | cons c cs => rw [List.dropWhile_cons_of_neg (noDigit_cons.1 h)]

theorem takeWhile_digits {ds rest : List Char} (hd : ∀ c ∈ ds, c.isDigit) (h : NoDigit rest) :
    (ds ++ rest).takeWhile Char.isDigit = ds := by
  rw [List.takeWhile_append_of_pos hd, h.takeWhile, List.append_nil]

theorem dropWhile_digits {ds rest : List Char} (hd : ∀ c ∈ ds, c.isDigit) (h : NoDigit rest) :
    (ds ++ rest).dropWhile Char.isDigit = rest := by
  rw [List.dropWhile_append_of_pos hd, h.dropWhile]

theorem isDigit_toDigits (n : Nat) : ∀ c ∈ Nat.toDigits 10 n, c.isDigit :=
  fun _ hc => Nat.isDigit_of_mem_toDigits (by decide) (by decide) hc

/-! ### Numbers of instants -/

namespace Instant

theorem digitsValue_eq (ds : List Char) : digitsValue ds = Nat.ofDigitChars 10 ds 0 := by
  rw [Nat.ofDigitChars_eq_foldl, digitsValue]
  congr 1
  funext n c
  rw [Nat.mul_comm]

theorem isDigit_padded (width n : Nat) : ∀ c ∈ padded width n, c.isDigit := by
  intro c hc
  rcases List.mem_append.1 hc with hc | hc
  · rw [List.eq_of_mem_replicate hc]
    rfl
  · exact isDigit_toDigits n c hc

theorem digitsValue_padded (width n : Nat) : digitsValue (padded width n) = n := by
  rw [digitsValue_eq, padded, Nat.ofDigitChars_append, Nat.ofDigitChars_replicate_zero,
    Nat.mul_zero, Nat.ofDigitChars_ten_toDigits]

theorem length_padded {width n : Nat} (h0 : 0 < width) (h : n < 10 ^ width) :
    (padded width n).length = width := by
  have hle := (Nat.length_toDigits_le_iff (n := n) (b := 10) (by decide) h0).2 h
  rw [padded, List.length_append, List.length_replicate]
  omega

theorem padded_ne_nil (width n : Nat) : padded width n ≠ [] := by
  simp [padded, Nat.toDigits_ne_nil]

/-- Digits are read to their end, where they reach the width or no further digit follows. -/
theorem number_append {width : Nat} {ds rest : List Char} (hd : ∀ c ∈ ds, c.isDigit)
    (hne : ds ≠ []) (hle : ds.length ≤ width) (h : ds.length = width ∨ NoDigit rest) :
    number width (ds ++ rest) = some (digitsValue ds, rest) := by
  have htake : ((ds ++ rest).take width).takeWhile Char.isDigit = ds := by
    rw [List.take_append, List.take_of_length_le hle]
    refine takeWhile_digits hd ?_
    rcases h with h | h
    · -- The digits fill the width, so nothing after them is looked at.
      rw [h, Nat.sub_self, List.take_zero]
      exact noDigit_nil
    · cases hk : width - ds.length with
      | zero => exact noDigit_nil
      | succ k =>
        cases rest with
        | nil => exact noDigit_nil
        | cons c rest => exact noDigit_cons.2 (noDigit_cons.1 h)
  simp only [number, htake]
  rw [if_neg (by simpa using hne), List.drop_left]

theorem number_padded {width n : Nat} (h0 : 0 < width) (h : n < 10 ^ width) (rest : List Char) :
    number width (padded width n ++ rest) = some (n, rest) := by
  have hlength := length_padded h0 h
  rw [number_append (isDigit_padded width n) (padded_ne_nil width n) (by omega) (Or.inl hlength),
    digitsValue_padded]

end Instant

/-! ### Numbers of JSON -/

namespace Json

theorem takeDigits_append {ds rest : List Char} (hd : ∀ c ∈ ds, c.isDigit) (h : NoDigit rest) :
    takeDigits (ds ++ rest) = (ds, rest) := by
  rw [takeDigits, List.span_eq_takeWhile_dropWhile, takeWhile_digits hd h, dropWhile_digits hd h]

/-- The number that digits after a number give. -/
theorem le_ofDigitChars (value : Nat) (ds : List Char) : value ≤ Nat.ofDigitChars 10 ds value := by
  induction ds generalizing value with
  | nil => simp
  | cons c ds ih =>
    rw [Nat.ofDigitChars_cons]
    have := ih (10 * value + (c.toNat - '0'.toNat))
    omega

theorem readWord_eq (value count : Nat) (ds : List Char)
    (h : Nat.ofDigitChars 10 ds value ≤ maxWord) :
    readWord value count ds = (Nat.ofDigitChars 10 ds value, count + ds.length, []) := by
  induction ds generalizing value count with
  | nil => rfl
  | cons c ds ih =>
    have hnext : value * 10 + digitValue c = 10 * value + (c.toNat - '0'.toNat) := by
      rw [digitValue, Nat.mul_comm]
    rw [Nat.ofDigitChars_cons] at h ⊢
    have hle := Nat.le_trans (le_ofDigitChars _ ds) h
    simp only [readWord, hnext]
    rw [if_pos hle, ih _ _ h, List.length_cons]
    congr 2
    omega

end Json

end CodeCoach
