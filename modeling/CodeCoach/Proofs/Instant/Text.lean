import CodeCoach.Proofs.Digits
import CodeCoach.Proofs.Instant.Calendar

/-!
# The text of an instant leads back to it

* `Instant.Proper`, the instants that clocks and texts give: those in range whose nanoseconds stay
  within the second, or within a leap second at the end of a minute;
* one lemma for each part of the text: `year_renderYear`, `field_padded`, `fraction_renderFraction`;
* `Instant.parse?_render`.
-/

namespace CodeCoach.Instant

open Text

/-- An instant of the range, with nanoseconds of one second or of a leap second after it. -/
structure Proper (t : Instant) : Prop where
  inRange : t.inRange
  nano : t.nano < nanosPerSecond ∨ t.nano < 2 * nanosPerSecond ∧ t.second % 60 = 59

/-! ### Parts of a text -/

theorem trimStart_digits {ds : List Char} (hd : ∀ c ∈ ds, c.isDigit) (hne : ds ≠ [])
    (rest : List Char) : trimStart (ds ++ rest) = ds ++ rest := by
  obtain ⟨c, ds, rfl⟩ := List.exists_cons_of_ne_nil hne
  have hc := hd c (by simp)
  have hblank : ¬ isBlank c := by
    simp only [Char.isDigit, ge_iff_le, Bool.and_eq_true, decide_eq_true_eq] at hc
    obtain ⟨h0, h9⟩ := hc
    have h0 : 48 ≤ c.toNat := h0
    have h9 : c.toNat ≤ 57 := h9
    simp only [isBlank, Bool.or_eq_true, Bool.and_eq_true, decide_eq_true_eq, beq_iff_eq]
    omega
  rw [List.cons_append, trimStart_cons, if_neg hblank]

/-- A year without a sign. -/
theorem year_padded {n : Nat} (h : n < 10000) (rest : List Char) :
    year (padded 4 n ++ rest) = some ((n : Int), rest) := by
  have hnumber : number 4 (padded 4 n ++ rest) = some (n, rest) := number_padded (by decide) h rest
  have htrim := trimStart_digits (isDigit_padded 4 n) (padded_ne_nil 4 n) rest
  obtain ⟨c, ds, hds⟩ := List.exists_cons_of_ne_nil (padded_ne_nil 4 n)
  have hc := isDigit_padded 4 n c (by simp [hds])
  rw [hds, List.cons_append] at hnumber htrim ⊢
  have hminus : c ≠ '-' := by
    rintro rfl
    exact absurd hc (by decide)
  have hplus : c ≠ '+' := by
    rintro rfl
    exact absurd hc (by decide)
  unfold year
  rw [htrim]
  simp [hminus, hplus, hnumber]

/-- The digits of a year after a sign; there may be any number of them. -/
theorem number_padded_year (n : Nat) (rest : List Char) :
    number (padded 4 n ++ '-' :: rest).length (padded 4 n ++ '-' :: rest) =
      some (n, '-' :: rest) := by
  rw [number_append (isDigit_padded 4 n) (padded_ne_nil 4 n) (by simp)
    (Or.inr (noDigit_cons.2 (by decide))), digitsValue_padded]

theorem year_renderYear (y : Int) (rest : List Char) :
    year (renderYear y ++ '-' :: rest) = some (y, '-' :: rest) := by
  unfold renderYear
  by_cases h : 0 ≤ y ∧ y ≤ 9999
  · rw [if_pos (by simpa using h), year_padded (by omega)]
    congr 2
    omega
  · rw [if_neg (by simpa using h)]
    by_cases hneg : y < 0
    · rw [if_pos hneg, List.cons_append, year, trimStart_cons, if_neg (by decide)]
      simp only [number_padded_year, Option.map_some]
      congr 2
      omega
    · rw [if_neg hneg, List.cons_append, year, trimStart_cons, if_neg (by decide)]
      simp only [number_padded_year, Option.map_some]
      congr 2
      omega

theorem field_padded {low high n : Nat} (hlow : low ≤ n) (hhigh : n ≤ high) (h : n < 100)
    (rest : List Char) : field low high (padded 2 n ++ rest) = some (n, rest) := by
  unfold field
  rw [trimStart_digits (isDigit_padded 2 n) (padded_ne_nil 2 n),
    number_padded (by decide) (by omega)]
  simp [hlow, hhigh]

theorem separator_cons {c : Char} (h : ¬ isBlank c) (rest : List Char) :
    separator c (c :: rest) = some rest := by
  rw [separator, trimStart_cons, if_neg h]
  simp

theorem fraction_padded {width n : Nat} (h0 : 0 < width) (h9 : width ≤ 9) (h : n < 10 ^ width)
    {rest : List Char} (hrest : NoDigit rest) :
    fraction ('.' :: padded width n ++ rest) = some (n * 10 ^ (9 - width), rest) := by
  have hlength := length_padded h0 h
  rw [List.cons_append]
  simp only [fraction, takeWhile_digits (isDigit_padded width n) hrest]
  rw [if_neg (by simpa using padded_ne_nil width n), List.take_of_length_le (by omega),
    digitsValue_padded, hlength, List.drop_left' hlength]
  rfl

theorem fraction_renderFraction {nano : Nat} (h : nano < nanosPerSecond) (rest : List Char) :
    fraction (renderFraction nano ++ 'Z' :: rest) = some (nano, 'Z' :: rest) := by
  have hrest : NoDigit ('Z' :: rest) := noDigit_cons.2 (by decide)
  unfold nanosPerSecond at h
  unfold renderFraction
  -- As few groups of three digits are written as will do.
  by_cases h0 : nano = 0
  · subst h0
    rfl
  rw [if_neg (by simpa using h0)]
  by_cases h3 : nano % 1000000 = 0
  · rw [if_pos (by simpa using h3), fraction_padded (by decide) (by decide) (by omega) hrest]
    congr 2
    omega
  rw [if_neg (by simpa using h3)]
  by_cases h6 : nano % 1000 = 0
  · rw [if_pos (by simpa using h6), fraction_padded (by decide) (by decide) (by omega) hrest]
    congr 2
    omega
  · rw [if_neg (by simpa using h6), fraction_padded (by decide) (by decide) (by omega) hrest]
    congr 2
    omega

/-! ### The whole text -/

theorem day_le_of_isValid {d : Date} (h : d.isValid) :
    1 ≤ d.month ∧ d.month ≤ 12 ∧ 1 ≤ d.day ∧ d.day ≤ 31 := by
  have hlength : Date.monthLength d.year d.month ≤ 31 := by
    unfold Date.monthLength
    split
    · split <;> omega
    · split <;> omega
  simp only [Date.isValid, Bool.and_eq_true, decide_eq_true_eq] at h
  omega

/-- What is read after a date and the sign that separates it from the time of day. -/
def timeOfDay (date : Date) (cs : List Char) : Option Instant := do
  let (hour, cs) ← field 0 23 cs
  let cs ← separator ':' cs
  let (minute, cs) ← field 0 59 cs
  let cs ← separator ':' cs
  let (second, cs) ← field 0 60 cs
  let (nano, cs) ← fraction cs
  let (offset, cs) ← offset (trimStart cs)
  if !isAllBlank cs then none
  else if date.year < leastYear || greatestYear < date.year then none
  else if !date.isValid then none
  else
    let isLeap := second == 60
    let ofDay := hour * 3600 + minute * 60 + (if isLeap then 59 else second)
    let t : Instant :=
      ⟨date.toDays * 86400 + ofDay - offset, nano + (if isLeap then nanosPerSecond else 0)⟩
    if t.inRange then pure t else none

theorem parseChars_eq (cs : List Char) :
    parseChars cs = (do
      let (year, cs) ← year cs
      let cs ← separator '-' cs
      let (month, cs) ← field 1 12 cs
      let cs ← separator '-' cs
      let (day, cs) ← field 1 31 cs
      let cs ← match cs with
        | c :: rest => if c == 'T' || c == 't' || c == ' ' then some rest else none
        | [] => none
      timeOfDay ⟨year, month, day⟩ cs) := rfl

theorem parseChars_renderDate {d : Date} (h : d.isValid) (rest : List Char) :
    parseChars (renderDate d ++ 'T' :: rest) = timeOfDay d rest := by
  obtain ⟨hm, hm', hday, hday'⟩ := day_le_of_isValid h
  rw [parseChars_eq, renderDate]
  simp only [List.append_assoc, List.cons_append, year_renderYear, Option.bind_eq_bind,
    Option.bind_some]
  rw [separator_cons (by decide), Option.bind_some, field_padded hm hm' (by omega),
    Option.bind_some, separator_cons (by decide), Option.bind_some,
    field_padded hday hday' (by omega), Option.bind_some]
  rfl

/-- The text of a time of day, where the second with the number 60 is a leap second, which counts as
the one before it. -/
theorem timeOfDay_render {d : Date} {hour minute second nano : Nat} (hd : d.isValid)
    (hyear : leastYear ≤ d.year ∧ d.year ≤ greatestYear) (hhour : hour ≤ 23) (hminute : minute ≤ 59)
    (hsecond : second ≤ 60) (hnano : nano < nanosPerSecond) {t : Instant}
    (ht : t = ⟨d.toDays * 86400 +
        (hour * 3600 + minute * 60 + if second = 60 then 59 else second : Nat),
      nano + if second = 60 then nanosPerSecond else 0⟩) (hrange : t.inRange) :
    timeOfDay d (padded 2 hour ++ ':' :: (padded 2 minute ++ ':' :: (padded 2 second ++
      (renderFraction nano ++ ['Z'])))) = some t := by
  have hz : offset (trimStart ['Z']) = some (0, []) := by rfl
  have hyears : (decide (d.year < leastYear) || decide (greatestYear < d.year)) = false := by
    simp only [Bool.or_eq_false_iff, decide_eq_false_iff_not]
    omega
  unfold timeOfDay
  simp only [Option.bind_eq_bind]
  rw [field_padded (by omega) hhour (by omega), Option.bind_some, separator_cons (by decide),
    Option.bind_some, field_padded (by omega) hminute (by omega), Option.bind_some,
    separator_cons (by decide), Option.bind_some, field_padded (by omega) hsecond (by omega),
    Option.bind_some, fraction_renderFraction hnano, Option.bind_some, hz, Option.bind_some]
  simp only [beq_iff_eq, Int.sub_zero, ← ht, hrange, if_true, hyears, hd, Bool.not_true,
    Bool.false_eq_true, if_false]
  rfl

theorem parse?_render {t : Instant} (h : t.Proper) : parse? t.render = some t := by
  obtain ⟨hrange, hnano⟩ := h
  have hyear := year_date hrange
  have hvalid : t.date.isValid := Date.isValid_ofDays _
  have hdays : t.date.toDays = t.second.fdiv 86400 := Date.toDays_ofDays _
  have hsplit : t.second.fdiv 86400 * 86400 + t.second.fmod 86400 = t.second :=
    Int.fdiv_mul_add_fmod _ _
  rw [Int.fmod_eq_emod_of_nonneg _ (by decide)] at hsplit
  unfold parse? render renderChars
  rw [String.toList_ofList, Int.fmod_eq_emod_of_nonneg _ (by decide)]
  simp only [List.append_assoc, List.cons_append]
  rw [parseChars_renderDate hvalid]
  by_cases hleap : nanosPerSecond ≤ t.nano
  · -- A leap second is written as the sixtieth of its minute.
    obtain ⟨hnano, h59⟩ : t.nano < 2 * nanosPerSecond ∧ t.second % 60 = 59 := by omega
    simp only [hleap, if_true]
    have h60 : (t.second % 86400).toNat % 60 + 1 = 60 := by omega
    refine timeOfDay_render hvalid hyear (by omega) (by omega) (by omega) (by omega) ?_ hrange
    rw [hdays, h60, if_pos rfl, if_pos rfl, Nat.sub_add_cancel hleap]
    obtain ⟨second, nano⟩ := t
    congr 1
    simp only at hsplit h60 ⊢
    omega
  · simp only [hleap, if_false]
    have h60 : ¬ (t.second % 86400).toNat % 60 + 0 = 60 := by omega
    refine timeOfDay_render hvalid hyear (by omega) (by omega) (by omega) (by omega) ?_ hrange
    rw [hdays, if_neg h60, if_neg h60]
    obtain ⟨second, nano⟩ := t
    congr 1
    simp only at hsplit ⊢
    omega

end CodeCoach.Instant
