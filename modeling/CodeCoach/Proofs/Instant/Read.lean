import CodeCoach.Proofs.Instant.Text
import Mathlib.Data.List.Induction
import Mathlib.Data.List.TakeWhile

/-!
# What is read is an instant

Whatever text is read, the instant that it gives is proper: its nanoseconds stay within the second,
and where they do not, the text named the sixtieth second of a minute.

* `digitsValue_lt`, the value of some digits;
* `fraction_lt`, `dvd_offset`: a fraction is less than a second, an offset has no seconds;
* `proper_of_parse?`.
-/

namespace CodeCoach.Instant

open Text

theorem digitsValue_concat (ds : List Char) (c : Char) :
    digitsValue (ds ++ [c]) = digitsValue ds * 10 + (c.toNat - '0'.toNat) := by
  simp [digitsValue]

theorem digitsValue_lt {ds : List Char} (h : ∀ c ∈ ds, c.isDigit) :
    digitsValue ds < 10 ^ ds.length := by
  induction ds using List.reverseRecOn with
  | nil => decide
  | append_singleton ds c ih =>
    have hc : c.toNat - '0'.toNat ≤ 9 := by
      have hc := h c (by simp)
      simp only [Char.isDigit, ge_iff_le, Bool.and_eq_true, decide_eq_true_eq] at hc
      have h9 : c.toNat ≤ 57 := hc.2
      have h0 : '0'.toNat = 48 := rfl
      omega
    have := ih fun d hd => h d (List.mem_append_left _ hd)
    rw [digitsValue_concat, List.length_append, List.length_singleton, Nat.pow_succ]
    omega

theorem le_of_field {low high n : Nat} {cs rest : List Char}
    (h : field low high cs = some (n, rest)) : n ≤ high := by
  simp only [field, Option.bind_eq_bind, Option.bind_eq_some_iff] at h
  obtain ⟨⟨m, tail⟩, -, h⟩ := h
  split at h
  · rename_i hm
    cases h
    simp only [Bool.and_eq_true, decide_eq_true_eq] at hm
    exact hm.2
  · cases h

/-- A fraction is less than a second. -/
theorem fraction_lt {n : Nat} {cs rest : List Char} (h : fraction cs = some (n, rest)) :
    n < nanosPerSecond := by
  unfold fraction at h
  split at h
  · rename_i cs
    simp only at h
    split at h
    · cases h
    · cases h
      have hkept : ∀ c ∈ (cs.takeWhile Char.isDigit).take 9, c.isDigit := fun c hc =>
        List.mem_takeWhile_imp (List.mem_of_mem_take hc)
      have hlength : ((cs.takeWhile Char.isDigit).take 9).length ≤ 9 := List.length_take_le _ _
      generalize (cs.takeWhile Char.isDigit).take 9 = kept at hkept hlength ⊢
      calc digitsValue kept * Nat.pow 10 (9 - kept.length)
          < 10 ^ kept.length * 10 ^ (9 - kept.length) :=
            Nat.mul_lt_mul_of_pos_right (digitsValue_lt hkept) (Nat.pow_pos (by decide))
        _ = 10 ^ 9 := by rw [← Nat.pow_add, Nat.add_sub_cancel' hlength]
        _ = nanosPerSecond := by decide
  · cases h
    decide

theorem dvd_offsetAmount {n : Nat} {cs rest : List Char} (h : offsetAmount cs = some (n, rest)) :
    60 ∣ n := by
  simp only [offsetAmount, Option.bind_eq_bind, Option.bind_eq_some_iff] at h
  obtain ⟨⟨hours, _⟩, -, ⟨minutes, _⟩, -, h⟩ := h
  split at h
  · cases h
    omega
  · cases h

/-- An offset has hours and minutes, but no seconds. -/
theorem dvd_offset {n : Int} {cs rest : List Char} (h : offset cs = some (n, rest)) :
    (60 : Int) ∣ n := by
  unfold offset at h
  split at h
  · cases h
    decide
  · split at h
    · cases h
    · split at h
      · cases h
        decide
      · split at h
        · obtain ⟨⟨m, _⟩, hm, h⟩ := Option.map_eq_some_iff.1 h
          cases h
          have := dvd_offsetAmount hm
          omega
        · split at h
          · obtain ⟨⟨m, _⟩, hm, h⟩ := Option.map_eq_some_iff.1 h
            cases h
            have := dvd_offsetAmount hm
            omega
          · cases h

theorem proper_of_timeOfDay {d : Date} {cs : List Char} {t : Instant}
    (h : timeOfDay d cs = some t) : t.Proper := by
  simp only [timeOfDay, Option.bind_eq_bind, Option.bind_eq_some_iff] at h
  obtain ⟨⟨hour, _⟩, -, _, -, ⟨minute, _⟩, -, _, -, ⟨second, _⟩, hsecond, ⟨nano, _⟩, hnano,
    ⟨shift, _⟩, hshift, h⟩ := h
  have hsecond := le_of_field hsecond
  have hnano := fraction_lt hnano
  have hshift := dvd_offset hshift
  split at h
  · cases h
  split at h
  · cases h
  split at h
  · cases h
  -- Days and hours are whole minutes.
  generalize d.toDays * 86400 = day, (show (60 : Int) ∣ d.toDays * 86400 by omega) = hday at h
  simp only [beq_iff_eq, Option.ite_none_right_eq_some, Option.pure_def, Option.some.injEq] at h
  obtain ⟨hrange, rfl⟩ := h
  refine ⟨hrange, ?_⟩
  by_cases hleap : second = 60
  · right
    simp only [hleap, if_true]
    omega
  · left
    simpa [hleap] using hnano

/-- What is read from a text is an instant. -/
theorem proper_of_parse? {s : String} {t : Instant} (h : parse? s = some t) : t.Proper := by
  rw [parse?, parseChars_eq] at h
  simp only [Option.bind_eq_bind, Option.bind_eq_some_iff] at h
  obtain ⟨_, -, _, -, _, -, _, -, _, -, h⟩ := h
  split at h
  · split at h
    · exact proper_of_timeOfDay h
    · cases h
  · cases h

end CodeCoach.Instant
