import CodeCoach.Instant

/-!
# The calendar

A number of days is an era of 400 years and a day of it.  Within an era the years begin in March.

* `Date.yearOfEra`, `Date.dayOfYear`, `Date.monthFromMarch`, the parts of a day of an era, with
  their bounds;
* `Date.ofDays_eq_ofEra`, which gives the date of a number of days by these parts;
* `Date.toDays_ofDays`, `Date.isValid_ofDays`: every number of days has a date of the calendar, and
  the date leads back to it;
* `Instant.year_date`, the years of the instants in range.
-/

namespace CodeCoach

namespace Date

/-! ### Days of an era -/

/-- The number of the year to which a day of an era belongs. -/
def yearOfEra (day : Int) : Int := (day - day / 1460 + day / 36524 - day / 146096) / 365

/-- The number of a day of an era within its year. -/
def dayOfYear (day : Int) : Int :=
  day - (365 * yearOfEra day + yearOfEra day / 4 - yearOfEra day / 100)

/-- The month of a day of the year, counted from March on. -/
def monthFromMarch (dayOfYear : Int) : Int := (5 * dayOfYear + 2) / 153

/-- The year is one of the four years, and of the hundred years, that the day points to; at the
start of these it may still be the year before. -/
theorem yearOfEra_near {day : Int} (h0 : 0 ≤ day) (h1 : day < daysPerEra) :
    4 * (day / 1460) - 1 ≤ yearOfEra day ∧ yearOfEra day ≤ 4 * (day / 1460) + 3 ∧
      100 * (day / 36524) - 1 ≤ yearOfEra day ∧ yearOfEra day ≤ 100 * (day / 36524) + 99 := by
  unfold yearOfEra daysPerEra at *
  have hcentury : 25 * (day / 36524) ≤ day / 1460 ∧ day / 1460 ≤ 25 * (day / 36524) + 25 := by
    omega
  generalize hf : day / 1460 = f at *
  generalize hg : day / 36524 = g at *
  generalize hh : day / 146096 = h at *
  -- 1460 and 36524 are the days of 4 and of 100 years, less the leap day at their end.
  have hfour : 1460 * f ≤ day ∧ day < 1460 * f + 1460 := by omega
  have hhundred : 36524 * g ≤ day ∧ day < 36524 * g + 36524 := by omega
  have hbounds : 0 ≤ f ∧ f ≤ 100 ∧ 0 ≤ g ∧ g ≤ 4 := by omega
  refine ⟨?_, ?_, ?_, ?_⟩ <;> omega

/-- The quotient that gives the year, written out as bounds. -/
theorem yearOfEra_le (day : Int) :
    365 * yearOfEra day ≤ day - day / 1460 + day / 36524 - day / 146096 ∧
      day - day / 1460 + day / 36524 - day / 146096 < 365 * yearOfEra day + 365 := by
  unfold yearOfEra
  omega

theorem leapDays_near {day : Int} (h0 : 0 ≤ day) (h1 : day < daysPerEra) :
    (yearOfEra day / 4 = day / 1460 ∨ yearOfEra day / 4 = day / 1460 - 1) ∧
      (yearOfEra day / 100 = day / 36524 ∨ yearOfEra day / 100 = day / 36524 - 1) := by
  obtain ⟨h4, h4', h100, h100'⟩ := yearOfEra_near h0 h1
  constructor <;> omega

theorem dayOfYear_bounds {day : Int} (h0 : 0 ≤ day) (h1 : day < daysPerEra) :
    0 ≤ dayOfYear day ∧ dayOfYear day ≤ 365 ∧ 0 ≤ yearOfEra day ∧ yearOfEra day < 400 := by
  obtain ⟨h4, h4', h100, h100'⟩ := yearOfEra_near h0 h1
  obtain ⟨hleap, hcentury⟩ := leapDays_near h0 h1
  have hyear := yearOfEra_le day
  unfold dayOfYear
  unfold daysPerEra at h1
  generalize yearOfEra day = q at *
  omega

/-- A year of 366 days, from March on, ends in a leap day. -/
theorem isLeap_of_dayOfYear {day : Int} (h0 : 0 ≤ day) (h1 : day < daysPerEra)
    (h : dayOfYear day = 365) (era : Int) : isLeap (yearOfEra day + era * 400 + 1) := by
  obtain ⟨h4, h4', h100, h100'⟩ := yearOfEra_near h0 h1
  obtain ⟨hleap, hcentury⟩ := leapDays_near h0 h1
  have hyear := yearOfEra_le day
  unfold dayOfYear at h
  unfold daysPerEra at h1
  generalize yearOfEra day = q at *
  -- So long a year ends four years, and if it ends a hundred, then it ends the era.
  have hq : (q + 1) % 4 = 0 ∧ ((q + 1) % 100 ≠ 0 ∨ q + 1 = 400) := by omega
  simp only [isLeap, Bool.and_eq_true, Bool.or_eq_true, beq_iff_eq, bne_iff_ne]
  omega

/-! ### Dates of an era -/

/-- The date of a day of an era. -/
def ofEra (era day : Int) : Date :=
  let month := monthFromMarch (dayOfYear day)
  ⟨yearOfEra day + era * 400 + (if month < 10 then 0 else 1),
    (if month < 10 then month + 3 else month - 9).toNat,
    (dayOfYear day - (153 * month + 2) / 5 + 1).toNat⟩

/-- Every number of days is an era and a day of it. -/
theorem exists_era (days : Int) :
    ∃ era day, 0 ≤ day ∧ day < daysPerEra ∧ days = era * daysPerEra + day - 719468 := by
  refine ⟨(days + 719468) / daysPerEra, (days + 719468) % daysPerEra, ?_, ?_, ?_⟩ <;>
    unfold daysPerEra <;> omega

theorem ofDays_eq_ofEra (era : Int) {day : Int} (h0 : 0 ≤ day) (h1 : day < daysPerEra) :
    ofDays (era * daysPerEra + day - 719468) = ofEra era day := by
  have hera : (era * daysPerEra + day - 719468 + 719468).fdiv daysPerEra = era := by
    rw [Int.fdiv_eq_ediv_of_nonneg _ (by decide)]
    unfold daysPerEra at *
    omega
  have hday : era * daysPerEra + day - 719468 + 719468 - era * daysPerEra = day := by omega
  obtain ⟨hd0, hd1, -, -⟩ := dayOfYear_bounds h0 h1
  unfold ofDays
  simp only [hera, hday]
  show Date.mk (yearOfEra day + _ + _) _ _ = _
  unfold ofEra
  congr 1
  -- The year moves on in January, the tenth month from March.
  show yearOfEra day + era * 400 +
      (if (if monthFromMarch (dayOfYear day) < 10 then monthFromMarch (dayOfYear day) + 3
        else monthFromMarch (dayOfYear day) - 9) ≤ 2 then (1 : Int) else 0) = _
  unfold monthFromMarch
  by_cases hm : (5 * dayOfYear day + 2) / 153 < 10
  · rw [if_pos hm, if_pos hm, if_neg (by omega)]
  · rw [if_neg hm, if_neg hm, if_pos (by omega)]

theorem toDays_ofEra (era : Int) {day : Int} (h0 : 0 ≤ day) (h1 : day < daysPerEra) :
    (ofEra era day).toDays = era * daysPerEra + day - 719468 := by
  obtain ⟨hd0, hd1, hq0, hq1⟩ := dayOfYear_bounds h0 h1
  have hday : dayOfYear day =
      day - (365 * yearOfEra day + yearOfEra day / 4 - yearOfEra day / 100) := rfl
  by_cases hm : monthFromMarch (dayOfYear day) < 10
  · have hmarch : ¬ (monthFromMarch (dayOfYear day) + 3).toNat ≤ 2 := by
      unfold monthFromMarch at *
      omega
    have hera : (yearOfEra day + era * 400 + 0).fdiv 400 = era := by
      rw [Int.fdiv_eq_ediv_of_nonneg _ (by decide)]
      omega
    simp only [toDays, ofEra, hm, if_true, hmarch, if_false, hera]
    unfold monthFromMarch at *
    omega
  · have hjanuary : (monthFromMarch (dayOfYear day) - 9).toNat ≤ 2 := by
      unfold monthFromMarch at *
      omega
    have hera : (yearOfEra day + era * 400 + 1 - 1).fdiv 400 = era := by
      rw [Int.fdiv_eq_ediv_of_nonneg _ (by decide)]
      omega
    simp only [toDays, ofEra, hm, if_true, hjanuary, if_false, hera]
    unfold monthFromMarch at *
    omega

/-- The length of a month by its number from March on. -/
theorem le_monthLength (era : Int) {day : Int} (h0 : 0 ≤ day) (h1 : day < daysPerEra) :
    (ofEra era day).day ≤ monthLength (ofEra era day).year (ofEra era day).month := by
  obtain ⟨hd0, hd1, -, -⟩ := dayOfYear_bounds h0 h1
  have hleap := isLeap_of_dayOfYear h0 h1
  unfold ofEra monthFromMarch monthLength
  generalize dayOfYear day = d at *
  by_cases hm : (5 * d + 2) / 153 = 11
  · -- February, which is as long as the year after it is a leap year.
    simp only [hm]
    by_cases hd : d = 365
    · simp [hleap hd era, hd]
    · simp only [Int.reduceLT, if_false, Int.reduceSub, Int.reduceToNat, BEq.rfl, if_true]
      split <;> omega
  · have hfebruary : ((if (5 * d + 2) / 153 < 10 then (5 * d + 2) / 153 + 3
        else (5 * d + 2) / 153 - 9).toNat == 2) = false := by
      rw [beq_eq_false_iff_ne]
      split <;> omega
    simp only [hfebruary, Bool.false_eq_true, if_false, Bool.or_eq_true, beq_iff_eq]
    split <;> split <;> omega

/-! ### Dates of all days -/

theorem toDays_ofDays (days : Int) : (ofDays days).toDays = days := by
  obtain ⟨era, day, h0, h1, rfl⟩ := exists_era days
  rw [ofDays_eq_ofEra era h0 h1, toDays_ofEra era h0 h1]

theorem isValid_ofDays (days : Int) : (ofDays days).isValid := by
  obtain ⟨era, day, h0, h1, rfl⟩ := exists_era days
  rw [ofDays_eq_ofEra era h0 h1]
  have hlength := le_monthLength era h0 h1
  obtain ⟨hd0, hd1, -, -⟩ := dayOfYear_bounds h0 h1
  simp only [isValid, Bool.and_eq_true, decide_eq_true_eq]
  refine ⟨⟨⟨?_, ?_⟩, ?_⟩, hlength⟩ <;>
    · simp only [ofEra, monthFromMarch]
      omega

end Date

theorem Instant.inRange_iff {t : Instant} :
    t.inRange ↔ firstSecond ≤ t.second ∧ t.second ≤ lastSecond := by
  simp [inRange]

/-- The instants in range are those of the years that dates may have. -/
theorem Instant.year_date {t : Instant} (h : t.inRange) :
    -262143 ≤ t.date.year ∧ t.date.year ≤ 262142 := by
  rw [inRange_iff, firstSecond, lastSecond] at h
  unfold date
  rw [Int.fdiv_eq_ediv_of_nonneg _ (by decide)]
  have hfirst : -96465292 ≤ t.second / 86400 := by omega
  have hlast : t.second / 86400 ≤ 95026236 := by omega
  obtain ⟨era, day, h0, h1, hdays⟩ := Date.exists_era (t.second / 86400)
  rw [hdays] at hfirst hlast ⊢
  rw [Date.ofDays_eq_ofEra era h0 h1]
  obtain ⟨hd0, hd1, hq0, hq1⟩ := Date.dayOfYear_bounds h0 h1
  have hday : Date.dayOfYear day =
      day - (365 * Date.yearOfEra day + Date.yearOfEra day / 4 - Date.yearOfEra day / 100) := rfl
  unfold Date.ofEra Date.monthFromMarch
  unfold daysPerEra at h1 hfirst hlast
  -- Only in the first and in the last of these eras does the day matter.
  have hera : (era = -656 ∧ 93808 ≤ day ∨ -655 ≤ era) ∧ (era ≤ 654 ∨ era = 655 ∧ day ≤ 52169) := by
    omega
  generalize Date.yearOfEra day = q at *
  generalize Date.dayOfYear day = d at *
  by_cases hm : (5 * d + 2) / 153 < 10
  · simp only [hm, if_true]
    omega
  · simp only [hm, if_false]
    omega

end CodeCoach
