import QuantitySurvey.Instant

/-! # The calendar

A day number has a date, and the date has that number. Eras of 400 years are cut into centuries,
cycles of four years, and years that begin in March, which makes the leap day the last of its year.

* `dayNumber_date`: a date has the number that it was made from.
* `date_valid`: the month and the day of a date are in the calendar.
-/

set_option autoImplicit false

namespace QuantitySurvey.Instant

/-! ## Eras -/

/-- A day of an era by century, cycle of four years, year and day. Only a leap year has a day 365,
counted from zero. -/
structure Parts (doe c q t u : Int) : Prop where
  day : doe = 36524 * c + 1461 * q + 365 * t + u
  century : 0 ≤ c ∧ c ≤ 3
  cycle : 0 ≤ q ∧ q ≤ 24
  year : 0 ≤ t ∧ t ≤ 3
  rest : 0 ≤ u ∧ (u ≤ 364 ∨ u = 365 ∧ t = 3 ∧ (q < 24 ∨ c = 3))

theorem exists_parts {doe : Int} (h₀ : 0 ≤ doe) (h₁ : doe < 146097) :
    ∃ c q t u, Parts doe c q t u := by
  obtain ⟨c, r, hr, hc₀, hc₃, hr₀, hr₁⟩ : ∃ c r : Int, doe = 36524 * c + r ∧ 0 ≤ c ∧ c ≤ 3
      ∧ 0 ≤ r ∧ (r < 36524 ∨ r = 36524 ∧ c = 3) :=
    ⟨min (doe / 36524) 3, doe - 36524 * min (doe / 36524) 3, by omega, by omega, by omega,
      by omega, by omega⟩
  obtain ⟨q, s, hs, hq₀, hq₁, hs₀, hs₁⟩ : ∃ q s : Int, r = 1461 * q + s ∧ 0 ≤ q ∧ q ≤ 24
      ∧ 0 ≤ s ∧ s < 1461 :=
    ⟨r / 1461, r % 1461, by omega, by omega, by omega, by omega, by omega⟩
  exact ⟨c, q, min (s / 365) 3, s - 365 * min (s / 365) 3, by omega, by omega, by omega,
    by omega, by omega⟩

theorem Parts.century_eq {doe c q t u : Int} (h : Parts doe c q t u) :
    doe / 36524 - doe / 146096 = c := by
  obtain ⟨hday, hc, hq, ht, hu⟩ := h
  obtain ⟨r, hr⟩ : ∃ r, r = 1461 * q + 365 * t + u := ⟨_, rfl⟩
  have hr' : doe = 36524 * c + r ∧ 0 ≤ r ∧ (r < 36524 ∨ r = 36524 ∧ c = 3) := by omega
  clear hday hr hq ht hu
  omega

theorem Parts.cycle_eq {doe c q t u : Int} (h : Parts doe c q t u) :
    doe / 1460 = 25 * c + q ∧ u ≤ 364 ∨ doe / 1460 = 25 * c + q + 1 ∧ 1 ≤ u := by
  obtain ⟨hday, hc, hq, ht, hu⟩ := h
  obtain ⟨r, hr⟩ : ∃ r, r = 24 * c + q + 365 * t + u := ⟨_, rfl⟩
  have hr' : doe = 1460 * (25 * c + q) + r ∧ 0 ≤ r
      ∧ (r < 1460 ∧ u ≤ 364 ∨ 1460 ≤ r ∧ r < 2920 ∧ 1 ≤ u) := by omega
  clear hday hr hq ht hu hc
  omega

theorem Parts.yearOfEra {doe c q t u : Int} (h : Parts doe c q t u) :
    (doe - doe / 1460 + doe / 36524 - doe / 146096) / 365 = 100 * c + 4 * q + t := by
  obtain ⟨r, hr, hr₀, hr₁⟩ : ∃ r, doe - doe / 1460 + doe / 36524 - doe / 146096
      = 365 * (100 * c + 4 * q + t) + r ∧ 0 ≤ r ∧ r < 365 := by
    have hcentury := h.century_eq
    have hcycle := h.cycle_eq
    have hday := h.day
    have hrest := h.rest
    rcases hcycle with ⟨h₁, hu⟩ | ⟨h₁, hu⟩
    · exact ⟨u, by omega, by omega, by omega⟩
    · exact ⟨u - 1, by omega, by omega, by omega⟩
  rw [hr]
  omega

theorem Parts.dayOfYear {doe c q t u : Int} (h : Parts doe c q t u) :
    doe - (365 * (100 * c + 4 * q + t) + (100 * c + 4 * q + t) / 4 - (100 * c + 4 * q + t) / 100)
      = u := by
  obtain ⟨hday, hc, hq, ht, hu⟩ := h
  omega

/-! ## Months -/

def monthOf (u : Int) : Nat :=
  (if (5 * u + 2) / 153 < 10 then (5 * u + 2) / 153 + 3 else (5 * u + 2) / 153 - 9).toNat

def dayOf (u : Int) : Nat := (u - (153 * ((5 * u + 2) / 153) + 2) / 5 + 1).toNat

theorem monthOf_fromMarch {u : Int} (h₀ : 0 ≤ u) (h₁ : u ≤ 365) :
    ((monthOf u : Int) + 9) % 12 = (5 * u + 2) / 153 := by
  unfold monthOf
  omega

theorem dayOf_fromMarch {u : Int} :
    (153 * ((5 * u + 2) / 153) + 2) / 5 + (dayOf u : Int) - 1 = u := by
  unfold dayOf
  omega

theorem date_eq (z : Int) : ∃ e c q t u, Parts (z + 719468 - e * 146097) c q t u
    ∧ date z = (100 * c + 4 * q + t + e * 400 + (if monthOf u ≤ 2 then 1 else 0), monthOf u,
      dayOf u) := by
  have hnonneg : 0 ≤ z + 719468 - (z + 719468) / 146097 * 146097 := by omega
  have hlt : z + 719468 - (z + 719468) / 146097 * 146097 < 146097 := by omega
  obtain ⟨c, q, t, u, h⟩ := exists_parts hnonneg hlt
  refine ⟨(z + 719468) / 146097, c, q, t, u, h, ?_⟩
  have hmonth : (if (5 * u + 2) / 153 < 10 then (5 * u + 2) / 153 + 3
      else (5 * u + 2) / 153 - 9) ≤ 2 ↔ monthOf u ≤ 2 := by
    unfold monthOf
    omega
  simp only [date, h.yearOfEra, h.dayOfYear, hmonth]
  refine Prod.ext ?_ rfl
  simp only
  split <;> omega

theorem Parts.bounds {doe c q t u : Int} (h : Parts doe c q t u) : 0 ≤ u ∧ u ≤ 365 := by
  obtain ⟨-, -, -, -, hu⟩ := h
  omega

/-- A date has the number that it was made from. -/
theorem dayNumber_date (z : Int) : dayNumber (date z).1 (date z).2.1 (date z).2.2 = z := by
  obtain ⟨e, c, q, t, u, h, hdate⟩ := date_eq z
  obtain ⟨hu₀, hu₁⟩ := h.bounds
  have hyear : (if monthOf u ≤ 2 then 100 * c + 4 * q + t + e * 400
      + (if monthOf u ≤ 2 then 1 else 0) - 1
      else 100 * c + 4 * q + t + e * 400 + (if monthOf u ≤ 2 then 1 else 0))
        = 100 * c + 4 * q + t + e * 400 := by
    split <;> omega
  rw [hdate]
  simp only [dayNumber, hyear, monthOf_fromMarch hu₀ hu₁, dayOf_fromMarch]
  obtain ⟨hday, hc, hq, ht, hu⟩ := h
  omega

/-- The days of a year counted from March fall into months of the right lengths. -/
theorem dayOf_le {u : Int} (h₀ : 0 ≤ u) (h₁ : u ≤ 365) : dayOf u ≤ 31
    ∧ (monthOf u = 4 ∨ monthOf u = 6 ∨ monthOf u = 9 ∨ monthOf u = 11 → dayOf u ≤ 30)
    ∧ (monthOf u = 2 → dayOf u ≤ 28 ∨ u = 365 ∧ dayOf u = 29) := by
  unfold monthOf dayOf
  omega

/-- The last day of the era's leap years is the 29th of February. -/
theorem Parts.isLeapYear {doe e c q t u : Int} (h : Parts doe c q t u) (hu : u = 365) :
    isLeapYear (100 * c + 4 * q + t + e * 400 + 1) = true := by
  obtain ⟨-, hc, hq, ht, hrest⟩ := h
  simp only [Instant.isLeapYear, Bool.and_eq_true, Bool.or_eq_true, beq_iff_eq, bne_iff_ne]
  omega

theorem date_valid (z : Int) : 1 ≤ (date z).2.1 ∧ (date z).2.1 ≤ 12 ∧ 1 ≤ (date z).2.2
    ∧ (date z).2.2 ≤ daysInMonth (date z).1 (date z).2.1 := by
  obtain ⟨e, c, q, t, u, h, hdate⟩ := date_eq z
  obtain ⟨hu₀, hu₁⟩ := h.bounds
  obtain ⟨hlong, hshort, hfebruary⟩ := dayOf_le hu₀ hu₁
  rw [hdate]
  simp only
  refine ⟨by unfold monthOf; omega, by unfold monthOf; omega, by unfold dayOf; omega, ?_⟩
  unfold daysInMonth
  split
  · next hmonth =>
    have hlate : monthOf u ≤ 2 := by omega
    rw [if_pos hlate]
    rcases hfebruary hmonth with hday | ⟨hu, hday⟩
    · split <;> omega
    · rw [if_pos (h.isLeapYear hu)]
      exact Nat.le_of_eq hday
  · split
    · next hmonth =>
      simp only [Bool.or_eq_true, decide_eq_true_eq] at hmonth
      exact hshort (by omega)
    · exact hlong

end QuantitySurvey.Instant
