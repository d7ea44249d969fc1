import QuantitySurvey.Proofs.Instant.Calendar
import QuantitySurvey.Proofs.Json.Leaves

/-! # Times of documents

The text of a time in a document is read as that time, if its year is one that can be read and its
nanoseconds belong to its second: `read?_documentText`.
-/

set_option autoImplicit false

namespace QuantitySurvey

/-! ## Rows of digits -/

namespace Decimal

theorem natural_append (ds es : List Char) :
    natural (ds ++ es) = natural ds * 10 ^ es.length + natural es := by
  have hfold : ∀ n, es.foldl (fun n c => 10 * n + digitValue c) n
      = n * 10 ^ es.length + natural es := by
    induction es with
    | nil => simp [natural]
    | cons c es ih =>
      intro n
      have hc := ih (10 * 0 + digitValue c)
      rw [List.foldl_cons, ih]
      simp only [natural, List.foldl_cons, List.length_cons] at hc ⊢
      rw [hc, Nat.pow_succ]
      ring
  rw [natural, List.foldl_append, hfold]
  rfl

theorem natural_zeros (k : Nat) : natural (List.replicate k '0') = 0 := by
  induction k with
  | zero => rfl
  | succ k ih =>
    rw [List.replicate_succ', natural_append, ih]
    rfl

end Decimal

namespace Instant

theorem natural_padded (width n : Nat) : Decimal.natural (padded width n) = n := by
  rw [padded, Decimal.natural_append, Decimal.natural_zeros, Json.natural_digits]
  simp

theorem isDigit_of_mem_padded {width n : Nat} {c : Char} (h : c ∈ padded width n) :
    c.isDigit = true := by
  rcases List.mem_append.1 h with h | h
  · rw [List.eq_of_mem_replicate h]
    rfl
  · exact Json.isDigit_of_mem_digits h

theorem length_padded {width n : Nat} (hwidth : 0 < width) (h : n < 10 ^ width) :
    (padded width n).length = width := by
  have hlength : (Decimal.digits n).length ≤ width :=
    (Nat.length_toDigits_le_iff (by decide) hwidth).2 h
  rw [padded, List.length_append, List.length_replicate]
  omega

theorem padded_ne_nil (width n : Nat) : padded width n ≠ [] := by
  have hdigits : Decimal.digits n ≠ [] := Nat.toDigits_ne_nil
  simp [padded, hdigits]

/-! ## Reading parts of times -/

theorem isBlank_of_isDigit {c : Char} (h : c.isDigit = true) : Text.isBlank c = false := by
  have hrange : 48 ≤ c.toNat ∧ c.toNat ≤ 57 := by
    simpa [Char.isDigit, UInt32.le_iff_toNat_le] using h
  simp only [Text.isBlank, Bool.or_eq_false_iff, Bool.and_eq_false_iff, decide_eq_false_iff_not,
    beq_eq_false_iff_ne]
  omega

theorem skipBlanks_cons {c : Char} (h : Text.isBlank c = false) (cs : List Char) :
    skipBlanks (c :: cs) = c :: cs := by
  rw [skipBlanks, Text.trimStart, List.dropWhile_cons, h]
  rfl

theorem takeWhile_digits {ds : List Char} (h : ∀ c ∈ ds, c.isDigit = true) {c : Char}
    (hc : c.isDigit = false) (rest : List Char) :
    (ds ++ c :: rest).takeWhile Char.isDigit = ds := by
  rw [List.takeWhile_append_of_pos h, List.takeWhile_cons, hc]
  simp

theorem skipBlanks_digits {ds : List Char} (h : ∀ c ∈ ds, c.isDigit = true) (hne : ds ≠ [])
    (rest : List Char) : skipBlanks (ds ++ rest) = ds ++ rest := by
  cases ds with
  | nil => exact absurd rfl hne
  | cons c ds => exact skipBlanks_cons (isBlank_of_isDigit (h c List.mem_cons_self)) _

/-- A number of the greatest length is read up to its end. -/
theorem numberUpTo?_padded {width n : Nat} (hwidth : 0 < width) (h : n < 10 ^ width)
    (rest : List Char) : numberUpTo? width (padded width n ++ rest) = some (n, rest) := by
  have hdigits : ∀ c ∈ padded width n, c.isDigit = true := fun c hc => isDigit_of_mem_padded hc
  have hlength := length_padded hwidth h
  have htake : (padded width n ++ rest).take width = padded width n := List.take_left' hlength
  have hwhile : (padded width n).takeWhile Char.isDigit = padded width n :=
    List.takeWhile_eq_self_iff.2 hdigits
  unfold numberUpTo?
  rw [skipBlanks_digits hdigits (padded_ne_nil _ _)]
  simp only [htake, hwhile, natural_padded, hlength, List.drop_left' hlength]
  rw [if_neg (by simp [padded_ne_nil])]

theorem mark?_self {c : Char} (h : Text.isBlank c = false) (rest : List Char) :
    mark? c (c :: rest) = some rest := by
  unfold mark?
  rw [skipBlanks_cons h]
  simp

theorem year?_plain {n : Nat} (h : n < 10 ^ 4) (rest : List Char) :
    year? (padded 4 n ++ rest) = some ((n : Int), rest) := by
  have hread := numberUpTo?_padded (by decide) h rest
  cases hds : padded 4 n with
  | nil => exact absurd hds (padded_ne_nil 4 n)
  | cons c ds =>
    have hdigit : c.isDigit = true := isDigit_of_mem_padded (by rw [hds]; exact List.mem_cons_self)
    have hminus : c ≠ '-' := by
      rintro rfl
      cases hdigit
    have hplus : c ≠ '+' := by
      rintro rfl
      cases hdigit
    rw [hds] at hread
    simp only [List.cons_append] at hread ⊢
    simp [year?, skipBlanks_cons (isBlank_of_isDigit hdigit), hminus, hplus, hread]

/-- A year is read up to the hyphen after it. -/
theorem year?_yearText (year : Int) (rest : List Char) :
    year? (yearText year ++ '-' :: rest) = some (year, '-' :: rest) := by
  have hwhile := takeWhile_digits
    (fun c (hc : c ∈ padded 4 year.natAbs) => isDigit_of_mem_padded hc) (c := '-') rfl rest
  have hne := padded_ne_nil 4 year.natAbs
  unfold yearText
  split
  · next hplain =>
    simp only [Bool.and_eq_true, decide_eq_true_eq] at hplain
    rw [year?_plain (by omega), Int.toNat_of_nonneg hplain.1]
  · next hsigned =>
    by_cases hneg : year < 0
    · rw [if_pos hneg, List.cons_append]
      simp only [year?, skipBlanks_cons (c := '-') rfl, hwhile, natural_padded, List.drop_left]
      rw [if_neg (by simpa using hne)]
      simp only [Option.some.injEq, Prod.mk.injEq, and_true]
      omega
    · rw [if_neg hneg, List.cons_append]
      simp only [year?, skipBlanks_cons (c := '+') rfl, hwhile, natural_padded, List.drop_left]
      rw [if_neg (by simpa using hne)]
      simp only [Option.some.injEq, Prod.mk.injEq, and_true]
      omega

/-- The digits of a fraction count as nanoseconds. -/
theorem fraction?_digits {ds : List Char} (h : ∀ c ∈ ds, c.isDigit = true) (hne : ds ≠ [])
    (hlength : ds.length ≤ 9) {c : Char} (hc : c.isDigit = false) (rest : List Char) :
    fraction? ('.' :: (ds ++ c :: rest))
      = some (Decimal.natural ds * 10 ^ (9 - ds.length), c :: rest) := by
  have htake : ds.take 9 = ds := List.take_of_length_le hlength
  simp only [fraction?, takeWhile_digits h hc, htake, Decimal.natural_append,
    Decimal.natural_zeros, List.length_replicate, Nat.add_zero, List.drop_left]
  rw [if_neg (by simpa using hne)]

theorem fraction?_fractionText (n : Nat) {c : Char} (hc : c.isDigit = false) (hdot : c ≠ '.')
    (rest : List Char) :
    fraction? (fractionText n ++ c :: rest)
      = some (n % nanosecondsPerSecond, c :: rest) := by
  have hpadded : ∀ width x, 0 < width → width ≤ 9 → x < 10 ^ width →
      fraction? ('.' :: (padded width x ++ c :: rest))
        = some (x * 10 ^ (9 - width), c :: rest) := by
    intro width x hwidth hle hx
    rw [fraction?_digits (fun c hc => isDigit_of_mem_padded hc) (padded_ne_nil _ _)
      (by rw [length_padded hwidth hx]; exact hle) hc, natural_padded, length_padded hwidth hx]
  have hsize : n % nanosecondsPerSecond < 1000000000 := Nat.mod_lt _ (by decide)
  unfold fractionText
  simp only
  split
  · next hzero => simp [fraction?, hdot, hzero]
  · split
    · next hmilli =>
      rw [List.cons_append, hpadded 3 _ (by decide) (by decide) (by omega)]
      simp only [Option.some.injEq, Prod.mk.injEq, and_true]
      omega
    · split
      · next hmicro =>
        rw [List.cons_append, hpadded 6 _ (by decide) (by decide) (by omega)]
        simp only [Option.some.injEq, Prod.mk.injEq, and_true]
        omega
      · rw [List.cons_append, hpadded 9 _ (by decide) (by decide) (by omega)]
        simp

/-! ## Times -/

/-- A time in the calendar that can be read: the year is in range, and the nanoseconds belong to
their second, or to the leap second after the last one of a minute. -/
structure IsCivil (t : Instant) : Prop where
  yearLow : -262143 ≤ (date (t.second / 86400)).1
  yearHigh : (date (t.second / 86400)).1 ≤ 262142
  nanosecond : t.nanosecond < nanosecondsPerSecond
    ∨ t.second % 60 = 59 ∧ t.nanosecond < 2 * nanosecondsPerSecond

instance (t : Instant) : Decidable t.IsCivil :=
  decidable_of_iff (-262143 ≤ (date (t.second / 86400)).1 ∧ (date (t.second / 86400)).1 ≤ 262142
    ∧ (t.nanosecond < nanosecondsPerSecond
      ∨ t.second % 60 = 59 ∧ t.nanosecond < 2 * nanosecondsPerSecond))
    ⟨fun h => ⟨h.1, h.2.1, h.2.2⟩, fun h => ⟨h.yearLow, h.yearHigh, h.nanosecond⟩⟩

theorem daysInMonth_le (year : Int) (month : Nat) : daysInMonth year month ≤ 31 := by
  unfold daysInMonth
  repeat' split
  all_goals decide

theorem bind_of_eq_some {α β : Type} {x : Option α} {a : α} {f : α → Option β} {r : Option β}
    (hx : x = some a) (hf : f a = r) : x >>= f = r := by
  rw [hx]
  exact hf

/-- The text of a time in documents stands for it. -/
theorem read?_documentText {t : Instant} (h : t.IsCivil) : read? t.documentText = some t := by
  obtain ⟨second, nanosecond⟩ := t
  obtain ⟨hlow, hhigh, hnano⟩ := h
  simp only at hlow hhigh hnano
  obtain ⟨hmonth₁, hmonth₁₂, hday₁, hday⟩ := date_valid (second / 86400)
  have hnumber := dayNumber_date (second / 86400)
  unfold read? documentText clockText
  rw [String.toList_ofList]
  generalize date (second / 86400) = ymd at *
  obtain ⟨year, month, day⟩ := ymd
  simp only at hlow hhigh hmonth₁ hmonth₁₂ hday₁ hday hnumber
  have hday₃₁ := hday.trans (daysInMonth_le year month)
  obtain ⟨s, hs⟩ : ∃ s, s = (second % 86400).toNat := ⟨_, rfl⟩
  have hs₁ : s < 86400 := by omega
  have hleap : nanosecond / nanosecondsPerSecond ≤ 1
      ∧ (nanosecond / nanosecondsPerSecond = 1 → s % 60 = 59) := by
    simp only [nanosecondsPerSecond] at hnano ⊢
    omega
  have hhour : s / 3600 < 24 := by omega
  have hminute : s / 60 % 60 < 60 := by omega
  have hsecond : s % 60 + nanosecond / nanosecondsPerSecond ≤ 60 := by omega
  simp only [← hs, List.append_assoc, List.cons_append]
  refine bind_of_eq_some (year?_yearText _ _) ?_
  refine bind_of_eq_some (mark?_self rfl _) ?_
  refine bind_of_eq_some (numberUpTo?_padded (by decide) (by omega) _) ?_
  refine bind_of_eq_some (mark?_self rfl _) ?_
  refine bind_of_eq_some (numberUpTo?_padded (by decide) (by omega) _) ?_
  refine bind_of_eq_some rfl ?_
  refine (if_neg (by decide)).trans ?_
  refine bind_of_eq_some (numberUpTo?_padded (by decide) (by omega) _) ?_
  refine bind_of_eq_some (mark?_self rfl _) ?_
  refine bind_of_eq_some (numberUpTo?_padded (by decide) (by omega) _) ?_
  refine bind_of_eq_some (mark?_self rfl _) ?_
  refine bind_of_eq_some (numberUpTo?_padded (by decide) (by omega) _) ?_
  refine bind_of_eq_some (fraction?_fractionText _ rfl (by decide) _) ?_
  have hzone : offset? (skipBlanks ['Z']) = some (0, []) := by decide
  refine bind_of_eq_some hzone ?_
  refine (if_neg (by decide)).trans ?_
  refine (if_neg ?_).trans ?_
  · simp only [hlow, hhigh, hmonth₁, hmonth₁₂, hday₁, hday, hhour, hminute, hsecond, decide_true,
      Bool.and_self, Bool.not_true, Bool.false_eq_true, not_false_eq_true]
  simp only [hnumber, Option.some.injEq]
  have hparts : nanosecond / nanosecondsPerSecond * nanosecondsPerSecond
      + nanosecond % nanosecondsPerSecond = nanosecond := Nat.div_add_mod' _ _
  generalize nanosecond / nanosecondsPerSecond = leap at *
  rw [Instant.mk.injEq]
  constructor
  · omega
  · split
    · next hlast =>
      have hone : leap = 1 := by omega
      rw [hone] at hparts
      omega
    · next hlast =>
      have hzero : leap = 0 := by omega
      rw [hzero] at hparts
      omega

end Instant

end QuantitySurvey
