import QuantitySurvey.Proofs.Formula.Lexemes
import QuantitySurvey.Proofs.Decimal.Unsigned

/-! # Texts of finite numbers

A finite number is read from digits, with a point or a sign among them, and an exponent after them
or none. The mark of the exponent is the only letter in such a text, and its case does not matter.

* `exists_numeral_of_read?`: what a finite number is read from.
* `read?_lowered`: numbers are read in any case.
* `mem_text_of_isFinite`: a finite number is written without an exponent.
-/

set_option autoImplicit false

namespace QuantitySurvey.Decimal

open Formula (IsExponent signed_of_ne toLower_of_isDigit)
open Text (lowered)

/-! ## Characters -/

theorem isAlpha_of_isDigit {c : Char} (h : c.isDigit = true) : c.isAlpha = false := by
  have h9 : ('9' : Char).val.toNat = 57 := rfl
  have hA : ('A' : Char).val.toNat = 65 := rfl
  have ha : ('a' : Char).val.toNat = 97 := rfl
  simp only [Char.isDigit, Char.isAlpha, Char.isUpper, Char.isLower, Bool.and_eq_true,
    Bool.or_eq_false_iff, Bool.and_eq_false_iff, decide_eq_true_eq, decide_eq_false_iff_not,
    UInt32.le_iff_toNat_le] at h ⊢
  omega

/-- Lower case tells no other characters apart than letters. -/
theorem toLower_eq_iff {c d : Char} (hd : d.isAlpha = false) : c.toLower = d ↔ c = d := by
  have hupper : ∀ e : Char, e.isAlpha = false → e.toLower = e := fun e he =>
    Char.toLower_eq_of_not_isUpper (by simp [(Bool.or_eq_false_iff.1 he).1])
  constructor
  · rintro rfl
    rw [Char.isAlpha_toLower_eq_isAlpha] at hd
    exact (hupper c hd).symm
  · rintro rfl
    exact hupper c hd

theorem isDigit_toLower (c : Char) : c.toLower.isDigit = c.isDigit := by
  cases h : c.isDigit with
  | true => rw [toLower_of_isDigit h, h]
  | false =>
    rw [← Bool.not_eq_true]
    intro hlower
    have hsame : c = c.toLower := (toLower_eq_iff (isAlpha_of_isDigit hlower)).1 rfl
    rw [← hsame, h] at hlower
    cases hlower

/-- Two characters have the same lower-case letter. -/
theorem toLower_eq_letter_iff {c d : Char} (hd : d.isLower = true) :
    c.toLower = d ↔ c = d ∨ c = d.toUpper := by
  constructor
  · intro h
    by_cases hupper : c.isUpper = true
    · have hlower : c.toUpper = c :=
        Char.toUpper_eq_of_not_isLower (Char.not_isLower_of_isUpper hupper)
      rw [← h, Char.toUpper_toLower_eq_toUpper, hlower]
      exact .inr rfl
    · rw [Char.toLower_eq_of_not_isUpper hupper] at h
      exact .inl h
  · have hsame : d.toLower = d := Char.toLower_eq_of_not_isUpper (Char.not_isUpper_of_isLower hd)
    rintro (rfl | rfl)
    · exact hsame
    · rw [Char.toLower_toUpper_eq_toLower, hsame]

/-- A text without letters has no case. -/
theorem lowered_eq_self {cs : List Char} (h : ∀ c ∈ cs, c.isAlpha = false) : lowered cs = cs :=
  (List.map_congr_left fun c hc => (toLower_eq_iff (h c hc)).2 rfl).trans (List.map_id cs)

theorem lowered_digits {ds : List Char} (h : ∀ c ∈ ds, c.isDigit = true) : lowered ds = ds :=
  lowered_eq_self fun c hc => isAlpha_of_isDigit (h c hc)

/-! ## Parts of a text -/

/-- The digits after a point, if there is one, and what follows them. -/
def afterPoint : List Char → List Char × List Char
  | '.' :: ds => (ds.takeWhile Char.isDigit, ds.dropWhile Char.isDigit)
  | rest => ([], rest)

theorem afterPoint_of_ne {c : Char} (h : c ≠ '.') (cs : List Char) :
    afterPoint (c :: cs) = ([], c :: cs) := by
  unfold afterPoint
  split
  · next heq => exact absurd (List.cons.inj heq).1 h
  · rfl

theorem unsigned?_eq (cs : List Char) :
    unsigned? cs =
      let word := lowered cs
      if word = "inf".toList || word = "infinity".toList then some (Float.ofScientific 1 false 400)
      else if word = "nan".toList then some (0.0 / 0.0)
      else
        let p := afterPoint (cs.dropWhile Char.isDigit)
        if (cs.takeWhile Char.isDigit).isEmpty && p.1.isEmpty then none
        else (exponentPart? p.2).map (ofDigits (cs.takeWhile Char.isDigit) p.1) := by
  rfl

theorem takeWhile_lowered (cs : List Char) :
    (lowered cs).takeWhile Char.isDigit = cs.takeWhile Char.isDigit := by
  have hsame : Char.isDigit ∘ Char.toLower = Char.isDigit := funext isDigit_toLower
  rw [lowered, List.takeWhile_map, hsame]
  exact lowered_digits fun c hc => List.mem_takeWhile_imp hc

theorem dropWhile_lowered (cs : List Char) :
    (lowered cs).dropWhile Char.isDigit = lowered (cs.dropWhile Char.isDigit) := by
  have hsame : Char.isDigit ∘ Char.toLower = Char.isDigit := funext isDigit_toLower
  rw [lowered, List.dropWhile_map, hsame]
  rfl

theorem afterPoint_lowered (cs : List Char) :
    afterPoint (lowered cs) = ((afterPoint cs).1, lowered (afterPoint cs).2) := by
  cases cs with
  | nil => rfl
  | cons c cs =>
    by_cases hpoint : c = '.'
    · subst hpoint
      exact Prod.ext (takeWhile_lowered cs) (dropWhile_lowered cs)
    · have hlower : c.toLower ≠ '.' := hpoint ∘ (toLower_eq_iff rfl).1
      rw [afterPoint_of_ne hpoint, lowered, List.map_cons, afterPoint_of_ne hlower]

theorem signed_lowered (cs : List Char) :
    signed (lowered cs) = ((signed cs).1, lowered (signed cs).2) := by
  cases cs with
  | nil => rfl
  | cons c cs =>
    by_cases hminus : c = '-'
    · subst hminus
      rfl
    by_cases hplus : c = '+'
    · subst hplus
      rfl
    have hlower : c.toLower ≠ '-' ∧ c.toLower ≠ '+' :=
      ⟨hminus ∘ (toLower_eq_iff rfl).1, hplus ∘ (toLower_eq_iff rfl).1⟩
    rw [signed_of_ne hminus hplus, lowered, List.map_cons, signed_of_ne hlower.1 hlower.2]

theorem exponentPart?_lowered (cs : List Char) : exponentPart? (lowered cs) = exponentPart? cs := by
  cases cs with
  | nil => rfl
  | cons c cs =>
    have hmark : (c.toLower == 'e' || c.toLower == 'E') = (c == 'e' || c == 'E') := by
      have hcapital : c.toLower ≠ 'E' := by
        intro h
        have hupper := Char.isUpper_toLower_eq_false c
        rw [h] at hupper
        cases hupper
      rw [beq_eq_false_iff_ne.2 hcapital, Bool.or_false, Bool.eq_iff_iff]
      simpa using toLower_eq_letter_iff (c := c) (d := 'e') rfl
    have hdigits : ∀ ds : List Char, (lowered ds).all Char.isDigit = ds.all Char.isDigit := by
      intro ds
      rw [lowered, List.all_map]
      exact congrArg ds.all (funext isDigit_toLower)
    simp only [exponentPart?, lowered, List.map_cons]
    rw [hmark, ← lowered, signed_lowered]
    dsimp only
    rw [hdigits, lowered, List.isEmpty_map, ← lowered]
    cases hall : (signed cs).2.all Char.isDigit with
    | true => rw [lowered_digits (List.all_eq_true.1 hall)]
    | false => simp

/-! ## Reading in any case -/

/-- Numbers are read in any case. -/
theorem read?_lowered (cs : List Char) : read? (lowered cs) = read? cs := by
  have hunsigned : ∀ ds, unsigned? (lowered ds) = unsigned? ds := by
    intro ds
    have htwice : lowered (lowered ds) = lowered ds := by
      simp [lowered]
    simp only [unsigned?_eq, htwice, takeWhile_lowered, dropWhile_lowered, afterPoint_lowered,
      exponentPart?_lowered]
  unfold read?
  rw [signed_lowered]
  simp only [hunsigned]

/-! ## Finite numbers -/

/-- A character of a number that is no mark of an exponent. -/
def isPlain (c : Char) : Bool := c.isDigit || c == '.' || c == '+' || c == '-'

/-- Plain characters, and an exponent after them or none. -/
structure IsNumeral (plain exponent : List Char) : Prop where
  plain : ∀ c ∈ plain, isPlain c = true
  exponent : exponent = [] ∨ IsExponent exponent

theorem isPlain_of_isDigit {c : Char} (h : c.isDigit = true) : isPlain c = true := by
  simp [isPlain, h]

theorem afterPoint_cases (cs : List Char) :
    ∃ point ∈ [[], ['.']], cs = point ++ ((afterPoint cs).1 ++ (afterPoint cs).2) ∧
      ∀ c ∈ (afterPoint cs).1, c.isDigit = true := by
  unfold afterPoint
  split
  · next ds =>
    exact ⟨['.'], by simp, by simp, fun c hc => List.mem_takeWhile_imp hc⟩
  · exact ⟨[], by simp, by simp, nofun⟩

theorem signed_cases (cs : List Char) :
    ∃ sign ∈ [[], ['+'], ['-']], cs = sign ++ (signed cs).2 := by
  unfold signed
  split
  · exact ⟨['-'], by simp, rfl⟩
  · exact ⟨['+'], by simp, rfl⟩
  · exact ⟨[], by simp, rfl⟩

theorem isExponent_of_exponentPart? {cs : List Char} {e : Int} (h : exponentPart? cs = some e) :
    cs = [] ∨ IsExponent cs := by
  cases cs with
  | nil => exact .inl rfl
  | cons c cs =>
    right
    rw [exponentPart?] at h
    split at h
    · next hmark =>
      obtain ⟨sign, hsign, hparts⟩ := signed_cases cs
      generalize signed cs = p at h hparts
      obtain ⟨negative, digits⟩ := p
      dsimp only at h
      split at h
      · next hdigits =>
        rw [Bool.and_eq_true, List.all_eq_true] at hdigits
        refine ⟨c, sign, digits, by rw [hparts], by simpa using hmark, hsign, ?_, hdigits.2⟩
        rintro rfl
        cases hdigits.1
      · cases h
    · cases h

theorem exists_numeral_of_unsigned? {cs : List Char} {x : Float} (h : unsigned? cs = some x) :
    (x.isFinite = false ∧ (-x).isFinite = false) ∨
      ∃ plain exponent, cs = plain ++ exponent ∧ IsNumeral plain exponent := by
  have hinfinite : (Float.ofScientific 1 false 400).isFinite = false ∧
      (-(Float.ofScientific 1 false 400)).isFinite = false := by decide +kernel
  have hnan : (0.0 / 0.0 : Float).isFinite = false ∧ (-(0.0 / 0.0) : Float).isFinite = false := by
    decide +kernel
  rw [unsigned?_eq] at h
  dsimp only at h
  split at h
  · rw [← Option.some.inj h]
    exact .inl hinfinite
  · split at h
    · rw [← Option.some.inj h]
      exact .inl hnan
    · split at h
      · cases h
      · right
        obtain ⟨e, he, -⟩ := Option.map_eq_some_iff.1 h
        obtain ⟨point, hpoint, hrest, hfraction⟩ := afterPoint_cases (cs.dropWhile Char.isDigit)
        generalize afterPoint (cs.dropWhile Char.isDigit) = p at he hrest hfraction
        refine ⟨cs.takeWhile Char.isDigit ++ (point ++ p.1), p.2, ?_, ?_,
          isExponent_of_exponentPart? he⟩
        · rw [List.append_assoc, List.append_assoc, ← hrest, List.takeWhile_append_dropWhile]
        · intro c hc
          simp only [List.mem_append] at hc
          rcases hc with hc | hc | hc
          · exact isPlain_of_isDigit (List.mem_takeWhile_imp hc)
          · simp only [List.mem_cons, List.not_mem_nil, or_false] at hpoint
            rcases hpoint with rfl | rfl
            · cases hc
            · rw [List.mem_singleton.1 hc]
              rfl
          · exact isPlain_of_isDigit (hfraction c hc)

/-- A finite number is read from plain characters, with an exponent after them or none. -/
theorem exists_numeral_of_read? {cs : List Char} {x : Float} (h : read? cs = some x)
    (hfinite : x.isFinite = true) :
    ∃ plain exponent, cs = plain ++ exponent ∧ IsNumeral plain exponent := by
  unfold read? at h
  dsimp only at h
  obtain ⟨y, hy, hx⟩ := Option.map_eq_some_iff.1 h
  rcases exists_numeral_of_unsigned? hy with ⟨hsize, hnegated⟩ | ⟨plain, exponent, hparts, hnumeral⟩
  · exfalso
    rw [← hx] at hfinite
    split at hfinite
    · rw [hnegated] at hfinite
      cases hfinite
    · rw [hsize] at hfinite
      cases hfinite
  · obtain ⟨sign, hsign, hcs⟩ := signed_cases cs
    refine ⟨sign ++ plain, exponent, by rw [hcs, hparts, List.append_assoc], ?_, hnumeral.exponent⟩
    intro c hc
    rcases List.mem_append.1 hc with hc | hc
    · simp only [List.mem_cons, List.not_mem_nil, or_false] at hsign
      rcases hsign with rfl | rfl | rfl
      · cases hc
      · rw [List.mem_singleton.1 hc]
        rfl
      · rw [List.mem_singleton.1 hc]
        rfl
    · exact hnumeral.plain c hc

/-- A finite number is written without an exponent. -/
theorem mem_text_of_isFinite {x : Float} (hfinite : x.isFinite = true) :
    ∀ c ∈ (text x).toList, isPlain c = true := by
  have hsize : ∀ c ∈ writtenSize x, isPlain c = true := by
    intro c hc
    rcases (writtenSize_chars x).2 c hc with hdigit | rfl
    · exact isPlain_of_isDigit hdigit
    · rfl
  rw [toList_text_of_isFinite hfinite]
  split
  · exact List.forall_mem_cons.2 ⟨rfl, hsize⟩
  · exact hsize

end QuantitySurvey.Decimal
