import Mathlib
import QuantitySurvey.Decimal.Reading
import QuantitySurvey.Decimal.Written

/-! # Numbers without a sign

A decimal that is read without a sign is a double whose sign bit is clear, zero included: every
operation by which it is computed keeps the sign bit clear. Such a double, if it is finite, is
written with digits and points only.

* `isNegative_unsigned?`: what is read without a sign is not negative.
* `text_of_isFinite`: a finite double that is not negative is written with digits and points.
* `text_of_not_isFinite`: one that is not finite is written as one of two words.
-/

set_option autoImplicit false

namespace QuantitySurvey.Decimal

open Float.Model (Format UnpackedFloat)
open Float.Model.UnpackedFloat

/-! ## Signs of unpacked numbers -/

/-- The sign of an unpacked number. What is no number has the sign bit clear. -/
def signOf : UnpackedFloat → Sign
  | .infinity s | .zero s | .finite s _ _ _ => s
  | .notANumber => .positive

theorem signOf_round (spec : Format) (s : Sign) (mantissa : Nat) (exponent : Int)
    (accuracy : Accuracy) :
    signOf (roundWithAccuracy spec s mantissa exponent accuracy) = s := by
  unfold roundWithAccuracy
  dsimp only
  split <;> rfl

theorem signOf_mul {spec : Format} {a b : UnpackedFloat} (ha : signOf a = .positive)
    (hb : signOf b = .positive) : signOf (mul spec a b) = .positive := by
  cases a <;> cases b <;> simp only [signOf] at ha hb <;> subst_vars <;>
    first | rfl | exact signOf_round spec _ _ _ _

theorem signOf_div {spec : Format} {a b : UnpackedFloat} (ha : signOf a = .positive)
    (hb : signOf b = .positive) : signOf (div spec a b) = .positive := by
  cases a <;> cases b <;> simp only [signOf] at ha hb <;> subst_vars <;>
    first | rfl | exact signOf_round spec _ _ _ _

theorem signOf_ofNat (spec : Format) (n : Nat) :
    signOf (UnpackedFloat.ofNat spec n) = .positive := by
  unfold UnpackedFloat.ofNat UnpackedFloat.ofInt UnpackedFloat.normalize
  split
  · next h =>
    have hneg : (n : Int) < 0 := Int.compare_eq_lt.1 h
    omega
  · rfl
  · exact signOf_round spec _ _ _ _

theorem signOf_ofScientific (spec : Format) (n : Nat) (e : Int) :
    signOf (UnpackedFloat.ofScientific spec n e) = .positive := by
  unfold UnpackedFloat.ofScientific
  split
  · rfl
  · split
    · rfl
    · split
      · rfl
      · split
        · exact signOf_mul rfl rfl
        · exact signOf_div rfl rfl

/-! ## Sign bits -/

theorem unpackSign_packComponents (spec : Format) (s : Sign) (exponent : BitVec spec.exponentBits)
    (mantissa : BitVec spec.mantissaBitsWithoutImplicit) :
    unpackSign (packComponents spec s exponent mantissa) = s.toBitVec := by
  apply BitVec.eq_of_getLsbD_eq
  intro i hi
  have hzero : i = 0 := by omega
  subst hzero
  simp [unpackSign, packComponents, BitVec.getLsbD_append, BitVec.getElem_append]

/-- Packing a number keeps its sign. -/
theorem unpackSign_pack (spec : Format) (u : UnpackedFloat) :
    unpackSign (pack spec u) = (signOf u).toBitVec := by
  cases u with
  | infinity s => exact unpackSign_packComponents spec s _ _
  | notANumber => exact unpackSign_packComponents spec .positive _ _
  | zero s => exact unpackSign_packComponents spec s _ _
  | finite s m e hm =>
    unfold pack
    dsimp only
    split
    · exact unpackSign_packComponents spec s _ _
    · split
      · exact unpackSign_packComponents spec s _ _
      · exact unpackSign_packComponents spec s _ _

/-- So does unpacking. -/
theorem signOf_unpack {spec : Format} {b : BitVec spec.numBits} (h : unpackSign b = 0#1) :
    signOf (unpack spec b) = .positive := by
  have hsign : Sign.ofBitVec (unpackSign b) = .positive := by
    rw [h]
    rfl
  unfold unpack
  dsimp only
  rw [hsign]
  split
  · split <;> rfl
  · split
    · split <;> rfl
    · rfl

/-! ## Doubles -/

/-- The sign bit is clear. -/
def IsUnsigned (x : Float) : Prop :=
  @unpackSign Format.binary64 x.toBits.toBitVec = 0#1

theorem isUnsigned_pack {u : UnpackedFloat} (h : signOf u = .positive) :
    IsUnsigned ⟨Float.Model.pack u⟩ := by
  have hsign := unpackSign_pack Format.binary64 u
  rw [h] at hsign
  exact hsign

theorem IsUnsigned.signOf {x : Float} (h : IsUnsigned x) :
    signOf x.toModel.unpack = .positive :=
  signOf_unpack h

theorem IsUnsigned.mul {x y : Float} (hx : IsUnsigned x) (hy : IsUnsigned y) :
    IsUnsigned (x * y) :=
  isUnsigned_pack (signOf_mul hx.signOf hy.signOf)

theorem IsUnsigned.div {x y : Float} (hx : IsUnsigned x) (hy : IsUnsigned y) :
    IsUnsigned (x / y) :=
  isUnsigned_pack (signOf_div hx.signOf hy.signOf)

theorem isUnsigned_toFloat (n : UInt64) : IsUnsigned n.toFloat :=
  isUnsigned_pack (signOf_ofNat _ _)

theorem isUnsigned_powersOfTen :
    ∀ x ∈ Float.exactlyRepresentablePowersOfTen.toList, IsUnsigned x := by
  unfold IsUnsigned
  decide +kernel

theorem isUnsigned_ofScientific (n : Nat) (s : Bool) (e : Nat) :
    IsUnsigned (Float.ofScientific n s e) := by
  -- Short numbers take their power of ten from a table, all others are rounded once.
  unfold Float.ofScientific
  split
  · next h =>
    have he : e < Float.exactlyRepresentablePowersOfTen.size := Nat.lt_succ_of_le h.2
    have hpower := isUnsigned_powersOfTen _ (Array.getElem_mem_toList he)
    cases s
    · exact (isUnsigned_toFloat _).mul hpower
    · exact (isUnsigned_toFloat _).div hpower
  · exact isUnsigned_pack (signOf_ofScientific _ _ _)

theorem IsUnsigned.isNegative {x : Float} (h : IsUnsigned x) : isNegative x = false := by
  have hbit : (@unpackSign Format.binary64 x.toBits.toBitVec).toNat = 0 := by
    rw [h]
    rfl
  have hlt := x.toBits.toNat_lt
  rw [unpackSign, BitVec.toNat_cast, BitVec.extractLsb_toNat, Nat.shiftRight_eq_div_pow] at hbit
  change x.toBits.toNat / 2 ^ 63 % 2 = 0 at hbit
  rw [Decimal.isNegative, decide_eq_false_iff_not]
  omega

/-! ## Reading -/

theorem isUnsigned_nearest (ds : List Char) (point : Int) : IsUnsigned (nearest ds point) := by
  unfold nearest
  dsimp only
  split
  · exact isUnsigned_ofScientific 0 false 0
  · split
    · exact isUnsigned_ofScientific _ _ _
    · split <;> exact isUnsigned_ofScientific _ _ _

/-- What is read without a sign is infinite, no number, or the double nearest to a decimal. -/
theorem unsigned?_cases {cs : List Char} {x : Float} (h : unsigned? cs = some x) :
    x = Float.ofScientific 1 false 400 ∨
    (cs.map Char.toLower = "nan".toList ∧ x = 0.0 / 0.0) ∨
    ∃ ds point, x = nearest ds point := by
  have hdigits : ∀ (whole : List Char) (p : List Char × List Char),
      (if whole.isEmpty && p.1.isEmpty then none
        else (exponentPart? p.2).map (ofDigits whole p.1)) = some x →
      ∃ ds point, x = nearest ds point := by
    intro whole p hp
    split at hp
    · cases hp
    · obtain ⟨e, -, rfl⟩ := Option.map_eq_some_iff.1 hp
      exact ⟨_, _, rfl⟩
  unfold unsigned? at h
  dsimp only at h
  split at h
  · exact .inl (Option.some.inj h).symm
  · split at h
    · next hword => exact .inr (.inl ⟨hword, (Option.some.inj h).symm⟩)
    · exact .inr (.inr (hdigits _ _ h))

/-- A number that is read without a sign has a clear sign bit. -/
theorem isUnsigned_of_unsigned? {cs : List Char} {x : Float} (h : unsigned? cs = some x) :
    IsUnsigned x := by
  rcases unsigned?_cases h with rfl | ⟨-, rfl⟩ | ⟨ds, point, rfl⟩
  · exact isUnsigned_ofScientific _ _ _
  · exact (isUnsigned_ofScientific _ _ _).div (isUnsigned_ofScientific _ _ _)
  · exact isUnsigned_nearest _ _

theorem isUnsigned_of_read? {cs : List Char} {x : Float} (hsign : (signed cs).1 = false)
    (h : read? cs = some x) : IsUnsigned x := by
  unfold read? at h
  dsimp only at h
  rw [hsign] at h
  obtain ⟨y, hy, rfl⟩ := Option.map_eq_some_iff.1 h
  exact isUnsigned_of_unsigned? hy

/-! ## Writing -/

theorem mem_laidOut {ds : List Char} {point : Int} (hds : ∀ c ∈ ds, c.isDigit = true) {c : Char}
    (hc : c ∈ laidOut [] ds point) : c.isDigit = true ∨ c = '.' := by
  unfold laidOut at hc
  split at hc
  · simp only [List.cons_append, List.mem_cons, List.mem_append, List.mem_replicate] at hc
    rcases hc with rfl | rfl | ⟨-, rfl⟩ | hc
    · exact .inl rfl
    · exact .inr rfl
    · exact .inl rfl
    · exact .inl (hds c hc)
  · split at hc
    · simp only [List.append_nil, List.mem_append, List.mem_replicate] at hc
      rcases hc with hc | ⟨-, rfl⟩
      · exact .inl (hds c hc)
      · exact .inl rfl
    · simp only [List.mem_append, List.mem_cons] at hc
      rcases hc with hc | rfl | hc
      · exact .inl (hds c (List.mem_of_mem_take hc))
      · exact .inr rfl
      · exact .inl (hds c (List.mem_of_mem_drop hc))

theorem laidOut_ne_nil (ds : List Char) (point : Int) : laidOut [] ds point ≠ [] := by
  unfold laidOut
  split
  · simp
  · split
    · intro h
      have hlength := congrArg List.length h
      simp only [List.length_append, List.length_replicate, List.length_nil] at hlength
      omega
    · simp

theorem isFinite_iff {x : Float} : x.isFinite = true ↔ x.isNaN = false ∧ x.isInf = false := by
  show x.toModel.unpack.isFinite = true ↔
    x.toModel.unpack.isNaN = false ∧ x.toModel.unpack.isInf = false
  cases x.toModel.unpack with
  | zero s => exact ⟨fun _ => ⟨rfl, rfl⟩, fun _ => rfl⟩
  | finite s m e hm => exact ⟨fun _ => ⟨rfl, rfl⟩, fun _ => rfl⟩
  | infinity s => exact ⟨nofun, nofun⟩
  | notANumber => exact ⟨nofun, nofun⟩

/-- A double that is not finite and whose sign bit is clear is written as a word. -/
theorem text_of_not_isFinite {x : Float} (hfinite : ¬ x.isFinite = true) (h : IsUnsigned x) :
    text x = "NaN" ∨ text x = "inf" := by
  unfold text
  rw [h.isNegative, if_neg Bool.false_ne_true]
  cases hnan : x.isNaN with
  | true => exact .inl rfl
  | false =>
    cases hinf : x.isInf with
    | true => exact .inr rfl
    | false => exact absurd (isFinite_iff.2 ⟨hnan, hinf⟩) hfinite

/-- The size of a finite double, as it is written. -/
def writtenSize (x : Float) : List Char :=
  let v := Magnitude.ofFloat x
  if v.significand = 0 then ['0'] else plain.size v

/-- A finite double is written with a minus, or none, and its size. -/
theorem toList_text_of_isFinite {x : Float} (hfinite : x.isFinite = true) :
    (text x).toList = if isNegative x then '-' :: writtenSize x else writtenSize x := by
  have hnumber := isFinite_iff.1 hfinite
  unfold text
  rw [hnumber.1, hnumber.2]
  exact String.toList_ofList

theorem writtenSize_chars (x : Float) :
    writtenSize x ≠ [] ∧ ∀ c ∈ writtenSize x, c.isDigit = true ∨ c = '.' := by
  unfold writtenSize
  dsimp only
  split
  · exact ⟨by simp, by simp⟩
  · have hdigits : ∀ c ∈ digits ((Magnitude.ofFloat x).shortest plain.tie).digits,
        c.isDigit = true :=
      fun c hc => Nat.isDigit_of_mem_toDigits (by decide) (by decide) hc
    exact ⟨laidOut_ne_nil _ _, fun c hc => mem_laidOut hdigits hc⟩

/-- A finite double whose sign bit is clear is written with digits and points. -/
theorem text_of_isFinite {x : Float} (hfinite : x.isFinite = true) (h : IsUnsigned x) :
    (text x).toList ≠ [] ∧ ∀ c ∈ (text x).toList, c.isDigit = true ∨ c = '.' := by
  rw [toList_text_of_isFinite hfinite, h.isNegative, if_neg Bool.false_ne_true]
  exact writtenSize_chars x

end QuantitySurvey.Decimal
