import QuantitySurvey.Proofs.Decimal.Unsigned

/-! # Numbers that are not negative

A decimal is read as a number, however it is rounded: only the word for it is read as what is no number.
No operation by which a decimal is computed gives what is no number, as none of them has an infinite or
zero operand on its right. A double whose sign bit is clear and that is a number is at least zero.

* `isNaN_pack`: what was packed is a number if it was one before.
* `isNaN_of_unsigned?`: decimals are numbers.
* `IsUnsigned.nonneg`: numbers without a sign are not negative.
-/

set_option autoImplicit false

namespace QuantitySurvey.Decimal

open Float.Model (Format UnpackedFloat)
open Float.Model.UnpackedFloat

/-! ## Unpacked numbers -/

section Unpacked

variable {spec : Format}

theorem isNaN_round (s : Sign) (mantissa : Nat) (exponent : Int) (accuracy : Accuracy) :
    (roundWithAccuracy spec s mantissa exponent accuracy).isNaN = false := by
  unfold roundWithAccuracy
  dsimp only
  split <;> rfl

/-- Neither zero nor infinite, and a number. -/
def isNonzero : UnpackedFloat → Bool
  | .finite .. => true
  | _ => false

theorem isNaN_mul {a b : UnpackedFloat} (ha : a.isNaN = false) (hb : isNonzero b = true) :
    (mul spec a b).isNaN = false := by
  cases b with
  | finite s m e hm =>
    cases a with
    | notANumber => cases ha
    | finite => exact isNaN_round _ _ _ _
    | _ => rfl
  | _ => cases hb

theorem isNaN_div {a b : UnpackedFloat} (ha : a.isNaN = false) (hb : isNonzero b = true) :
    (div spec a b).isNaN = false := by
  cases b with
  | finite s m e hm =>
    cases a with
    | notANumber => cases ha
    | finite => exact isNaN_round _ _ _ _
    | _ => rfl
  | _ => cases hb

theorem isNaN_ofNat (n : Nat) : (UnpackedFloat.ofNat spec n).isNaN = false := by
  unfold UnpackedFloat.ofNat UnpackedFloat.ofInt UnpackedFloat.normalize
  split
  · exact isNaN_round _ _ _ _
  · rfl
  · exact isNaN_round _ _ _ _

theorem isNaN_ofScientific (n : Nat) (e : Int) :
    (UnpackedFloat.ofScientific spec n e).isNaN = false := by
  unfold UnpackedFloat.ofScientific
  split
  · rfl
  · split
    · rfl
    · split
      · rfl
      · split
        · exact isNaN_mul rfl rfl
        · exact isNaN_div rfl rfl

/-! ## Packing -/

theorem isNaN_unpack {b : BitVec spec.numBits}
    (h : unpackExponent b = -1#_ → unpackMantissa b = 0#_) : (unpack spec b).isNaN = false := by
  unfold unpack
  dsimp only
  split
  · next hexponent =>
    rw [if_pos (h hexponent)]
    rfl
  · split
    · split <;> rfl
    · rfl

/-- The exponent of a finite number is not that of an infinite one. -/
theorem ofNat_ne_allOnes {bits n : Nat} (h : n + 1 < 2 ^ bits) :
    BitVec.ofNat bits n ≠ (-1#_ : BitVec bits) := by
  rw [BitVec.neg_one_eq_allOnes]
  intro heq
  have hvalue := congrArg BitVec.toNat heq
  rw [BitVec.toNat_ofNat, BitVec.toNat_allOnes, Nat.mod_eq_of_lt (by omega)] at hvalue
  omega

/-- What was packed is a number if it was one before. -/
theorem isNaN_pack {u : UnpackedFloat} (h : u.isNaN = false) :
    (unpack spec (pack spec u)).isNaN = false := by
  refine isNaN_unpack fun hexponent => ?_
  cases u with
  | notANumber => cases h
  | infinity s => exact unpackMantissa_packComponents
  | zero s => exact unpackMantissa_packComponents
  | finite s m e hm =>
    unfold pack at hexponent ⊢
    dsimp only at hexponent ⊢
    split
    · exact unpackMantissa_packComponents
    · next hsmall =>
      rw [if_neg hsmall] at hexponent
      exfalso
      split at hexponent
      · rw [unpackExponent_packComponents] at hexponent
        exact ofNat_ne_allOnes (by omega) hexponent
      · rw [unpackExponent_packComponents] at hexponent
        exact ofNat_ne_allOnes (Nat.one_lt_two_pow spec.he.ne') hexponent

end Unpacked

/-! ## Doubles -/

theorem isNaN_double {u : UnpackedFloat} (h : u.isNaN = false) :
    (⟨Float.Model.pack u⟩ : Float).isNaN = false :=
  @isNaN_pack Format.binary64 u h

theorem isNonzero_powersOfTen : ∀ x ∈ Float.exactlyRepresentablePowersOfTen.toList,
    isNonzero x.toModel.unpack = true := by
  decide +kernel

theorem isNaN_floatOfScientific (n : Nat) (s : Bool) (e : Nat) :
    (Float.ofScientific n s e).isNaN = false := by
  -- Short numbers take their power of ten from a table, all others are rounded once.
  unfold Float.ofScientific
  split
  · next h =>
    have he : e < Float.exactlyRepresentablePowersOfTen.size := Nat.lt_succ_of_le h.2
    have hpower := isNonzero_powersOfTen _ (Array.getElem_mem_toList he)
    have hmantissa : (n.toUInt64.toFloat).isNaN = false := isNaN_double (isNaN_ofNat _)
    cases s
    · exact isNaN_double (isNaN_mul hmantissa hpower)
    · exact isNaN_double (isNaN_div hmantissa hpower)
  · exact isNaN_double (isNaN_ofScientific _ _)

/-- A number whose sign bit is clear is not negative. -/
theorem IsUnsigned.nonneg {x : Float} (h : IsUnsigned x) (hnumber : x.isNaN = false) : 0 ≤ x := by
  have hzero : (0 : Float).toModel.unpack = .zero .positive := rfl
  have hsign := h.signOf
  have hle : (0 : Float).toModel.unpack.le x.toModel.unpack = true := by
    rw [hzero]
    cases hx : x.toModel.unpack with
    | notANumber =>
      have hnan : x.toModel.unpack.isNaN = false := hnumber
      rw [hx] at hnan
      cases hnan
    | zero s => rfl
    | infinity s =>
      obtain rfl : s = .positive := by rwa [hx] at hsign
      rfl
    | finite s m e hm =>
      obtain rfl : s = .positive := by rwa [hx] at hsign
      rfl
  exact decide_eq_true hle

/-! ## Reading -/

theorem isNaN_nearest (ds : List Char) (point : Int) : (nearest ds point).isNaN = false := by
  unfold nearest
  dsimp only
  split
  · exact isNaN_floatOfScientific 0 false 0
  · split
    · exact isNaN_floatOfScientific _ _ _
    · split <;> exact isNaN_floatOfScientific _ _ _

/-- What does not start with the letter of the word for it is no such word, but a number. -/
theorem isNaN_of_unsigned? {c : Char} {cs : List Char} {x : Float} (hc : c.toLower ≠ 'n')
    (h : unsigned? (c :: cs) = some x) : x.isNaN = false := by
  rcases unsigned?_cases h with rfl | ⟨hword, -⟩ | ⟨ds, point, rfl⟩
  · exact isNaN_floatOfScientific _ _ _
  · exact absurd (List.cons.inj hword).1 hc
  · exact isNaN_nearest _ _

end QuantitySurvey.Decimal
