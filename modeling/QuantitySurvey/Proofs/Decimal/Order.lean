import QuantitySurvey.Proofs.Decimal.Nonnegative

/-! # Comparing doubles

Two doubles that are numbers compare one way or the other. What is no number compares with nothing,
so a test that asks for a number on the wrong side of a bound does not find it.

* `compare_swap`: the comparison from the other side.
* `le_iff_not_lt`: a number is at most another one, or the other one is less.
-/

set_option autoImplicit false

namespace QuantitySurvey.Decimal

open Float.Model (UnpackedFloat)

/-! ## Unpacked numbers -/

theorem compare_swap (a b : UnpackedFloat) : b.compare a = (a.compare b).map Ordering.swap := by
  have hsize : ∀ (e e' : Int) (m m' : Nat),
      (compare e' e).then (compare m' m) = ((compare e e').then (compare m m')).swap := by
    intro e e' m m'
    rw [Ordering.swap_then, Int.compare_swap, Nat.compare_swap]
  cases a with
  | notANumber => cases b <;> rfl
  | infinity s => cases b with
    | infinity t => cases s <;> cases t <;> rfl
    | _ => cases s <;> rfl
  | zero s => cases b with
    | infinity t => cases t <;> rfl
    | finite t m e hm => cases t <;> rfl
    | _ => rfl
  | finite s m e hm => cases b with
    | infinity t => cases s <;> cases t <;> rfl
    | zero t => cases s <;> rfl
    | notANumber => cases s <;> rfl
    | finite t m' e' hm' =>
      cases s with
      | positive => cases t with
        | positive => exact congrArg some (hsize e e' m m')
        | negative => rfl
      | negative => cases t with
        | positive => rfl
        | negative => exact congrArg (fun o => some o.swap) (hsize e e' m m')

/-- Numbers compare, and nothing else does. -/
theorem isSome_compare_iff (a b : UnpackedFloat) :
    (a.compare b).isSome = true ↔ a.isNaN = false ∧ b.isNaN = false := by
  cases a with
  | notANumber => exact ⟨nofun, nofun⟩
  | infinity s => cases b with
    | notANumber => cases s <;> exact ⟨nofun, nofun⟩
    | infinity t => cases s <;> cases t <;> exact ⟨fun _ => ⟨rfl, rfl⟩, fun _ => rfl⟩
    | _ => cases s <;> exact ⟨fun _ => ⟨rfl, rfl⟩, fun _ => rfl⟩
  | zero s => cases b with
    | notANumber => exact ⟨nofun, nofun⟩
    | infinity t => cases t <;> exact ⟨fun _ => ⟨rfl, rfl⟩, fun _ => rfl⟩
    | finite t m e hm => cases t <;> exact ⟨fun _ => ⟨rfl, rfl⟩, fun _ => rfl⟩
    | zero t => exact ⟨fun _ => ⟨rfl, rfl⟩, fun _ => rfl⟩
  | finite s m e hm => cases b with
    | notANumber => cases s <;> exact ⟨nofun, nofun⟩
    | zero t => cases s <;> exact ⟨fun _ => ⟨rfl, rfl⟩, fun _ => rfl⟩
    | _ t => cases s <;> cases t <;> exact ⟨fun _ => ⟨rfl, rfl⟩, fun _ => rfl⟩

theorem isSome_compare_of_lt {a b : UnpackedFloat} (h : a.lt b = true) :
    (a.compare b).isSome = true := by
  unfold UnpackedFloat.lt at h
  rw [eq_of_beq h]
  rfl

theorem le_eq_not_lt (a b : UnpackedFloat) :
    a.le b = ((a.compare b).isSome && !b.lt a) := by
  unfold UnpackedFloat.le UnpackedFloat.lt
  rw [compare_swap a b]
  cases a.compare b with
  | none => rfl
  | some o => cases o <;> rfl

/-! ## Doubles -/

/-- Neither of two doubles is what is no number. -/
def AreNumbers (x y : Float) : Prop := x.isNaN = false ∧ y.isNaN = false

instance (x y : Float) : Decidable (AreNumbers x y) :=
  inferInstanceAs (Decidable (_ ∧ _))

theorem AreNumbers.symm {x y : Float} (h : AreNumbers x y) : AreNumbers y x := ⟨h.2, h.1⟩

theorem areNumbers_of_lt {x y : Float} (h : x < y) : AreNumbers x y :=
  (isSome_compare_iff _ _).1 (isSome_compare_of_lt (of_decide_eq_true h))

/-- One number is at most another, or the other is less. -/
theorem le_iff_not_lt {x y : Float} : x ≤ y ↔ AreNumbers x y ∧ ¬ y < x := by
  have hle : x ≤ y ↔ x.toModel.unpack.le y.toModel.unpack = true :=
    ⟨of_decide_eq_true, fun h => decide_eq_true h⟩
  have hlt : y < x ↔ y.toModel.unpack.lt x.toModel.unpack = true :=
    ⟨of_decide_eq_true, fun h => decide_eq_true h⟩
  rw [hle, hlt, le_eq_not_lt, Bool.and_eq_true, isSome_compare_iff, Bool.not_eq_true',
    Bool.not_eq_true]
  exact Iff.rfl

end QuantitySurvey.Decimal
