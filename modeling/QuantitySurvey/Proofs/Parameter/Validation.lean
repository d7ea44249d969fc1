import QuantitySurvey.Parameter.Schema

/-! # What validation accepts

Parameters are accepted if every required name is supplied and every supplied value passes every
declaration of its name, of which there may be several.

* `validate_eq_ok_iff`: the parameters that a schema accepts.
* `exists_reading_of_check`: a value that passes as a number or as an integer has a numeric reading.
-/

set_option autoImplicit false

namespace QuantitySurvey.Parameter

namespace Spec

variable {s : Spec} {v : Value}

theorem check_eq_ok_iff : s.check v = .ok () ↔ s.violation? v = none := by
  unfold check
  cases s.violation? v <;> simp

/-- Kinds whose values are numbers. -/
def IsNumeric (s : Spec) : Prop := s.kind = .number ∨ s.kind = .integer

theorem exists_reading_of_check (h : s.check v = .ok ()) (hkind : s.IsNumeric) :
    ∃ x, v.asNumber? = some x := by
  rw [check_eq_ok_iff] at h
  cases hv : v.asNumber? with
  | some x => exact ⟨x, rfl⟩
  | none =>
    exfalso
    rcases hkind with hkind | hkind
    · simp only [violation?, reading, hkind, hv, reduceCtorEq] at h
    · simp only [violation?, reading, hkind, hv, reduceCtorEq] at h

end Spec

namespace Schema

variable {s : Schema} {p : Parameters}

theorem checkRequired_eq_ok_iff :
    s.checkRequired p = .ok () ↔ ∀ n ∈ s.required, p.contains n = true := by
  have hmissing : s.missing p = [] ↔ ∀ n ∈ s.required, p.contains n = true := by
    simp [missing, List.filter_eq_nil_iff]
  rw [← hmissing]
  unfold checkRequired
  cases s.missing p <;> simp

theorem checkSpecs_eq_ok_iff {specs : List Spec} :
    checkSpecs p specs = .ok () ↔
      ∀ spec ∈ specs, ∀ v, p.find? spec.name = some v → spec.check v = .ok () := by
  induction specs with
  | nil => simp [checkSpecs]
  | cons spec specs ih =>
    rw [checkSpecs, List.forall_mem_cons]
    cases hfind : p.find? spec.name with
    | none => simpa using ih
    | some v =>
      cases hcheck : spec.check v with
      | error e => simp [hcheck]
      | ok u => simpa [hcheck] using ih

/-- A schema accepts what has every required name, and only values that pass where they are
declared. -/
theorem validate_eq_ok_iff :
    s.validate p = .ok () ↔ (∀ n ∈ s.required, p.contains n = true) ∧
      ∀ spec ∈ s.properties, ∀ v, p.find? spec.name = some v → spec.check v = .ok () := by
  rw [← checkRequired_eq_ok_iff, ← checkSpecs_eq_ok_iff]
  unfold validate checkValues
  cases s.checkRequired p with
  | error e => simp
  | ok u => simp

/-- A required name that is declared as a number has one. -/
theorem exists_number_of_validate (h : s.validate p = .ok ()) {n : String} (hn : n ∈ s.required)
    {spec : Spec} (hspec : spec ∈ s.properties) (hname : spec.name = n) (hkind : spec.IsNumeric) :
    ∃ v x, p.find? n = some v ∧ v.asNumber? = some x := by
  obtain ⟨hrequired, hvalues⟩ := validate_eq_ok_iff.1 h
  obtain ⟨v, hv⟩ := Option.isSome_iff_exists.1 (hrequired n hn)
  obtain ⟨x, hx⟩ := Spec.exists_reading_of_check (hvalues spec hspec v (hname ▸ hv)) hkind
  exact ⟨v, x, hv, hx⟩

end Schema

end QuantitySurvey.Parameter
