import QuantitySurvey.Proofs.Decimal.Order
import QuantitySurvey.Proofs.Parameter.Validation

/-! # What is reported of parameters

A declaration asks for a kind, for bounds and for a rule. Validation reports all required names
that are missing, and if there are none, the first declaration that a value breaks and how. What is
let pass has the kind and keeps the rule. It keeps a bound if the two can be compared: a value that
is no number, or a bound that is none, is not noticed.

* `breaks_of_violation?`, `violation?_eq_none_iff`: the check of one value.
* `exists_first_of_checkSpecs`: the check of all of them stops at the first that is refused.
* `validate_reports`: what validation reports.
-/

set_option autoImplicit false

namespace QuantitySurvey.Parameter

open Decimal (AreNumbers areNumbers_of_lt le_iff_not_lt)

/-! ## What declarations ask for -/

def Kind.Fits : Kind → Value → Prop
  | .number, v => ∃ x, v.asNumber? = some x
  | .integer, v => ∃ x, v.asNumber? = some x ∧ isWhole x = true
  | .text, _ => True

def Rule.Holds : Rule → Value → Prop
  | .positive, v => ∃ x, v.asNumber? = some x ∧ 0 < x
  | .nonNegative, v => ∃ x, v.asNumber? = some x ∧ 0 ≤ x
  | .dimensions, v => ∃ text d, v.text? = some text ∧ Measure.Dimensions.read? text = some d

namespace Spec

variable {s : Spec} {v : Value}

/-- A value is what a declaration asks for. -/
structure IsMetBy (s : Spec) (v : Value) : Prop where
  kind : s.kind.Fits v
  minimum : ∀ x ∈ v.asNumber?, ∀ m ∈ s.minimum, m ≤ x
  maximum : ∀ x ∈ v.asNumber?, ∀ m ∈ s.maximum, x ≤ m
  rule : ∀ r ∈ s.rule, r.Holds v

/-- The same, but a bound counts only if it compares with the value. -/
structure Admits (s : Spec) (v : Value) : Prop where
  kind : s.kind.Fits v
  minimum : ∀ x ∈ v.asNumber?, ∀ m ∈ s.minimum, AreNumbers m x → m ≤ x
  maximum : ∀ x ∈ v.asNumber?, ∀ m ∈ s.maximum, AreNumbers x m → x ≤ m
  rule : ∀ r ∈ s.rule, r.Holds v

/-- The numeric reading of a value compares with the bounds of a declaration. -/
structure Compares (s : Spec) (v : Value) : Prop where
  minimum : ∀ x ∈ v.asNumber?, ∀ m ∈ s.minimum, AreNumbers m x
  maximum : ∀ x ∈ v.asNumber?, ∀ m ∈ s.maximum, AreNumbers x m

theorem isMetBy_iff : s.IsMetBy v ↔ s.Admits v ∧ s.Compares v := by
  constructor
  · intro h
    have hminimum : ∀ x ∈ v.asNumber?, ∀ m ∈ s.minimum, AreNumbers m x :=
      fun x hx m hm => (le_iff_not_lt.1 (h.minimum x hx m hm)).1
    have hmaximum : ∀ x ∈ v.asNumber?, ∀ m ∈ s.maximum, AreNumbers x m :=
      fun x hx m hm => (le_iff_not_lt.1 (h.maximum x hx m hm)).1
    exact ⟨⟨h.kind, fun x hx m hm _ => h.minimum x hx m hm, fun x hx m hm _ => h.maximum x hx m hm,
      h.rule⟩, ⟨hminimum, hmaximum⟩⟩
  · rintro ⟨h, hcompares⟩
    exact ⟨h.kind, fun x hx m hm => h.minimum x hx m hm (hcompares.minimum x hx m hm),
      fun x hx m hm => h.maximum x hx m hm (hcompares.maximum x hx m hm), h.rule⟩

/-- How a value breaks a declaration. -/
inductive Breaks (s : Spec) (v : Value) : Violation → Prop where
  | notNumber (hkind : s.kind = .number) (h : v.asNumber? = none) : Breaks s v .notNumber
  | notInteger (hkind : s.kind = .integer) (h : ∀ x ∈ v.asNumber?, isWhole x = false) :
      Breaks s v .notInteger
  | below {x m : Float} (hx : v.asNumber? = some x) (hm : s.minimum = some m) (h : x < m) :
      Breaks s v (.below m)
  | above {x m : Float} (hx : v.asNumber? = some x) (hm : s.maximum = some m) (h : m < x) :
      Breaks s v (.above m)
  | notPositive (hrule : s.rule = some .positive) (h : ¬ Rule.positive.Holds v) :
      Breaks s v .notPositive
  | negative (hrule : s.rule = some .nonNegative) (h : ¬ Rule.nonNegative.Holds v) :
      Breaks s v .negative
  | notDimensions (hrule : s.rule = some .dimensions) (h : ¬ Rule.dimensions.Holds v) :
      Breaks s v .notDimensions

theorem Breaks.not_admits {e : Violation} (h : s.Breaks v e) : ¬ s.Admits v := by
  intro ha
  have hkind := ha.kind
  cases h with
  | notNumber hs h =>
    rw [hs] at hkind
    obtain ⟨x, hx⟩ := hkind
    rw [h] at hx
    cases hx
  | notInteger hs h =>
    rw [hs] at hkind
    obtain ⟨x, hx, hwhole⟩ := hkind
    rw [h x hx] at hwhole
    cases hwhole
  | below hx hm h =>
    exact (le_iff_not_lt.1 (ha.minimum _ hx _ hm (areNumbers_of_lt h).symm)).2 h
  | above hx hm h =>
    exact (le_iff_not_lt.1 (ha.maximum _ hx _ hm (areNumbers_of_lt h).symm)).2 h
  | notPositive hs h => exact h (ha.rule _ hs)
  | negative hs h => exact h (ha.rule _ hs)
  | notDimensions hs h => exact h (ha.rule _ hs)

/-! ## The check of one value -/

theorem breaks_of_reading {e : Violation} (h : s.reading v = .error e) : s.Breaks v e := by
  unfold reading at h
  split at h
  · cases h
  · next hkind hv =>
    cases h
    exact .notNumber hkind hv
  · next x hkind hv =>
    split at h
    · cases h
    · next hwhole =>
      cases h
      refine .notInteger hkind fun y hy => ?_
      rw [hv] at hy
      cases hy
      exact Bool.not_eq_true _ ▸ hwhole
  · next hkind hv =>
    cases h
    exact .notInteger hkind (by rw [hv]; nofun)
  · cases h

theorem fits_of_reading {x? : Option Float} (h : s.reading v = .ok x?) :
    s.kind.Fits v ∧ x? = v.asNumber? := by
  unfold reading at h
  split at h
  · next x hkind hv =>
    cases h
    rw [hkind]
    exact ⟨⟨x, hv⟩, hv.symm⟩
  · cases h
  · next x hkind hv =>
    split at h
    · next hwhole =>
      cases h
      rw [hkind]
      exact ⟨⟨x, hv, hwhole⟩, hv.symm⟩
    · cases h
  · cases h
  · next hkind =>
    cases h
    rw [hkind]
    exact ⟨trivial, rfl⟩

theorem breaks_of_boundViolation? {x : Float} {e : Violation} (hx : v.asNumber? = some x)
    (h : s.boundViolation? x = some e) : s.Breaks v e := by
  unfold boundViolation? at h
  split at h
  · next m hm =>
    cases h
    obtain ⟨hm, hlt⟩ := Option.filter_eq_some_iff.1 hm
    exact .below hx hm (of_decide_eq_true hlt)
  · next m _ hm =>
    cases h
    obtain ⟨hm, hlt⟩ := Option.filter_eq_some_iff.1 hm
    exact .above hx hm (of_decide_eq_true hlt)
  · cases h

theorem not_lt_of_boundViolation? {x : Float} (h : s.boundViolation? x = none) :
    (∀ m ∈ s.minimum, ¬ x < m) ∧ ∀ m ∈ s.maximum, ¬ m < x := by
  unfold boundViolation? at h
  split at h
  · cases h
  · cases h
  · next hminimum hmaximum =>
    exact ⟨fun m hm hlt => Option.filter_eq_none_iff.1 hminimum m hm (decide_eq_true hlt),
      fun m hm hlt => Option.filter_eq_none_iff.1 hmaximum m hm (decide_eq_true hlt)⟩

theorem holds_positive_iff : Rule.positive.Holds v ↔ v.asNumber?.any (0 < ·) = true := by
  simp [Rule.Holds, Option.any_eq_true]

theorem holds_nonNegative_iff : Rule.nonNegative.Holds v ↔ v.asNumber?.any (0 ≤ ·) = true := by
  simp [Rule.Holds, Option.any_eq_true]

theorem holds_dimensions_iff :
    Rule.dimensions.Holds v ↔ (v.text?.bind Measure.Dimensions.read?).isSome = true := by
  rw [Option.isSome_iff_exists]
  simp only [Option.bind_eq_some_iff]
  exact ⟨fun ⟨text, d, htext, hd⟩ => ⟨d, text, htext, hd⟩,
    fun ⟨d, text, htext, hd⟩ => ⟨text, d, htext, hd⟩⟩

theorem breaks_of_ruleViolation? {e : Violation}
    (h : s.ruleViolation? v v.asNumber? = some e) : s.Breaks v e := by
  unfold ruleViolation? at h
  split at h
  · cases h
  · next hrule =>
    split at h
    · cases h
    · next hfails =>
      cases h
      exact .notPositive hrule (hfails ∘ holds_positive_iff.1)
  · next hrule =>
    split at h
    · cases h
    · next hfails =>
      cases h
      exact .negative hrule (hfails ∘ holds_nonNegative_iff.1)
  · next hrule =>
    split at h
    · cases h
    · next hfails =>
      cases h
      exact .notDimensions hrule (hfails ∘ holds_dimensions_iff.1)

theorem holds_of_ruleViolation? (h : s.ruleViolation? v v.asNumber? = none) :
    ∀ r ∈ s.rule, r.Holds v := by
  intro r hr
  have hrule : s.rule = some r := hr
  unfold ruleViolation? at h
  rw [hrule] at h
  have hite : ∀ {c : Prop} [Decidable c] {e : Violation}, (if c then none else some e) = none → c :=
    fun hc => Classical.byContradiction fun hfails => by simp [hfails] at hc
  cases r with
  | positive => exact holds_positive_iff.2 (hite h)
  | nonNegative => exact holds_nonNegative_iff.2 (hite h)
  | dimensions => exact holds_dimensions_iff.2 (hite h)

/-- The violation that is reported of a value is one of its violations. -/
theorem breaks_of_violation? {e : Violation} (h : s.violation? v = some e) : s.Breaks v e := by
  unfold violation? at h
  cases hreading : s.reading v with
  | error e' =>
    rw [hreading] at h
    cases h
    exact breaks_of_reading hreading
  | ok x? =>
    rw [hreading] at h
    obtain ⟨-, rfl⟩ := fits_of_reading hreading
    rcases Option.or_eq_some_iff.1 h with hbound | ⟨-, hrule⟩
    · obtain ⟨x, hx, hbound⟩ := Option.bind_eq_some_iff.1 hbound
      exact breaks_of_boundViolation? hx hbound
    · exact breaks_of_ruleViolation? hrule

theorem admits_of_violation? (h : s.violation? v = none) : s.Admits v := by
  unfold violation? at h
  cases hreading : s.reading v with
  | error e =>
    rw [hreading] at h
    cases h
  | ok x? =>
    rw [hreading] at h
    obtain ⟨hkind, rfl⟩ := fits_of_reading hreading
    obtain ⟨hbound, hrule⟩ := Option.or_eq_none_iff.1 h
    have hbounds : ∀ x ∈ v.asNumber?, s.boundViolation? x = none :=
      fun x hx => Option.bind_eq_none_iff.1 hbound x hx
    exact ⟨hkind,
      fun x hx m hm hnumbers =>
        le_iff_not_lt.2 ⟨hnumbers, (not_lt_of_boundViolation? (hbounds x hx)).1 m hm⟩,
      fun x hx m hm hnumbers =>
        le_iff_not_lt.2 ⟨hnumbers, (not_lt_of_boundViolation? (hbounds x hx)).2 m hm⟩,
      holds_of_ruleViolation? hrule⟩

theorem violation?_eq_none_iff : s.violation? v = none ↔ s.Admits v := by
  refine ⟨admits_of_violation?, fun hadmits => ?_⟩
  cases h : s.violation? v with
  | none => rfl
  | some e => exact absurd hadmits (breaks_of_violation? h).not_admits

theorem check_eq_ok_iff_admits : s.check v = .ok () ↔ s.Admits v :=
  check_eq_ok_iff.trans violation?_eq_none_iff

/-- A value that is refused breaks its declaration, and the failure says how. -/
theorem exists_breaks_of_check {f : Failure} (h : s.check v = .error f) :
    ∃ e, s.Breaks v e ∧ f = .invalidParameter s.name v.echo e.reason := by
  unfold check at h
  split at h
  · cases h
  · next e he =>
    cases h
    exact ⟨e, breaks_of_violation? he, rfl⟩

end Spec

/-! ## The check of all values -/

namespace Schema

variable {s : Schema} {p : Parameters}

/-- A declaration is the first in a list whose value fails some requirement. -/
def IsFirst (p : Parameters) (asks : Spec → Value → Prop) (specs : List Spec) (spec : Spec)
    (v : Value) : Prop :=
  ∃ before after, specs = before ++ spec :: after ∧
    (∀ earlier ∈ before, ∀ w ∈ p.find? earlier.name, asks earlier w) ∧
    p.find? spec.name = some v ∧ ¬ asks spec v

theorem IsFirst.cons {asks : Spec → Value → Prop} {specs : List Spec} {earlier spec : Spec}
    {v : Value} (hearlier : ∀ w ∈ p.find? earlier.name, asks earlier w)
    (h : IsFirst p asks specs spec v) : IsFirst p asks (earlier :: specs) spec v := by
  obtain ⟨before, after, rfl, hbefore, hv, hfails⟩ := h
  exact ⟨earlier :: before, after, rfl, List.forall_mem_cons.2 ⟨hearlier, hbefore⟩, hv, hfails⟩

theorem IsFirst.congr {asks asks' : Spec → Value → Prop} {specs : List Spec} {spec : Spec} {v : Value}
    (hsame : ∀ spec ∈ specs, ∀ v ∈ p.find? spec.name, (asks spec v ↔ asks' spec v))
    (h : IsFirst p asks specs spec v) : IsFirst p asks' specs spec v := by
  obtain ⟨before, after, rfl, hbefore, hv, hfails⟩ := h
  refine ⟨before, after, rfl, fun earlier hearlier w hw => ?_, hv, ?_⟩
  · exact (hsame earlier (List.mem_append_left _ hearlier) w hw).1 (hbefore earlier hearlier w hw)
  · exact hfails ∘ (hsame spec (List.mem_append_right _ List.mem_cons_self) v hv).2

theorem exists_first_of_checkSpecs {specs : List Spec} {f : Failure}
    (h : checkSpecs p specs = .error f) :
    ∃ spec v e, IsFirst p Spec.Admits specs spec v ∧ spec.Breaks v e ∧
      f = .invalidParameter spec.name v.echo e.reason := by
  induction specs with
  | nil => cases h
  | cons spec specs ih =>
    rw [checkSpecs] at h
    cases hfind : p.find? spec.name with
    | none =>
      rw [hfind] at h
      obtain ⟨later, v, e, hfirst, he⟩ := ih h
      refine ⟨later, v, e, hfirst.cons fun w hw => ?_, he⟩
      rw [hfind] at hw
      cases hw
    | some v =>
      rw [hfind] at h
      cases hcheck : spec.check v with
      | ok u =>
        simp only [hcheck] at h
        obtain ⟨later, w, e, hfirst, he⟩ := ih h
        refine ⟨later, w, e, hfirst.cons fun x hx => ?_, he⟩
        rw [hfind] at hx
        cases hx
        exact Spec.check_eq_ok_iff_admits.1 hcheck
      | error g =>
        simp only [hcheck] at h
        cases h
        obtain ⟨e, he, hg⟩ := Spec.exists_breaks_of_check hcheck
        have hnone : ∀ earlier ∈ [], ∀ w ∈ p.find? earlier.name, Spec.Admits earlier w :=
          fun earlier hearlier => absurd hearlier List.not_mem_nil
        exact ⟨spec, v, e, ⟨[], specs, rfl, hnone, hfind, he.not_admits⟩, he, hg⟩

/-! ## Reports -/

/-- What is to be reported of parameters, if declarations ask for something of their values: nothing
if all required names are supplied and all values are what is asked for, the required names that are
missing if there are any, and otherwise the first declaration whose value is not what it asks for,
with one of the ways in which it breaks it. -/
def Reports (s : Schema) (p : Parameters) (asks : Spec → Value → Prop) : Except Failure Unit → Prop
  | .ok _ => (∀ n ∈ s.required, p.contains n = true) ∧
      ∀ spec ∈ s.properties, ∀ v ∈ p.find? spec.name, asks spec v
  | .error f =>
    let missing := s.required.filter fun n => (p.find? n).isNone
    (missing ≠ [] ∧ f = .missingParameters missing) ∨
      (missing = [] ∧ ∃ spec v e, IsFirst p asks s.properties spec v ∧ spec.Breaks v e ∧
        f = .invalidParameter spec.name v.echo e.reason)

theorem Reports.congr {asks asks' : Spec → Value → Prop} {r : Except Failure Unit}
    (hsame : ∀ spec ∈ s.properties, ∀ v ∈ p.find? spec.name, (asks spec v ↔ asks' spec v))
    (h : s.Reports p asks r) : s.Reports p asks' r := by
  cases r with
  | ok u => exact ⟨h.1, fun spec hspec v hv => (hsame spec hspec v hv).1 (h.2 spec hspec v hv)⟩
  | error f =>
    rcases h with hmissing | ⟨hmissing, spec, v, e, hfirst, he⟩
    · exact .inl hmissing
    · exact .inr ⟨hmissing, spec, v, e, hfirst.congr hsame, he⟩

theorem missing_eq (s : Schema) (p : Parameters) :
    s.missing p = s.required.filter fun n => (p.find? n).isNone := by
  simp [missing, SortedMap.contains]

theorem reports_validate (s : Schema) (p : Parameters) : s.Reports p Spec.Admits (s.validate p) := by
  cases h : s.validate p with
  | ok u =>
    obtain ⟨hrequired, hvalues⟩ := validate_eq_ok_iff.1 h
    exact ⟨hrequired, fun spec hspec v hv =>
      Spec.check_eq_ok_iff_admits.1 (hvalues spec hspec v hv)⟩
  | error f =>
    rw [Reports, ← missing_eq]
    unfold validate checkRequired at h
    cases hmissing : s.missing p with
    | nil =>
      simp only [hmissing] at h
      exact .inr ⟨rfl, exists_first_of_checkSpecs h⟩
    | cons n names =>
      simp only [hmissing] at h
      exact .inl ⟨List.cons_ne_nil _ _, (Except.error.inj h).symm⟩

/-- Validation reports what does not pass the comparisons. That is what does not meet the
declarations if all values that are declared compare with their bounds; and where validation reports
nothing, only if they do. -/
theorem validate_reports (s : Schema) (p : Parameters) :
    s.Reports p Spec.Admits (s.validate p) ∧
    ((∀ spec ∈ s.properties, ∀ v ∈ p.find? spec.name, spec.Compares v) →
      s.Reports p Spec.IsMetBy (s.validate p)) ∧
    (s.validate p = .ok () → (s.Reports p Spec.IsMetBy (s.validate p) ↔
      ∀ spec ∈ s.properties, ∀ v ∈ p.find? spec.name, spec.Compares v)) := by
  have hreports := reports_validate s p
  refine ⟨hreports, fun hcompares => ?_, fun hok => ?_⟩
  · refine hreports.congr fun spec hspec v hv => ?_
    rw [Spec.isMetBy_iff, and_iff_left (hcompares spec hspec v hv)]
  · rw [hok] at hreports ⊢
    obtain ⟨hrequired, hadmitted⟩ := hreports
    constructor
    · rintro ⟨-, hmet⟩ spec hspec v hv
      exact (Spec.isMetBy_iff.1 (hmet spec hspec v hv)).2
    · intro hcompares
      exact ⟨hrequired, fun spec hspec v hv =>
        Spec.isMetBy_iff.2 ⟨hadmitted spec hspec v hv, hcompares spec hspec v hv⟩⟩

def depths : Schema where
  properties := [{ name := "depth", kind := .number, minimum := some 0 }]
  required := ["depth"]

def depthOf (v : Value) : Parameters := SortedMap.empty.insert "depth" v

/-- What is no number passes the bound that a number fails. -/
theorem sample_bound_unnoticed :
    depths.validate (depthOf (.number (0.0 / 0.0))) = .ok () ∧
      ¬ depths.Reports (depthOf (.number (0.0 / 0.0))) Spec.IsMetBy (.ok ()) ∧
      depths.validate (depthOf (.number (-1))) =
        .error (.invalidParameter "depth" "-1" "must be at least 0") ∧
      depths.Reports (depthOf (.number (-1))) Spec.IsMetBy
        (.error (.invalidParameter "depth" "-1" "must be at least 0")) := by
  have hnan : depths.validate (depthOf (.number (0.0 / 0.0))) = .ok () := by decide +kernel
  have hlow : depths.validate (depthOf (.number (-1))) =
      .error (.invalidParameter "depth" "-1" "must be at least 0") := by decide +kernel
  refine ⟨hnan, fun hreports => ?_, hlow, ?_⟩
  · have hiff := (validate_reports depths (depthOf (.number (0.0 / 0.0)))).2.2 hnan
    rw [hnan] at hiff
    have hcompares := hiff.1 hreports _ (List.mem_singleton_self _) _ rfl
    have hnumbers := hcompares.minimum _ rfl 0 rfl
    exact absurd hnumbers (by decide +kernel)
  · rw [← hlow]
    refine (validate_reports depths _).2.1 fun spec hspec v hv => ?_
    obtain rfl := List.mem_singleton.1 hspec
    cases hv
    refine ⟨fun x hx m hm => ?_, fun x hx m hm => by cases hm⟩
    cases hx
    cases hm
    decide +kernel

end Schema

end QuantitySurvey.Parameter
