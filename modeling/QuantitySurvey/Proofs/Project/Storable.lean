import QuantitySurvey.Project.Version
import QuantitySurvey.Proofs.Instant.RoundTrip

/-! # What documents can hold

A document has no way to write a double that is not finite, and it holds counts of 64 bits and
times that read back. `Project.IsStorable` asks this of everything in a project but the values of
traces, about which `Project.hasFiniteTraces` decides. A project that is built from finite numbers
has it: `Project.IsBuilt.isStorable`.
-/

set_option autoImplicit false

namespace QuantitySurvey

/-! ## Parameters -/

namespace Parameter

/-- A number is finite; a text may be anything. -/
def Value.IsFinite : Value → Prop
  | .number x => x.isFinite = true
  | .text _ => True

instance : ∀ v : Value, Decidable v.IsFinite
  | .number x => inferInstanceAs (Decidable (x.isFinite = true))
  | .text _ => .isTrue trivial

def AreFinite (p : Parameters) : Prop := ∀ v ∈ p.values, v.IsFinite

instance (p : Parameters) : Decidable (AreFinite p) :=
  inferInstanceAs (Decidable (∀ v ∈ p.values, v.IsFinite))

/-- The bounds are finite. -/
structure Spec.IsFinite (s : Spec) : Prop where
  minimum : ∀ x ∈ s.minimum, x.isFinite = true
  maximum : ∀ x ∈ s.maximum, x.isFinite = true

instance (s : Spec) : Decidable s.IsFinite :=
  decidable_of_iff ((∀ x ∈ s.minimum, x.isFinite = true) ∧ ∀ x ∈ s.maximum, x.isFinite = true)
    ⟨fun h => ⟨h.1, h.2⟩, fun h => ⟨h.minimum, h.maximum⟩⟩

end Parameter

/-! ## Times -/

/-- The text of the time in documents stands for it. -/
def Instant.IsStorable (t : Instant) : Prop := read? t.documentText = some t

instance (t : Instant) : Decidable t.IsStorable :=
  inferInstanceAs (Decidable (Instant.read? t.documentText = some t))

theorem Instant.IsCivil.isStorable {t : Instant} (h : t.IsCivil) : t.IsStorable :=
  read?_documentText h

/-! ## Traces -/

def Formula.Step.isFinite (s : Formula.Step) : Bool := s.value.isFinite

/-! ## Parts of projects -/

def Warning.IsFinite : Warning → Prop
  | .negative x => x.isFinite = true

instance : ∀ w : Warning, Decidable w.IsFinite
  | .negative x => inferInstanceAs (Decidable (x.isFinite = true))

structure CalculationResult.IsStorable (r : CalculationResult) : Prop where
  raw : r.raw.isFinite = true
  standardized : r.standardized.isFinite = true
  parameters : Parameter.AreFinite r.parameters
  warnings : ∀ w ∈ r.warnings, w.IsFinite
  calculatedAt : r.calculatedAt.IsStorable

instance (r : CalculationResult) : Decidable r.IsStorable :=
  decidable_of_iff (r.raw.isFinite = true ∧ r.standardized.isFinite = true ∧
      Parameter.AreFinite r.parameters ∧ (∀ w ∈ r.warnings, w.IsFinite) ∧
      r.calculatedAt.IsStorable)
    ⟨fun ⟨raw, standardized, parameters, warnings, calculatedAt⟩ =>
        ⟨raw, standardized, parameters, warnings, calculatedAt⟩,
      fun h => ⟨h.raw, h.standardized, h.parameters, h.warnings, h.calculatedAt⟩⟩

structure Quantity.IsStorable (q : Quantity) : Prop where
  value : q.value.isFinite = true
  warnings : ∀ w ∈ q.warnings, w.IsFinite
  result : q.result.IsStorable

instance (q : Quantity) : Decidable q.IsStorable :=
  decidable_of_iff (q.value.isFinite = true ∧ (∀ w ∈ q.warnings, w.IsFinite) ∧ q.result.IsStorable)
    ⟨fun ⟨value, warnings, result⟩ => ⟨value, warnings, result⟩,
      fun h => ⟨h.value, h.warnings, h.result⟩⟩

def Quantity.hasFiniteTrace (q : Quantity) : Bool := q.result.steps.all Formula.Step.isFinite

namespace Audit

def Outcome.IsStorable : Outcome → Prop
  | .success _ raw value _ => raw.isFinite = true ∧ value.isFinite = true
  | .failure .. => True

instance : ∀ o : Outcome, Decidable o.IsStorable
  | .success _ raw value _ =>
    inferInstanceAs (Decidable (raw.isFinite = true ∧ value.isFinite = true))
  | .failure .. => .isTrue trivial

structure Record.IsStorable (r : Record) : Prop where
  sequence : r.sequence < UInt64.size
  parameters : Parameter.AreFinite r.parameters
  outcome : r.outcome.IsStorable
  startedAt : r.startedAt.IsStorable
  durationMicros : r.durationMicros < UInt64.size

instance (r : Record) : Decidable r.IsStorable :=
  decidable_of_iff (r.sequence < UInt64.size ∧ Parameter.AreFinite r.parameters ∧
      r.outcome.IsStorable ∧ r.startedAt.IsStorable ∧ r.durationMicros < UInt64.size)
    ⟨fun ⟨sequence, parameters, outcome, startedAt, durationMicros⟩ =>
        ⟨sequence, parameters, outcome, startedAt, durationMicros⟩,
      fun h => ⟨h.sequence, h.parameters, h.outcome, h.startedAt, h.durationMicros⟩⟩

def Record.hasFiniteTrace (r : Record) : Bool := r.steps.all Formula.Step.isFinite

end Audit

def Assembly.IsStorable (a : Assembly) : Prop := ∀ s ∈ a.schema.properties, s.IsFinite

instance (a : Assembly) : Decidable a.IsStorable :=
  inferInstanceAs (Decidable (∀ s ∈ a.schema.properties, s.IsFinite))

def Element.IsStorable (e : Element) : Prop := Parameter.AreFinite e.parameters

instance (e : Element) : Decidable e.IsStorable :=
  inferInstanceAs (Decidable (Parameter.AreFinite e.parameters))

namespace Project

structure Meta.IsStorable (info : Meta) : Prop where
  version : Version.check info.version = .ok ()
  created : info.created.IsStorable
  modified : info.modified.IsStorable

/-- Everything but the traces can be written and read back. -/
structure IsStorable (p : Project) : Prop where
  info : p.info.IsStorable
  catalog : ∀ a ∈ p.catalog.assemblies, a.IsStorable
  elements : ∀ e ∈ p.elements.values, e.IsStorable
  quantities : ∀ q ∈ p.quantities, q.IsStorable
  auditTrail : ∀ r ∈ p.auditTrail, r.IsStorable

/-- The same, for a project of any version. -/
structure IsEncodable (p : Project) : Prop where
  created : p.info.created.IsStorable
  modified : p.info.modified.IsStorable
  catalog : ∀ a ∈ p.catalog.assemblies, a.IsStorable
  elements : ∀ e ∈ p.elements.values, e.IsStorable
  quantities : ∀ q ∈ p.quantities, q.IsStorable
  auditTrail : ∀ r ∈ p.auditTrail, r.IsStorable

instance (p : Project) : Decidable p.IsEncodable :=
  decidable_of_iff (p.info.created.IsStorable ∧ p.info.modified.IsStorable ∧
      (∀ a ∈ p.catalog.assemblies, a.IsStorable) ∧ (∀ e ∈ p.elements.values, e.IsStorable) ∧
      (∀ q ∈ p.quantities, q.IsStorable) ∧ ∀ r ∈ p.auditTrail, r.IsStorable)
    ⟨fun ⟨created, modified, catalog, elements, quantities, auditTrail⟩ =>
        ⟨created, modified, catalog, elements, quantities, auditTrail⟩,
      fun h => ⟨h.created, h.modified, h.catalog, h.elements, h.quantities, h.auditTrail⟩⟩

theorem IsStorable.isEncodable {p : Project} (h : p.IsStorable) : p.IsEncodable where
  created := h.info.created
  modified := h.info.modified
  catalog := h.catalog
  elements := h.elements
  quantities := h.quantities
  auditTrail := h.auditTrail

/-- Whether every step of every trace has a finite value. -/
def hasFiniteTraces (p : Project) : Bool :=
  p.quantities.all Quantity.hasFiniteTrace && p.auditTrail.all Audit.Record.hasFiniteTrace

/-! ## Building projects -/

variable {p : Project} {now : Instant}

theorem IsStorable.touch (h : p.IsStorable) (hnow : now.IsStorable) : (p.touch now).IsStorable :=
  { h with info := ⟨h.info.version, h.info.created, hnow⟩ }

theorem check_formatVersion : Version.check formatVersion = .ok () := if_pos (by decide +kernel)

theorem isStorable_new (hnow : now.IsStorable) (estimator jobId client : String) :
    (new now estimator jobId client).IsStorable where
  info := ⟨check_formatVersion, hnow, hnow⟩
  catalog := by simp [new]
  elements := by simp [new, SortedMap.values, SortedMap.empty]
  quantities := by simp [new]
  auditTrail := by simp [new]

theorem IsStorable.addElement (h : p.IsStorable) (hnow : now.IsStorable) {e : Element}
    (he : e.IsStorable) : (p.addElement now e).IsStorable := by
  refine IsStorable.touch { h with elements := fun f hf => ?_ } hnow
  rcases SortedMap.mem_values_insert hf with rfl | hf
  · exact he
  · exact h.elements f hf

theorem IsStorable.addAssembly (h : p.IsStorable) (hnow : now.IsStorable) {a : Assembly}
    (ha : a.IsStorable) : (p.addAssembly now a).IsStorable := by
  refine IsStorable.touch { h with catalog := fun b hb => ?_ } hnow
  rcases Catalog.mem_put hb with rfl | hb
  · exact ha
  · exact h.catalog b hb

/-- A project that is made, and to which elements with finite parameters and assemblies with finite
bounds are added, at times of the calendar. -/
inductive IsBuilt : Project → Prop where
  | new {now : Instant} (hnow : now.IsCivil) (estimator jobId client : String) :
      IsBuilt (Project.new now estimator jobId client)
  | addElement {p : Project} (hp : IsBuilt p) {now : Instant} (hnow : now.IsCivil) {e : Element}
      (he : e.IsStorable) : IsBuilt (p.addElement now e)
  | addAssembly {p : Project} (hp : IsBuilt p) {now : Instant} (hnow : now.IsCivil) {a : Assembly}
      (ha : a.IsStorable) : IsBuilt (p.addAssembly now a)

theorem IsBuilt.isStorable (h : p.IsBuilt) : p.IsStorable := by
  induction h with
  | new hnow estimator jobId client => exact isStorable_new hnow.isStorable estimator jobId client
  | addElement _ hnow he ih => exact ih.addElement hnow.isStorable he
  | addAssembly _ hnow ha ih => exact ih.addAssembly hnow.isStorable ha

end Project

end QuantitySurvey
