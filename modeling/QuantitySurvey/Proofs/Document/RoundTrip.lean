import QuantitySurvey.Proofs.Document.Projects

/-! # Data read back

A datum reads back if both its texts, on one line and on indented lines, stand for it. A project
does whose doubles are finite, and so does all that is in it: the text of a part has no other
numbers than that of the whole, and is no higher.

* `IsPart`: what stands somewhere in a value.
* `readsBack_part`: a part of a value that can be read is read as what was written.
* `project_reads_back`: projects and their parts.
-/

set_option autoImplicit false

namespace QuantitySurvey

namespace Json

/-! ## Parts of values -/

/-- A value stands somewhere in another one, or is that one. -/
inductive IsPart (j : Json) : Json → Prop
  | self : IsPart j j
  | element {k : Json} {js : List Json} (h : IsPart j k) (hk : k ∈ js) : IsPart j (.array js)
  | member (name : String) {k : Json} {ms : List (String × Json)} (h : IsPart j k)
      (hk : (name, k) ∈ ms) : IsPart j (.object ms)

theorem IsPart.trans {i j k : Json} (hij : IsPart i j) (hjk : IsPart j k) : IsPart i k := by
  induction hjk with
  | self => exact hij
  | element _ hk ih => exact .element ih hk
  | member name _ hk ih => exact .member name ih hk

theorem mem_numbersOf {x : Float} {js : List Json} :
    x ∈ numbersOf js ↔ ∃ j ∈ js, x ∈ j.numbers := by
  induction js with
  | nil => simp [numbersOf]
  | cons j js ih => simp [numbersOf, ih]

theorem mem_membersNumbers {x : Float} {ms : List (String × Json)} :
    x ∈ membersNumbers ms ↔ ∃ m ∈ ms, x ∈ m.2.numbers := by
  induction ms with
  | nil => simp [membersNumbers]
  | cons m ms ih => simp [membersNumbers, ih]

theorem IsPart.mem_numbers {j k : Json} (h : IsPart j k) {x : Float} (hx : x ∈ j.numbers) :
    x ∈ k.numbers := by
  induction h with
  | self => exact hx
  | element _ hk ih => exact mem_numbersOf.2 ⟨_, hk, ih⟩
  | member _ _ hk ih => exact mem_membersNumbers.2 ⟨_, hk, ih⟩

theorem height_le_heightOf {k : Json} {js : List Json} (h : k ∈ js) : k.height ≤ heightOf js := by
  induction js with
  | nil => cases h
  | cons j js ih =>
    rcases List.mem_cons.1 h with rfl | h
    · exact Nat.le_max_left _ _
    · exact (ih h).trans (Nat.le_max_right _ _)

theorem height_le_membersHeight {m : String × Json} {ms : List (String × Json)} (h : m ∈ ms) :
    m.2.height ≤ membersHeight ms := by
  induction ms with
  | nil => cases h
  | cons m' ms ih =>
    rcases List.mem_cons.1 h with rfl | h
    · exact Nat.le_max_left _ _
    · exact (ih h).trans (Nat.le_max_right _ _)

theorem IsPart.height_le {j k : Json} (h : IsPart j k) : j.height ≤ k.height := by
  induction h with
  | self => exact Nat.le_refl _
  | element _ hk ih => exact (ih.trans (height_le_heightOf hk)).trans (Nat.le_succ _)
  | member _ _ hk ih => exact (ih.trans (height_le_membersHeight hk)).trans (Nat.le_succ _)

end Json

namespace Document

open Json

/-! ## Data that read back -/

/-- Both texts of a datum are read as that datum. -/
structure ReadsBack {α : Type} (encode : α → Json) (decode : Json → Option α) (a : α) : Prop where
  text : (read? (encode a).text).bind decode = some a
  page : (read? (encode a).page).bind decode = some a

/-- A part of a value reads back if the value can be read and the part stands for the datum. -/
theorem readsBack_part {α : Type} {encode : α → Json} {decode : Json → Option α} {a : α} {j : Json}
    (hdepth : j.height ≤ Reader.maxDepth) (hnumbers : AreFaithful j.numbers)
    (hpart : IsPart (encode a) j) (h : decode (encode a).asRead = some a) :
    ReadsBack encode decode a := by
  have hheight : (encode a).height ≤ Reader.maxDepth := hpart.height_le.trans hdepth
  have hfaithful : AreFaithful (encode a).numbers := fun x hx => hnumbers x (hpart.mem_numbers hx)
  refine ⟨?_, ?_⟩
  · rw [read?_text _ hheight hfaithful, Option.bind_some, h]
  · rw [read?_page _ hheight hfaithful, Option.bind_some, h]

/-! ## Parts of projects -/

theorem isPart_ofList {α : Type} {encode : α → Json} {as : List α} {a : α} (h : a ∈ as) :
    IsPart (encode a) (ofList encode as) :=
  .element .self (List.mem_map_of_mem h)

theorem isPart_steps {s : Formula.Step} {steps : List Formula.Step} (h : s ∈ steps) (name : String)
    {ms : List (String × Json)} (hms : (name, ofList ofStep steps) ∈ ms) :
    IsPart (ofStep s) (object ms) :=
  .member name (isPart_ofList h) hms

theorem isPart_warnings {w : Warning} {warnings : List Warning} (h : w ∈ warnings)
    {ms : List (String × Json)} (hms : ofWarnings warnings ⊆ ms) :
    IsPart (ofWarning w) (object ms) := by
  refine .member "warnings" (isPart_ofList h) (hms ?_)
  have hne : warnings.isEmpty = false := by
    cases warnings with
    | nil => cases h
    | cons => rfl
  simp [ofWarnings, hne]

section Project

variable {p : Project}

theorem isPart_element {e : Element} (h : e ∈ p.elements.values) :
    IsPart (ofElement e) (ofProject p) := by
  obtain ⟨entry, hentry, rfl⟩ := List.mem_map.1 h
  have hmap : IsPart (ofElement entry.2)
      (object (p.elements.entries.map fun entry => (entry.1.text, ofElement entry.2))) :=
    .member _ .self (List.mem_map.2 ⟨entry, hentry, rfl⟩)
  refine .member "elements" hmap ?_
  simp

theorem isPart_assembly {a : Assembly} (h : a ∈ p.catalog.assemblies) :
    IsPart (ofAssembly a) (ofProject p) := by
  refine .member "catalog" (isPart_ofList h) ?_
  simp [ofCatalog]

theorem isPart_schema (a : Assembly) : IsPart (ofSchema a.schema) (ofAssembly a) := by
  refine .member "parameter_schema" .self ?_
  simp

theorem isPart_quantity {q : Quantity} (h : q ∈ p.quantities) :
    IsPart (ofQuantity q) (ofProject p) := by
  refine .member "quantities" (isPart_ofList h) ?_
  simp

theorem isPart_result (q : Quantity) : IsPart (ofResult q.result) (ofQuantity q) := by
  refine .member "result" .self ?_
  simp

theorem isPart_record {r : Audit.Record} (h : r ∈ p.auditTrail) :
    IsPart (ofRecord r) (ofProject p) := by
  refine .member "audit_log" (isPart_ofList h) ?_
  simp

theorem isPart_outcome (r : Audit.Record) : IsPart (ofOutcome r.outcome) (ofRecord r) := by
  refine .member "outcome" .self ?_
  simp

theorem isPart_actor (r : Audit.Record) : IsPart (ofActor r.actor) (ofRecord r) := by
  refine .member "actor" .self ?_
  simp

/-- The steps of all traces, of quantities and of records. -/
def tracesOf (p : Project) : List Formula.Step :=
  p.quantities.flatMap (·.result.steps) ++ p.auditTrail.flatMap (·.steps)

theorem isPart_trace {s : Formula.Step} (h : s ∈ tracesOf p) : IsPart (ofStep s) (ofProject p) := by
  rcases List.mem_append.1 h with h | h
  · obtain ⟨q, hq, hs⟩ := List.mem_flatMap.1 h
    have hresult : IsPart (ofStep s) (ofResult q.result) := by
      refine isPart_steps hs "calculation_steps" ?_
      simp
    exact (hresult.trans (isPart_result q)).trans (isPart_quantity hq)
  · obtain ⟨r, hr, hs⟩ := List.mem_flatMap.1 h
    have hrecord : IsPart (ofStep s) (ofRecord r) := by
      refine isPart_steps hs "steps" ?_
      simp
    exact hrecord.trans (isPart_record hr)

theorem isFinite_of_mem_traces (finite : p.hasFiniteTraces = true) {s : Formula.Step}
    (h : s ∈ tracesOf p) : s.isFinite = true := by
  obtain ⟨hquantities, hrecords⟩ := (Bool.and_eq_true _ _).mp finite
  rcases List.mem_append.1 h with h | h
  · obtain ⟨q, hq, hs⟩ := List.mem_flatMap.1 h
    exact List.all_eq_true.1 (List.all_eq_true.1 hquantities q hq) s hs
  · obtain ⟨r, hr, hs⟩ := List.mem_flatMap.1 h
    exact List.all_eq_true.1 (List.all_eq_true.1 hrecords r hr) s hs

/-- The warnings of all quantities and of their results. -/
def warningsOf (p : Project) : List Warning :=
  p.quantities.flatMap fun q => q.warnings ++ q.result.warnings

theorem isPart_warning {w : Warning} (h : w ∈ warningsOf p) :
    IsPart (ofWarning w) (ofProject p) := by
  obtain ⟨q, hq, hw⟩ := List.mem_flatMap.1 h
  have hquantity : IsPart (ofWarning w) (ofQuantity q) := by
    rcases List.mem_append.1 hw with hw | hw
    · refine isPart_warnings hw fun m hm => ?_
      simp [hm]
    · refine IsPart.trans ?_ (isPart_result q)
      refine isPart_warnings hw fun m hm => ?_
      simp [hm]
  exact hquantity.trans (isPart_quantity hq)

/-- The failures that records tell of. -/
def failuresOf (p : Project) : List Failure :=
  p.auditTrail.filterMap fun r =>
    match r.outcome with
    | .success .. => none
    | .failure _ _ error => some error

theorem isPart_failure {e : Failure} (h : e ∈ failuresOf p) :
    IsPart (ofFailure e) (ofProject p) := by
  obtain ⟨r, hr, he⟩ := List.mem_filterMap.1 h
  have houtcome : IsPart (ofFailure e) (ofOutcome r.outcome) := by
    cases hout : r.outcome with
    | success id raw value unit => simp [hout] at he
    | failure kind message error =>
      simp only [hout, Option.some.injEq] at he
      subst he
      refine .member "error" .self ?_
      simp
  exact (houtcome.trans (isPart_outcome r)).trans (isPart_record hr)

end Project

/-! ## The main statement -/

/-- The data of a project read back, together and one by one. -/
structure AllReadBack (p : Project) : Prop where
  project : ReadsBack ofProject project? p
  elements : ∀ e ∈ p.elements.values, ReadsBack ofElement element? e
  assemblies : ∀ a ∈ p.catalog.assemblies, ReadsBack ofAssembly assembly? a
  schemas : ∀ a ∈ p.catalog.assemblies, ReadsBack ofSchema schema? a.schema
  quantities : ∀ q ∈ p.quantities, ReadsBack ofQuantity quantity? q
  steps : ∀ s ∈ tracesOf p, ReadsBack ofStep step? s
  warnings : ∀ w ∈ warningsOf p, ReadsBack ofWarning warning? w
  records : ∀ r ∈ p.auditTrail, ReadsBack ofRecord Document.record? r
  outcomes : ∀ r ∈ p.auditTrail, ReadsBack ofOutcome outcome? r.outcome
  actors : ∀ r ∈ p.auditTrail, ReadsBack ofActor actor? r.actor
  /-- By themselves and when they are set aside in an outcome. -/
  failures : ∀ e ∈ failuresOf p, ∀ setAside, ReadsBack ofFailure (failure? setAside) e

/-- A project whose doubles are all finite reads back, and so does all that is in it, if finite
doubles and times do. -/
theorem project_reads_back {p : Project} (h : p.IsEncodable) (finite : p.hasFiniteTraces = true)
    (faithful : AreFaithful (ofProject p).numbers) : AllReadBack p := by
  have hdepth : (ofProject p).height ≤ Reader.maxDepth := (height_ofProject p).trans (by decide)
  have hpart {α : Type} {encode : α → Json} {decode : Json → Option α} {a : α}
      (hpart : IsPart (encode a) (ofProject p)) (ha : decode (encode a).asRead = some a) :
      ReadsBack encode decode a :=
    readsBack_part hdepth faithful hpart ha
  obtain ⟨hquantities, hrecords⟩ := (Bool.and_eq_true _ _).mp finite
  exact {
    project := hpart .self (by rw [project?_asRead h, if_pos finite])
    elements := fun e he => hpart (isPart_element he) (element?_asRead (h.elements e he))
    assemblies := fun a ha => hpart (isPart_assembly ha) (assembly?_asRead (h.catalog a ha))
    schemas := fun a ha =>
      hpart ((isPart_schema a).trans (isPart_assembly ha)) (schema?_asRead (h.catalog a ha))
    quantities := fun q hq => hpart (isPart_quantity hq) (by
      rw [quantity?_asRead (h.quantities q hq), if_pos (List.all_eq_true.1 hquantities q hq)])
    steps := fun s hs => hpart (isPart_trace hs) (by
      rw [step?_asRead, if_pos (isFinite_of_mem_traces finite hs)])
    warnings := fun w hw => hpart (isPart_warning hw) (by
      obtain ⟨q, hq, hw⟩ := List.mem_flatMap.1 hw
      rcases List.mem_append.1 hw with hw | hw
      · exact warning?_asRead ((h.quantities q hq).warnings w hw)
      · exact warning?_asRead ((h.quantities q hq).result.warnings w hw))
    records := fun r hr => hpart (isPart_record hr) (by
      rw [record?_asRead (h.auditTrail r hr), if_pos (List.all_eq_true.1 hrecords r hr)])
    outcomes := fun r hr => hpart ((isPart_outcome r).trans (isPart_record hr))
      (outcome?_asRead (h.auditTrail r hr).outcome)
    actors := fun r hr => hpart ((isPart_actor r).trans (isPart_record hr)) (actor?_asRead r.actor)
    failures := fun e he setAside => hpart (isPart_failure he) (failure?_asRead setAside e) }

/-- A project with a number and a text that look alike, texts that have to be escaped, a warning,
and records of a success and of a failure. -/
def sampleDocument : Project :=
  let counts : Parameters := .ofList [("count", .number 5), ("label", .text "5"), ("ß", .text "")]
  let slab : Element := { id := .ofNat 1, name := "Slab", parameters := counts }
  let cap : Assembly :=
    { id := .ofNat 2, code := "11.9", name := "Cap", formula := "0 - abs(count)",
      unit := .squareMetre,
      schema := ⟨[{ name := "count", kind := .integer, minimum := some (-1e300) }], ["count"]⟩ }
  let step : Formula.Step :=
    { kind := .functionCall, expression := "abs(count)", value := 5, unit := some .squareMetre }
  let result : CalculationResult :=
    { raw := -5, standardized := -0.05, unit := .squareMetre, steps := [step],
      formula := cap.formula, parameters := counts, warnings := [.negative (-5)],
      engineVersion := "0.1.0", calculatedAt := ⟨86399, 500000000⟩ }
  let quantity : Quantity :=
    { id := .ofNat 3, elementId := slab.id, assemblyId := cap.id, value := -0.05,
      unit := .squareMetre, warnings := [.negative (-5)], result := result }
  let success : Audit.Record :=
    { sequence := 1, elementId := some slab.id, steps := [step], parameters := counts,
      outcome := .ofQuantity quantity, actor := .model "assistant", startedAt := ⟨0, 0⟩,
      durationMicros := 12, engineVersion := "0.1.0" }
  let failure : Audit.Record :=
    { sequence := 2, formula := some "  ", outcome := .ofFailure (.missingParameters ["a", "\t"]),
      actor := .user "Zo\u00eb", startedAt := ⟨0, 0⟩, durationMicros := 0,
      engineVersion := "0.1.0" }
  { info := ⟨"9.9", "\"Q\"", "\u0007", "建築", ⟨0, 0⟩, ⟨1700000000, 0⟩⟩,
    catalog := ⟨[cap]⟩, elements := .ofList [(slab.id, slab)], quantities := [quantity],
    auditTrail := [success, failure] }

theorem sample_reads_back :
    sampleDocument.IsEncodable ∧ sampleDocument.hasFiniteTraces = true ∧
      AreFaithful (ofProject sampleDocument).numbers ∧ AllReadBack sampleDocument := by
  have h : sampleDocument.IsEncodable := by decide +kernel
  have finite : sampleDocument.hasFiniteTraces = true := by decide +kernel
  have faithful : AreFaithful (ofProject sampleDocument).numbers := by decide +kernel
  exact ⟨h, finite, faithful, project_reads_back h finite faithful⟩

end Document

end QuantitySurvey
