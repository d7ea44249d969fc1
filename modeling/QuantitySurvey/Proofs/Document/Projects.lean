import QuantitySurvey.Project.File
import QuantitySurvey.Proofs.Document.Heights
import QuantitySurvey.Proofs.Document.Parts

/-! # Projects read back

A project whose parts can be stored is read back as it was written, unless some step of a trace has
a value that is not finite: that step cannot be read, and so nothing of the project can.

* `quantity?_asRead`, `record?_asRead`: one trace decides for its quantity or record.
* `project?_asRead`: all traces decide for the project.
* `ofText_page`: the same for the text of a project file.
-/

set_option autoImplicit false

namespace QuantitySurvey.Document

open Json
open Parameter (Schema Spec Rule)

/-! ## Schemas -/

theorem parameterKind?_name (k : Parameter.Kind) :
    parameterKind? (string (parameterKindName k)) = some k := by
  cases k <;> rfl

theorem optional?_rule (o : Option Rule) :
    optional? rule? (o.map fun r => string (ruleName r)) = some o := by
  refine optional?_map (fun r _ => ?_) rfl
  cases r <;> rfl

theorem optional?_float {o : Option Float} (h : ∀ x ∈ o, x.isFinite = true) :
    optional? float? (o.map fun x => (number x).asRead) = some o :=
  optional?_map (fun x hx => float?_of_finite (h x hx)) rfl

theorem spec?_asRead {s : Spec} (h : s.IsFinite) : spec? (ofSpec s).asRead = some s := by
  simp only [spec?, ofSpec, asRead_object, record?_object, List.map_append, List.map_cons,
    List.map_nil, map_whenSome]
  simp only [List.mapM_cons, List.mapM_nil]
  simp [member?, parameterKind?_name, optional?_rule, optional?_string, optional?_unit,
    optional?_float h.minimum, optional?_float h.maximum]

theorem schema?_asRead {s : Schema} (h : ∀ p ∈ s.properties, p.IsFinite) :
    schema? (ofSchema s).asRead = some s := by
  have hproperties : list? spec? (ofList ofSpec s.properties).asRead = some s.properties :=
    list?_ofList fun p hp => spec?_asRead (h p hp)
  simp only [schema?, ofSchema, asRead_object, record?_object, List.map_cons, List.map_nil]
  simp only [List.mapM_cons, List.mapM_nil]
  simp [member?, hproperties, list?_strings]

/-! ## Elements and assemblies -/

theorem element?_asRead {e : Element} (h : e.IsStorable) :
    element? (ofElement e).asRead = some e := by
  simp only [element?, ofElement, asRead_object, record?_object, List.map_append, List.map_cons,
    List.map_nil, map_whenSome]
  simp only [List.mapM_cons, List.mapM_nil]
  simp [member?, identifier?_asRead, optional?_string, parameters?_asRead h]

theorem assembly?_asRead {a : Assembly} (h : a.IsStorable) :
    assembly? (ofAssembly a).asRead = some a := by
  simp only [assembly?, ofAssembly, asRead_object, record?_object, List.map_append, List.map_cons,
    List.map_nil, map_whenSome]
  simp only [List.mapM_cons, List.mapM_nil]
  simp [member?, identifier?_asRead, unit?_asRead, optional?_unit, optional?_string,
    schema?_asRead h]

theorem catalog?_asRead {c : Catalog} (h : ∀ a ∈ c.assemblies, a.IsStorable) :
    catalog? (ofCatalog c).asRead = some c := by
  rw [catalog?, ofCatalog, list?_ofList fun a ha => assembly?_asRead (h a ha)]
  rfl

/-! ## Quantities -/

theorem warning?_asRead {w : Warning} (h : w.IsFinite) :
    warning? (ofWarning w).asRead = some w := by
  cases w with
  | negative x =>
    have hvalue : (number x).asRead = number x := asRead_number h
    simp [warning?, ofWarning, variant?, member?, membersReadable, isReadable, hvalue, float?]

theorem ofWarnings_eq_whenSome (warnings : List Warning) :
    ofWarnings warnings
      = whenSome "warnings" (ofList ofWarning) (if warnings = [] then none else some warnings) := by
  cases warnings <;> rfl

theorem orElse?_warnings {warnings : List Warning} (h : ∀ w ∈ warnings, w.IsFinite) :
    orElse? [] (list? warning?) ((if warnings = [] then none else some warnings).map
      fun ws => (ofList ofWarning ws).asRead) = some warnings := by
  cases warnings with
  | nil => rfl
  | cons w ws => exact list?_ofList fun w hw => warning?_asRead (h w hw)

theorem result?_asRead {r : CalculationResult} (h : r.IsStorable) :
    result? (ofResult r).asRead
      = if r.steps.all Formula.Step.isFinite then some r else none := by
  have hread : result? (ofResult r).asRead = (list? step? (ofList ofStep r.steps).asRead).bind
      fun steps => some { r with steps := steps } := by
    simp only [result?, ofResult, ofWarnings_eq_whenSome, asRead_object, record?_object,
      List.map_append, List.map_cons, List.map_nil, map_whenSome]
    simp only [List.mapM_cons, List.mapM_nil]
    simp [member?, float?_of_finite h.raw, float?_of_finite h.standardized, unit?_asRead,
      parameters?_asRead h.parameters, orElse?_warnings h.warnings, instant?_asRead h.calculatedAt]
  rw [hread, list?_steps]
  split <;> rfl

theorem quantity?_asRead {q : Quantity} (h : q.IsStorable) :
    quantity? (ofQuantity q).asRead = if q.hasFiniteTrace then some q else none := by
  have hread : quantity? (ofQuantity q).asRead = (result? (ofResult q.result).asRead).bind
      fun result => some { q with result := result } := by
    simp only [quantity?, ofQuantity, ofWarnings_eq_whenSome, asRead_object, record?_object,
      List.map_append, List.map_cons, List.map_nil, map_whenSome]
    simp only [List.mapM_cons, List.mapM_nil]
    simp [member?, identifier?_asRead, unit?_asRead, float?_of_finite h.value,
      orElse?_warnings h.warnings]
  rw [hread, result?_asRead h.result]
  unfold Quantity.hasFiniteTrace
  split <;> rfl

/-! ## Records -/

theorem isReadable_ofFailure (e : Failure) : (ofFailure e).asRead.isReadable = true := by
  have hstrings : ∀ names : List String, areReadable (names.map (asRead ∘ string)) = true := by
    intro names
    induction names with
    | nil => rfl
    | cons name names ih => exact ih
  cases e <;> simp [ofFailure, failureParts, ofList, isReadable, membersReadable, hstrings]

theorem outcome?_asRead {o : Audit.Outcome} (h : o.IsStorable) :
    outcome? (ofOutcome o).asRead = some o := by
  cases o with
  | success id raw value unit =>
    have hraw : (number raw).asRead = number raw := asRead_number h.1
    have hvalue : (number value).asRead = number value := asRead_number h.2
    have hid := identifier?_asRead id
    have hunit := unit?_asRead unit
    simp [outcome?, ofOutcome, variant?, member?, membersReadable, isReadable, hraw, hvalue, float?,
      ofIdentifier, ofUnit] at hid hunit ⊢
    simp [hid, hunit]
  | failure kind message error =>
    have hkind : kind? true (string (kindName kind)) = some kind := kind?_ofKind true kind
    simp [outcome?, ofOutcome, variant?, member?, membersReadable, isReadable, isReadable_ofFailure,
      failure?_asRead, ofKind, hkind]

theorem record?_asRead {r : Audit.Record} (h : r.IsStorable) :
    record? (ofRecord r).asRead = if r.hasFiniteTrace then some r else none := by
  have hread : record? (ofRecord r).asRead = (list? step? (ofList ofStep r.steps).asRead).bind
      fun steps => some { r with steps := steps } := by
    simp only [Document.record?, ofRecord, asRead_object, record?_object, List.map_append,
      List.map_cons, List.map_nil, map_whenSome]
    simp only [List.mapM_cons, List.mapM_nil]
    simp [member?, count?_asRead h.sequence, count?_asRead h.durationMicros, optional?_identifier,
      optional?_string, parameters?_asRead h.parameters, outcome?_asRead h.outcome, actor?_asRead,
      instant?_asRead h.startedAt]
  rw [hread, list?_steps]
  unfold Audit.Record.hasFiniteTrace
  split <;> rfl

/-! ## Projects -/

theorem meta?_asRead {info : Project.Meta} (created : info.created.IsStorable)
    (modified : info.modified.IsStorable) : meta? (ofMeta info).asRead = some info := by
  simp only [meta?, ofMeta, asRead_object, record?_object, List.map_cons, List.map_nil]
  simp only [List.mapM_cons, List.mapM_nil]
  simp [member?, instant?_asRead created, instant?_asRead modified]

theorem preferences?_asRead (p : Project.Preferences) :
    preferences? (ofPreferences p).asRead = some p := by
  simp only [preferences?, ofPreferences, asRead_object, record?_object, List.map_cons,
    map_whenSome]
  simp only [List.mapM_cons, List.mapM_nil]
  simp [member?, optional?_string]

/-- The elements of a project as an object, by the texts of their identifiers. -/
theorem map?_elements {elements : SortedMap Identifier Element}
    (h : ∀ e ∈ elements.values, e.IsStorable) :
    map? Identifier.read? element?
      (object (elements.entries.map fun (id, e) => (id.text, ofElement e))).asRead
        = some elements := by
  rw [asRead_object, List.map_map]
  exact map?_entries Identifier.read?_text fun e he => element?_asRead (h e he)

/-- A project is read back exactly when all its traces are finite. -/
theorem project?_asRead {p : Project} (h : p.IsEncodable) :
    project? (ofProject p).asRead = if p.hasFiniteTraces then some p else none := by
  have hquantities : list? quantity? (ofList ofQuantity p.quantities).asRead
      = if p.quantities.all Quantity.hasFiniteTrace then some p.quantities else none :=
    list?_ofList_ite fun q hq => quantity?_asRead (h.quantities q hq)
  have hrecords : list? Document.record? (ofList ofRecord p.auditTrail).asRead
      = if p.auditTrail.all Audit.Record.hasFiniteTrace then some p.auditTrail else none :=
    list?_ofList_ite fun r hr => record?_asRead (h.auditTrail r hr)
  have helements := map?_elements h.elements
  rw [asRead_object] at helements
  have hread : project? (ofProject p).asRead
      = (list? quantity? (ofList ofQuantity p.quantities).asRead).bind fun quantities =>
        (list? Document.record? (ofList ofRecord p.auditTrail).asRead).bind fun records =>
          some { p with quantities := quantities, auditTrail := records } := by
    simp only [project?, ofProject, asRead_object, record?_object, List.map_cons, List.map_nil]
    simp only [List.mapM_cons, List.mapM_nil]
    simp [member?, meta?_asRead h.created h.modified, preferences?_asRead,
      catalog?_asRead h.catalog, -List.map_map, helements]
  rw [hread, hquantities, hrecords]
  unfold Project.hasFiniteTraces
  cases p.quantities.all Quantity.hasFiniteTrace <;>
    cases p.auditTrail.all Audit.Record.hasFiniteTrace <;> rfl

/-! ## Files -/

/-- The text of a project file is loaded as the project exactly when all traces are finite. -/
theorem ofText_page {p : Project} (h : p.IsStorable) (path : String)
    (hnumbers : AreFaithful (ofProject p).numbers) :
    Project.ofText path (ofProject p).page
      = if p.hasFiniteTraces then .ok p
        else .error (.document s!"Invalid JSON in {path}: no project") := by
  have hheight : (ofProject p).height ≤ Reader.maxDepth := (height_ofProject p).trans (by decide)
  rw [Project.ofText, read?_page _ hheight hnumbers, Option.bind_some,
    project?_asRead h.isEncodable]
  cases p.hasFiniteTraces with
  | false => rfl
  | true => simp [h.info.version, Except.map]

end QuantitySurvey.Document
