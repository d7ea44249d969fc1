import QuantitySurvey.Document.Audit
import QuantitySurvey.Project
import QuantitySurvey.Settings

/-! # Projects and settings in documents -/

set_option autoImplicit false

namespace QuantitySurvey.Document

/-! ## Settings -/

def logFormatName : LogFormat → String
  | .pretty => "pretty"
  | .json => "json"

def logFormat? (j : Json) : Option LogFormat :=
  j.word? false [.pretty, .json] logFormatName

def ofSettings (s : Settings) : Json :=
  .object [("engine_version", .string s.engineVersion), ("default_actor", .string s.defaultActor),
    ("max_formula_length", .integer s.maxFormulaLength),
    ("max_trace_steps", .integer s.maxTraceSteps),
    ("log_format", .string (logFormatName s.logFormat))]

def settings? (j : Json) : Option Settings := do
  let [version, actor, length, steps, format] ←
    j.record? ["engine_version", "default_actor", "max_formula_length", "max_trace_steps",
      "log_format"] | none
  let d : Settings := {}
  return {
    engineVersion := ← Json.orElse? d.engineVersion Json.string? version
    defaultActor := ← Json.orElse? d.defaultActor Json.string? actor
    maxFormulaLength := ← Json.orElse? d.maxFormulaLength Json.count? length
    maxTraceSteps := ← Json.orElse? d.maxTraceSteps Json.count? steps
    logFormat := ← Json.orElse? d.logFormat logFormat? format }

/-! ## Projects -/

def ofMeta (info : Project.Meta) : Json :=
  .object [("version", .string info.version), ("estimator", .string info.estimator),
    ("job_id", .string info.jobId), ("client", .string info.client),
    ("created", ofInstant info.created), ("modified", ofInstant info.modified)]

def meta? (j : Json) : Option Project.Meta := do
  let [version, estimator, jobId, client, created, modified] ←
    j.record? ["version", "estimator", "job_id", "client", "created", "modified"] | none
  return {
    version := ← Json.required? Json.string? version
    estimator := ← Json.required? Json.string? estimator
    jobId := ← Json.required? Json.string? jobId
    client := ← Json.required? Json.string? client
    created := ← Json.required? instant? created
    modified := ← Json.required? instant? modified }

def ofPreferences (p : Project.Preferences) : Json :=
  .object <| ("classification_system", .string p.classificationSystem)
    :: whenSome "default_actor" .string p.defaultActor

def preferences? (j : Json) : Option Project.Preferences := do
  let [system, actor] ← j.record? ["classification_system", "default_actor"] | none
  return ⟨← Json.required? Json.string? system, ← Json.optional? Json.string? actor⟩

def ofProject (p : Project) : Json :=
  .object [("meta", ofMeta p.info), ("settings", ofPreferences p.preferences),
    ("catalog", ofCatalog p.catalog),
    ("elements", .object (p.elements.entries.map fun (id, e) => (id.text, ofElement e))),
    ("quantities", ofList ofQuantity p.quantities),
    ("audit_log", ofList ofRecord p.auditTrail)]

def project? (j : Json) : Option Project := do
  let [info, preferences, catalog, elements, quantities, records] ←
    j.record? ["meta", "settings", "catalog", "elements", "quantities", "audit_log"] | none
  return {
    info := ← Json.required? meta? info
    preferences := ← Json.orElse? {} preferences? preferences
    catalog := ← Json.orElse? {} catalog? catalog
    elements := ← Json.orElse? .empty (Json.map? Identifier.read? element?) elements
    quantities := ← Json.orElse? [] (Json.list? quantity?) quantities
    auditTrail := ← Json.orElse? [] (Json.list? record?) records }

end QuantitySurvey.Document
