import QuantitySurvey.Audit.Record
import QuantitySurvey.Calculation.Engine
import QuantitySurvey.Document.Work

/-! # Audit records and reports in documents -/

set_option autoImplicit false

namespace QuantitySurvey.Document

open Audit (Outcome Record)
open Calculation (BatchFailure Report)

/-! ## Actors and outcomes -/

def ofActor : Actor → Json
  | .system => .object [("type", .string "system")]
  | .user id => .object [("type", .string "user"), ("id", .string id)]
  | .model name => .object [("type", .string "ai"), ("model", .string name)]

def actor? (j : Json) : Option Actor := do
  let (kind, rest) ← j.variant? "type"
  let kind ← kind.string?
  if kind = "system" then
    if rest.isBare then some .system else none
  else if kind = "user" then
    let [id] ← rest.record? ["id"] | none
    return .user (← Json.required? Json.string? id)
  else if kind = "ai" then
    let [model] ← rest.record? ["model"] | none
    return .model (← Json.required? Json.string? model)
  else none

def ofOutcome : Outcome → Json
  | .success id raw value unit =>
    .object [("status", .string "success"), ("quantity_id", ofIdentifier id),
      ("raw_result", .number raw), ("value", .number value), ("unit", ofUnit unit)]
  | .failure kind message error =>
    .object [("status", .string "failure"), ("kind", ofKind kind), ("message", .string message),
      ("error", ofFailure error)]

def outcome? (j : Json) : Option Outcome := do
  let (status, rest) ← j.variant? "status"
  let status ← status.string?
  if status = "success" then
    let [id, raw, value, unit] ←
      rest.record? ["quantity_id", "raw_result", "value", "unit"] | none
    return .success (← Json.required? identifier? id) (← Json.required? Json.float? raw)
      (← Json.required? Json.float? value) (← Json.required? unit? unit)
  else if status = "failure" then
    let [kind, message, error] ← rest.record? ["kind", "message", "error"] | none
    return .failure (← Json.required? (kind? true) kind) (← Json.required? Json.string? message)
      (← Json.required? (failure? true) error)
  else none

/-! ## Records -/

def ofRecord (r : Record) : Json :=
  .object <| [("sequence", .integer r.sequence)]
    ++ whenSome "element_id" ofIdentifier r.elementId
    ++ whenSome "assembly_id" ofIdentifier r.assemblyId
    ++ whenSome "assembly_code" .string r.assemblyCode ++ whenSome "formula" .string r.formula
    ++ [("parameters", ofParameters r.parameters), ("steps", ofList ofStep r.steps),
      ("outcome", ofOutcome r.outcome), ("actor", ofActor r.actor),
      ("started_at", ofInstant r.startedAt), ("duration_us", .integer r.durationMicros),
      ("engine_version", .string r.engineVersion)]

def record? (j : Json) : Option Record := do
  let [sequence, elementId, assemblyId, assemblyCode, formula, parameters, steps, outcome, actor,
      startedAt, duration, version] ←
    j.record? ["sequence", "element_id", "assembly_id", "assembly_code", "formula", "parameters",
      "steps", "outcome", "actor", "started_at", "duration_us", "engine_version"] | none
  return {
    sequence := ← Json.orElse? 0 Json.count? sequence
    elementId := ← Json.optional? identifier? elementId
    assemblyId := ← Json.optional? identifier? assemblyId
    assemblyCode := ← Json.optional? Json.string? assemblyCode
    formula := ← Json.optional? Json.string? formula
    parameters := ← Json.orElse? .empty parameters? parameters
    steps := ← Json.orElse? [] (Json.list? step?) steps
    outcome := ← Json.required? outcome? outcome
    actor := ← Json.required? actor? actor
    startedAt := ← Json.required? instant? startedAt
    durationMicros := ← Json.required? Json.count? duration
    engineVersion := ← Json.required? Json.string? version }

/-! ## Reports -/

def ofBatchFailure (f : BatchFailure) : Json :=
  .object [("assembly_id", ofIdentifier f.assemblyId), ("assembly_code", .string f.assemblyCode),
    ("error", ofFailure f.error)]

def batchFailure? (j : Json) : Option BatchFailure := do
  let [id, code, error] ← j.record? ["assembly_id", "assembly_code", "error"] | none
  return ⟨← Json.required? identifier? id, ← Json.required? Json.string? code,
    ← Json.required? (failure? false) error⟩

def ofReport (r : Report) : Json :=
  .object [("element_id", ofIdentifier r.elementId), ("created", ofList ofQuantity r.created),
    ("failures", ofList ofBatchFailure r.failures), ("cancelled", .boolean r.cancelled)]

def report? (j : Json) : Option Report := do
  let [id, created, failures, cancelled] ←
    j.record? ["element_id", "created", "failures", "cancelled"] | none
  return ⟨← Json.required? identifier? id, ← Json.required? (Json.list? quantity?) created,
    ← Json.required? (Json.list? batchFailure?) failures,
    ← Json.required? Json.boolean? cancelled⟩

end QuantitySurvey.Document
