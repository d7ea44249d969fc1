import QuantitySurvey.Document.Basic
import QuantitySurvey.Lock.Holder

/-! # Lock holders in documents -/

set_option autoImplicit false

namespace QuantitySurvey.Document

def ofHolder (h : Lock.Holder) : Json :=
  .object [("user_id", .string h.user), ("machine", .string h.machine),
    ("pid", .integer h.processId), ("locked_at", ofInstant h.since)]

def holder? (j : Json) : Option Lock.Holder := do
  let [user, machine, processId, since] ←
    j.record? ["user_id", "machine", "pid", "locked_at"] | none
  return {
    user := ← Json.required? Json.string? user
    machine := ← Json.required? Json.string? machine
    processId := ← Json.required? (Json.natBelow? UInt32.size) processId
    since := ← Json.required? instant? since }

end QuantitySurvey.Document
