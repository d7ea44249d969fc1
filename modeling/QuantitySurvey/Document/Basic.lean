import QuantitySurvey.Identifier
import QuantitySurvey.Instant
import QuantitySurvey.Json.Decoding
import QuantitySurvey.Failure
import QuantitySurvey.Measure.Unit
import QuantitySurvey.Parameter.Value

/-! # Data common to documents

How identifiers, times, units, parameters and failures are written as JSON, and how they are read
back. Every datum has a pair of functions `ofX` and `x?`. -/

set_option autoImplicit false

namespace QuantitySurvey.Document

/-! ## Texts with a meaning -/

def ofIdentifier (i : Identifier) : Json := .string i.text

def identifier? (j : Json) : Option Identifier := j.string?.bind Identifier.read?

def ofInstant (t : Instant) : Json := .string t.documentText

def instant? (j : Json) : Option Instant := j.string?.bind Instant.read?

def ofUnit (u : Measure.Unit) : Json := .string u.symbol

def unit? (j : Json) : Option Measure.Unit := j.string?.bind Measure.Unit.read?

/-! ## Parts of records -/

/-- A member that is left out when there is nothing to write. -/
def whenSome {α : Type} (name : String) (encode : α → Json) : Option α → List (String × Json)
  | none => []
  | some a => [(name, encode a)]

def ofList {α : Type} (encode : α → Json) (as : List α) : Json := .array (as.map encode)

/-! ## Parameters -/

def ofValue : Parameter.Value → Json
  | .number x => .number x
  | .text s => .string s

def value? : Json → Option Parameter.Value
  | .integer n => some (.number (Float.ofInt n))
  | .number x => some (.number x)
  | .string s => some (.text s)
  | _ => none

def ofParameters (p : Parameters) : Json :=
  .object (p.entries.map fun (k, v) => (k, ofValue v))

def parameters? (j : Json) : Option Parameters := j.map? some value?

/-! ## Failures -/

def kindName : Failure.Kind → String
  | .parameter => "parameter"
  | .formula => "formula"
  | .unit => "unit"
  | .calculation => "calculation"
  | .storage => "storage"

def ofKind (k : Failure.Kind) : Json := .string (kindName k)

def kind? (setAside : Bool) (j : Json) : Option Failure.Kind :=
  j.word? setAside [.parameter, .formula, .unit, .calculation, .storage] kindName

/-- The name of the sort of a failure and its circumstances. -/
def failureParts : Failure → String × List (String × Json)
  | .missingInput field => ("MissingInput", [("field", .string field)])
  | .missingParameters names => ("MissingParameters", [("missing", ofList .string names)])
  | .invalidParameter parameter value reason =>
    ("InvalidParameter",
      [("parameter", .string parameter), ("value", .string value), ("reason", .string reason)])
  | .formula expression reason =>
    ("Formula", [("expression", .string expression), ("reason", .string reason)])
  | .unit source target reason =>
    ("Unit", [("from", .string source), ("to", .string target), ("reason", .string reason)])
  | .calculation reason => ("Calculation", [("reason", .string reason)])
  | .file operation path reason =>
    ("FileError",
      [("operation", .string operation), ("path", .string path), ("reason", .string reason)])
  | .locked path holder since =>
    ("FileLocked",
      [("path", .string path), ("locked_by", .string holder), ("locked_at", .string since)])
  | .document reason => ("SerializationError", [("reason", .string reason)])
  | .version found expected =>
    ("VersionMismatch",
      [("file_version", .string found), ("expected_version", .string expected)])
  | .internal message => ("Internal", [("message", .string message)])

def ofFailure (e : Failure) : Json :=
  .object [("type", .string (failureParts e).1), ("details", .object (failureParts e).2)]

def text1? (make : String → Failure) (name : String) (j : Json) : Option Failure := do
  let [a] ← j.namedRecord? [name] | none
  return make (← Json.required? Json.string? a)

def text2? (make : String → String → Failure) (first second : String) (j : Json) :
    Option Failure := do
  let [a, b] ← j.namedRecord? [first, second] | none
  return make (← Json.required? Json.string? a) (← Json.required? Json.string? b)

def text3? (make : String → String → String → Failure) (first second third : String)
    (j : Json) : Option Failure := do
  let [a, b, c] ← j.namedRecord? [first, second, third] | none
  return make (← Json.required? Json.string? a) (← Json.required? Json.string? b)
    (← Json.required? Json.string? c)

/-- The readers of the circumstances, by the name of the sort of failure. Circumstances
are given by name, never by position. -/
def failureReaders : List (String × (Json → Option Failure)) :=
  [("MissingInput", text1? .missingInput "field"),
   ("MissingParameters", fun j => do
      let [a] ← j.namedRecord? ["missing"] | none
      return .missingParameters (← Json.required? (Json.list? Json.string?) a)),
   ("InvalidParameter", text3? .invalidParameter "parameter" "value" "reason"),
   ("Formula", text2? .formula "expression" "reason"),
   ("Unit", text3? .unit "from" "to" "reason"),
   ("Calculation", text1? .calculation "reason"),
   ("FileError", text3? .file "operation" "path" "reason"),
   ("FileLocked", text3? .locked "path" "locked_by" "locked_at"),
   ("SerializationError", text1? .document "reason"),
   ("VersionMismatch", text2? .version "file_version" "expected_version"),
   ("Internal", text1? .internal "message")]

/-- Whether circumstances come before the sort of failure that they belong to. -/
def detailsFirst : Json → Bool
  | .object members =>
    (members.find? fun (k, _) => k == "type" || k == "details").any fun (k, _) => k == "details"
  | _ => false

/-- Circumstances that come first are set aside, so all of them have to be readable. -/
def failure? (setAside : Bool) (j : Json) : Option Failure := do
  let [kind, details] ← j.record? ["type", "details"] | none
  let (_, read) ← Json.required? (Json.word? setAside failureReaders Prod.fst) kind
  let details ← details
  if detailsFirst j && !details.isReadable then none
  read details

end QuantitySurvey.Document
