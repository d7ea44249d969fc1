import QuantitySurvey.Audit.Actor
import QuantitySurvey.Work.Quantity

/-! # Audit records

Every calculation, successful or not, leaves one record of what was attempted and what came of
it. Records are numbered by the log that takes them. -/

set_option autoImplicit false

namespace QuantitySurvey.Audit

/-! ## Outcomes -/

inductive Status where
  | success
  | failure
deriving DecidableEq, Repr

def Status.title : Status → String
  | success => "success"
  | failure => "failure"

/-- What a calculation came to. -/
inductive Outcome where
  | success (quantityId : Identifier) (raw value : Float) (unit : Measure.Unit)
  | failure (kind : Failure.Kind) (message : String) (error : Failure)
deriving DecidableEq

namespace Outcome

def ofFailure (e : Failure) : Outcome := .failure e.kind e.message e

def ofQuantity (q : Quantity) : Outcome := .success q.id q.result.raw q.value q.unit

def status : Outcome → Status
  | success .. => .success
  | failure .. => .failure

end Outcome

/-! ## Records -/

structure Record where
  /-- The number in the log; zero before a log takes the record. -/
  sequence : Nat := 0
  elementId : Option Identifier := none
  assemblyId : Option Identifier := none
  assemblyCode : Option String := none
  formula : Option String := none
  parameters : Parameters := .empty
  steps : List Formula.Step := []
  outcome : Outcome
  actor : Actor
  startedAt : Instant
  durationMicros : Nat
  engineVersion : String
deriving DecidableEq

namespace Record

def status (r : Record) : Status := r.outcome.status

def isSuccess (r : Record) : Bool := r.status == .success

def text (r : Record) : String :=
  let outcome := match r.outcome with
    | .success _ _ value unit => " ok " ++ Decimal.text value ++ " " ++ unit.symbol
    | .failure kind message _ => " " ++ kind.title ++ ": " ++ message
  "#" ++ toString r.sequence ++ " " ++ r.startedAt.text ++ " " ++ r.actor.text ++ " "
    ++ r.assemblyCode.getD "-" ++ outcome

end Record

def aboutElement (records : List Record) (element : Identifier) : List Record :=
  records.filter (·.elementId == some element)

def withStatus (records : List Record) (status : Status) : List Record :=
  records.filter (·.status == status)

end QuantitySurvey.Audit
