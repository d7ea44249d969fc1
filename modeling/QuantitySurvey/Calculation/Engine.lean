import QuantitySurvey.Calculation.Collaborators
import QuantitySurvey.Calculation.Computation

/-! # The calculation engine

`Engine.calculate` computes one quantity and stores it; `Engine.recalculate` computes the
quantities of an element for all assemblies of its classification and replaces the stored ones at
once. Either way every attempt is recorded with its outcome, and a quantity whose record is
refused is taken out of the store again. -/

set_option autoImplicit false

namespace QuantitySurvey.Calculation

structure Engine (m : Type → Type) where
  settings : Settings
  recorder : Recorder m
  keeper : Keeper m
  surroundings : Surroundings m

/-! ## Reports -/

structure BatchFailure where
  assemblyId : Identifier
  assemblyCode : String
  error : Failure
deriving DecidableEq

/-- What a recalculation came to. -/
structure Report where
  elementId : Identifier
  /-- The quantities that the element has now; none if the recalculation was cancelled. -/
  created : List Quantity
  failures : List BatchFailure
  cancelled : Bool
deriving DecidableEq

def Report.isComplete (r : Report) : Bool :=
  !r.cancelled && r.failures.isEmpty

/-- The failure of attempts whose quantities were not stored because of a cancellation. -/
def cancellation : Failure :=
  .internal "recalculation cancelled before quantities were replaced"

/-! ## Attempts -/

/-- When an attempt began, by both clocks. -/
structure Start where
  instant : Instant
  ticks : Nat

structure Attempt where
  assembly : Assembly
  start : Start
  outcome : Except Failure Quantity

namespace Engine

variable {m : Type → Type} [Monad m] (engine : Engine m)

/-- Computes a quantity, without storing it. -/
def attempt (element : Option Element) (assembly : Option Assembly) :
    m (Start × Except Failure Quantity) := do
  let start : Start := ⟨← engine.surroundings.now, ← engine.surroundings.ticks⟩
  match compute engine.settings element assembly with
  | .error e => return (start, .error e)
  | .ok (e, a, result) =>
    let calculatedAt ← engine.surroundings.now
    let id ← engine.surroundings.freshId
    return (start, .ok (Quantity.ofResult id e.id a.id (result calculatedAt)))

/-! ## Records -/

/-- The outcome that is recorded, and the trace that goes with it. -/
def recordedOutcome : Except Failure Quantity → Audit.Outcome × List Formula.Step
  | .ok q => (.ofQuantity q, q.result.steps)
  | .error e => (.ofFailure e, [])

def recordOf (version : String) (start : Start) (ticks : Nat) (element : Option Element)
    (assembly : Option Assembly) (actor : Actor) (outcome : Except Failure Quantity) :
    Audit.Record where
  elementId := element.map Element.id
  assemblyId := assembly.map Assembly.id
  assemblyCode := assembly.map Assembly.code
  formula := assembly.map Assembly.formula
  parameters := (element.map Element.parameters).getD .empty
  steps := (recordedOutcome outcome).2
  outcome := (recordedOutcome outcome).1
  actor := actor
  startedAt := start.instant
  durationMicros := min (ticks - start.ticks) (UInt64.size - 1)
  engineVersion := version

/-- Records an attempt. If the record is refused, its quantity is withdrawn from the store and
the refusal takes the place of the success; a failure stays what it was. -/
def settle (start : Start) (element : Option Element) (assembly : Option Assembly)
    (actor : Actor) (outcome : Except Failure Quantity) : m (Except Failure Quantity) := do
  let ticks ← engine.surroundings.ticks
  let record := recordOf engine.settings.engineVersion start ticks element assembly actor outcome
  match ← engine.recorder.record record with
  | .ok _ => return outcome
  | .error refusal =>
    match outcome with
    | .error e => return .error e
    | .ok q =>
      let _ ← engine.keeper.remove q.elementId q.id
      return .error refusal

/-! ## One quantity -/

/-- Computes, stores and records one quantity. Element or assembly may be absent, which is a
failure like any other. -/
def calculate (element : Option Element) (assembly : Option Assembly) (actor : Actor) :
    m (Except Failure Quantity) := do
  let (start, outcome) ← engine.attempt element assembly
  match outcome with
  | .error e => engine.settle start element assembly actor (.error e)
  | .ok q =>
    match ← engine.keeper.insert q with
    | .ok _ => engine.settle start element assembly actor (.ok q)
    | .error e => engine.settle start element assembly actor (.error e)

/-! ## All quantities of an element -/

/-- Attempts one assembly after the other until the list ends or a stop is asked for: whether it
was, and the attempts made. The check before an assembly is told how many came before it. -/
def attemptAll (stop : Nat → m Bool) (element : Element) :
    List Assembly → List Attempt → m (Bool × List Attempt)
  | [], made => return (false, made.reverse)
  | a :: rest, made => do
    if ← stop made.length then return (true, made.reverse)
    else
      let (start, outcome) ← engine.attempt (some element) (some a)
      attemptAll stop element rest (⟨a, start, outcome⟩ :: made)

/-- Records attempts in order: the quantities that remain, and the failures. If the batch was not
stored, every success becomes the failure that kept it out. -/
def settleAll (element : Element) (actor : Actor) (notStored : Option Failure) :
    List Attempt → m (List Quantity × List BatchFailure)
  | [] => return ([], [])
  | t :: rest => do
    let outcome := match notStored, t.outcome with
      | some e, .ok _ => .error e
      | _, outcome => outcome
    let settled ← engine.settle t.start (some element) (some t.assembly) actor outcome
    let (created, failures) ← settleAll element actor notStored rest
    match settled with
    | .ok q => return (q :: created, failures)
    | .error e => return (created, ⟨t.assembly.id, t.assembly.code, e⟩ :: failures)

def successes (attempts : List Attempt) : List Quantity :=
  attempts.filterMap fun t => t.outcome.toOption

/-- Recalculates an element for every assembly of its classification. All are attempted first,
then the quantities of the element are replaced, then the attempts are recorded. After a stop
nothing is replaced. -/
def recalculate (element : Element) (catalog : Catalog) (actor : Actor)
    (stop : Nat → m Bool := fun _ => return false) : m (Except Failure Report) := do
  match element.classification with
  | none => return .error (.missingInput "classification")
  | some classification =>
    let (stopped, attempts) ←
      engine.attemptAll stop element (catalog.assembliesFor classification) []
    if stopped then
      let (_, failures) ← engine.settleAll element actor (some cancellation) attempts
      return .ok ⟨element.id, [], failures, true⟩
    else
      match ← engine.keeper.replaceFor element.id (successes attempts) with
      | .ok _ =>
        let (created, failures) ← engine.settleAll element actor none attempts
        return .ok ⟨element.id, created, failures, false⟩
      | .error e =>
        let _ ← engine.settleAll element actor (some e) attempts
        return .error e

end Engine

end QuantitySurvey.Calculation
