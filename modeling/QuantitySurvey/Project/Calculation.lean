import QuantitySurvey.Calculation.Engine
import QuantitySurvey.Project

/-! # Calculations in a project

The engine runs over the quantities and the audit trail of a project, which take up what came of
it. A failed calculation leaves its record too. -/

set_option autoImplicit false

namespace QuantitySurvey.Project

open Calculation (Engine Keeper Ledger Recorder Report Surroundings)

variable {m : Type → Type} [Monad m] (settings : Settings) (surroundings : Surroundings m)

def ledger (p : Project) : Ledger where
  store := Store.ofList p.quantities
  log := ⟨p.auditTrail⟩

/-- The project with the quantities and records of a ledger. -/
def withLedger (p : Project) (l : Ledger) (now : Instant) : Project :=
  Project.touch { p with quantities := l.store.all, auditTrail := l.log.records } now

def engine : Engine (StateT Ledger m) where
  settings := settings
  recorder := Recorder.inLedger
  keeper := Keeper.inLedger
  surroundings := surroundings.lift

/-- What comes of a run of the engine, and the project after it. -/
def running {α : Type} (p : Project) (run : Engine (StateT Ledger m) → StateT Ledger m α) :
    m (α × Project) := do
  let (a, l) ← (run (engine settings surroundings)).run p.ledger
  return (a, p.withLedger l (← surroundings.now))

def calculate (p : Project) (e : Element) (a : Assembly) (actor : Actor) :
    m (Except Failure Quantity × Project) :=
  p.running settings surroundings fun engine => engine.calculate (some e) (some a) actor

def recalculate (p : Project) (e : Element) (actor : Actor) :
    m (Except Failure Report × Project) :=
  p.running settings surroundings fun engine => engine.recalculate e p.catalog actor

end QuantitySurvey.Project
