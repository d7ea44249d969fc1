import QuantitySurvey.Instant

/-! # Holders of locks

A lock says who works on a project: a person, on a machine, in a process, since some time. It is
stale, and may be taken over, if the process is gone or the lock is more than a day old. -/

set_option autoImplicit false

namespace QuantitySurvey

namespace Lock

structure Holder where
  user : String
  machine : String
  processId : Nat
  since : Instant
deriving DecidableEq, Repr, Inhabited

/-- The machine and the process at work. -/
structure Session (m : Type → Type) where
  /-- The name of the machine, if it has one. -/
  hostName : m (Option String)
  processId : m Nat
  /-- Whether a process runs on this machine. -/
  isAlive : Nat → m Bool
  now : m Instant

/-! ## Age -/

/-- The age, in hours, that a lock must not exceed. Only whole hours count. -/
def greatestAge : Nat := 24

/-- Whether the whole hours between two points in time exceed the greatest age. -/
def isOverdue (since now : Instant) : Bool :=
  (greatestAge : Int) < (since.elapsed now).tdiv (3600 * Instant.nanosecondsPerSecond)

variable {m : Type → Type} [Monad m] (session : Session m)

/-- Whether a lock is left over. Of processes on other machines nothing is known. -/
def Holder.isStale (holder : Holder) : m Bool := do
  let isHere := (← session.hostName) == some holder.machine
  let isGone ← if isHere then (! ·) <$> session.isAlive holder.processId else pure false
  if isGone then return true
  else return isOverdue holder.since (← session.now)

/-- The session as a holder of a lock. -/
def Holder.ofSession (user : String) : m Holder := do
  return {
    user := user
    machine := (← session.hostName).getD "unknown"
    processId := ← session.processId
    since := ← session.now }

end Lock

end QuantitySurvey
