import QuantitySurvey.Audit.Log
import QuantitySurvey.Work.Store

/-! # What the engine works with

The engine records attempts, keeps quantities, reads clocks and names new quantities. Each of
these is a record of operations in a monad, so that the same engine runs in memory, on files, and
with collaborators that refuse. `Ledger` is what the collaborators in memory work on. -/

set_option autoImplicit false

namespace QuantitySurvey.Calculation

/-! ## Operations -/

/-- A log that may refuse a record. -/
structure Recorder (m : Type → Type) where
  /-- Adds a record and says which number it got. -/
  record : Audit.Record → m (Except Failure Nat)
  /-- All records, in the order of their numbers. -/
  records : m (Except Failure (List Audit.Record))

/-- A store whose operations may fail. -/
structure Keeper (m : Type → Type) where
  insert : Quantity → m (Except Failure Unit)
  replaceFor : Identifier → List Quantity → m (Except Failure Unit)
  /-- Removes a quantity of an element, if it is there. -/
  remove : Identifier → Identifier → m (Except Failure (Option Quantity))
  deleteFor : Identifier → m (Except Failure Nat)
  forElement : Identifier → m (Except Failure (List Quantity))
  all : m (Except Failure (List Quantity))

structure Surroundings (m : Type → Type) where
  now : m Instant
  /-- A steady clock, in microseconds. -/
  ticks : m Nat
  freshId : m Identifier

variable {m : Type → Type} [Monad m]

def Surroundings.lift {σ : Type} (s : Surroundings m) : Surroundings (StateT σ m) where
  now := StateT.lift s.now
  ticks := StateT.lift s.ticks
  freshId := StateT.lift s.freshId

def Recorder.lift {σ : Type} (r : Recorder m) : Recorder (StateT σ m) where
  record := fun a => StateT.lift (r.record a)
  records := StateT.lift r.records

def Recorder.forElement (r : Recorder m) (element : Identifier) :
    m (Except Failure (List Audit.Record)) := do
  return (← r.records).map fun records => Audit.aboutElement records element

def Recorder.byStatus (r : Recorder m) (status : Audit.Status) :
    m (Except Failure (List Audit.Record)) := do
  return (← r.records).map fun records => Audit.withStatus records status

/-! ## In memory -/

structure Ledger where
  store : Store := {}
  log : Audit.Log := {}

def Recorder.inLedger : Recorder (StateT Ledger m) where
  record := fun r => do
    let l ← get
    let (numbered, log) := l.log.add r
    set { l with log := log }
    return .ok numbered.sequence
  records := do
    return .ok (← get).log.records

def Keeper.inLedger : Keeper (StateT Ledger m) where
  insert := fun q => do
    modify fun l => { l with store := l.store.insert q }
    return .ok ()
  replaceFor := fun element quantities => do
    let l ← get
    match l.store.replaceFor element quantities with
    | .ok store =>
      set { l with store := store }
      return .ok ()
    | .error e => return .error e
  remove := fun element id => do
    let l ← get
    let (removed, store) := l.store.remove element id
    set { l with store := store }
    return .ok removed
  deleteFor := fun element => do
    let l ← get
    let (count, store) := l.store.deleteFor element
    set { l with store := store }
    return .ok count
  forElement := fun element => do
    return .ok ((← get).store.forElement element)
  all := do
    return .ok (← get).store.all

/-! ## Refusals -/

def Recorder.refusing (refusal? : Audit.Record → Option Failure) (r : Recorder m) :
    Recorder m where
  record := fun a =>
    match refusal? a with
    | some e => return .error e
    | none => r.record a
  records := r.records

def Keeper.failing (insertFault replaceFault removeFault : Option Failure) (k : Keeper m) :
    Keeper m where
  insert := fun q =>
    match insertFault with
    | some e => return .error e
    | none => k.insert q
  replaceFor := fun element quantities =>
    match replaceFault with
    | some e => return .error e
    | none => k.replaceFor element quantities
  remove := fun element id =>
    match removeFault with
    | some e => return .error e
    | none => k.remove element id
  deleteFor := k.deleteFor
  forElement := k.forElement
  all := k.all

end QuantitySurvey.Calculation
