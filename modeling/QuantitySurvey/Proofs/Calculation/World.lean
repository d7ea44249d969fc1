import QuantitySurvey.Calculation.Engine
import QuantitySurvey.Command.Sample

/-! # The engine in its world

What the engine does depends on things it does not decide: what the clocks show, which identifiers
are given out, which records the log refuses, which store operations fail, and when a stop is asked
for. `Circumstances` are such decisions; each may depend on a state of their own, and change it.
`World` is that state together with the ledger and a history of the decisions that matter later:
the identifiers given and the records offered to the log. `play` runs a computation of the engine
in a world.

* `play_attempt`: an attempt stores nothing and offers nothing; `Yields` says what it came to.
* `play_settle`: settling an attempt offers one record, and does to the ledger what `Ledger.settled`
  says.
-/

set_option autoImplicit false

namespace QuantitySurvey.Calculation

/-! ## Decisions -/

/-- What is decided outside the engine. -/
structure Circumstances (σ : Type) where
  surroundings : Surroundings (StateM σ)
  refusal? : Audit.Record → StateM σ (Option Failure)
  insertFault? : Quantity → StateM σ (Option Failure)
  replaceFault? : Identifier → List Quantity → StateM σ (Option Failure)
  stop : Nat → StateM σ Bool

/-- Everything around the ledger, and what was given out and offered so far. -/
structure History (σ : Type) where
  state : σ
  given : List Identifier := []
  /-- The records offered to the log, each with its refusal if it was refused. -/
  offers : List (Audit.Record × Option Failure) := []

structure World (σ : Type) where
  ledger : Ledger := {}
  history : History σ

/-- Computations over a ledger, within a history. -/
abbrev Play (σ : Type) := StateT Ledger (StateM (History σ))

variable {σ α β : Type}

def World.start (state : σ) : World σ := { history := { state := state } }

def History.deciding (x : StateM σ α) : Play σ α :=
  StateT.lift fun h => ((x h.state).1, { h with state := (x h.state).2 })

def History.giving (x : StateM σ Identifier) : Play σ Identifier :=
  StateT.lift fun h =>
    ((x h.state).1, { h with state := (x h.state).2, given := h.given ++ [(x h.state).1] })

def History.answering (answer : Audit.Record → StateM σ (Option Failure)) (r : Audit.Record) :
    Play σ (Option Failure) :=
  StateT.lift fun h =>
    ((answer r h.state).1,
      { h with
        state := (answer r h.state).2
        offers := h.offers ++ [(r, (answer r h.state).1)] })

/-! ## Collaborators that refuse when asked to -/

section Refusals

variable {m : Type → Type} [Monad m]

/-- A recorder that asks for each record whether to refuse it. -/
def Recorder.asking (refusal? : Audit.Record → m (Option Failure)) (r : Recorder m) :
    Recorder m where
  record := fun a => do
    match ← refusal? a with
    | some e => return .error e
    | none => r.record a
  records := r.records

/-- A store that asks for each insertion and replacement whether it fails. -/
def Keeper.asking (insertFault? : Quantity → m (Option Failure))
    (replaceFault? : Identifier → List Quantity → m (Option Failure)) (k : Keeper m) :
    Keeper m where
  insert := fun q => do
    match ← insertFault? q with
    | some e => return .error e
    | none => k.insert q
  replaceFor := fun element quantities => do
    match ← replaceFault? element quantities with
    | some e => return .error e
    | none => k.replaceFor element quantities
  remove := k.remove
  deleteFor := k.deleteFor
  forElement := k.forElement
  all := k.all

end Refusals

/-! ## Playing -/

/-- The outcome of a computation in a world, and the world after it. -/
def play (x : Play σ α) (w : World σ) : α × World σ :=
  let r := x.run w.ledger w.history
  (r.1.1, ⟨r.1.2, r.2⟩)

@[simp] theorem play_pure (a : α) (w : World σ) : play (pure a) w = (a, w) := rfl

@[simp] theorem play_bind (x : Play σ α) (f : α → Play σ β) (w : World σ) :
    play (x >>= f) w = play (f (play x w).1) (play x w).2 := rfl

def World.moved (w : World σ) (state : σ) : World σ :=
  { w with history := { w.history with state := state } }

@[simp] theorem play_deciding (x : StateM σ α) (w : World σ) :
    play (History.deciding x) w = ((x w.history.state).1, w.moved (x w.history.state).2) := rfl

def World.gave (w : World σ) (ids : List Identifier) (state : σ) : World σ :=
  { w with history := { w.history with state := state, given := w.history.given ++ ids } }

@[simp] theorem World.gave_nil (w : World σ) (state : σ) : w.gave [] state = w.moved state := by
  simp [World.gave, World.moved]

/-! ## The engine -/

namespace Circumstances

variable (c : Circumstances σ) (settings : Settings)

def watched : Surroundings (Play σ) where
  now := History.deciding c.surroundings.now
  ticks := History.deciding c.surroundings.ticks
  freshId := History.giving c.surroundings.freshId

def engine : Engine (Play σ) where
  settings := settings
  recorder := Recorder.inLedger.asking (History.answering c.refusal?)
  keeper := Keeper.inLedger.asking (fun q => History.deciding (c.insertFault? q))
    (fun e qs => History.deciding (c.replaceFault? e qs))
  surroundings := c.watched

def stopping (n : Nat) : Play σ Bool := History.deciding (c.stop n)

/-- Circumstances in which identifiers are counted up, the records of some assemblies are refused,
and nothing else goes wrong. -/
def counting (refused : List String) : Circumstances Nat where
  surroundings := {
    now := pure default
    ticks := pure 0
    freshId := fun n => (Identifier.ofNat n, n + 1) }
  refusal? := fun r =>
    pure (if r.assemblyCode.any refused.contains then some (.internal "disk full") else none)
  insertFault? := fun _ => pure none
  replaceFault? := fun _ _ => pure none
  stop := fun _ => pure false

end Circumstances

def sampleProject : Project :=
  ((Command.withSample (Circumstances.counting []).surroundings
    (Project.new default "" "" "")).run 0).1

/-! ## Attempts -/

def newIds (outcome : Except Failure Quantity) : List Identifier :=
  (outcome.toOption.map Quantity.id).toList

@[simp] theorem newIds_error (f : Failure) : newIds (.error f) = [] := rfl

@[simp] theorem newIds_ok (q : Quantity) : newIds (.ok q) = [q.id] := rfl

/-- What an attempt may come to: the failure of the computation, or a quantity with its result
under some identifier and time. -/
inductive Yields (settings : Settings) (e : Option Element) (a : Option Assembly) :
    Except Failure Quantity → Prop
  | failed {f : Failure} (h : compute settings e a = .error f) : Yields settings e a (.error f)
  | computed {e' : Element} {a' : Assembly} {result : Instant → CalculationResult}
      (id : Identifier) (time : Instant) (h : compute settings e a = .ok (e', a', result)) :
      Yields settings e a (.ok (Quantity.ofResult id e'.id a'.id (result time)))

theorem inputs_ok {e : Option Element} {a : Option Assembly} {e' : Element} {a' : Assembly}
    (h : inputs e a = .ok (e', a')) : e = some e' ∧ a = some a' := by
  unfold inputs at h
  split at h
  · cases h
  · cases h
  · split at h
    · cases h
    · cases h
      exact ⟨rfl, rfl⟩

theorem compute_ok {settings : Settings} {e : Option Element} {a : Option Assembly}
    {e' : Element} {a' : Assembly} {result : Instant → CalculationResult}
    (h : compute settings e a = .ok (e', a', result)) : e = some e' ∧ a = some a' := by
  simp only [compute, bind, Except.bind, pure, Except.pure] at h
  split at h
  · cases h
  · next v hv =>
    split at h
    · cases h
    · split at h
      · cases h
      · cases h
        exact inputs_ok hv

theorem Yields.owner {settings : Settings} {e : Option Element} {a : Option Assembly}
    {q : Quantity} (h : Yields settings e a (.ok q)) :
    e.map Element.id = some q.elementId ∧ a.map Assembly.id = some q.assemblyId := by
  cases h with
  | computed id time h =>
    obtain ⟨rfl, rfl⟩ := compute_ok h
    exact ⟨rfl, rfl⟩

section Operations

variable (c : Circumstances σ) (settings : Settings) (w : World σ)

/-- An attempt leaves the ledger and the offers as they are, and uses up one identifier if it
results in a quantity. -/
theorem play_attempt (e : Option Element) (a : Option Assembly) :
    ∃ start outcome state, Yields settings e a outcome ∧
      play ((c.engine settings).attempt e a) w
        = ((start, outcome), w.gave (newIds outcome) state) := by
  let now := c.surroundings.now w.history.state
  let ticks := c.surroundings.ticks now.2
  simp only [Engine.attempt, Circumstances.engine, play_bind]
  cases h : compute settings e a with
  | error f =>
    refine ⟨⟨now.1, ticks.1⟩, .error f, ticks.2, .failed h, ?_⟩
    rw [newIds_error, World.gave_nil]
    rfl
  | ok r =>
    obtain ⟨e', a', result⟩ := r
    exact ⟨_, _, _, .computed _ _ h, rfl⟩

/-! ## Settling -/

/-- What is reported of an attempt whose record may have been refused. -/
def verdict : Except Failure Quantity → Option Failure → Except Failure Quantity
  | .ok _, some refusal => .error refusal
  | outcome, _ => outcome

@[simp] theorem verdict_error (f : Failure) (refusal : Option Failure) :
    verdict (.error f) refusal = .error f := rfl

@[simp] theorem verdict_accepted (outcome : Except Failure Quantity) :
    verdict outcome none = outcome := by
  cases outcome <;> rfl

@[simp] theorem verdict_refused (q : Quantity) (refusal : Failure) :
    verdict (.ok q) (some refusal) = .error refusal := rfl

/-- The ledger after an attempt is settled: an accepted record is added to the log, and a refused
one takes the quantity out of the store. -/
def Ledger.settled (l : Ledger) (r : Audit.Record) :
    Except Failure Quantity → Option Failure → Ledger
  | _, none => { l with log := (l.log.add r).2 }
  | .ok q, some _ => { l with store := (l.store.remove q.elementId q.id).2 }
  | .error _, some _ => l

def World.settled (w : World σ) (r : Audit.Record) (outcome : Except Failure Quantity)
    (refusal : Option Failure) (state : σ) : World σ where
  ledger := w.ledger.settled r outcome refusal
  history :=
    { w.history with state := state, offers := w.history.offers ++ [(r, refusal)] }

theorem play_record (r : Audit.Record) :
    (∃ f state, (∃ s, (c.refusal? r s).1 = some f) ∧
      play ((c.engine settings).recorder.record r) w
        = (.error f, ⟨w.ledger, { w.history with
          state := state, offers := w.history.offers ++ [(r, some f)] }⟩)) ∨
    ∃ n state, (∃ s, (c.refusal? r s).1 = none) ∧
      play ((c.engine settings).recorder.record r) w
        = (.ok n, ⟨{ w.ledger with log := (w.ledger.log.add r).2 }, { w.history with
          state := state, offers := w.history.offers ++ [(r, none)] }⟩) := by
  let answer := c.refusal? r w.history.state
  have hanswer : play (History.answering c.refusal? r) w = (answer.1, ⟨w.ledger, { w.history with
      state := answer.2, offers := w.history.offers ++ [(r, answer.1)] }⟩) := rfl
  simp only [Circumstances.engine, Recorder.asking, play_bind, hanswer]
  cases h : answer.1 with
  | some f => exact .inl ⟨f, _, ⟨_, h⟩, rfl⟩
  | none => exact .inr ⟨_, _, ⟨_, h⟩, rfl⟩

/-- Settling offers one record of the attempt to the log, which answers. -/
theorem play_settle_answered (start : Start) (e : Option Element) (a : Option Assembly)
    (actor : Actor) (outcome : Except Failure Quantity) :
    ∃ ticks refusal state,
      (∃ s, (c.refusal?
        (Engine.recordOf settings.engineVersion start ticks e a actor outcome) s).1 = refusal) ∧
      play ((c.engine settings).settle start e a actor outcome) w
        = (verdict outcome refusal, w.settled
          (Engine.recordOf settings.engineVersion start ticks e a actor outcome)
          outcome refusal state) := by
  let ticks := c.surroundings.ticks w.history.state
  have hticks : play (c.engine settings).surroundings.ticks w = (ticks.1, w.moved ticks.2) := rfl
  have hversion : (c.engine settings).settings = settings := rfl
  simp only [Engine.settle, play_bind, hticks, hversion]
  obtain ⟨f, state, hanswer, h⟩ | ⟨n, state, hanswer, h⟩ :=
    play_record c settings (w.moved ticks.2)
      (Engine.recordOf settings.engineVersion start ticks.1 e a actor outcome)
  · rw [h]
    cases outcome with
    | error e => exact ⟨ticks.1, some f, state, hanswer, rfl⟩
    | ok q => exact ⟨ticks.1, some f, state, hanswer, rfl⟩
  · rw [h]
    exact ⟨ticks.1, none, state, hanswer, by rw [verdict_accepted]; rfl⟩

theorem play_settle (start : Start) (e : Option Element) (a : Option Assembly) (actor : Actor)
    (outcome : Except Failure Quantity) :
    ∃ ticks refusal state,
      play ((c.engine settings).settle start e a actor outcome) w
        = (verdict outcome refusal, w.settled
          (Engine.recordOf settings.engineVersion start ticks e a actor outcome)
          outcome refusal state) := by
  obtain ⟨ticks, refusal, state, -, h⟩ := play_settle_answered c settings w start e a actor outcome
  exact ⟨ticks, refusal, state, h⟩

/-! ## Storing -/

/-- The store takes up a quantity, or has a fault and stays as it is. -/
theorem play_insert (q : Quantity) :
    (∃ f state, (c.insertFault? q w.history.state).1 = some f ∧
      play ((c.engine settings).keeper.insert q) w = (.error f, w.moved state)) ∨
    ∃ state, (c.insertFault? q w.history.state).1 = none ∧
      play ((c.engine settings).keeper.insert q) w = (.ok (),
        { w.moved state with ledger := { w.ledger with store := w.ledger.store.insert q } }) := by
  let fault := c.insertFault? q w.history.state
  have hfault : play (History.deciding (c.insertFault? q)) w = (fault.1, w.moved fault.2) := rfl
  simp only [Circumstances.engine, Keeper.asking, play_bind, hfault]
  cases fault.1 with
  | some f => exact .inl ⟨f, _, rfl, rfl⟩
  | none => exact .inr ⟨_, rfl, rfl⟩

/-- The store replaces the quantities of an element by others of that element, or has a fault and
stays as it is. -/
theorem play_replaceFor (e : Identifier) (qs : List Quantity) (h : ∀ q ∈ qs, q.elementId = e) :
    (∃ f state, (∃ s, (c.replaceFault? e qs s).1 = some f) ∧
      play ((c.engine settings).keeper.replaceFor e qs) w = (.error f, w.moved state)) ∨
    ∃ state, play ((c.engine settings).keeper.replaceFor e qs) w = (.ok (),
      { w.moved state with ledger := { w.ledger with store := w.ledger.store.set e qs } }) := by
  let fault := c.replaceFault? e qs w.history.state
  have hfault : play (History.deciding (c.replaceFault? e qs)) w = (fault.1, w.moved fault.2) :=
    rfl
  have hset : w.ledger.store.replaceFor e qs = .ok (w.ledger.store.set e qs) := by
    have hno : qs.find? (·.elementId != e) = none := by simpa using h
    rw [Store.replaceFor, hno]
  simp only [Circumstances.engine, Keeper.asking, play_bind, hfault]
  cases hf : fault.1 with
  | some f => exact .inl ⟨f, _, ⟨_, hf⟩, rfl⟩
  | none =>
    have hrun : play (Keeper.inLedger.replaceFor e qs) (w.moved fault.2) = (.ok (),
        { w.moved fault.2 with
          ledger := { w.ledger with store := w.ledger.store.set e qs } }) := by
      have hget : play (get : Play σ Ledger) (w.moved fault.2) = (w.ledger, w.moved fault.2) := rfl
      simp only [Keeper.inLedger, play_bind, hget, hset]
      rfl
    exact .inr ⟨_, hrun⟩

end Operations

end QuantitySurvey.Calculation
