import QuantitySurvey.Proofs.Calculation.Replacement

/-! # The course of a calculation

A calculation is an attempt, whose quantity goes to the store, and whose outcome is then settled with
the log. Each of the three may fail: the first failure is reported, and the record has the outcome of
the first two. `Course` is what came of them, and `Course.world` is the world afterwards.

* `play_calculate_course`: every calculation takes a course.
* `Course.forElement_of_error`, `Course.store_of_ok`: what a course leaves in the store.
* `calculation_recorded_once`: a log that takes every record gets one, with what is reported.
* `calculation_atomic`: the store gets the reported quantity, or stays as it was.
-/

set_option autoImplicit false

namespace QuantitySurvey.Calculation

/-! ## The three parts -/

section Parts

variable {m : Type → Type} [Monad m] (engine : Engine m)

/-- Stores the quantity of an attempt, which becomes a failure if the store fails. -/
def Engine.keep : Except Failure Quantity → m (Except Failure Quantity)
  | .error f => return .error f
  | .ok q => do
    match ← engine.keeper.insert q with
    | .ok _ => return .ok q
    | .error f => return .error f

theorem calculate_eq_keep [LawfulMonad m] (e : Option Element) (a : Option Assembly)
    (actor : Actor) :
    engine.calculate e a actor = engine.attempt e a >>= fun p =>
      engine.keep p.2 >>= fun outcome => engine.settle p.1 e a actor outcome := by
  unfold Engine.calculate
  refine bind_congr fun p => ?_
  obtain ⟨start, computed⟩ := p
  cases computed with
  | error f => simp only [Engine.keep, pure_bind]
  | ok q =>
    simp only [Engine.keep, bind_assoc]
    refine bind_congr fun stored => ?_
    cases stored <;> simp only [pure_bind]

end Parts

variable {σ : Type}

/-- A ledger with the quantity of an outcome in its store. -/
def Ledger.holding (l : Ledger) : Except Failure Quantity → Ledger
  | .ok q => { l with store := l.store.insert q }
  | .error _ => l

@[simp] theorem Ledger.holding_log (l : Ledger) (outcome : Except Failure Quantity) :
    (l.holding outcome).log = l.log := by
  cases outcome <;> rfl

theorem verdict_eq_ok {outcome : Except Failure Quantity} {refusal : Option Failure}
    {q : Quantity} (h : verdict outcome refusal = .ok q) : outcome = .ok q ∧ refusal = none := by
  cases outcome with
  | error f => cases h
  | ok p =>
    cases refusal with
    | some f => cases h
    | none => exact ⟨h, rfl⟩

theorem verdict_eq_error {outcome : Except Failure Quantity} {refusal : Option Failure}
    {f : Failure} (h : verdict outcome refusal = .error f) :
    outcome = .error f ∨ ∃ q, outcome = .ok q ∧ refusal = some f := by
  cases outcome with
  | error g => exact .inl h
  | ok q =>
    cases refusal with
    | none => cases h
    | some g =>
      rw [verdict_refused] at h
      cases h
      exact .inr ⟨q, rfl, rfl⟩

theorem Yields.eq_error {settings : Settings} {e : Option Element} {a : Option Assembly}
    {outcome : Except Failure Quantity} (h : Yields settings e a outcome) {f : Failure}
    (hf : compute settings e a = .error f) : outcome = .error f := by
  cases h with
  | failed h =>
    rw [hf] at h
    cases h
    rfl
  | computed id time h =>
    rw [hf] at h
    cases h

/-- The store takes up the quantity of an attempt, unless it has a fault. -/
theorem play_keep (c : Circumstances σ) (settings : Settings) (w : World σ)
    (computed : Except Failure Quantity) :
    ∃ fault state, (∀ q, computed = .ok q → (c.insertFault? q w.history.state).1 = fault) ∧
      play ((c.engine settings).keep computed) w = (verdict computed fault,
        { w.moved state with ledger := w.ledger.holding (verdict computed fault) }) := by
  cases computed with
  | error f => exact ⟨none, w.history.state, by simp, rfl⟩
  | ok q =>
    simp only [Engine.keep, play_bind]
    obtain ⟨f, state, hfault, h⟩ | ⟨state, hfault, h⟩ := play_insert c settings w q
    · rw [h]
      refine ⟨some f, state, ?_, rfl⟩
      rintro p hp
      cases hp
      exact hfault
    · rw [h]
      refine ⟨none, state, ?_, rfl⟩
      rintro p hp
      cases hp
      exact hfault

/-! ## Courses -/

/-- What came of the parts of a calculation. -/
structure Course (σ : Type) where
  start : Start
  computed : Except Failure Quantity
  /-- The fault of the store, if a quantity came to it. -/
  fault : Option Failure
  ticks : Nat
  refusal : Option Failure
  state : σ

section Courses

variable (c : Circumstances σ) (settings : Settings) (e : Option Element) (a : Option Assembly)
  (actor : Actor)

namespace Course

variable (t : Course σ)

/-- What computing and storing came to, which is recorded. -/
def outcome : Except Failure Quantity := verdict t.computed t.fault

def reported : Except Failure Quantity := verdict t.outcome t.refusal

def record : Audit.Record :=
  Engine.recordOf settings.engineVersion t.start t.ticks e a actor t.outcome

def world (w : World σ) : World σ where
  ledger := (w.ledger.holding t.outcome).settled (t.record settings e a actor) t.outcome t.refusal
  history :=
    { state := t.state
      given := w.history.given ++ newIds t.computed
      offers := w.history.offers ++ [(t.record settings e a actor, t.refusal)] }

/-- The parts came out as the engine and the circumstances have it in a world. -/
structure IsTaken (w : World σ) : Prop where
  attempted : (play ((c.engine settings).attempt e a) w).1 = (t.start, t.computed)
  yields : Yields settings e a t.computed
  stored : ∀ q, t.computed = .ok q →
    (c.insertFault? q (play ((c.engine settings).attempt e a) w).2.history.state).1 = t.fault
  answered : ∃ s, (c.refusal? (t.record settings e a actor) s).1 = t.refusal

end Course

def calculation (w : World σ) : Except Failure Quantity × World σ :=
  play ((c.engine settings).calculate e a actor) w

theorem play_calculate_course (w : World σ) :
    ∃ t : Course σ, t.IsTaken c settings e a actor w ∧
      calculation c settings e a actor w = (t.reported, t.world settings e a actor w) := by
  obtain ⟨start, computed, given, hyields, hattempt⟩ := play_attempt c settings w e a
  obtain ⟨fault, kept, hfault, hkeep⟩ :=
    play_keep c settings (w.gave (newIds computed) given) computed
  obtain ⟨ticks, refusal, state, hanswer, hsettle⟩ := play_settle_answered c settings
    { (w.gave (newIds computed) given).moved kept with
      ledger := w.ledger.holding (verdict computed fault) }
    start e a actor (verdict computed fault)
  let t : Course σ := ⟨start, computed, fault, ticks, refusal, state⟩
  have htaken : t.IsTaken c settings e a actor w := {
    attempted := by rw [hattempt]
    yields := hyields
    stored := by
      intro q hq
      rw [hattempt]
      exact hfault q hq
    answered := hanswer }
  refine ⟨t, htaken, ?_⟩
  have hledger : (w.gave (newIds computed) given).ledger = w.ledger := rfl
  rw [calculation, calculate_eq_keep]
  simp only [play_bind, hattempt, hkeep, hledger, hsettle]
  rfl

/-! ## What a course leaves in the store -/

namespace Course

variable (t : Course σ) (w : World σ)

theorem forElement_remove_insert (s : Store) (q : Quantity) (fresh : ∀ p ∈ s.all, p.id ≠ q.id)
    (x : Identifier) :
    ((s.insert q).remove q.elementId q.id).2.forElement x = s.forElement x := by
  by_cases hx : x = q.elementId
  · subst hx
    have hold : ∀ p ∈ s.forElement q.elementId, ¬ (p.id == q.id) = true := by
      intro p hp heq
      exact fresh p (Store.mem_all_of_mem_forElement hp) (by simpa using heq)
    rw [Store.forElement_remove_self, Store.forElement_insert_self,
      List.eraseP_append_right _ hold, List.eraseP_cons_of_pos (by simp), List.append_nil]
  · rw [Store.forElement_remove_of_ne _ _ hx, Store.forElement_insert_of_ne _ _ hx]

theorem forElement_of_error (fresh : ∀ p ∈ w.ledger.store.all, p.id ∉ newIds t.computed)
    {f : Failure} (h : t.reported = .error f) (x : Identifier) :
    (t.world settings e a actor w).ledger.store.forElement x = w.ledger.store.forElement x := by
  obtain houtcome | ⟨q, houtcome, hrefusal⟩ := verdict_eq_error h
  · have hstore : (t.world settings e a actor w).ledger.store = w.ledger.store := by
      simp only [world, houtcome]
      cases t.refusal <;> rfl
    rw [hstore]
  · have hcomputed : t.computed = .ok q := (verdict_eq_ok houtcome).1
    have hstore : (t.world settings e a actor w).ledger.store
        = ((w.ledger.store.insert q).remove q.elementId q.id).2 := by
      simp only [world, houtcome, hrefusal]
      rfl
    rw [hstore]
    refine forElement_remove_insert _ q ?_ x
    intro p hp heq
    exact fresh p hp (by simp [hcomputed, heq])

theorem store_of_ok {q : Quantity} (h : t.reported = .ok q) :
    (t.world settings e a actor w).ledger.store = w.ledger.store.insert q := by
  obtain ⟨houtcome, hrefusal⟩ := verdict_eq_ok h
  simp only [world, houtcome, hrefusal]
  rfl

theorem records_of_accepted (h : t.refusal = none) :
    (t.world settings e a actor w).ledger.log.records = w.ledger.log.records
      ++ [{ t.record settings e a actor with
        sequence := Audit.nextSequence w.ledger.log.records }] := by
  have hlog : (t.world settings e a actor w).ledger.log
      = (w.ledger.log.add (t.record settings e a actor)).2 := by
    simp only [world, h]
    rw [← Ledger.holding_log w.ledger t.outcome]
    cases t.outcome <;> rfl
  rw [hlog, Audit.Log.records_add]

theorem records_of_refused {f : Failure} (h : t.refusal = some f) :
    (t.world settings e a actor w).ledger.log.records = w.ledger.log.records := by
  have hlog : (t.world settings e a actor w).ledger.log = w.ledger.log := by
    simp only [world, h]
    cases houtcome : t.outcome <;> rfl
  rw [hlog]

end Course

/-! ## Recorded once -/

/-- A record has the inputs of an attempt and the version that attempted it. -/
structure HasInputs (r : Audit.Record) : Prop where
  element : r.elementId = e.map Element.id
  assembly : r.assemblyId = a.map Assembly.id
  code : r.assemblyCode = a.map Assembly.code
  formula : r.formula = a.map Assembly.formula
  parameters : r.parameters = (e.map Element.parameters).getD .empty
  actor : r.actor = actor
  version : r.engineVersion = settings.engineVersion

/-- A record has what is reported: a quantity with its values and trace, or a failure without
one. -/
def HasReport (r : Audit.Record) : Except Failure Quantity → Prop
  | .ok q => r.outcome = .success q.id q.result.raw q.value q.unit ∧ r.steps = q.result.steps
  | .error f => r.outcome = .failure f.kind f.message f ∧ r.steps = []

theorem hasReport_recordOf (version : String) (start : Start) (ticks sequence : Nat)
    (outcome : Except Failure Quantity) :
    HasReport { Engine.recordOf version start ticks e a actor outcome with sequence := sequence }
      outcome := by
  cases outcome <;> exact ⟨rfl, rfl⟩

theorem HasReport.isSuccess_iff {r : Audit.Record} {reported : Except Failure Quantity}
    (h : HasReport r reported) : r.isSuccess = true ↔ ∃ q, reported = .ok q := by
  have hstatus : r.isSuccess = true ↔ r.outcome.status = .success := by
    simp [Audit.Record.isSuccess, Audit.Record.status]
  rw [hstatus]
  cases reported with
  | ok q => simp [h.1, Audit.Outcome.status]
  | error f => simp [h.1, Audit.Outcome.status]

/-- If the log takes every record, a calculation leaves one more record in it, and changes none. The
record has the inputs of the attempt; it is a success exactly if a quantity is returned, and has what
is returned: the values and the trace of the quantity, or the failure, wherever it arose. -/
theorem calculation_recorded_once (w : World σ)
    (accepting : ∀ r s, (c.refusal? r s).1 = none) :
    let result := calculation c settings e a actor w
    ∃ r, result.2.ledger.log.records = w.ledger.log.records ++ [r] ∧
      result.2.history.offers = w.history.offers ++ [(r.unnumbered, none)] ∧
      HasInputs settings e a actor r ∧ HasReport r result.1 ∧
      (r.isSuccess = true ↔ ∃ q, result.1 = .ok q) := by
  intro result
  obtain ⟨t, htaken, hplay⟩ := play_calculate_course c settings e a actor w
  have hrefusal : t.refusal = none := by
    obtain ⟨s, hs⟩ := htaken.answered
    rw [← hs, accepting]
  have hreported : t.reported = t.outcome := by
    rw [Course.reported, hrefusal, verdict_accepted]
  have hresult : result = (t.outcome, t.world settings e a actor w) := by
    rw [← hreported]
    exact hplay
  let r := { t.record settings e a actor with
    sequence := Audit.nextSequence w.ledger.log.records }
  have hreport : HasReport r t.outcome := hasReport_recordOf e a actor _ _ _ _ _
  rw [hresult]
  refine ⟨r, t.records_of_accepted settings e a actor w hrefusal, ?_, ?_, hreport,
    hreport.isSuccess_iff⟩
  · rw [Course.world, hrefusal]
    rfl
  · exact ⟨rfl, rfl, rfl, rfl, rfl, rfl, rfl⟩

/-- The store fails for the sample slab: the one record tells of that. -/
theorem sample_calculation_recorded_once :
    let fault := Failure.file "insert" "quantities" "read-only"
    let c := { Circumstances.counting [] with insertFault? := fun _ => pure (some fault) }
    let slab := some (Command.sampleSlab (.ofNat 3))
    let assembly := sampleProject.catalog.byCode? "11.2.1"
    let result := calculation c {} slab assembly .system (.start 4)
    result.1.toOption = none ∧
    ∃ r, result.2.ledger.log.records = [] ++ [r] ∧
      result.2.history.offers = [] ++ [(r.unnumbered, none)] ∧
      HasInputs {} slab assembly .system r ∧ HasReport r result.1 ∧
      (r.isSuccess = true ↔ ∃ q, result.1 = .ok q) := by
  refine ⟨by decide +kernel, ?_⟩
  refine calculation_recorded_once _ _ _ _ _ _ ?_
  intro r s
  cases hcode : r.assemblyCode <;> simp [Circumstances.counting, hcode] <;> rfl

/-! ## Stored or not at all -/

/-- What a calculation does to the store of a world, and which failure it reports. -/
structure IsAtomic (w : World σ) (result : Except Failure Quantity × World σ) (t : Course σ) :
    Prop where
  taken : t.IsTaken c settings e a actor w
  offered : result.2.history.offers
    = w.history.offers ++ [(t.record settings e a actor, t.refusal)]
  /-- After a failure every element has the quantities it had, in the same order. -/
  unchanged : ∀ f, result.1 = .error f → ∀ x,
    result.2.ledger.store.forElement x = w.ledger.store.forElement x
  /-- The quantity that is returned comes to the end of the list of its element. -/
  appended : ∀ q, result.1 = .ok q → e.map Element.id = some q.elementId ∧
    result.2.ledger.store.forElement q.elementId
      = w.ledger.store.forElement q.elementId ++ [q] ∧
    ∀ x, x ≠ q.elementId →
      result.2.ledger.store.forElement x = w.ledger.store.forElement x
  /-- A failure of the computation is returned, whatever the log answers. -/
  computationFailure : ∀ f, compute settings e a = .error f → result.1 = .error f
  /-- So is a fault of the store. -/
  storeFailure : ∀ q f, t.computed = .ok q → t.fault = some f → result.1 = .error f
  /-- A refusal is returned if it is the only failure. -/
  auditFailure : ∀ q f, t.computed = .ok q → t.fault = none → t.refusal = some f →
    result.1 = .error f
  success : ∀ q, t.computed = .ok q → t.fault = none → t.refusal = none → result.1 = .ok q

/-- A calculation that returns a failure leaves the stored quantities of every element as they were;
one that returns a quantity adds it at the end of the list of its element and does nothing else to
them. The first of computation, store and log to fail decides which failure it is. -/
theorem calculation_atomic (w : World σ)
    (fresh : ∀ p ∈ w.ledger.store.all, p.id ∉
      (calculation c settings e a actor w).2.history.given.drop w.history.given.length) :
    ∃ t, IsAtomic c settings e a actor w (calculation c settings e a actor w) t := by
  obtain ⟨t, htaken, hplay⟩ := play_calculate_course c settings e a actor w
  rw [hplay] at fresh ⊢
  have hnew : ∀ p ∈ w.ledger.store.all, p.id ∉ newIds t.computed := by
    simpa [Course.world] using fresh
  refine ⟨t, {
    taken := htaken
    offered := rfl
    unchanged := fun f hf => t.forElement_of_error settings e a actor w hnew hf
    appended := ?_
    computationFailure := ?_
    storeFailure := ?_
    auditFailure := ?_
    success := ?_ }⟩
  · intro q hq
    have hcomputed : t.computed = .ok q := (verdict_eq_ok (verdict_eq_ok hq).1).1
    have howner := (hcomputed ▸ htaken.yields).owner.1
    rw [t.store_of_ok settings e a actor w hq]
    exact ⟨howner, Store.forElement_insert_self _ q,
      fun x hx => Store.forElement_insert_of_ne _ q hx⟩
  · intro f hf
    have hcomputed : t.computed = .error f := htaken.yields.eq_error hf
    simp [Course.reported, Course.outcome, hcomputed]
  · intro q f hcomputed hfault
    simp [Course.reported, Course.outcome, hcomputed, hfault]
  · intro q f hcomputed hfault hrefusal
    simp [Course.reported, Course.outcome, hcomputed, hfault, hrefusal]
  · intro q hcomputed hfault hrefusal
    simp [Course.reported, Course.outcome, hcomputed, hfault, hrefusal]

end Courses

/-- One quantity of the sample slab is stored; of the next the record is refused, so that the first
is still the only one. -/
theorem sample_calculation_atomic :
    let c := Circumstances.counting ["11.2.2"]
    let slab := some (Command.sampleSlab (.ofNat 3))
    let assembly := sampleProject.catalog.byCode?
    let w := (calculation c {} slab (assembly "11.2.1") .system (.start 4)).2
    let result := calculation c {} slab (assembly "11.2.2") .system w
    (w.ledger.store.forElement (.ofNat 3)).map Quantity.id = [.ofNat 4] ∧
    result.1.toOption = none ∧
    (∀ p ∈ w.ledger.store.all, p.id ∉ result.2.history.given.drop w.history.given.length) ∧
    ∃ t, IsAtomic c {} slab (assembly "11.2.2") .system w result t := by
  refine ⟨by decide +kernel, by decide +kernel, by decide +kernel, ?_⟩
  exact calculation_atomic _ _ _ _ _ _ (by decide +kernel)

end QuantitySurvey.Calculation
