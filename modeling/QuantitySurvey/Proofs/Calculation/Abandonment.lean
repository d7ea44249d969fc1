import Mathlib.Data.List.Basic
import QuantitySurvey.Proofs.Calculation.Notes
import QuantitySurvey.Proofs.Calculation.Course

/-! # Batches that are abandoned

A batch is abandoned if a check before one of its assemblies sees that a stop was asked for, or if
the store does not replace the quantities. Whatever was computed until then is lost: every attempt
is recorded as a failure, its own or that of the batch, and nothing is stored or withdrawn.

* `Abandoned`: what an abandoned batch leaves behind.
* `abandoned_batch_unchanged`: every batch that is stopped or lost is abandoned.
* `raised_flag_honoured_iff`: a flag that was raised before the batch stops it exactly if there is
  an assembly to attempt.
-/

set_option autoImplicit false

namespace QuantitySurvey.Calculation

variable {σ : Type}

/-! ## Lost attempts -/

section Loss

variable (settings : Settings) (element : Element) (lost : Failure)

/-- How an attempt fails in a batch that is lost: by itself, or with the batch. -/
def lossOf (a : Assembly) : Failure :=
  match compute settings (some element) (some a) with
  | .error f => f
  | .ok _ => lost

def lossesOf (assemblies : List Assembly) : List BatchFailure :=
  assemblies.map fun a => ⟨a.id, a.code, lossOf settings element lost a⟩

variable {settings element lost}

theorem unlessLost_eq_lossOf {a : Assembly} {outcome : Except Failure Quantity}
    (h : Yields settings (some element) (some a) outcome) :
    unlessLost (some lost) outcome = .error (lossOf settings element lost a) := by
  unfold lossOf
  cases h with
  | failed h => rw [h, unlessLost_error]
  | computed id time h => rw [h, unlessLost_ok]

variable {actor : Actor} {attempts : List Attempt} {trials : List Trial}

theorem Settles.outcome_eq_lossOf (h : Settles settings element actor (some lost) attempts trials)
    (attempted : AreAttempts settings element attempts) :
    ∀ t ∈ trials, t.outcome = .error (lossOf settings element lost t.assembly) := by
  intro t ht
  have hmem : (t.assembly, t.outcome) ∈ trials.map fun t => (t.assembly, t.outcome) :=
    List.mem_map_of_mem ht
  rw [h.outcomes] at hmem
  obtain ⟨u, hu, heq⟩ := List.mem_map.1 hmem
  simp only [Prod.mk.injEq] at heq
  rw [← heq.2, ← heq.1, unlessLost_eq_lossOf (attempted u hu)]

theorem store_tried_of_error (l : Ledger)
    (h : ∀ t ∈ trials, ∃ f, t.outcome = .error f) : (l.tried trials).store = l.store := by
  induction trials generalizing l with
  | nil => rfl
  | cons t rest ih =>
    obtain ⟨f, hf⟩ := h t List.mem_cons_self
    rw [tried_cons, ih _ fun u hu => h u (List.mem_cons_of_mem t hu), hf]
    cases t.refusal <;> rfl

end Loss

/-! ## What an abandoned batch leaves behind -/

section Batch

variable (settings : Settings) (element : Element) (actor : Actor)

/-- The assemblies that were attempted in a batch failed, with it or by themselves. Nothing else
came of them but the records that the log accepted. -/
structure Abandoned (lost : Failure) (assemblies : List Assembly) (before after : World σ)
    (trials : List Trial) : Prop where
  complete : trials.map Trial.assembly = assemblies
  failed : ∀ t ∈ trials, t.outcome = .error (lossOf settings element lost t.assembly)
    ∧ t.IsRecorded settings element actor
  /-- Every quantity of every element is where it was. -/
  stored : after.ledger.store = before.ledger.store
  offered : after.history.offers = before.history.offers ++ trials.map Trial.offer
  /-- The log has the records that it accepted after those it had, and they tell of the failures. -/
  logged : ∃ new, after.ledger.log.records = before.ledger.log.records ++ new
    ∧ new.map Audit.Record.unnumbered = (trials.filter Trial.isAccepted).map Trial.record
    ∧ new.map Audit.Record.outcome = (trials.filter Trial.isAccepted).map fun t =>
        .ofFailure (lossOf settings element lost t.assembly)

variable {settings element actor}

theorem abandoned_of_settles {lost : Failure} {attempts : List Attempt} {trials : List Trial}
    (h : Settles settings element actor (some lost) attempts trials)
    (attempted : AreAttempts settings element attempts) (w : World σ) (given state : σ) :
    Abandoned settings element actor lost (attempts.map Attempt.assembly) w
      ((w.gave (idsOf attempts) given).tried trials state) trials := by
  have hfailed := h.outcome_eq_lossOf attempted
  obtain ⟨new, hrecords, hnew⟩ := records_tried trials w.ledger h.unnumbered
  refine {
    complete := h.assemblies
    failed := fun t ht => ⟨hfailed t ht, h.recorded t ht⟩
    stored := store_tried_of_error w.ledger fun t ht => ⟨_, hfailed t ht⟩
    offered := rfl
    logged := ⟨new, hrecords, hnew, ?_⟩ }
  have houtcomes : new.map Audit.Record.outcome
      = (new.map Audit.Record.unnumbered).map Audit.Record.outcome := by
    rw [List.map_map]
    rfl
  rw [houtcomes, hnew, List.map_map]
  refine List.map_congr_left fun t ht => ?_
  obtain ⟨start, ticks, hrecord⟩ := h.recorded t (List.mem_filter.1 ht).1
  rw [Function.comp_apply, hrecord, hfailed t (List.mem_filter.1 ht).1]
  rfl

theorem Abandoned.failures {lost : Failure} {assemblies : List Assembly} {before after : World σ}
    {trials : List Trial}
    (h : Abandoned settings element actor lost assemblies before after trials) :
    trials.filterMap Trial.failure? = lossesOf settings element lost assemblies := by
  have hfailure : ∀ t ∈ trials, t.failure?
      = some ⟨t.assembly.id, t.assembly.code, lossOf settings element lost t.assembly⟩ := by
    intro t ht
    rw [Trial.failure?, Trial.reported, (h.failed t ht).1, verdict_error]
  rw [List.filterMap_congr hfailure, List.filterMap_eq_map', lossesOf, ← h.complete, List.map_map]
  rfl

theorem Abandoned.forgotten {lost : Failure} {assemblies : List Assembly} {before : World σ}
    {after : World (σ × List Note)} {trials : List Trial}
    (h : Abandoned settings element actor lost assemblies before.noted after trials) :
    Abandoned settings element actor lost assemblies before after.forgotten trials where
  complete := h.complete
  failed := h.failed
  stored := h.stored
  offered := h.offered
  logged := h.logged

end Batch

/-! ## Batches that are stopped or lost -/

section Conclusion

variable {m : Type → Type} [Monad m] (engine : Engine m) (element : Element) (actor : Actor)

/-- What follows the attempts of a batch. -/
def Engine.conclude (r : Bool × List Attempt) : m (Except Failure Report) :=
  if r.1 then do
    let (_, failures) ← engine.settleAll element actor (some cancellation) r.2
    return .ok ⟨element.id, [], failures, true⟩
  else do
    match ← engine.keeper.replaceFor element.id (Engine.successes r.2) with
    | .ok _ =>
      let (created, failures) ← engine.settleAll element actor none r.2
      return .ok ⟨element.id, created, failures, false⟩
    | .error e =>
      let _ ← engine.settleAll element actor (some e) r.2
      return .error e

theorem recalculate_eq_conclude (catalog : Catalog) (stop : Nat → m Bool) {k : String}
    (h : element.classification = some k) :
    engine.recalculate element catalog actor stop
      = engine.attemptAll stop element (catalog.assembliesFor k) []
        >>= engine.conclude element actor := by
  rw [Engine.recalculate, h]
  rfl

end Conclusion

section Noted

variable (c : Circumstances σ) (settings : Settings) (element : Element) (actor : Actor)
  (attempts : List Attempt) (w : World (σ × List Note))

theorem play_conclude_stopped :
    ∃ trials state,
      play ((c.noted.engine settings).conclude element actor (true, attempts)) w
        = (.ok ⟨element.id, [], trials.filterMap Trial.failure?, true⟩, w.tried trials state)
      ∧ Settles settings element actor (some cancellation) attempts trials
      ∧ (w.tried trials state).notes = w.notes := by
  obtain ⟨trials, state, hrun, hsettles⟩ :=
    play_settleAll c.noted settings element actor (some cancellation) attempts w
  have hsilent := (silent_parts c settings).settleAll element actor (some cancellation) attempts w
  rw [hrun] at hsilent
  refine ⟨trials, state, ?_, hsettles, hsilent⟩
  simp only [Engine.conclude, if_true, play_bind, play_pure, hrun]

/-- The replacement is noted with its fault. With one, the store stays as it is. -/
theorem play_replaceFor_noted (e : Identifier) (qs : List Quantity) :
    let r := play ((c.noted.engine settings).keeper.replaceFor e qs) w
    (∃ f state, r = (.error f, w.moved state) ∧ r.2.notes = w.notes ++ [.replaced (some f)]) ∨
      r.2.notes = w.notes ++ [.replaced none] := by
  let fault := c.replaceFault? e qs w.history.state.1
  let state : σ × List Note := (fault.2, w.notes ++ [.replaced fault.1])
  have hfault : play (History.deciding (c.noted.replaceFault? e qs)) w
      = (fault.1, w.moved state) := rfl
  have hnotes : (w.moved state).notes = w.notes ++ [.replaced fault.1] := rfl
  simp only [Circumstances.engine, Keeper.asking, play_bind, hfault]
  cases hf : fault.1 with
  | some f =>
    rw [hf] at hnotes
    exact .inl ⟨f, state, rfl, hnotes⟩
  | none =>
    right
    rw [hf] at hnotes
    have hget : play (get : Play (σ × List Note) Ledger) (w.moved state)
        = (w.ledger, w.moved state) := rfl
    simp only [Keeper.inLedger, play_bind, hget]
    cases w.ledger.store.replaceFor e qs <;> exact hnotes

/-- A batch whose replacement fails is settled as lost to that fault, and comes to it. -/
theorem play_conclude_replaced :
    let r := play ((c.noted.engine settings).conclude element actor (false, attempts)) w
    (∃ f moved trials state, r = (.error f, (w.moved moved).tried trials state)
      ∧ Settles settings element actor (some f) attempts trials
      ∧ r.2.notes = w.notes ++ [.replaced (some f)]) ∨
    r.2.notes = w.notes ++ [.replaced none] := by
  simp only [Engine.conclude, Bool.false_eq_true, if_false, play_bind]
  obtain ⟨f, moved, hreplace, hnotes⟩ | hnotes :=
    play_replaceFor_noted c settings w element.id (Engine.successes attempts)
  · left
    rw [hreplace] at hnotes
    obtain ⟨trials, state, hrun, hsettles⟩ :=
      play_settleAll c.noted settings element actor (some f) attempts (w.moved moved)
    have hsilent := (silent_parts c settings).settleAll element actor (some f) attempts
      (w.moved moved)
    rw [hrun] at hsilent
    simp only [hreplace, play_bind, play_pure, hrun]
    exact ⟨f, moved, trials, state, rfl, hsettles, hsilent.trans hnotes⟩
  · right
    generalize play ((c.noted.engine settings).keeper.replaceFor element.id
      (Engine.successes attempts)) w = replaced at hnotes ⊢
    have hsilent := fun lost =>
      (silent_parts c settings).settleAll element actor lost attempts replaced.2
    cases replaced.1 with
    | ok _ => exact (hsilent none).trans hnotes
    | error f => exact (hsilent (some f)).trans hnotes

end Noted

section Outcome

variable (c : Circumstances σ) (settings : Settings) (w : World σ) (element : Element)

/-- How the attempts of a noted recalculation ended, and what was noted until then. -/
structure AttemptsNoted (assemblies : List Assembly) (stopped : Bool) (attempts : List Attempt)
    (count : Nat) (w' : World (σ × List Note)) : Prop where
  attempted : AreAttempts settings element attempts
  taken : attempts.map Attempt.assembly = assemblies.take count
  whole : stopped = false → attempts.map Attempt.assembly = assemblies
  before : stopped = true → count < assemblies.length
  left : ∃ given, w' = w.noted.gave (idsOf attempts) given
  notes : w'.notes = checksFrom 0 count stopped

theorem notedRecalculation_attempts (catalog : Catalog) (actor : Actor) {k : String}
    (classified : element.classification = some k) :
    ∃ stopped attempts count w',
      AttemptsNoted settings w element (catalog.assembliesFor k) stopped attempts count w' ∧
      notedRecalculation c settings w element catalog actor
        = play ((c.noted.engine settings).conclude element actor (stopped, attempts)) w' := by
  obtain ⟨stopped, attempts, given, hattempts, attempted, hprefix, hwhole, -⟩ :=
    play_attemptAll c.noted settings element (catalog.assembliesFor k) [] w.noted
  obtain ⟨count, hcount, hchecks, hbefore⟩ :=
    notes_attemptAll c settings element (catalog.assembliesFor k) [] w.noted
  rw [List.reverse_nil, List.nil_append] at hattempts
  simp only [hattempts, List.length_nil, Nat.zero_add] at hcount hchecks hbefore
  have hempty : w.noted.notes = [] := rfl
  rw [hempty, List.nil_append] at hchecks
  refine ⟨stopped, attempts, count, w.noted.gave (idsOf attempts) given, {
    attempted := attempted
    taken := by rw [List.prefix_iff_eq_take.1 hprefix, List.length_map, hcount]
    whole := hwhole
    before := hbefore
    left := ⟨given, rfl⟩
    notes := hchecks }, ?_⟩
  rw [notedRecalculation, recalculation, recalculate_eq_conclude _ _ _ _ _ classified, play_bind,
    hattempts]

/-- A recalculation that was stopped by the check before an assembly, or whose replacement failed,
comes to a cancelled report on the assemblies before, or to the fault of the store. Either way
nothing is left of it but records of failures. -/
theorem abandoned_batch_unchanged (catalog : Catalog) (actor : Actor) {k : String}
    (classified : element.classification = some k) :
    let assemblies := catalog.assembliesFor k
    let notes := notesOf c settings w element catalog actor
    let result := recalculation c settings w element catalog actor
    (∀ n, .checked n true ∈ notes → n < assemblies.length ∧
      result.1 = .ok ⟨element.id, [],
        lossesOf settings element cancellation (assemblies.take n), true⟩ ∧
      ∃ trials, Abandoned settings element actor cancellation (assemblies.take n) w result.2
        trials) ∧
    ∀ f, .replaced (some f) ∈ notes → result.1 = .error f ∧
      ∃ trials, Abandoned settings element actor f assemblies w result.2 trials := by
  intro assemblies notes result
  obtain ⟨stopped, attempts, count, w', h, hnoted⟩ :=
    notedRecalculation_attempts c settings w element catalog actor classified
  have hresult : result = ((notedRecalculation c settings w element catalog actor).1,
      (notedRecalculation c settings w element catalog actor).2.forgotten) :=
    recalculation_eq_forgotten c settings w element catalog actor
  have hnotes : notes = (notedRecalculation c settings w element catalog actor).2.notes := rfl
  obtain ⟨given, hleft⟩ := h.left
  rw [hresult, hnotes]
  cases stopped with
  | true =>
    obtain ⟨trials, state, hplay, hsettles, hsilent⟩ :=
      play_conclude_stopped c settings element actor attempts w'
    have habandoned := abandoned_of_settles hsettles h.attempted w.noted given state
    rw [← hleft, h.taken] at habandoned
    rw [hnoted, hplay, hsilent, h.notes]
    -- only the check that ended the attempts saw the flag, and the store was not asked
    refine ⟨fun n hn => ?_, fun f hf => absurd hf replaced_not_mem_checksFrom⟩
    obtain ⟨-, rfl⟩ := mem_checksFrom.1 hn
    rw [Nat.zero_add, habandoned.failures]
    exact ⟨h.before rfl, rfl, trials, habandoned.forgotten⟩
  | false =>
    -- no check saw the flag, and the note of the replacement is the last one
    obtain ⟨f, moved, trials, state, hplay, hsettles, hreplaced⟩ | hreplaced :=
      play_conclude_replaced c settings element actor attempts w'
    · have habandoned := abandoned_of_settles hsettles h.attempted w.noted moved state
      rw [h.whole rfl] at habandoned
      rw [hnoted, hreplaced, hplay, h.notes]
      refine ⟨fun n hn => ?_, fun g hg => ?_⟩
      · simp [mem_checksFrom] at hn
      · have hfault : g = f := by simpa [replaced_not_mem_checksFrom] using hg
        rw [hfault, hleft]
        exact ⟨rfl, trials, habandoned.forgotten⟩
    · rw [hnoted, hreplaced, h.notes]
      refine ⟨fun n hn => ?_, fun g hg => ?_⟩
      · simp [mem_checksFrom] at hn
      · simp [replaced_not_mem_checksFrom] at hg

/-- The sample slab is recalculated twice: once the batch is stopped before the third assembly, and
once the store does not replace the quantities. -/
theorem sample_batch_abandoned :
    let slab := Command.sampleSlab (.ofNat 3)
    let assemblies := sampleProject.catalog.assembliesFor "slab"
    let readOnly := Failure.file "replace" "quantities" "read-only"
    let stopping := { Circumstances.counting ["11.2.2"] with stop := fun n => pure (n == 2) }
    let failing := { Circumstances.counting [] with
      replaceFault? := fun _ _ => pure (some readOnly) }
    let stopped := recalculation stopping {} (.start 4) slab sampleProject.catalog .system
    let lost := recalculation failing {} (.start 4) slab sampleProject.catalog .system
    slab.classification = some "slab" ∧
    (.checked 2 true ∈ notesOf stopping {} (.start 4) slab sampleProject.catalog .system ∧
      stopped.1 = .ok ⟨slab.id, [], lossesOf {} slab cancellation (assemblies.take 2), true⟩ ∧
      ∃ trials, Abandoned {} slab .system cancellation (assemblies.take 2) (.start 4) stopped.2
        trials) ∧
    (.replaced (some readOnly) ∈ notesOf failing {} (.start 4) slab sampleProject.catalog .system ∧
      lost.1 = .error readOnly ∧
      ∃ trials, Abandoned {} slab .system readOnly assemblies (.start 4) lost.2 trials) := by
  intro slab assemblies readOnly stopping failing stopped lost
  have hstopped : Note.checked 2 true ∈ notesOf stopping {} (.start 4) slab sampleProject.catalog
      .system := by
    decide +kernel
  have hlost : Note.replaced (some readOnly) ∈ notesOf failing {} (.start 4) slab
      sampleProject.catalog .system := by
    decide +kernel
  refine ⟨rfl, ⟨hstopped, ?_⟩, hlost, ?_⟩
  · exact ((abandoned_batch_unchanged stopping {} (.start 4) slab sampleProject.catalog .system
      rfl).1 2 hstopped).2
  · exact (abandoned_batch_unchanged failing {} (.start 4) slab sampleProject.catalog .system
      rfl).2 readOnly hlost

/-- The report is marked as cancelled, and the element has the quantities it had. -/
def IsHonoured (result : Except Failure Report × World σ) : Prop :=
  ∃ report, result.1 = .ok report ∧ report.cancelled = true ∧
    result.2.ledger.store.forElement element.id = w.ledger.store.forElement element.id

/-- Without an assembly to attempt, the quantities of an element are replaced by none. -/
theorem recalculation_of_unmatched (catalog : Catalog) (actor : Actor) {k : String}
    (classified : element.classification = some k) (hnone : catalog.assembliesFor k = []) :
    let result := recalculation c settings w element catalog actor
    (∃ f s, (c.replaceFault? element.id [] s).1 = some f ∧ result.1 = .error f ∧
      result.2.ledger = w.ledger) ∨
    (result.1 = .ok ⟨element.id, [], [], false⟩ ∧
      result.2.ledger = { w.ledger with store := w.ledger.store.set element.id [] }) := by
  intro result
  have hresult : result
      = play (Engine.conclude (c.engine settings) element actor (false, [])) w := by
    simp only [result, recalculation]
    rw [recalculate_eq_conclude _ _ _ _ _ classified, hnone]
    rfl
  simp only [Engine.conclude, Engine.successes, List.filterMap_nil, Bool.false_eq_true, if_false,
    play_bind] at hresult
  obtain ⟨f, state, ⟨s, hfault⟩, hreplace⟩ | ⟨state, hreplace⟩ :=
    play_replaceFor c settings w element.id [] (by simp)
  · rw [hresult, hreplace]
    exact .inl ⟨f, s, hfault, rfl, rfl⟩
  · rw [hresult, hreplace]
    exact .inr ⟨rfl, rfl⟩

/-- The first check sees a flag that is up, and nothing is attempted. -/
theorem recalculation_of_raised (catalog : Catalog) (actor : Actor) {k : String}
    (classified : element.classification = some k) (hsome : catalog.assembliesFor k ≠ [])
    (raised : (c.stop 0 w.history.state).1 = true) :
    recalculation c settings w element catalog actor
      = (.ok ⟨element.id, [], [], true⟩, w.moved (c.stop 0 w.history.state).2) := by
  obtain ⟨a, rest, hassemblies⟩ := List.exists_cons_of_ne_nil hsome
  have hstop : play (c.stopping 0) w = (true, w.moved (c.stop 0 w.history.state).2) := by
    rw [← raised]
    rfl
  rw [recalculation, recalculate_eq_conclude _ _ _ _ _ classified, hassemblies]
  simp only [Engine.attemptAll, play_bind, List.length_nil, hstop, if_true, play_pure]
  rfl

/-- A flag that is up before the first assembly is honoured exactly if there is such an assembly.
If there is none, nobody looks at the flag: unless the store fails, the quantities of the element
are replaced by none, and the report is not marked. -/
theorem raised_flag_honoured_iff (catalog : Catalog) (actor : Actor) {k : String}
    (classified : element.classification = some k)
    (raised : (c.stop 0 w.history.state).1 = true) :
    let result := recalculation c settings w element catalog actor
    (IsHonoured w element result ↔ catalog.assembliesFor k ≠ []) ∧
    (catalog.assembliesFor k = [] →
      (∃ f s, (c.replaceFault? element.id [] s).1 = some f ∧ result.1 = .error f ∧
        result.2.ledger = w.ledger) ∨
      (result.1 = .ok ⟨element.id, [], [], false⟩ ∧
        result.2.ledger = { w.ledger with store := w.ledger.store.set element.id [] })) := by
  intro result
  refine ⟨⟨?_, fun hsome => ?_⟩, recalculation_of_unmatched c settings w element catalog actor
    classified⟩
  · rintro ⟨report, hreport, hcancelled, -⟩ hnone
    obtain ⟨f, s, -, hfailed, -⟩ | ⟨hok, -⟩ :=
      recalculation_of_unmatched c settings w element catalog actor classified hnone
    · rw [hfailed] at hreport
      cases hreport
    · rw [hok] at hreport
      cases hreport
      cases hcancelled
  · have hstopped : result = _ :=
      recalculation_of_raised c settings w element catalog actor classified hsome raised
    rw [hstopped]
    exact ⟨_, rfl, rfl, rfl⟩

end Outcome

/-- The sample slab loses its quantity to a catalog without assemblies, although the flag was up
before the recalculation. -/
theorem sample_flag_unseen :
    let slab := Command.sampleSlab (.ofNat 3)
    let assembly := sampleProject.catalog.byCode? "11.2.1"
    let w := (calculation (Circumstances.counting []) {} (some slab) assembly .system (.start 4)).2
    let c := { Circumstances.counting [] with stop := fun _ => pure true }
    let result := recalculation c {} w slab {} .system
    slab.classification = some "slab" ∧ (c.stop 0 w.history.state).1 = true ∧
    (w.ledger.store.forElement slab.id).map Quantity.id = [.ofNat 4] ∧
    ¬ IsHonoured w slab result ∧ result.1 = .ok ⟨slab.id, [], [], false⟩ ∧
    result.2.ledger.store.forElement slab.id = [] := by
  intro slab assembly w c result
  have raised : ∀ s, (c.stop 0 s).1 = true := fun _ => rfl
  have hstored : (w.ledger.store.forElement slab.id).map Quantity.id = [.ofNat 4] := by
    decide +kernel
  clear_value w
  obtain ⟨hhonoured, hempty⟩ :=
    raised_flag_honoured_iff c {} w slab {} .system (k := "slab") rfl (raised _)
  refine ⟨rfl, raised _, hstored, fun h => hhonoured.1 h rfl, ?_⟩
  obtain ⟨f, s, hfault, -⟩ | ⟨hreport, hledger⟩ := hempty rfl
  · cases hfault
  · refine ⟨hreport, ?_⟩
    rw [hledger]
    exact Store.forElement_set_self _ _ _

end QuantitySurvey.Calculation
