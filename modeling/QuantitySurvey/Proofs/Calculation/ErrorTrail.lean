import Mathlib.Data.List.Basic
import QuantitySurvey.Proofs.Calculation.Abandonment
import QuantitySurvey.Proofs.Calculation.Smooth

/-! # Errors of a batch on the trail

A recalculation comes to an error if its element has no classification, or if the quantities were
not replaced. Records are written for attempts only: an error that no attempt failed with is
returned, and is in no record, even of a log that accepts them all.

* `ErrorTold`: what the records of a batch say about the error that it came to.
* `batch_error_recorded_iff`: the error is on the trail exactly if some attempt failed with it.
-/

set_option autoImplicit false

namespace QuantitySurvey.Calculation

variable {σ : Type}

/-! ## Records of lost attempts -/

section Told

variable (settings : Settings) (element : Element) (catalog : Catalog) (f : Failure)

/-- Some record is of a failure of an element. -/
def IsOnTrail (records : List Audit.Record) : Prop :=
  ∃ r ∈ records, r.elementId = some element.id ∧ r.outcome = .ofFailure f

/-- Some attempt of a lost batch has no failure of its own, or one that is the same. -/
def HasLoss (assemblies : List Assembly) : Prop :=
  ∃ a ∈ assemblies, ∀ g, compute settings (some element) (some a) = .error g → g = f

/-- The records that a log gains from a recalculation that comes to an error. -/
structure ErrorTold (new : List Audit.Record) : Prop where
  /-- Without a classification nothing is attempted, and nothing recorded. -/
  unclassified : element.classification = none → f = .missingInput "classification" ∧ new = []
  /-- Otherwise there is a record of every assembly, with the failure of its own attempt. -/
  lost : ∀ k, element.classification = some k → new.map Audit.Record.outcome
    = (catalog.assembliesFor k).map fun a => .ofFailure (lossOf settings element f a)
  about : ∀ r ∈ new, r.elementId = some element.id

variable {settings element catalog f}

theorem lossOf_eq_self_iff {a : Assembly} : lossOf settings element f a = f ↔
    ∀ g, compute settings (some element) (some a) = .error g → g = f := by
  unfold lossOf
  split
  · next g h => simp [h]
  · next h => simp [h]

theorem ofFailure_inj {f g : Failure} : Audit.Outcome.ofFailure f = .ofFailure g ↔ f = g :=
  ⟨fun h => by injection h, fun h => h ▸ rfl⟩

theorem ErrorTold.isOnTrail_iff {new : List Audit.Record}
    (h : ErrorTold settings element catalog f new) : IsOnTrail element f new ↔
      ∃ k, element.classification = some k ∧
        HasLoss settings element f (catalog.assembliesFor k) := by
  have hrecord : IsOnTrail element f new ↔ .ofFailure f ∈ new.map Audit.Record.outcome := by
    rw [List.mem_map]
    exact ⟨fun ⟨r, hr, _, houtcome⟩ => ⟨r, hr, houtcome⟩,
      fun ⟨r, hr, houtcome⟩ => ⟨r, hr, h.about r hr, houtcome⟩⟩
  rw [hrecord]
  cases hclass : element.classification with
  | none => simp [(h.unclassified hclass).2]
  | some k =>
    rw [h.lost k hclass]
    simp [HasLoss, ofFailure_inj, lossOf_eq_self_iff]

end Told

section Batch

variable {c : Circumstances σ} (accepting : ∀ r s, (c.refusal? r s).1 = none)
  {settings : Settings} {element : Element} {actor : Actor} {f : Failure}

/-- A log that refuses nothing has a record of every attempt of a batch that was lost. -/
theorem records_of_settles {attempts : List Attempt} {trials : List Trial}
    (h : Settles settings element actor (some f) attempts trials)
    (attempted : AreAttempts settings element attempts) (hnone : ∀ t ∈ trials, t.refusal = none)
    (l : Ledger) : ∃ new, (l.tried trials).log.records = l.log.records ++ new ∧
      new.map Audit.Record.outcome
        = (attempts.map Attempt.assembly).map (fun a => .ofFailure (lossOf settings element f a)) ∧
      ∀ r ∈ new, r.elementId = some element.id := by
  obtain ⟨new, hrecords, hnew⟩ := records_tried trials l h.unnumbered
  rw [filter_isAccepted hnone] at hnew
  -- a record and its number are apart: what it tells is what was offered to the log
  have htold {β : Type} (tell : Audit.Record → β) (htell : ∀ r, tell r.unnumbered = tell r) :
      new.map tell = trials.map fun t => tell t.record := by
    have hmap := congrArg (List.map tell) hnew
    simpa only [List.map_map, Function.comp_def, htell] using hmap
  refine ⟨new, hrecords, ?_, fun r hr => ?_⟩
  · rw [htold Audit.Record.outcome fun _ => rfl, ← h.assemblies, List.map_map]
    refine List.map_congr_left fun t ht => ?_
    obtain ⟨start, ticks, hrecord⟩ := h.recorded t ht
    rw [hrecord, h.outcome_eq_lossOf attempted t ht]
    rfl
  · have hmem : r.elementId ∈ trials.map fun t => t.record.elementId := by
      rw [← htold Audit.Record.elementId fun _ => rfl]
      exact List.mem_map_of_mem hr
    obtain ⟨t, ht, heq⟩ := List.mem_map.1 hmem
    obtain ⟨start, ticks, hrecord⟩ := h.recorded t ht
    rw [← heq, hrecord]
    rfl

include accepting in
/-- The error that a recalculation comes to is in a record of its element exactly if the element
is classified and some attempt fails with that error. There is no such record if there is no
classification, if no assembly has it, or if every attempt fails in a way of its own. -/
theorem batch_error_recorded_iff (w : World σ) (catalog : Catalog)
    (failed : (recalculation c settings w element catalog actor).1 = .error f) :
    ∃ new, (recalculation c settings w element catalog actor).2.ledger.log.records
        = w.ledger.log.records ++ new ∧
      ErrorTold settings element catalog f new ∧
      (IsOnTrail element f new ↔ ∃ k, element.classification = some k ∧
        HasLoss settings element f (catalog.assembliesFor k)) := by
  have h : Recalculated c settings element catalog actor w
      (recalculation c settings w element catalog actor) :=
    play_recalculate c settings element catalog actor w
  obtain ⟨offered, hoffers⟩ := recalculation_accepted accepting settings w element catalog actor
  suffices ∃ new, (recalculation c settings w element catalog actor).2.ledger.log.records
      = w.ledger.log.records ++ new ∧ ErrorTold settings element catalog f new by
    obtain ⟨new, hrecords, htold⟩ := this
    exact ⟨new, hrecords, htold, htold.isOnTrail_iff⟩
  generalize recalculation c settings w element catalog actor = result at h hoffers failed ⊢
  cases h with
  | unclassified hclass =>
    cases failed
    exact ⟨[], (List.append_nil _).symm, {
      unclassified := fun _ => ⟨rfl, rfl⟩
      lost := by simp [hclass]
      about := by simp }⟩
  | stopped => cases failed
  | replaced => cases failed
  | lost k attempts trials given state f' hclass attempted whole fault settled =>
    have hfailure : f' = f := by simpa using failed
    subst hfailure
    obtain ⟨new, hrecords, houtcomes, habout⟩ := records_of_settles settled attempted
      (refusal_eq_none_of_offers hoffers) w.ledger
    rw [whole] at houtcomes
    exact ⟨new, hrecords, {
      unclassified := by simp [hclass]
      lost := by
        intro k' hk'
        have hk : k' = k := by simpa [hclass] using hk'.symm
        rw [hk, houtcomes]
      about := habout }⟩

end Batch

/-- Three recalculations of the sample slab come to an error. Without a classification, and for a
catalog without assemblies, the error is in no record. -/
theorem sample_batch_errors :
    let slab := Command.sampleSlab (.ofNat 3)
    let unclassified := { slab with classification := none }
    let readOnly := Failure.file "replace" "quantities" "read-only"
    let failing := { Circumstances.counting [] with
      replaceFault? := fun _ _ => pure (some readOnly) }
    let missing := recalculation failing {} (.start 4) unclassified sampleProject.catalog .system
    let unmatched := recalculation failing {} (.start 4) slab {} .system
    let lost := recalculation failing {} (.start 4) slab sampleProject.catalog .system
    (∀ r s, (failing.refusal? r s).1 = none) ∧
    (missing.1 = .error (.missingInput "classification") ∧ missing.2.ledger.log.records = []) ∧
    (unmatched.1 = .error readOnly ∧ unmatched.2.ledger.log.records = []) ∧
    lost.1 = .error readOnly ∧ IsOnTrail slab readOnly lost.2.ledger.log.records := by
  intro slab unclassified readOnly failing missing unmatched lost
  have accepting : ∀ r s, (failing.refusal? r s).1 = none := by
    intro r s
    cases h : r.assemblyCode <;> simp [failing, Circumstances.counting, h] <;> rfl
  have hmissing : missing.1 = .error (.missingInput "classification") := rfl
  have hunmatched : unmatched.1 = .error readOnly := rfl
  have hlost : lost.1 = .error readOnly := by decide +kernel
  refine ⟨accepting, ⟨hmissing, ?_⟩, ⟨hunmatched, ?_⟩, hlost, ?_⟩
  · obtain ⟨new, hrecords, htold, -⟩ := batch_error_recorded_iff accepting (.start 4) _ hmissing
    rw [hrecords, (htold.unclassified rfl).2]
    rfl
  · obtain ⟨new, hrecords, htold, -⟩ := batch_error_recorded_iff accepting (.start 4) _ hunmatched
    have hnew : new = [] := List.map_eq_nil_iff.1 (htold.lost "slab" rfl)
    rw [hrecords, hnew]
    rfl
  · obtain ⟨new, hrecords, -, hiff⟩ := batch_error_recorded_iff accepting (.start 4) _ hlost
    rw [hrecords]
    have hloss : ∃ a ∈ sampleProject.catalog.assembliesFor "slab",
        lossOf {} slab readOnly a = readOnly := by
      decide +kernel
    obtain ⟨a, ha, hself⟩ := hloss
    exact hiff.2 ⟨"slab", rfl, a, ha, lossOf_eq_self_iff.1 hself⟩

end QuantitySurvey.Calculation
