import Mathlib.Data.List.Basic
import QuantitySurvey.Proofs.Calculation.Correspondence
import QuantitySurvey.Proofs.Calculation.Course

/-! # Smooth runs

A run is smooth if the log takes every record, the store does what it is asked to, and no stop is
asked for. What is computed then goes to the store and to the report as it is.

* `calculation_of_smooth`: a calculation adds one record, and the quantity if there is one.
* `recalculation_of_smooth`: a recalculation reports and stores what its attempts came to.
-/

set_option autoImplicit false

namespace QuantitySurvey.Calculation

variable {σ : Type}

structure Circumstances.IsSmooth (c : Circumstances σ) : Prop where
  accepting : ∀ r s, (c.refusal? r s).1 = none
  inserting : ∀ q s, (c.insertFault? q s).1 = none
  replacing : ∀ e qs s, (c.replaceFault? e qs s).1 = none
  unstopped : ∀ n s, (c.stop n s).1 = false

/-! ## Accepted records -/

/-- A computation offers records that are all accepted. -/
def accepted : Correspondence (Play σ) (Play σ) where
  Holds x _ := ∀ w, ∃ new : List Audit.Record,
    (play x w).2.history.offers = w.history.offers ++ new.map fun r => (r, none)
  pure := fun _ w => ⟨[], (List.append_nil w.history.offers).symm⟩
  bind := by
    intro α β x y f g hx hf w
    obtain ⟨first, hfirst⟩ := hx w
    obtain ⟨second, hsecond⟩ := hf (play x w).1 (play x w).2
    exact ⟨first ++ second, by rw [play_bind, hsecond, hfirst, List.map_append, List.append_assoc]⟩

theorem accepted_of_offers_eq {α : Type} {x y : Play σ α}
    (h : ∀ w, (play x w).2.history.offers = w.history.offers) : accepted.Holds x y :=
  fun w => ⟨[], by rw [h, List.map_nil, List.append_nil]⟩

section Accepting

variable {c : Circumstances σ} (accepting : ∀ r s, (c.refusal? r s).1 = none)
  (settings : Settings)
include accepting

theorem alike_accepted : Alike accepted (c.engine settings) (c.engine settings) where
  settings := rfl
  now := accepted_of_offers_eq fun _ => rfl
  ticks := accepted_of_offers_eq fun _ => rfl
  freshId := accepted_of_offers_eq fun _ => rfl
  record := by
    intro r w
    obtain ⟨f, state, ⟨s, hs⟩, -⟩ | ⟨n, state, -, hplay⟩ := play_record c settings w r
    · rw [accepting] at hs
      cases hs
    · exact ⟨[r], by rw [hplay]; rfl⟩
  insert := by
    intro q
    refine accepted_of_offers_eq fun w => ?_
    obtain ⟨f, state, -, hplay⟩ | ⟨state, -, hplay⟩ := play_insert c settings w q
    · rw [hplay]
      rfl
    · rw [hplay]
      rfl
  replaceFor := by
    intro e qs
    refine accepted.bind (x := History.deciding (c.replaceFault? e qs))
      (accepted_of_offers_eq fun _ => rfl) fun fault => ?_
    cases fault with
    | some f => exact accepted.pure _
    | none =>
      refine accepted.bind (x := get) (y := get) (accepted_of_offers_eq fun _ => rfl) fun l => ?_
      cases l.store.replaceFor e qs with
      | ok store => exact accepted_of_offers_eq fun _ => rfl
      | error f => exact accepted.pure _
  remove := fun _ _ => accepted_of_offers_eq fun _ => rfl

theorem recalculation_accepted (w : World σ) (element : Element) (catalog : Catalog)
    (actor : Actor) : ∃ new : List Audit.Record,
      (recalculation c settings w element catalog actor).2.history.offers
        = w.history.offers ++ new.map fun r => (r, none) :=
  (alike_accepted accepting settings).recalculate
    (fun n => accepted_of_offers_eq (y := c.stopping n) fun _ => rfl) element catalog actor w

end Accepting

/-- Trials whose records were all that was offered, and all accepted. -/
theorem refusal_eq_none_of_offers {offers : List (Audit.Record × Option Failure)}
    {trials : List Trial} {new : List Audit.Record}
    (h : offers ++ trials.map Trial.offer = offers ++ new.map fun r => (r, none)) :
    ∀ t ∈ trials, t.refusal = none := by
  intro t ht
  have hmem : t.offer ∈ new.map fun r => (r, none) := by
    rw [← List.append_cancel_left h]
    exact List.mem_map_of_mem ht
  obtain ⟨r, -, hr⟩ := List.mem_map.1 hmem
  exact (congrArg Prod.snd hr).symm

theorem filter_isAccepted {trials : List Trial} (h : ∀ t ∈ trials, t.refusal = none) :
    trials.filter Trial.isAccepted = trials :=
  List.filter_eq_self.2 fun t ht => by rw [Trial.isAccepted, h t ht]; rfl

section Smooth

variable {c : Circumstances σ} (smooth : c.IsSmooth) (settings : Settings) (actor : Actor)
include smooth

/-! ## One quantity -/

/-- A smooth calculation comes to what is computed. -/
theorem Course.reported_of_smooth {e : Option Element} {a : Option Assembly} {w : World σ}
    {t : Course σ} (h : t.IsTaken c settings e a actor w) :
    t.refusal = none ∧ t.reported = t.computed := by
  obtain ⟨s, hs⟩ := h.answered
  have hrefusal : t.refusal = none := by rw [← hs, smooth.accepting]
  refine ⟨hrefusal, ?_⟩
  rw [Course.reported, hrefusal, verdict_accepted, Course.outcome]
  cases hcomputed : t.computed with
  | error f => rfl
  | ok q =>
    have hfault : t.fault = none := by rw [← h.stored q hcomputed, smooth.inserting]
    rw [hfault, verdict_accepted]

theorem calculation_of_smooth (e : Option Element) (a : Option Assembly) (w : World σ) :
    let result := calculation c settings e a actor w
    Yields settings e a result.1 ∧
    result.2.ledger.store = (w.ledger.holding result.1).store ∧
    ∃ r, result.2.ledger.log.records = w.ledger.log.records ++ [r] := by
  intro result
  obtain ⟨t, htaken, hplay⟩ := play_calculate_course c settings e a actor w
  obtain ⟨hrefusal, hreported⟩ := Course.reported_of_smooth smooth settings actor htaken
  have hresult : result = (t.computed, t.world settings e a actor w) := by
    rw [← hreported]
    exact hplay
  rw [hresult]
  refine ⟨htaken.yields, ?_, _, t.records_of_accepted settings e a actor w hrefusal⟩
  cases hcomputed : t.computed with
  | ok q => exact t.store_of_ok settings e a actor w (hreported.trans hcomputed)
  | error f =>
    have houtcome : t.outcome = .error f := by rw [Course.outcome, hcomputed, verdict_error]
    simp only [Course.world, houtcome, hrefusal]
    rfl

/-! ## All quantities of an element -/

omit smooth in
theorem store_tried_of_accepted {trials : List Trial} (l : Ledger)
    (h : ∀ t ∈ trials, t.refusal = none) : (l.tried trials).store = l.store := by
  induction trials generalizing l with
  | nil => rfl
  | cons t rest ih =>
    rw [tried_cons, ih _ fun u hu => h u (List.mem_cons_of_mem t hu), h t List.mem_cons_self]
    rfl

def failureOf (a : Assembly) : Except Failure Quantity → Option BatchFailure
  | .ok _ => none
  | .error f => some ⟨a.id, a.code, f⟩

def failuresOf (attempts : List Attempt) : List BatchFailure :=
  attempts.filterMap fun t => failureOf t.assembly t.outcome

omit smooth in
theorem failures_of_accepted {element : Element} {attempts : List Attempt} {trials : List Trial}
    (h : Settles settings element actor none attempts trials)
    (hnone : ∀ t ∈ trials, t.refusal = none) :
    trials.filterMap Trial.failure? = failuresOf attempts := by
  have hfailure : ∀ t ∈ trials, t.failure? = failureOf t.assembly t.outcome := by
    intro t ht
    rw [Trial.failure?, Trial.reported, hnone t ht, verdict_accepted]
    rfl
  have houtcomes := congrArg
    (List.filterMap fun p : Assembly × Except Failure Quantity => failureOf p.1 p.2) h.outcomes
  simp only [unlessLost_none, List.filterMap_map] at houtcomes
  rw [List.filterMap_congr hfailure]
  exact houtcomes

/-- Attempts for the assemblies of a batch, which is reported and stored as they came out. -/
structure IsBatch (settings : Settings) (element : Element) (assemblies : List Assembly)
    (w : World σ) (result : Except Failure Report × World σ) (attempts : List Attempt) : Prop where
  complete : attempts.map Attempt.assembly = assemblies
  attempted : AreAttempts settings element attempts
  reported : result.1 = .ok ⟨element.id, Engine.successes attempts, failuresOf attempts, false⟩
  stored : result.2.ledger.store = w.ledger.store.set element.id (Engine.successes attempts)
  logged : ∃ new, result.2.ledger.log.records = w.ledger.log.records ++ new
    ∧ new.length = attempts.length

theorem recalculation_of_smooth (w : World σ) (element : Element) (catalog : Catalog) {k : String}
    (classified : element.classification = some k) :
    ∃ attempts, IsBatch settings element (catalog.assembliesFor k) w
      (recalculation c settings w element catalog actor) attempts := by
  have h : Recalculated c settings element catalog actor w
      (recalculation c settings w element catalog actor) :=
    play_recalculate c settings element catalog actor w
  have hoffers := recalculation_accepted smooth.accepting settings w element catalog actor
  generalize recalculation c settings w element catalog actor = result at h hoffers ⊢
  cases h with
  | unclassified h => simp [h] at classified
  | stopped k attempts trials given state h attempted sub asked settled =>
    obtain ⟨n, s, hasked⟩ := asked
    simp [smooth.unstopped] at hasked
  | lost k attempts trials given state f h attempted whole fault settled =>
    obtain ⟨s, hfault⟩ := fault
    simp [smooth.replacing] at hfault
  | replaced k' attempts trials given state h attempted whole settled =>
    have hk : k' = k := by simpa [h] using classified
    subst hk
    obtain ⟨new, hnew⟩ := hoffers
    have hnone := refusal_eq_none_of_offers hnew
    have hcreated : trials.filterMap Trial.created? = Engine.successes attempts := by
      rw [← settled.pending]
      refine List.filterMap_congr fun t ht => ?_
      rw [Trial.created?, Trial.reported, hnone t ht, verdict_accepted]
    obtain ⟨records, hrecords, hrecorded⟩ := records_tried trials
      { w.ledger with store := w.ledger.store.set element.id (Engine.successes attempts) }
      settled.unnumbered
    have haccepted := filter_isAccepted hnone
    have hcount : records.length = attempts.length := by
      rw [haccepted] at hrecorded
      have hlengths := congrArg List.length settled.assemblies
      have hrecords := congrArg List.length hrecorded
      simp only [List.length_map] at hlengths hrecords
      omega
    exact ⟨attempts, {
      complete := whole
      attempted := attempted
      reported := by
        rw [hcreated, failures_of_accepted settings actor settled hnone]
      stored := store_tried_of_accepted _ hnone
      logged := ⟨records, hrecords, hcount⟩ }⟩

end Smooth

end QuantitySurvey.Calculation
