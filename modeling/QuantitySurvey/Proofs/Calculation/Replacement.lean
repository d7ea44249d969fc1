import QuantitySurvey.Proofs.Calculation.Batch

/-! # Replacing the quantities of an element

Without a stop and with a working store, a recalculation leaves an element with exactly the
quantities that it reports. The three passes agree because a refused record takes its own quantity
out of the store and no other one: the identifiers of a batch are distinct.

* `forElement_tried_self`, `forElement_tried_of_ne`: what trials do to the store.
* `records_tried`: what they do to the log.
* `recalculation_replaces`: the report, the store and the log after a recalculation, as the
  structure `Replacement` says.
-/

set_option autoImplicit false

namespace QuantitySurvey

namespace Store

@[simp] theorem forElement_remove_self (s : Store) (e id : Identifier) :
    (s.remove e id).2.forElement e = (s.forElement e).eraseP (·.id == id) :=
  forElement_set_self s e _

theorem forElement_remove_of_ne (s : Store) {e f : Identifier} (id : Identifier) (h : f ≠ e) :
    (s.remove e id).2.forElement f = s.forElement f :=
  forElement_set_of_ne s _ h

end Store

def Audit.Record.unnumbered (r : Audit.Record) : Audit.Record := { r with sequence := 0 }

namespace Calculation

/-! ## What trials do to the ledger -/

theorem eraseP_middle {done pending : List Quantity} {q : Quantity}
    (h : ((done ++ q :: pending).map Quantity.id).Nodup) :
    (done ++ q :: pending).eraseP (·.id == q.id) = done ++ pending := by
  rw [List.map_append, List.map_cons, List.nodup_append] at h
  have hdone : ∀ p ∈ done, ¬ (p.id == q.id) = true := by
    intro p hp heq
    exact h.2.2 p.id (List.mem_map_of_mem hp) q.id List.mem_cons_self (by simpa using heq)
  rw [List.eraseP_append_right _ hdone, List.eraseP_cons_of_pos (by simp)]

theorem tried_cons (l : Ledger) (t : Trial) (trials : List Trial) :
    l.tried (t :: trials) = (l.settled t.record t.outcome t.refusal).tried trials := rfl

/-- The quantities that trials have for the store, before any record is refused. -/
def pendingOf (trials : List Trial) : List Quantity :=
  trials.filterMap fun t => t.outcome.toOption

/-- Settling a trial changes the store only by taking out its own refused quantity. -/
theorem settled_store (l : Ledger) (t : Trial) :
    (t.outcome.toOption = t.created? ∧ (l.settled t.record t.outcome t.refusal).store = l.store) ∨
    ∃ q, t.outcome = .ok q ∧ t.created? = none ∧
      (l.settled t.record t.outcome t.refusal).store = (l.store.remove q.elementId q.id).2 := by
  obtain ⟨a, outcome, r, refusal⟩ := t
  cases refusal with
  | none => exact .inl ⟨by cases outcome <;> rfl, rfl⟩
  | some f =>
    cases outcome with
    | error e => exact .inl ⟨rfl, rfl⟩
    | ok q => exact .inr ⟨q, rfl, rfl, rfl⟩

/-- If an element has the quantities of the trials at the end of its list, then the trials leave
those of them that were created, and all before them. -/
theorem forElement_tried_self (e : Identifier) (trials : List Trial) (l : Ledger)
    (done : List Quantity) (hown : ∀ q ∈ pendingOf trials, q.elementId = e)
    (hids : ((done ++ pendingOf trials).map Quantity.id).Nodup)
    (hstore : l.store.forElement e = done ++ pendingOf trials) :
    (l.tried trials).store.forElement e = done ++ trials.filterMap Trial.created? := by
  induction trials generalizing l done with
  | nil => simpa [Ledger.tried, pendingOf] using hstore
  | cons t rest ih =>
    rw [tried_cons]
    obtain ⟨hcreated, hsame⟩ | ⟨q, hout, hcreated, hremoved⟩ := settled_store l t
    · -- the quantity of the trial, if any, stays and counts as done
      have hpending : pendingOf (t :: rest) = t.created?.toList ++ pendingOf rest := by
        cases h : t.created? <;> simp [pendingOf, hcreated, h]
      have hfilter : (t :: rest).filterMap Trial.created?
          = t.created?.toList ++ rest.filterMap Trial.created? := by
        cases h : t.created? <;> simp [h]
      rw [hpending] at hown hids hstore
      rw [hfilter, ← List.append_assoc]
      rw [← List.append_assoc] at hids hstore
      exact ih _ _ (fun q hq => hown q (List.mem_append_right _ hq)) hids (hsame ▸ hstore)
    · have hpending : pendingOf (t :: rest) = q :: pendingOf rest := by
        simp [pendingOf, hout, Except.toOption]
      have hfilter : (t :: rest).filterMap Trial.created? = rest.filterMap Trial.created? := by
        simp [hcreated]
      rw [hpending] at hown hids hstore
      have howner : q.elementId = e := hown q List.mem_cons_self
      have hafter : (l.settled t.record t.outcome t.refusal).store.forElement e
          = done ++ pendingOf rest := by
        rw [hremoved, howner, Store.forElement_remove_self, hstore, eraseP_middle hids]
      rw [hfilter]
      refine ih _ _ (fun p hp => hown p (List.mem_cons_of_mem _ hp)) ?_ hafter
      refine hids.sublist (List.Sublist.map _ ?_)
      exact (List.sublist_cons_self q _).append_left done

/-- Trials for one element leave the quantities of others alone. -/
theorem forElement_tried_of_ne {e f : Identifier} (h : f ≠ e) (trials : List Trial) (l : Ledger)
    (hown : ∀ q ∈ pendingOf trials, q.elementId = e) :
    (l.tried trials).store.forElement f = l.store.forElement f := by
  induction trials generalizing l with
  | nil => rfl
  | cons t rest ih =>
    have hrest : ∀ q ∈ pendingOf rest, q.elementId = e := by
      intro q hq
      refine hown q ?_
      obtain ⟨u, hu, huq⟩ := List.mem_filterMap.1 hq
      exact List.mem_filterMap.2 ⟨u, List.mem_cons_of_mem _ hu, huq⟩
    rw [tried_cons, ih _ hrest]
    obtain ⟨-, hsame⟩ | ⟨q, hout, -, hremoved⟩ := settled_store l t
    · rw [hsame]
    · have hq : q ∈ pendingOf (t :: rest) := by
        simp [pendingOf, hout, Except.toOption]
      rw [hremoved, Store.forElement_remove_of_ne _ _ (hown q hq ▸ h)]

/-- Trials add the accepted records to the log, in order. -/
theorem records_tried (trials : List Trial) (l : Ledger)
    (h : ∀ t ∈ trials, t.record.sequence = 0) :
    ∃ new, (l.tried trials).log.records = l.log.records ++ new ∧
      new.map Audit.Record.unnumbered = (trials.filter Trial.isAccepted).map Trial.record := by
  induction trials generalizing l with
  | nil => exact ⟨[], by simp [Ledger.tried], rfl⟩
  | cons t rest ih =>
    obtain ⟨new, hrecords, hnew⟩ := ih (l.settled t.record t.outcome t.refusal)
      (fun u hu => h u (List.mem_cons_of_mem _ hu))
    rw [tried_cons, hrecords]
    cases hr : t.refusal with
    | none =>
      let numbered := { t.record with sequence := Audit.nextSequence l.log.records }
      refine ⟨numbered :: new, by simp [Ledger.settled, numbered], ?_⟩
      have hzero : numbered.unnumbered = t.record := by
        have := h t List.mem_cons_self
        cases hrec : t.record
        simp_all [numbered, Audit.Record.unnumbered]
      simp [Trial.isAccepted, hr, hnew, hzero]
    | some f =>
      refine ⟨new, ?_, by simpa [Trial.isAccepted, hr] using hnew⟩
      cases t.outcome <;> rfl

/-! ## Trials of a batch that was stored -/

section Stored

variable {settings : Settings} {element : Element} {actor : Actor} {attempts : List Attempt}
  {trials : List Trial}

theorem Settles.assemblies {lost : Option Failure}
    (h : Settles settings element actor lost attempts trials) :
    trials.map Trial.assembly = attempts.map Attempt.assembly := by
  have := congrArg (List.map Prod.fst) h.outcomes
  simpa [List.map_map, Function.comp_def] using this

theorem Settles.pending (h : Settles settings element actor none attempts trials) :
    pendingOf trials = Engine.successes attempts := by
  have := congrArg (List.filterMap fun p : Assembly × Except Failure Quantity => p.2.toOption)
    h.outcomes
  simpa [List.filterMap_map, Function.comp_def, pendingOf, Engine.successes] using this

theorem Settles.yields (h : Settles settings element actor none attempts trials)
    (hattempts : AreAttempts settings element attempts) :
    ∀ t ∈ trials, Yields settings (some element) (some t.assembly) t.outcome := by
  intro t ht
  have hmem : (t.assembly, t.outcome) ∈ trials.map fun t => (t.assembly, t.outcome) :=
    List.mem_map_of_mem ht
  rw [h.outcomes] at hmem
  obtain ⟨u, hu, heq⟩ := List.mem_map.1 hmem
  simp only [unlessLost_none, Prod.mk.injEq] at heq
  rw [← heq.1, ← heq.2]
  exact hattempts u hu

theorem Settles.unnumbered {lost : Option Failure}
    (h : Settles settings element actor lost attempts trials) :
    ∀ t ∈ trials, t.record.sequence = 0 := by
  intro t ht
  obtain ⟨start, ticks, hr⟩ := h.recorded t ht
  rw [hr]
  rfl

/-- The outcome that a record has for what is reported of its attempt. -/
def outcomeFor : Except Failure Quantity → Audit.Outcome
  | .ok q => .ofQuantity q
  | .error e => .ofFailure e

/-- An accepted record has the outcome that is reported. -/
theorem Trial.IsRecorded.outcome {t : Trial} (h : t.IsRecorded settings element actor)
    (haccepted : t.isAccepted = true) : t.record.outcome = outcomeFor t.reported := by
  obtain ⟨start, ticks, hr⟩ := h
  have hrefusal : t.refusal = none := by simpa [Trial.isAccepted] using haccepted
  rw [hr, Trial.reported, hrefusal, verdict_accepted]
  cases t.outcome <;> rfl

end Stored

/-! ## The main statement -/

variable {σ : Type}

/-- What a recalculation comes to when nothing stops it and the store works: its outcome, and the
world after it. -/
structure Replacement (settings : Settings) (element : Element) (actor : Actor)
    (assemblies : List Assembly) (w : World σ) (result : Except Failure Report × World σ)
    (trials : List Trial) : Prop where
  /-- The report has the created quantities and the failures of the trials, in their order. -/
  reported : result.1 = .ok ⟨element.id, trials.filterMap Trial.created?,
    trials.filterMap Trial.failure?, false⟩
  /-- Every assembly is tried once, in order. -/
  complete : trials.map Trial.assembly = assemblies
  /-- What a trial came to is what the computation yields, and so is its record. -/
  evaluated : ∀ t ∈ trials, Yields settings (some element) (some t.assembly) t.outcome
    ∧ t.IsRecorded settings element actor
  /-- The element has the created quantities, in their order, and no others. -/
  stored : result.2.ledger.store.forElement element.id = trials.filterMap Trial.created?
  others : ∀ e, e ≠ element.id →
    result.2.ledger.store.forElement e = w.ledger.store.forElement e
  /-- The log was offered one record for each trial. -/
  offered : result.2.history.offers = w.history.offers ++ trials.map Trial.offer
  /-- The log has the records that it accepted after those it had. -/
  logged : ∃ new, result.2.ledger.log.records = w.ledger.log.records ++ new
    ∧ new.map Audit.Record.unnumbered = (trials.filter Trial.isAccepted).map Trial.record
  /-- An accepted record tells the quantity that was created or the failure that is reported. -/
  truthful : ∀ t ∈ trials, t.isAccepted = true → t.record.outcome = outcomeFor t.reported

def recalculation (c : Circumstances σ) (settings : Settings) (w : World σ) (element : Element)
    (catalog : Catalog) (actor : Actor) : Except Failure Report × World σ :=
  play ((c.engine settings).recalculate element catalog actor c.stopping) w

/-- Without a stop and with a working store, a recalculation reports on every assembly of the
classification, and what it reports as created is what the element has afterwards. -/
theorem recalculation_replaces (c : Circumstances σ) (settings : Settings) (w : World σ)
    (element : Element) (catalog : Catalog) (actor : Actor) {k : String}
    (classified : element.classification = some k)
    (unstopped : ∀ n s, (c.stop n s).1 = false)
    (working : ∀ e qs s, (c.replaceFault? e qs s).1 = none)
    (fresh : (recalculation c settings w element catalog actor).2.history.given.Nodup) :
    ∃ trials, Replacement settings element actor (catalog.assembliesFor k) w
      (recalculation c settings w element catalog actor) trials := by
  have h : Recalculated c settings element catalog actor w
      (recalculation c settings w element catalog actor) :=
    play_recalculate c settings element catalog actor w
  generalize recalculation c settings w element catalog actor = result at h fresh ⊢
  cases h with
  | unclassified h => simp [h] at classified
  | stopped k attempts trials given state h attempted sub asked settled =>
    obtain ⟨n, s, hasked⟩ := asked
    simp [unstopped] at hasked
  | lost k attempts trials given state f h attempted whole fault settled =>
    obtain ⟨s, hfault⟩ := fault
    simp [working] at hfault
  | replaced k' attempts trials given state h attempted whole settled =>
    have hk : k' = k := by simpa [h] using classified
    subst hk
    let stored := { w.ledger with
      store := w.ledger.store.set element.id (Engine.successes attempts) }
    have hown : ∀ q ∈ pendingOf trials, q.elementId = element.id :=
      settled.pending ▸ successes_owner settings element attempted
    have hids : (([] ++ pendingOf trials).map Quantity.id).Nodup := by
      rw [List.nil_append, settled.pending]
      exact (List.nodup_append.1 fresh).2.1
    have hset : stored.store.forElement element.id = [] ++ pendingOf trials := by
      rw [Store.forElement_set_self, List.nil_append, settled.pending]
    exact ⟨trials, {
      reported := rfl
      complete := settled.assemblies.trans whole
      evaluated := fun t ht => ⟨settled.yields attempted t ht, settled.recorded t ht⟩
      stored := forElement_tried_self _ trials stored [] hown hids hset
      others := fun e he =>
        (forElement_tried_of_ne he trials stored hown).trans (Store.forElement_set_of_ne _ _ he)
      offered := rfl
      logged := records_tried trials stored settled.unnumbered
      truthful := fun t ht => (settled.recorded t ht).outcome }⟩

/-- The sample slab is recalculated in a log that refuses one of three records: one quantity is
created, one is withdrawn, and one assembly asks for a parameter that the slab does not have. -/
theorem sample_recalculation_replaces :
    let c := Circumstances.counting ["11.2.2"]
    let slab := Command.sampleSlab (.ofNat 3)
    let result := recalculation c {} (.start 4) slab sampleProject.catalog .system
    slab.classification = some "slab" ∧ result.2.history.given = [.ofNat 4, .ofNat 5] ∧
    (result.2.ledger.store.forElement slab.id).map Quantity.id = [.ofNat 4] ∧
    ∃ trials, Replacement {} slab .system (sampleProject.catalog.assembliesFor "slab") (.start 4)
      result trials := by
  refine ⟨rfl, by decide +kernel, by decide +kernel, ?_⟩
  exact recalculation_replaces _ _ _ _ _ _ rfl (fun _ _ => rfl) (fun _ _ _ => rfl)
    (by decide +kernel)

end Calculation

end QuantitySurvey
