import QuantitySurvey.Proofs.Calculation.Course

/-! # Stored implies recorded

A quantity in the store has exactly one record of success, with its identifier, its owners and its
values. Inside a call this is not so: a quantity is stored first and recorded later, or taken out
again. `Custody` therefore has a list of pending quantities, which are stored and still to be
settled; between calls the list is empty.

* `Custody.settled`: settling takes one quantity off the list.
* `Call.custody`: a call keeps custody, however the log, the store and the stops behave.
* `Custody.run`: so does a run, as long as the identifiers it is given are new.
* `stored_quantities_recorded`: what custody means for the store after a run.
-/

set_option autoImplicit false

namespace QuantitySurvey

namespace Audit

/-- The quantity that a record tells the success of. -/
def Record.quantityId? (r : Record) : Option Identifier :=
  match r.outcome with
  | .success id .. => some id
  | .failure .. => none

/-- The record has the identifier of a quantity, its owners and its values. -/
structure Record.Documents (r : Record) (q : Quantity) : Prop where
  element : r.elementId = some q.elementId
  assembly : r.assemblyId = some q.assemblyId
  outcome : r.outcome = .success q.id q.result.raw q.value q.unit

theorem Record.Documents.quantityId? {r : Record} {q : Quantity} (h : r.Documents q) :
    r.quantityId? = some q.id := by
  rw [Record.quantityId?, h.outcome]

theorem Record.Documents.of_unnumbered {r r' : Record} {q : Quantity} (h : r.Documents q)
    (heq : r'.unnumbered = r.unnumbered) : r'.Documents q where
  element := (congrArg Record.elementId heq).trans h.element
  assembly := (congrArg Record.assemblyId heq).trans h.assembly
  outcome := (congrArg Record.outcome heq).trans h.outcome

end Audit

namespace Calculation

variable {σ : Type}

/-! ## Calls -/

inductive Call where
  | calculate (element : Option Element) (assembly : Option Assembly) (actor : Actor)
  | recalculate (element : Element) (catalog : Catalog) (actor : Actor)

def Call.perform (c : Circumstances σ) (settings : Settings) (w : World σ) : Call → World σ
  | calculate e a actor => (play ((c.engine settings).calculate e a actor) w).2
  | recalculate e catalog actor =>
    (play ((c.engine settings).recalculate e catalog actor c.stopping) w).2

def run (c : Circumstances σ) (settings : Settings) (calls : List Call) (w : World σ) : World σ :=
  calls.foldl (fun w call => call.perform c settings w) w

/-- The ways in which a single calculation ends: its outcome, and the world after it. -/
inductive Calculated (settings : Settings) (e : Option Element) (a : Option Assembly)
    (actor : Actor) (w : World σ) : Except Failure Quantity × World σ → Prop
  | failed (f : Failure) (start : Start) (ticks : Nat) (refusal : Option Failure) (given state : σ)
      (h : Yields settings e a (.error f)) :
      Calculated settings e a actor w (.error f, (w.moved given).settled
        (Engine.recordOf settings.engineVersion start ticks e a actor (.error f))
        (.error f) refusal state)
  | lost (q : Quantity) (f : Failure) (start : Start) (ticks : Nat) (refusal : Option Failure)
      (given state : σ) (h : Yields settings e a (.ok q)) :
      Calculated settings e a actor w (.error f, (w.gave [q.id] given).settled
        (Engine.recordOf settings.engineVersion start ticks e a actor (.error f))
        (.error f) refusal state)
  | stored (q : Quantity) (start : Start) (ticks : Nat) (refusal : Option Failure)
      (given state : σ) (h : Yields settings e a (.ok q)) :
      Calculated settings e a actor w (verdict (.ok q) refusal,
        { w.gave [q.id] given with
          ledger := { w.ledger with store := w.ledger.store.insert q } }.settled
        (Engine.recordOf settings.engineVersion start ticks e a actor (.ok q))
        (.ok q) refusal state)

theorem play_calculate (c : Circumstances σ) (settings : Settings) (w : World σ)
    (e : Option Element) (a : Option Assembly) (actor : Actor) :
    Calculated settings e a actor w (play ((c.engine settings).calculate e a actor) w) := by
  obtain ⟨t, htaken, hplay⟩ := play_calculate_course c settings e a actor w
  have hyields := htaken.yields
  obtain ⟨start, computed, fault, ticks, refusal, state⟩ := t
  rw [← calculation, hplay]
  cases computed with
  | error f =>
    have hworld : Course.world settings e a actor ⟨start, .error f, fault, ticks, refusal, state⟩ w
        = (w.moved state).settled
          (Engine.recordOf settings.engineVersion start ticks e a actor (.error f))
          (.error f) refusal state := by
      simp [Course.world, Course.outcome, Course.record, World.settled, World.moved,
        Ledger.holding]
    rw [hworld]
    exact .failed f start ticks refusal state state hyields
  | ok q =>
    cases fault with
    | some f => exact .lost q f start ticks refusal state state hyields
    | none => exact .stored q start ticks refusal state state hyields

/-! ## Custody -/

/-- The quantities that offered records tell the success of. -/
def toldIds (offers : List (Audit.Record × Option Failure)) : List Identifier :=
  offers.filterMap fun p => p.1.quantityId?

def acceptedOf (offers : List (Audit.Record × Option Failure)) : List Audit.Record :=
  (offers.filter fun p => p.2.isNone).map fun p => p.1.unnumbered

def IsAudited (offers : List (Audit.Record × Option Failure)) (q : Quantity) : Prop :=
  ∃ r, (r, none) ∈ offers ∧ r.Documents q

/-- Every stored quantity is recorded or pending. -/
structure Custody (w : World σ) (pending : List Quantity) : Prop where
  /-- The log has the accepted records. -/
  logged : w.ledger.log.records.map Audit.Record.unnumbered = acceptedOf w.history.offers
  /-- Nothing is told of identifiers that were not given. -/
  given : ∀ id ∈ toldIds w.history.offers ++ pending.map Quantity.id, id ∈ w.history.given
  /-- Of each quantity something is told once, or will be. -/
  once : (toldIds w.history.offers ++ pending.map Quantity.id).Nodup
  owned : ∀ e, ∀ q ∈ w.ledger.store.forElement e, q.elementId = e
  distinct : ∀ e, ((w.ledger.store.forElement e).map Quantity.id).Nodup
  accounted : ∀ e, ∀ q ∈ w.ledger.store.forElement e, q ∈ pending ∨ IsAudited w.history.offers q

theorem IsAudited.told {offers : List (Audit.Record × Option Failure)} {q : Quantity}
    (h : IsAudited offers q) : q.id ∈ toldIds offers := by
  obtain ⟨r, hr, hdoc⟩ := h
  exact List.mem_filterMap.2 ⟨(r, none), hr, hdoc.quantityId?⟩

theorem IsAudited.append {offers : List (Audit.Record × Option Failure)} {q : Quantity}
    (h : IsAudited offers q) (more : List (Audit.Record × Option Failure)) :
    IsAudited (offers ++ more) q := by
  obtain ⟨r, hr, hdoc⟩ := h
  exact ⟨r, List.mem_append_left _ hr, hdoc⟩

theorem toldIds_append (offers more : List (Audit.Record × Option Failure)) :
    toldIds (offers ++ more) = toldIds offers ++ toldIds more :=
  List.filterMap_append

theorem acceptedOf_append (offers more : List (Audit.Record × Option Failure)) :
    acceptedOf (offers ++ more) = acceptedOf offers ++ acceptedOf more := by
  simp [acceptedOf]

namespace Custody

variable {w : World σ} {pending rest : List Quantity}

theorem start (state : σ) : Custody (World.start state) [] where
  logged := rfl
  given := by simp [toldIds, World.start]
  once := List.nodup_nil
  owned := by
    intro e q hq
    cases hq
  distinct := fun _ => List.nodup_nil
  accounted := by
    intro e q hq
    cases hq

theorem gave (h : Custody w pending) (ids : List Identifier) (state : σ) :
    Custody (w.gave ids state) pending where
  logged := h.logged
  given := fun id hid => List.mem_append_left _ (h.given id hid)
  once := h.once
  owned := h.owned
  distinct := h.distinct
  accounted := h.accounted

theorem moved (h : Custody w pending) (state : σ) : Custody (w.moved state) pending :=
  w.gave_nil state ▸ h.gave [] state

/-- New quantities may be stored under the identifiers given last, where each element keeps some of
its quantities and gets some of the new ones. -/
theorem stored (h : Custody w []) (qs : List Quantity) (store : Store) (state : σ)
    (fresh : (w.history.given ++ qs.map Quantity.id).Nodup)
    (hstore : ∀ e, ∃ old new, store.forElement e = old ++ new ∧
      old.Sublist (w.ledger.store.forElement e) ∧ new.Sublist qs ∧ ∀ q ∈ new, q.elementId = e) :
    Custody { w.gave (qs.map Quantity.id) state with
      ledger := { w.ledger with store := store } } qs := by
  obtain ⟨-, hnodup, hdisjoint⟩ := List.nodup_append.1 fresh
  have htold : ∀ id ∈ toldIds w.history.offers, id ∈ w.history.given := by
    intro id hid
    exact h.given id (List.mem_append_left _ hid)
  have hold : ∀ e, ∀ q ∈ w.ledger.store.forElement e, IsAudited w.history.offers q := by
    intro e q hq
    exact (h.accounted e q hq).resolve_left (by simp)
  refine ⟨h.logged, ?_, ?_, ?_, ?_, ?_⟩
  · intro id hid
    rcases List.mem_append.1 hid with hid | hid
    · exact List.mem_append_left _ (htold id hid)
    · exact List.mem_append_right _ hid
  · refine List.nodup_append.2 ⟨?_, hnodup, ?_⟩
    · exact (List.nodup_append.1 h.once).1
    · intro a ha b hb
      exact hdisjoint a (htold a ha) b hb
  · intro e q hq
    obtain ⟨old, new, heq, hsub, -, hown⟩ := hstore e
    rcases List.mem_append.1 (heq ▸ hq) with hq | hq
    · exact h.owned e q (hsub.subset hq)
    · exact hown q hq
  · intro e
    obtain ⟨old, new, heq, hsub, hnew, -⟩ := hstore e
    show ((store.forElement e).map Quantity.id).Nodup
    rw [heq, List.map_append]
    refine List.nodup_append.2
      ⟨(h.distinct e).sublist (hsub.map _), hnodup.sublist (hnew.map _), ?_⟩
    intro a ha b hb
    obtain ⟨q, hq, rfl⟩ := List.mem_map.1 ha
    exact hdisjoint _ (htold _ (hold e q (hsub.subset hq)).told) b ((hnew.map _).subset hb)
  · intro e q hq
    obtain ⟨old, new, heq, hsub, hnew, -⟩ := hstore e
    rcases List.mem_append.1 (heq ▸ hq) with hq | hq
    · exact .inr (hold e q (hsub.subset hq))
    · exact .inl (hnew.subset hq)

end Custody

/-! ## Settling -/

structure Tells (r : Audit.Record) (outcome : Except Failure Quantity) : Prop where
  success : ∀ q, outcome = .ok q → r.Documents q
  failure : ∀ f, outcome = .error f → r.quantityId? = none

theorem tells_recordOf (settings : Settings) {e : Option Element} {a : Option Assembly}
    {outcome : Except Failure Quantity} (start : Start) (ticks : Nat) (actor : Actor)
    (h : ∀ q, outcome = .ok q → Yields settings e a (.ok q)) :
    Tells (Engine.recordOf settings.engineVersion start ticks e a actor outcome) outcome where
  success := by
    rintro q rfl
    exact ⟨(h q rfl).owner.1, (h q rfl).owner.2, rfl⟩
  failure := by
    rintro f rfl
    rfl

theorem Tells.toldIds {r : Audit.Record} {outcome : Except Failure Quantity}
    (h : Tells r outcome) (refusal : Option Failure) :
    toldIds [(r, refusal)] = outcome.toOption.toList.map Quantity.id := by
  cases outcome with
  | error f => simp [Calculation.toldIds, h.failure f rfl, Except.toOption]
  | ok q => simp [Calculation.toldIds, (h.success q rfl).quantityId?, Except.toOption]

theorem logged_settled {w : World σ} {r : Audit.Record} {outcome : Except Failure Quantity}
    (refusal : Option Failure) (state : σ)
    (h : w.ledger.log.records.map Audit.Record.unnumbered = acceptedOf w.history.offers) :
    (w.settled r outcome refusal state).ledger.log.records.map Audit.Record.unnumbered
      = acceptedOf (w.settled r outcome refusal state).history.offers := by
  have hoffers : (w.settled r outcome refusal state).history.offers
      = w.history.offers ++ [(r, refusal)] := rfl
  rw [hoffers, acceptedOf_append, ← h]
  cases refusal with
  | none => simp [World.settled, Ledger.settled, acceptedOf, Audit.Record.unnumbered]
  | some f =>
    cases outcome <;> simp [World.settled, Ledger.settled, acceptedOf]

namespace Custody

variable {w : World σ} {rest : List Quantity}

/-- A refused quantity leaves the store, and no other one does. -/
theorem mem_remove {q p : Quantity} {e : Identifier} (h : Custody w (q :: rest))
    (hp : p ∈ (w.ledger.store.remove q.elementId q.id).2.forElement e) :
    p ∈ w.ledger.store.forElement e ∧ (p ∈ rest ∨ IsAudited w.history.offers p) := by
  have hnotold : q.id ∉ toldIds w.history.offers := by
    intro hq
    exact (List.nodup_append.1 h.once).2.2 _ hq _ (by simp) rfl
  have hmem : p ∈ w.ledger.store.forElement e := by
    by_cases he : e = q.elementId
    · subst he
      rw [Store.forElement_remove_self] at hp
      exact List.mem_of_mem_eraseP hp
    · rwa [Store.forElement_remove_of_ne _ _ he] at hp
  refine ⟨hmem, ?_⟩
  rcases h.accounted e p hmem with hpending | haudited
  · rcases List.mem_cons.1 hpending with rfl | hrest
    · -- it would have to be twice in the list of its element
      exfalso
      obtain rfl := h.owned e p hmem
      rw [Store.forElement_remove_self] at hp
      obtain ⟨a, l₁, l₂, hl₁, ha, heq, herased⟩ :=
        List.exists_of_eraseP hmem (p := fun x => x.id == p.id) (by simp)
      have hnodup := h.distinct p.elementId
      rw [heq, List.map_append, List.map_cons] at hnodup
      have hid : a.id = p.id := by simpa using ha
      rw [herased] at hp
      rcases List.mem_append.1 hp with hp | hp
      · exact hl₁ p hp (by simp)
      · refine (List.nodup_cons.1 (List.nodup_append.1 hnodup).2.1).1 ?_
        rw [hid]
        exact List.mem_map_of_mem hp
    · exact .inl hrest
  · exact .inr haudited

/-- Settling an attempt takes its quantity, if it has one, off the list of pending ones. -/
theorem settled {r : Audit.Record} (outcome : Except Failure Quantity)
    (h : Custody w (outcome.toOption.toList ++ rest)) (tells : Tells r outcome)
    (refusal : Option Failure) (state : σ) : Custody (w.settled r outcome refusal state) rest := by
  have htold : toldIds (w.settled r outcome refusal state).history.offers ++ rest.map Quantity.id
      = toldIds w.history.offers
        ++ (outcome.toOption.toList ++ rest).map Quantity.id := by
    have hoffers : (w.settled r outcome refusal state).history.offers
        = w.history.offers ++ [(r, refusal)] := rfl
    rw [hoffers, toldIds_append, tells.toldIds, List.map_append, List.append_assoc]
  have hstay : ∀ e, ((w.settled r outcome refusal state).ledger.store.forElement e).Sublist
      (w.ledger.store.forElement e) := by
    intro e
    cases outcome with
    | error f => cases refusal <;> exact List.Sublist.refl _
    | ok q =>
      cases refusal with
      | none => exact List.Sublist.refl _
      | some f =>
        show ((w.ledger.store.remove q.elementId q.id).2.forElement e).Sublist _
        by_cases he : e = q.elementId
        · subst he
          rw [Store.forElement_remove_self]
          exact List.eraseP_sublist
        · exact (Store.forElement_remove_of_ne _ _ he).symm ▸ List.Sublist.refl _
  refine ⟨logged_settled refusal state h.logged, ?_, htold ▸ h.once, ?_, ?_, ?_⟩
  · rw [htold]
    exact h.given
  · intro e q hq
    exact h.owned e q ((hstay e).subset hq)
  · intro e
    exact (h.distinct e).sublist ((hstay e).map _)
  · intro e p hp
    have hmem : p ∈ w.ledger.store.forElement e := (hstay e).subset hp
    cases outcome with
    | error f => exact (h.accounted e p hmem).imp_right (·.append _)
    | ok q =>
      cases refusal with
      | some f => exact (h.mem_remove hp).2.imp_right (·.append _)
      | none =>
        rcases h.accounted e p hmem with hpending | haudited
        · rcases List.mem_cons.1 hpending with rfl | hrest
          · exact .inr ⟨r, List.mem_append_right _ (by simp), tells.success p rfl⟩
          · exact .inl hrest
        · exact .inr (haudited.append _)

/-- Settling trials one by one leaves nothing pending. -/
theorem tried (trials : List Trial) (state : σ) (h : Custody w (pendingOf trials))
    (tells : ∀ t ∈ trials, Tells t.record t.outcome) : Custody (w.tried trials state) [] := by
  induction trials generalizing w with
  | nil =>
    have hw : w.tried [] state = w.moved state := by
      simp [World.tried, World.moved, Ledger.tried]
    rw [hw]
    exact h.moved state
  | cons t trials ih =>
    have hpending : pendingOf (t :: trials) = t.outcome.toOption.toList ++ pendingOf trials := by
      cases hout : t.outcome <;> simp [pendingOf, hout, Except.toOption]
    have hw : w.tried (t :: trials) state
        = (w.settled t.record t.outcome t.refusal state).tried trials state := by
      simp [World.settled, World.tried, Ledger.tried, Trial.offer]
    rw [hw]
    rw [hpending] at h
    exact ih (h.settled t.outcome (tells t List.mem_cons_self) t.refusal state)
      (fun u hu => tells u (List.mem_cons_of_mem _ hu))

end Custody

/-! ## Calls and runs -/

section Runs

variable (c : Circumstances σ) (settings : Settings)

/-- The quantity of a trial was computed for it, also in a batch that is lost. -/
theorem Settles.yields_of_ok {settings : Settings} {element : Element} {actor : Actor}
    {lost : Option Failure} {attempts : List Attempt} {trials : List Trial}
    (h : Settles settings element actor lost attempts trials)
    (attempted : AreAttempts settings element attempts) {t : Trial} (ht : t ∈ trials)
    {q : Quantity} (hq : t.outcome = .ok q) :
    Yields settings (some element) (some t.assembly) (.ok q) := by
  have hmem : (t.assembly, t.outcome) ∈ trials.map fun t => (t.assembly, t.outcome) :=
    List.mem_map_of_mem ht
  rw [h.outcomes] at hmem
  obtain ⟨u, hu, heq⟩ := List.mem_map.1 hmem
  simp only [Prod.mk.injEq] at heq
  have hu' := attempted u hu
  cases lost with
  | none =>
    rw [unlessLost_none, hq] at heq
    rwa [heq.1, heq.2] at hu'
  | some f =>
    -- a lost batch has no success
    cases hout : u.outcome <;> simp [hout, hq] at heq

theorem Settles.tells {element : Element} {actor : Actor} {lost : Option Failure}
    {attempts : List Attempt} {trials : List Trial}
    (h : Settles settings element actor lost attempts trials)
    (attempted : AreAttempts settings element attempts) :
    ∀ t ∈ trials, Tells t.record t.outcome := by
  intro t ht
  obtain ⟨start, ticks, hr⟩ := h.recorded t ht
  rw [hr]
  exact tells_recordOf settings start ticks actor (fun q hq => h.yields_of_ok attempted ht hq)

theorem Settles.pending_lost {element : Element} {actor : Actor} {f : Failure}
    {attempts : List Attempt} {trials : List Trial}
    (h : Settles settings element actor (some f) attempts trials) : pendingOf trials = [] := by
  have hmap := congrArg
    (List.filterMap fun p : Assembly × Except Failure Quantity => p.2.toOption) h.outcomes
  rw [List.filterMap_map, List.filterMap_map] at hmap
  refine hmap.trans ?_
  rw [List.filterMap_eq_nil_iff]
  intro t ht
  cases hout : t.outcome <;> simp [hout, Except.toOption]

/-- A call keeps custody, if the identifiers that it is given are new. -/
theorem Call.custody {w : World σ} (call : Call) (h : Custody w [])
    (fresh : (call.perform c settings w).history.given.Nodup) :
    Custody (call.perform c settings w) [] := by
  cases call with
  | calculate e a actor =>
    have hcall := play_calculate c settings w e a actor
    simp only [Call.perform] at fresh ⊢
    generalize play ((c.engine settings).calculate e a actor) w = result at hcall fresh ⊢
    cases hcall with
    | failed f start ticks refusal given state hyields =>
      exact (h.moved given).settled (.error f)
        (tells_recordOf settings start ticks actor (by simp)) refusal state
    | lost q f start ticks refusal given state hyields =>
      exact (h.gave [q.id] given).settled (.error f)
        (tells_recordOf settings start ticks actor (by simp)) refusal state
    | stored q start ticks refusal given state hyields =>
      have hstored := h.stored [q] (w.ledger.store.insert q) given fresh (by
        intro e
        by_cases he : e = q.elementId
        · subst he
          exact ⟨_, [q], Store.forElement_insert_self _ q, List.Sublist.refl _,
            List.Sublist.refl _, by simp⟩
        · exact ⟨_, [], (Store.forElement_insert_of_ne _ q he).trans (List.append_nil _).symm,
            List.Sublist.refl _, List.nil_sublist _, by simp⟩)
      refine Custody.settled (.ok q) hstored ?_ refusal state
      refine tells_recordOf settings start ticks actor ?_
      rintro p hp
      cases hp
      exact hyields
  | recalculate element catalog actor =>
    have hcall := play_recalculate c settings element catalog actor w
    simp only [Call.perform] at fresh ⊢
    generalize play ((c.engine settings).recalculate element catalog actor c.stopping) w = result
      at hcall fresh ⊢
    cases hcall with
    | unclassified hk => exact h
    | stopped k attempts trials given state hk attempted sub asked settled =>
      have hgave : Custody (w.gave (idsOf attempts) given) (pendingOf trials) :=
        settled.pending_lost ▸ h.gave _ _
      exact hgave.tried trials state (settled.tells settings attempted)
    | lost k attempts trials given state f hk attempted whole fault settled =>
      have hgave : Custody (w.gave (idsOf attempts) given) (pendingOf trials) :=
        settled.pending_lost ▸ h.gave _ _
      exact hgave.tried trials state (settled.tells settings attempted)
    | replaced k attempts trials given state hk attempted whole settled =>
      have hstored := h.stored (Engine.successes attempts)
        (w.ledger.store.set element.id (Engine.successes attempts)) given fresh (by
          intro e
          by_cases he : e = element.id
          · subst he
            exact ⟨[], _, Store.forElement_set_self _ _ _, List.nil_sublist _,
              List.Sublist.refl _, successes_owner settings element attempted⟩
          · exact ⟨_, [], (Store.forElement_set_of_ne _ _ he).trans (List.append_nil _).symm,
              List.Sublist.refl _, List.nil_sublist _, by simp⟩)
      have hpending : Custody { w.gave (idsOf attempts) given with
          ledger := { w.ledger with
            store := w.ledger.store.set element.id (Engine.successes attempts) } }
          (pendingOf trials) := by
        rw [settled.pending]
        exact hstored
      exact hpending.tried trials state (settled.tells settings attempted)

theorem Call.given_perform (call : Call) (w : World σ) :
    w.history.given <+: (call.perform c settings w).history.given := by
  cases call with
  | calculate e a actor =>
    have hcall := play_calculate c settings w e a actor
    simp only [Call.perform]
    generalize play ((c.engine settings).calculate e a actor) w = result at hcall ⊢
    cases hcall with
    | failed => exact List.prefix_rfl
    | lost => exact List.prefix_append _ _
    | stored => exact List.prefix_append _ _
  | recalculate element catalog actor =>
    have hcall := play_recalculate c settings element catalog actor w
    simp only [Call.perform]
    generalize play ((c.engine settings).recalculate element catalog actor c.stopping) w = result
      at hcall ⊢
    cases hcall with
    | unclassified => exact List.prefix_rfl
    | stopped => exact List.prefix_append _ _
    | lost => exact List.prefix_append _ _
    | replaced => exact List.prefix_append _ _

theorem given_run (calls : List Call) (w : World σ) :
    w.history.given <+: (run c settings calls w).history.given := by
  induction calls generalizing w with
  | nil => exact List.prefix_rfl
  | cons call rest ih => exact (call.given_perform c settings w).trans (ih _)

/-- A run keeps custody, if the identifiers that it is given are new. -/
theorem Custody.run (calls : List Call) {w : World σ} (h : Custody w [])
    (fresh : (run c settings calls w).history.given.Nodup) :
    Custody (run c settings calls w) [] := by
  induction calls generalizing w with
  | nil => exact h
  | cons call rest ih =>
    have hcall : (call.perform c settings w).history.given.Nodup :=
      fresh.sublist (given_run c settings rest _).sublist
    exact ih (call.custody c settings h hcall) fresh

end Runs

/-! ## The main statement -/

/-- Of elements with different images, one with a given image is alone. -/
theorem filter_eq_singleton {α β : Type} [DecidableEq β] {f : α → Option β} {l : List α} {x : α}
    {b : β} (hnodup : (l.filterMap f).Nodup) (hx : x ∈ l) (hb : f x = some b) :
    l.filter (fun y => f y == some b) = [x] := by
  induction l with
  | nil => cases hx
  | cons y rest ih =>
    have hrest : (rest.filterMap f).Nodup :=
      hnodup.sublist ((List.sublist_cons_self y rest).filterMap f)
    rcases List.mem_cons.1 hx with rfl | hmem
    · rw [List.filterMap_cons_some hb, List.nodup_cons] at hnodup
      have hnone : ∀ z ∈ rest, ¬ (f z == some b) = true := by
        intro z hz heq
        exact hnodup.1 (List.mem_filterMap.2 ⟨z, hz, by simpa using heq⟩)
      rw [List.filter_cons_of_pos (by simp [hb]), List.filter_eq_nil_iff.2 hnone]
    · have hy : ¬ (f y == some b) = true := by
        intro heq
        rw [List.filterMap_cons_some (by simpa using heq), List.nodup_cons] at hnodup
        exact hnodup.1 (List.mem_filterMap.2 ⟨x, hmem, hb⟩)
      exact (List.filter_cons_of_neg (p := fun y => f y == some b) hy).trans (ih hrest hmem)

/-- In custody with nothing pending, a stored quantity has one record in the log, and none was
refused. -/
theorem Custody.one_record {w : World σ} (h : Custody w []) {q : Quantity}
    (hq : q ∈ w.ledger.store.all) :
    (∃ r, w.ledger.log.records.filter (·.quantityId? == some q.id) = [r] ∧ r.Documents q) ∧
    ∀ p ∈ w.history.offers, p.2.isSome → p.1.quantityId? ≠ some q.id := by
  obtain ⟨e, he⟩ := Store.exists_mem_forElement hq
  obtain ⟨r, hr, hdoc⟩ := (h.accounted e q he).resolve_left (by simp)
  have honce : (toldIds w.history.offers).Nodup := (List.nodup_append.1 h.once).1
  have hoffers : w.history.offers.filter (fun p => p.1.quantityId? == some q.id) = [(r, none)] :=
    filter_eq_singleton honce hr hdoc.quantityId?
  constructor
  · have hlog : (w.ledger.log.records.filter (·.quantityId? == some q.id)).map
        Audit.Record.unnumbered = [r.unnumbered] := by
      calc (w.ledger.log.records.filter (·.quantityId? == some q.id)).map Audit.Record.unnumbered
          = (w.ledger.log.records.map Audit.Record.unnumbered).filter
              (·.quantityId? == some q.id) := by
            rw [List.filter_map]
            rfl
        _ = (acceptedOf w.history.offers).filter (·.quantityId? == some q.id) := by rw [h.logged]
        _ = ((w.history.offers.filter fun p => p.1.quantityId? == some q.id).filter
              fun p => p.2.isNone).map fun p => p.1.unnumbered := by
            rw [acceptedOf, List.filter_map, List.filter_filter, List.filter_filter]
            congr 2
            funext p
            exact Bool.and_comm _ _
        _ = [r.unnumbered] := by rw [hoffers]; rfl
    obtain ⟨numbered, hnumbered, heq⟩ := List.map_eq_singleton_iff.1 hlog
    exact ⟨numbered, hnumbered, hdoc.of_unnumbered heq⟩
  · intro p hp hrefused hid
    have hmem : p ∈ w.history.offers.filter (fun p => p.1.quantityId? == some q.id) :=
      List.mem_filter.2 ⟨hp, by simpa using hid⟩
    rw [hoffers, List.mem_singleton] at hmem
    rw [hmem] at hrefused
    cases hrefused

/-- After any calls of an engine that began with nothing stored and nothing recorded, each stored
quantity has exactly one record of success, with its owners and values, and no record of it was
refused: whichever records are refused, whichever store operations fail, and whenever a stop is
asked for. -/
theorem stored_quantities_recorded (c : Circumstances σ) (settings : Settings) (calls : List Call)
    (state : σ) (fresh : (run c settings calls (.start state)).history.given.Nodup) :
    let w := run c settings calls (.start state)
    ∀ q ∈ w.ledger.store.all,
      (∃ r, w.ledger.log.records.filter (·.quantityId? == some q.id) = [r] ∧ r.Documents q) ∧
      ∀ p ∈ w.history.offers, p.2.isSome → p.1.quantityId? ≠ some q.id := by
  intro w q hq
  exact (Custody.run c settings calls (.start state) fresh).one_record hq

/-- A calculation and a recalculation of the sample slab, in a log that refuses one of the
records: of three quantities made, one is replaced, one withdrawn, and one is left. -/
theorem sample_quantity_recorded :
    let c := Circumstances.counting ["11.2.2"]
    let slab := Command.sampleSlab (.ofNat 3)
    let calls :=
      [.calculate (some slab) ((sampleProject.catalog.assembliesFor "slab").head?) .system,
        .recalculate slab sampleProject.catalog .system]
    let w := run c {} calls (.start 4)
    w.ledger.store.all.map Quantity.id = [.ofNat 5] ∧
    ∀ q ∈ w.ledger.store.all,
      (∃ r, w.ledger.log.records.filter (·.quantityId? == some q.id) = [r] ∧ r.Documents q) ∧
      ∀ p ∈ w.history.offers, p.2.isSome → p.1.quantityId? ≠ some q.id := by
  refine ⟨by decide +kernel, ?_⟩
  exact stored_quantities_recorded _ _ _ _ (by decide +kernel)

end Calculation

end QuantitySurvey
