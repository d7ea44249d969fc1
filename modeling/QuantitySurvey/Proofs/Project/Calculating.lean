import QuantitySurvey.Project.Calculation
import QuantitySurvey.Proofs.Calculation.Batch
import QuantitySurvey.Proofs.Project.Storable

/-! # Calculating in storable projects

The engine refuses results that are not finite, so whatever it stores and records can be stored in a
document, but for the values of traces, which it does not look at. `Keeps` says what a run of the
engine leaves in the ledger, and that it leaves everything else alone.

* `isStorable_of_compute`: what is computed.
* `keeps_calculate`, `keeps_recalculate`: what a run leaves in the ledger.
* `calculate_isStorable`, `recalculate_isStorable`: what it leaves in the project.
-/

set_option autoImplicit false

namespace QuantitySurvey.Calculation

/-! ## Results -/

theorem standardized_ok {a : Assembly} {raw value : Float} (h : standardized a raw = .ok value) :
    raw.isFinite = true ∧ value.isFinite = true := by
  simp only [standardized, bind, Except.bind, pure, Except.pure, throw, throwThe,
    MonadExceptOf.throw] at h
  cases hraw : raw.isFinite with
  | false => simp [hraw] at h
  | true =>
    simp only [hraw, Bool.not_true, Bool.false_eq_true, if_false] at h
    split at h
    · cases h
    · next converted _ =>
      cases hvalue : converted.isFinite with
      | false => simp [hvalue] at h
      | true =>
        simp only [hvalue, Bool.not_true, Bool.false_eq_true, if_false] at h
        cases h
        exact ⟨rfl, hvalue⟩

theorem isFinite_of_mem_warnings {raw : Float} (h : raw.isFinite = true) {w : Warning}
    (hw : w ∈ warnings raw) : w.IsFinite := by
  unfold warnings at hw
  split at hw
  · rw [List.mem_singleton.1 hw]
    exact h
  · cases hw

/-- A result can be stored if the parameters of the element can. -/
theorem isStorable_of_compute {settings : Settings} {e : Option Element} {a : Option Assembly}
    {e' : Element} {a' : Assembly} {result : Instant → CalculationResult}
    (h : compute settings e a = .ok (e', a', result)) (he : ∀ f ∈ e, f.IsStorable)
    {time : Instant} (htime : time.IsStorable) : (result time).IsStorable := by
  simp only [compute, bind, Except.bind, pure, Except.pure] at h
  split at h
  · cases h
  · next inputs hinputs =>
    split at h
    · cases h
    · next evaluation _ =>
      split at h
      · cases h
      · next value hvalue =>
        cases h
        obtain ⟨hraw, hstandardized⟩ := standardized_ok hvalue
        have helement := (inputs_ok hinputs).1
        exact {
          raw := hraw
          standardized := hstandardized
          parameters := he _ helement
          warnings := fun w hw => isFinite_of_mem_warnings hraw hw
          calculatedAt := htime }

/-! ## Ledgers -/

/-- What a ledger holds can be stored, but for the traces. -/
structure Ledger.IsStorable (l : Ledger) : Prop where
  quantities : ∀ q ∈ l.store.all, q.IsStorable
  records : ∀ r ∈ l.log.records, r.IsStorable

/-- What an attempt came to can be stored, if it came to a quantity. -/
def AllStorable (outcome : Except Failure Quantity) : Prop := ∀ q, outcome = .ok q → q.IsStorable

theorem allStorable_error (f : Failure) : AllStorable (.error f) := by
  intro q hq
  cases hq

theorem AllStorable.unlessLost {outcome : Except Failure Quantity} (h : AllStorable outcome)
    (lost : Option Failure) : AllStorable (unlessLost lost outcome) := by
  cases lost with
  | none => rwa [unlessLost_none]
  | some e =>
    cases outcome with
    | error f => exact allStorable_error f
    | ok q => exact allStorable_error e

theorem Ledger.IsStorable.add {l : Ledger} (h : l.IsStorable) {r : Audit.Record}
    (hr : r.IsStorable) : Ledger.IsStorable { l with log := (l.log.add r).2 } where
  quantities := h.quantities
  records := by
    intro r' hr'
    rw [Audit.Log.records_add] at hr'
    rcases List.mem_append.1 hr' with hr' | hr'
    · exact h.records r' hr'
    · rw [List.mem_singleton.1 hr']
      exact { hr with sequence := Audit.nextSequence_lt _ }

theorem recordOf_isStorable {start : Start} (hstart : start.instant.IsStorable) (version : String)
    (ticks : Nat) {e : Option Element} (he : ∀ f ∈ e, f.IsStorable) (a : Option Assembly)
    (actor : Actor) {outcome : Except Failure Quantity} (h : AllStorable outcome) :
    (Engine.recordOf version start ticks e a actor outcome).IsStorable where
  sequence := Nat.zero_lt_of_lt (Audit.nextSequence_lt [])
  parameters := by
    cases e with
    | none => exact fun v hv => by cases hv
    | some e => exact he e rfl
  outcome := by
    cases outcome with
    | error f => trivial
    | ok q => exact ⟨(h q rfl).result.raw, (h q rfl).value⟩
  startedAt := hstart
  durationMicros := Nat.lt_of_le_of_lt (Nat.min_le_right _ _) (by decide)

/-! ## Runs -/

variable {σ δ α β : Type}

/-- A run over a ledger leaves everything else as it is, and what it comes to and the ledger after
it have a property. -/
def Keeps (l : Ledger) (x : StateT Ledger (StateT δ (StateM σ)) α) (Q : α → Ledger → Prop) : Prop :=
  ∀ d s, (((x.run l).run d).run s).1.2 = d
    ∧ Q (((x.run l).run d).run s).1.1.1 (((x.run l).run d).run s).1.1.2

theorem keeps_pure {l : Ledger} {a : α} {Q : α → Ledger → Prop} (h : Q a l) :
    Keeps l (pure a : StateT Ledger (StateT δ (StateM σ)) α) Q :=
  fun _ _ => ⟨rfl, h⟩

theorem Keeps.bind {l : Ledger} {x : StateT Ledger (StateT δ (StateM σ)) α}
    {f : α → StateT Ledger (StateT δ (StateM σ)) β} {P : α → Ledger → Prop}
    {Q : β → Ledger → Prop} (hx : Keeps l x P) (hf : ∀ a l', P a l' → Keeps l' (f a) Q) :
    Keeps l (x >>= f) Q := by
  intro d s
  obtain ⟨hd, hP⟩ := hx d s
  obtain ⟨hd', hQ⟩ := hf _ _ hP (((x.run l).run d).run s).1.2 (((x.run l).run d).run s).2
  exact ⟨hd'.trans hd, hQ⟩

/-- Every time that the clock shows can be stored. -/
def Surroundings.ShowStorable (surroundings : Surroundings (StateM σ)) : Prop :=
  ∀ s, (surroundings.now.run s).1.IsStorable

variable (settings : Settings) (surroundings : Surroundings (StateM σ))

/-- The engine of a project, on a machine with more than clocks. -/
def engineOn (δ : Type) : Engine (StateT Ledger (StateT δ (StateM σ))) :=
  Project.engine settings surroundings.lift

section Operations

variable {l : Ledger}

theorem keeps_now (h : surroundings.ShowStorable) :
    Keeps l (engineOn settings surroundings δ).surroundings.now
      fun t l' => l' = l ∧ t.IsStorable :=
  fun _ s => ⟨rfl, rfl, h s⟩

theorem keeps_ticks :
    Keeps l (engineOn settings surroundings δ).surroundings.ticks fun _ l' => l' = l :=
  fun _ _ => ⟨rfl, rfl⟩

theorem keeps_freshId :
    Keeps l (engineOn settings surroundings δ).surroundings.freshId fun _ l' => l' = l :=
  fun _ _ => ⟨rfl, rfl⟩

theorem keeps_record (r : Audit.Record) :
    Keeps l ((engineOn settings surroundings δ).recorder.record r)
      fun n l' => (∃ k, n = .ok k) ∧ l' = { l with log := (l.log.add r).2 } :=
  fun _ _ => ⟨rfl, ⟨_, rfl⟩, rfl⟩

theorem keeps_insert (q : Quantity) :
    Keeps l ((engineOn settings surroundings δ).keeper.insert q)
      fun _ l' => l' = { l with store := l.store.insert q } :=
  fun _ _ => ⟨rfl, rfl⟩

/-- The store takes up the quantities, or stays as it is. -/
theorem keeps_replaceFor (e : Identifier) (qs : List Quantity) :
    Keeps l ((engineOn settings surroundings δ).keeper.replaceFor e qs)
      fun _ l' => l' = l ∨ l' = { l with store := l.store.set e qs } := by
  have hget : Keeps l (get : StateT Ledger (StateT δ (StateM σ)) Ledger)
      fun l₀ l' => l₀ = l ∧ l' = l := fun _ _ => ⟨rfl, rfl, rfl⟩
  refine hget.bind fun l₀ l' hl => ?_
  obtain ⟨h₀, h'⟩ := hl
  rw [h₀, h']
  cases hreplace : Store.replaceFor l.store e qs with
  | error f => exact keeps_pure (.inl rfl)
  | ok store =>
    have hstore : store = l.store.set e qs := by
      unfold Store.replaceFor at hreplace
      split at hreplace
      · exact (Except.ok.inj hreplace).symm
      · cases hreplace
    rw [← hstore]
    exact fun _ _ => ⟨rfl, .inr rfl⟩

/-! ## Attempts -/

theorem keeps_attempt (h : surroundings.ShowStorable) {e : Option Element}
    (he : ∀ f ∈ e, f.IsStorable) (a : Option Assembly) :
    Keeps l ((engineOn settings surroundings δ).attempt e a)
      fun r l' => l' = l ∧ r.1.instant.IsStorable ∧ AllStorable r.2 := by
  refine (keeps_now settings surroundings h).bind ?_
  rintro instant _ ⟨rfl, hinstant⟩
  refine (keeps_ticks settings surroundings).bind ?_
  rintro ticks _ rfl
  cases hcompute : compute (engineOn settings surroundings δ).settings e a with
  | error f => exact keeps_pure ⟨rfl, hinstant, allStorable_error f⟩
  | ok r =>
    obtain ⟨e', a', result⟩ := r
    refine (keeps_now settings surroundings h).bind ?_
    rintro calculatedAt _ ⟨rfl, hcalculatedAt⟩
    refine (keeps_freshId settings surroundings).bind ?_
    rintro id _ rfl
    refine keeps_pure ⟨rfl, hinstant, fun q hq => ?_⟩
    cases hq
    have hresult := isStorable_of_compute hcompute he hcalculatedAt
    exact ⟨hresult.standardized, hresult.warnings, hresult⟩

theorem keeps_settle (hl : l.IsStorable) {start : Start} (hstart : start.instant.IsStorable)
    {e : Option Element} (he : ∀ f ∈ e, f.IsStorable) (a : Option Assembly) (actor : Actor)
    {outcome : Except Failure Quantity} (h : AllStorable outcome) :
    Keeps l ((engineOn settings surroundings δ).settle start e a actor outcome)
      fun _ l' => l'.IsStorable := by
  refine (keeps_ticks settings surroundings).bind ?_
  rintro ticks _ rfl
  refine (keeps_record settings surroundings _).bind ?_
  rintro _ _ ⟨⟨k, rfl⟩, rfl⟩
  exact keeps_pure (hl.add (recordOf_isStorable hstart _ ticks he a actor h))

/-! ## One quantity -/

theorem Ledger.IsStorable.insert (hl : l.IsStorable) {q : Quantity} (hq : q.IsStorable) :
    Ledger.IsStorable { l with store := l.store.insert q } where
  quantities := by
    intro p hp
    rcases Store.mem_all_insert hp with rfl | hp
    · exact hq
    · exact hl.quantities p hp
  records := hl.records

theorem keeps_calculate (h : surroundings.ShowStorable) (hl : l.IsStorable) {e : Option Element}
    (he : ∀ f ∈ e, f.IsStorable) (a : Option Assembly) (actor : Actor) :
    Keeps l ((engineOn settings surroundings δ).calculate e a actor)
      fun _ l' => l'.IsStorable := by
  refine (keeps_attempt settings surroundings h he a).bind ?_
  rintro ⟨start, outcome⟩ _ ⟨rfl, hstart, houtcome⟩
  cases outcome with
  | error f => exact keeps_settle settings surroundings hl hstart he a actor (allStorable_error f)
  | ok q =>
    refine (keeps_insert settings surroundings q).bind ?_
    rintro result _ rfl
    have hinserted := hl.insert (houtcome q rfl)
    cases result with
    | error f =>
      exact keeps_settle settings surroundings hinserted hstart he a actor (allStorable_error f)
    | ok _ => exact keeps_settle settings surroundings hinserted hstart he a actor houtcome

/-! ## All quantities of an element -/

/-- An attempt of a batch can be recorded and stored. -/
def Attempt.IsStorable (t : Attempt) : Prop := t.start.instant.IsStorable ∧ AllStorable t.outcome

theorem keeps_attemptAll (h : surroundings.ShowStorable) {e : Element} (he : e.IsStorable)
    (assemblies : List Assembly) (made : List Attempt) (hmade : ∀ t ∈ made, t.IsStorable) :
    Keeps l ((engineOn settings surroundings δ).attemptAll (fun _ => pure false) e assemblies made)
      fun r l' => l' = l ∧ ∀ t ∈ r.2, t.IsStorable := by
  induction assemblies generalizing made with
  | nil => exact keeps_pure ⟨rfl, fun t ht => hmade t (List.mem_reverse.1 ht)⟩
  | cons a assemblies ih =>
    have hgo : Keeps l (pure false : StateT Ledger (StateT δ (StateM σ)) Bool)
        fun stops l' => stops = false ∧ l' = l := keeps_pure ⟨rfl, rfl⟩
    refine hgo.bind ?_
    rintro _ _ ⟨rfl, rfl⟩
    refine (keeps_attempt settings surroundings h (by simpa using he) (some a)).bind ?_
    rintro ⟨start, outcome⟩ _ ⟨rfl, hstart, houtcome⟩
    refine ih _ fun t ht => ?_
    rcases List.mem_cons.1 ht with rfl | ht
    · exact ⟨hstart, houtcome⟩
    · exact hmade t ht

theorem keeps_settleAll (hl : l.IsStorable) {e : Element} (he : e.IsStorable) (actor : Actor)
    (lost : Option Failure) (attempts : List Attempt) (h : ∀ t ∈ attempts, t.IsStorable) :
    Keeps l ((engineOn settings surroundings δ).settleAll e actor lost attempts)
      fun _ l' => l'.IsStorable := by
  induction attempts generalizing l with
  | nil => exact keeps_pure hl
  | cons t attempts ih =>
    obtain ⟨hstart, houtcome⟩ := h t List.mem_cons_self
    rw [settleAll_cons]
    refine (keeps_settle settings surroundings hl hstart (by simpa using he) (some t.assembly)
      actor (houtcome.unlessLost lost)).bind ?_
    intro settled l' hl'
    refine (ih hl' fun t' ht' => h t' (List.mem_cons_of_mem t ht')).bind ?_
    rintro ⟨created, failures⟩ l'' hl''
    cases settled with
    | ok q => exact keeps_pure hl''
    | error f => exact keeps_pure hl''

theorem Ledger.IsStorable.set (hl : l.IsStorable) (e : Identifier) {qs : List Quantity}
    (hqs : ∀ q ∈ qs, q.IsStorable) :
    Ledger.IsStorable { l with store := l.store.set e qs } where
  quantities := by
    intro p hp
    rcases Store.mem_all_set hp with hp | hp
    · exact hqs p hp
    · exact hl.quantities p hp
  records := hl.records

theorem isStorable_of_mem_successes {attempts : List Attempt} (h : ∀ t ∈ attempts, t.IsStorable)
    {q : Quantity} (hq : q ∈ Engine.successes attempts) : q.IsStorable := by
  obtain ⟨t, ht, hsome⟩ := List.mem_filterMap.1 hq
  exact (h t ht).2 q (toOption_eq_some.1 hsome)

theorem keeps_recalculate (h : surroundings.ShowStorable) (hl : l.IsStorable) {e : Element}
    (he : e.IsStorable) (catalog : Catalog) (actor : Actor) :
    Keeps l ((engineOn settings surroundings δ).recalculate e catalog actor)
      fun _ l' => l'.IsStorable := by
  unfold Engine.recalculate
  cases e.classification with
  | none => exact keeps_pure hl
  | some classification =>
    refine (keeps_attemptAll settings surroundings h he _ [] (by simp)).bind ?_
    rintro ⟨stopped, attempts⟩ _ ⟨rfl, hattempts⟩
    cases stopped with
    | true =>
      refine (keeps_settleAll settings surroundings hl he actor _ attempts hattempts).bind ?_
      rintro ⟨created, failures⟩ l' hl'
      exact keeps_pure hl'
    | false =>
      refine (keeps_replaceFor settings surroundings e.id _).bind ?_
      intro result l' hreplaced
      have hl' : l'.IsStorable := by
        rcases hreplaced with rfl | rfl
        · exact hl
        · exact hl.set e.id fun q hq => isStorable_of_mem_successes hattempts hq
      cases result with
      | ok _ =>
        refine (keeps_settleAll settings surroundings hl' he actor _ attempts hattempts).bind ?_
        rintro ⟨created, failures⟩ l'' hl''
        exact keeps_pure hl''
      | error f =>
        refine (keeps_settleAll settings surroundings hl' he actor _ attempts hattempts).bind ?_
        intro _ l'' hl''
        exact keeps_pure hl''

end Operations

end QuantitySurvey.Calculation

namespace QuantitySurvey.Project

open Calculation

/-! ## Projects -/

variable {σ δ α : Type} {p : Project}

theorem IsStorable.ledger (h : p.IsStorable) : p.ledger.IsStorable where
  quantities := fun q hq => h.quantities q (Store.mem_all_ofList hq)
  records := h.auditTrail

theorem IsStorable.withLedger (h : p.IsStorable) {l : Ledger} (hl : l.IsStorable) {now : Instant}
    (hnow : now.IsStorable) : (p.withLedger l now).IsStorable :=
  IsStorable.touch { h with quantities := hl.quantities, auditTrail := hl.records } hnow

variable (settings : Settings) {surroundings : Surroundings (StateM σ)}
  (hclock : surroundings.ShowStorable) (d : δ) (s : σ)
include hclock

/-- A run of the engine that leaves a storable ledger leaves a storable project. -/
theorem running_isStorable (h : p.IsStorable)
    {run : Engine (StateT Ledger (StateT δ (StateM σ))) → StateT Ledger (StateT δ (StateM σ)) α}
    (hrun : Keeps p.ledger (run (engineOn settings surroundings δ)) fun _ l => l.IsStorable) :
    (((p.running settings surroundings.lift run).run d).run s).1.2 = d
      ∧ (((p.running settings surroundings.lift run).run d).run s).1.1.2.IsStorable := by
  obtain ⟨hd, hl⟩ := hrun d s
  exact ⟨hd, h.withLedger hl (hclock _)⟩

theorem calculate_isStorable (h : p.IsStorable) {e : Element} (he : e.IsStorable) (a : Assembly)
    (actor : Actor) :
    (((p.calculate settings surroundings.lift e a actor).run d).run s).1.2 = d
      ∧ (((p.calculate settings surroundings.lift e a actor).run d).run s).1.1.2.IsStorable :=
  running_isStorable settings hclock d s h
    (keeps_calculate settings surroundings hclock h.ledger (by simpa using he) _ actor)

theorem recalculate_isStorable (h : p.IsStorable) {e : Element} (he : e.IsStorable)
    (actor : Actor) :
    (((p.recalculate settings surroundings.lift e actor).run d).run s).1.2 = d
      ∧ (((p.recalculate settings surroundings.lift e actor).run d).run s).1.1.2.IsStorable :=
  running_isStorable settings hclock d s h
    (keeps_recalculate settings surroundings hclock h.ledger he _ actor)

end QuantitySurvey.Project
