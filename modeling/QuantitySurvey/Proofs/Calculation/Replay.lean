import QuantitySurvey.Proofs.Calculation.Custody
import QuantitySurvey.Proofs.Formula.Names

/-! # Replaying a record

A record of success has the formula and the parameters of its calculation. It does not have the type
and the material of the element, which a formula may read as well. `replay` evaluates the formula from
the parameters alone.

* `yields_evaluation`: a quantity is the evaluation of a formula for the element.
* `replays_iff`: when the record of a quantity is replayed.
* `records_run`: every record that a run adds is that of an attempt.
* `success_record_replays`: both together.
-/

set_option autoImplicit false

namespace QuantitySurvey.Calculation

/-! ## One record -/

/-- Evaluates the formula of a record from its parameters alone. -/
def replay (limits : Formula.Limits) (r : Audit.Record) : Except Failure Formula.Evaluation :=
  match r.formula with
  | none => .error (.missingInput "formula")
  | some source => do
    (← Formula.parse limits source).evaluate limits (.ofParameters r.parameters)

/-- A replay has a value, and the steps of the record but for those of the result and of its
conversion. -/
def Replays (limits : Formula.Limits) (r : Audit.Record) (raw : Float) : Prop :=
  ∃ steps result conversion, replay limits r = .ok ⟨raw, steps⟩ ∧
    result.kind = .result ∧ conversion.kind = .unitConversion ∧
    r.steps = steps ++ [result, conversion]

section Record

variable {settings : Settings} {e : Option Element} {a : Option Assembly}

theorem yields_evaluation {q : Quantity} (h : Yields settings e a (.ok q)) :
    ∃ element assembly formula v, e = some element ∧ a = some assembly ∧
      Formula.parse settings.limits assembly.formula = .ok formula ∧
      formula.evaluate settings.limits element.bindings = .ok v ∧
      q.result.raw = v.value ∧ ∃ result conversion, result.kind = .result ∧
        conversion.kind = .unitConversion ∧ q.result.steps = v.steps ++ [result, conversion] := by
  cases h with
  | @computed element assembly result id time h =>
    obtain ⟨he, ha⟩ := compute_ok h
    unfold compute at h
    obtain ⟨⟨element', assembly'⟩, -, h⟩ := bind_eq_ok.1 h
    obtain ⟨v, hv, h⟩ := bind_eq_ok.1 h
    obtain ⟨value, -, h⟩ := bind_eq_ok.1 h
    cases h
    unfold evaluation at hv
    obtain ⟨-, -, hv⟩ := bind_eq_ok.1 hv
    obtain ⟨formula, hparse, hv⟩ := bind_eq_ok.1 hv
    exact ⟨element, assembly, formula, v, he, ha, hparse, hv, rfl,
      resultStep assembly v.value, conversionStep assembly v.value value, rfl, rfl, rfl⟩

/-- The record of a quantity is replayed exactly if every type or material that the formula reads is
among the parameters. -/
theorem replays_iff {q : Quantity} (h : Yields settings e a (.ok q)) {start : Start} {ticks : Nat}
    {actor : Actor} {r : Audit.Record}
    (hr : r.unnumbered
      = Engine.recordOf settings.engineVersion start ticks e a actor (.ok q)) :
    ∃ source formula, r.formula = some source ∧
      Formula.parse settings.limits source = .ok formula ∧
      (Replays settings.limits r q.result.raw ↔
        ∀ n ∈ formula.expr.numberNames ++ formula.expr.unitPositions, Formula.IsDerived n →
          r.parameters.contains n = true) := by
  obtain ⟨element, assembly, formula, v, rfl, rfl, hparse, hv, hraw, result, conversion, hresult,
    hconversion, hsteps⟩ := yields_evaluation h
  have hformula : r.formula = some assembly.formula := congrArg Audit.Record.formula hr
  have hparameters : r.parameters = element.bindings.parameters :=
    congrArg Audit.Record.parameters hr
  have hrecorded : r.steps = v.steps ++ [result, conversion] :=
    (congrArg Audit.Record.steps hr).trans hsteps
  have hreplay : replay settings.limits r
      = formula.evaluate settings.limits (.ofParameters element.bindings.parameters) := by
    unfold replay
    rw [hformula, ← hparameters]
    show (Formula.parse settings.limits assembly.formula >>= _) = _
    rw [hparse]
    rfl
  refine ⟨assembly.formula, formula, hformula, hparse, ?_⟩
  rw [hparameters]
  constructor
  · -- A replay that succeeds has found every name, and the derived ones are no constants or units.
    rintro ⟨steps, -, -, h, -⟩
    rw [hreplay] at h
    intro n hn hderived
    exact (Formula.evaluate_reads h).contains hn hderived
  · intro hnames
    have hsame := (Formula.evaluate_ofParameters_iff hv).2 hnames
    refine ⟨v.steps, result, conversion, ?_, hresult, hconversion, hrecorded⟩
    rw [hreplay, hsame, hraw]

end Record

/-! ## The records of a run -/

variable {σ : Type}

/-- A record is that of an attempt, whose quantity, if there is one, was computed for it. -/
def RecordsAttempt (settings : Settings) (r : Audit.Record) : Prop :=
  ∃ start ticks e a actor outcome,
    r.unnumbered = Engine.recordOf settings.engineVersion start ticks e a actor outcome ∧
    ∀ q, outcome = .ok q → Yields settings e a (.ok q)

theorem Settles.records {settings : Settings} {element : Element} {actor : Actor}
    {lost : Option Failure} {attempts : List Attempt} {trials : List Trial}
    (h : Settles settings element actor lost attempts trials)
    (attempted : AreAttempts settings element attempts) (l : Ledger) :
    ∃ new, (l.tried trials).log.records = l.log.records ++ new ∧
      ∀ r ∈ new, RecordsAttempt settings r := by
  obtain ⟨new, hrecords, hnew⟩ := records_tried trials l h.unnumbered
  refine ⟨new, hrecords, ?_⟩
  intro r hr
  have hmem : r.unnumbered ∈ (trials.filter Trial.isAccepted).map Trial.record :=
    hnew ▸ List.mem_map_of_mem hr
  obtain ⟨t, ht, heq⟩ := List.mem_map.1 hmem
  have htrial : t ∈ trials := (List.mem_filter.1 ht).1
  obtain ⟨start, ticks, hrecord⟩ := h.recorded t htrial
  exact ⟨start, ticks, some element, some t.assembly, actor, t.outcome, heq ▸ hrecord,
    fun q hq => h.yields_of_ok attempted htrial hq⟩

section Runs

variable (c : Circumstances σ) (settings : Settings)

/-- A call adds records of attempts to the log. -/
theorem Call.records_perform (call : Call) (w : World σ) :
    ∃ new, (call.perform c settings w).ledger.log.records = w.ledger.log.records ++ new ∧
      ∀ r ∈ new, RecordsAttempt settings r := by
  cases call with
  | calculate e a actor =>
    obtain ⟨t, htaken, hplay⟩ := play_calculate_course c settings e a actor w
    have hworld : Call.perform c settings w (.calculate e a actor)
        = t.world settings e a actor w := congrArg Prod.snd hplay
    rw [hworld]
    cases hrefusal : t.refusal with
    | none =>
      refine ⟨_, t.records_of_accepted settings e a actor w hrefusal, ?_⟩
      intro r hr
      rw [List.mem_singleton.1 hr]
      refine ⟨t.start, t.ticks, e, a, actor, t.outcome, rfl, ?_⟩
      intro q hq
      have hcomputed : t.computed = .ok q := (verdict_eq_ok hq).1
      exact hcomputed ▸ htaken.yields
    | some f =>
      refine ⟨[], ?_, by simp⟩
      rw [t.records_of_refused settings e a actor w hrefusal, List.append_nil]
  | recalculate element catalog actor =>
    have hcall := play_recalculate c settings element catalog actor w
    simp only [Call.perform]
    generalize play ((c.engine settings).recalculate element catalog actor c.stopping) w = result
      at hcall ⊢
    cases hcall with
    | unclassified => exact ⟨[], (List.append_nil _).symm, by simp⟩
    | stopped k attempts trials given state h attempted sub asked settled =>
      exact settled.records attempted w.ledger
    | lost k attempts trials given state f h attempted whole fault settled =>
      exact settled.records attempted w.ledger
    | replaced k attempts trials given state h attempted whole settled =>
      exact settled.records attempted { w.ledger with
        store := w.ledger.store.set element.id (Engine.successes attempts) }

theorem records_run (calls : List Call) (w : World σ) :
    ∃ new, (run c settings calls w).ledger.log.records = w.ledger.log.records ++ new ∧
      ∀ r ∈ new, RecordsAttempt settings r := by
  induction calls generalizing w with
  | nil => exact ⟨[], (List.append_nil _).symm, by simp⟩
  | cons call rest ih =>
    obtain ⟨first, hfirst, hall⟩ := call.records_perform c settings w
    obtain ⟨more, hmore, hrest⟩ := ih (call.perform c settings w)
    refine ⟨first ++ more, ?_, ?_⟩
    · show (run c settings rest (call.perform c settings w)).ledger.log.records = _
      rw [hmore, hfirst, List.append_assoc]
    · intro r hr
      exact (List.mem_append.1 hr).elim (hall r) (hrest r)

/-- The records that a run adds to the log. -/
def recordedBy (calls : List Call) (w : World σ) : List Audit.Record :=
  (run c settings calls w).ledger.log.records.drop w.ledger.log.records.length

/-- Whatever the calls of a run, each record of success that it adds has a formula which is read
again. Evaluated from the parameters of the record alone it has the raw value of the record, and its
steps but for the last two, exactly if every type or material of the element that the formula reads
is among these parameters. -/
theorem success_record_replays (calls : List Call) (w : World σ) (r : Audit.Record)
    (recorded : r ∈ recordedBy c settings calls w) {id : Identifier} {raw value : Float}
    {unit : Measure.Unit} (success : r.outcome = .success id raw value unit) :
    ∃ source formula, r.formula = some source ∧
      Formula.parse settings.limits source = .ok formula ∧
      (Replays settings.limits r raw ↔
        ∀ n ∈ formula.expr.numberNames ++ formula.expr.unitPositions, Formula.IsDerived n →
          r.parameters.contains n = true) := by
  obtain ⟨new, hnew, hall⟩ := records_run c settings calls w
  rw [recordedBy, hnew, List.drop_left] at recorded
  obtain ⟨start, ticks, e, a, actor, outcome, hr, hyields⟩ := hall r recorded
  have houtcome : r.outcome = (Engine.recordedOutcome outcome).1 :=
    congrArg Audit.Record.outcome hr
  rw [success] at houtcome
  cases outcome with
  | error f => cases houtcome
  | ok q =>
    have hraw : raw = q.result.raw := by
      cases houtcome
      rfl
    rw [hraw]
    exact replays_iff (hyields q rfl) hr

end Runs

/-- The record of the sample slab is replayed. -/
theorem sample_record_replays :
    let slab := Command.sampleSlab (.ofNat 3)
    let calls := [.calculate (some slab) (sampleProject.catalog.byCode? "11.2.1") .system]
    ∃ r ∈ recordedBy (.counting []) {} calls (.start 4), ∃ id raw value unit,
      r.outcome = .success id raw value unit ∧ ∃ source formula, r.formula = some source ∧
        Formula.parse (Settings.limits {}) source = .ok formula ∧
        (Replays (Settings.limits {}) r raw ↔
          ∀ n ∈ formula.expr.numberNames ++ formula.expr.unitPositions, Formula.IsDerived n →
            r.parameters.contains n = true) := by
  intro slab calls
  have hsome : (recordedBy (.counting []) {} calls (.start 4)).any Audit.Record.isSuccess = true := by
    decide +kernel
  obtain ⟨r, hr, hsuccess⟩ := List.any_eq_true.1 hsome
  cases houtcome : r.outcome with
  | failure kind message error =>
    rw [Audit.Record.isSuccess, Audit.Record.status, houtcome] at hsuccess
    cases hsuccess
  | success id raw value unit =>
    exact ⟨r, hr, id, raw, value, unit, houtcome, success_record_replays _ _ _ _ r hr houtcome⟩

/-- The material of a slab is read as a number, and the record of success is not replayed. -/
theorem material_not_replayed :
    let slab : Element := { id := .ofNat 3, name := "Slab", material := some "30" }
    let piles : Assembly :=
      { id := .ofNat 4, code := "11.9", name := "Piles", formula := "2 * material", unit := .number }
    let calls := [.calculate (some slab) (some piles) .system]
    ∃ r ∈ recordedBy (.counting []) {} calls (.start 5), r.isSuccess = true ∧
      (replay (Settings.limits {}) r).toOption = none := by
  intro slab piles calls
  have hsome : (recordedBy (.counting []) {} calls (.start 5)).any (fun r =>
      r.isSuccess && (replay (Settings.limits {}) r).toOption.isNone) = true := by
    decide +kernel
  obtain ⟨r, hr, hboth⟩ := List.any_eq_true.1 hsome
  obtain ⟨hsuccess, hnone⟩ := Bool.and_eq_true_iff.1 hboth
  exact ⟨r, hr, hsuccess, Option.isNone_iff_eq_none.1 hnone⟩

end QuantitySurvey.Calculation
