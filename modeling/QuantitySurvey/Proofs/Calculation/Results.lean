import QuantitySurvey.Proofs.Calculation.Custody
import QuantitySurvey.Proofs.Calculation.Course
import QuantitySurvey.Proofs.Formula.CanonicalText
import QuantitySurvey.Proofs.Parameter.Validation

/-! # Results

What a calculation computes is settled by element, assembly and settings: it comes to a quantity
exactly if nothing stands in its way, and the quantity has the value of the formula, its conversion,
its trace and its warnings. Store and log may keep a quantity out, but they never change one.

* `IsReady`: nothing stands in the way of an attempt.
* `compute_eq_ok_iff`: what is computed, and when.
* `IsWellFormed`: a quantity has what was computed.
* `quantities_well_formed`: attempts, calculations and batches.
-/

set_option autoImplicit false

namespace QuantitySurvey

/-! ## Formulas with something in them -/

namespace Formula

/-- What starts a token is not blank. -/
theorem isBlank_of_ofSymbol? {c : Char} {t : Token} (h : Token.ofSymbol? c = some t) :
    Text.isBlank c = false := by
  have hall : (['+', '-', '*', '/', '(', ')', ','].all fun c => !Text.isBlank c) = true := by
    decide
  simpa using List.all_eq_true.1 hall c (ofSymbol?_eq_some h).1

theorem Spelled.exists_not_isBlank {t : Token} {ts : List Token} {cs : List Char}
    (h : Spelled (t :: ts) cs) : ∃ c ∈ cs, Text.isBlank c = false := by
  generalize hall : t :: ts = all at h
  induction h with
  | nil => cases hall
  | blank hblank more ih =>
    obtain ⟨c, hc, hnot⟩ := ih hall
    exact ⟨c, List.mem_cons_of_mem _ hc, hnot⟩
  | symbol hsymbol more => exact ⟨_, List.mem_cons_self, isBlank_of_ofSymbol? hsymbol⟩
  | number starts cut value more => exact ⟨_, List.mem_cons_self, isBlank_of_isNumberChar starts⟩
  | name starts more =>
    exact ⟨_, List.mem_cons_self, isBlank_of_isNameChar (isNameChar_of_isNameStart starts)⟩

/-- A text that was read as a formula is not blank. -/
theorem not_allBlank_of_parse {limits : Limits} {source : String} {formula : Formula}
    (parsed : Formula.parse limits source = .ok formula) : Text.allBlank source = false := by
  obtain ⟨-, -, s, hclean, hs, -, -⟩ := parse_eq_ok_iff.1 parsed
  obtain ⟨t, rest, htokens, -⟩ := hs.head
  obtain ⟨c, hc, hnot⟩ := Spelled.exists_not_isBlank (htokens ▸ hclean.spelled)
  rw [Text.allBlank, List.all_eq_false]
  exact ⟨c, hc, by simp [hnot]⟩

end Formula

/-! ## Conversions -/

/-- Values are converted within a family, and nowhere else. -/
theorem Measure.exists_convert_iff {x : Float} {source target : Measure.Unit} :
    (∃ value, Measure.convert x source target = .ok value) ↔ source.family = target.family := by
  unfold Measure.convert
  by_cases hsame : source = target
  · simp [hsame]
  · by_cases hfamily : source.family = target.family
    · simp [hsame, hfamily]
    · simp [hsame, hfamily]

namespace Calculation

variable {settings : Settings} {e : Element} {a : Assembly}

/-! ## What is computed -/

/-- Nothing stands in the way of an attempt: what is required is supplied, what is supplied passes
its declarations, the formula is read and comes to a finite value, and that value has a finite
counterpart in the unit of the assembly. -/
structure IsReady (settings : Settings) (e : Element) (a : Assembly) (formula : Formula)
    (v : Formula.Evaluation) : Prop where
  supplied : ∀ n ∈ a.schema.required, e.parameters.contains n = true
  passed : ∀ spec ∈ a.schema.properties, ∀ x, e.parameters.find? spec.name = some x →
    spec.check x = .ok ()
  parsed : Formula.parse settings.limits a.formula = .ok formula
  evaluated : formula.evaluate settings.limits e.bindings = .ok v
  finite : v.value.isFinite = true
  family : a.sourceUnit.family = a.unit.family
  converted : ∀ value, Measure.convert v.value a.sourceUnit a.unit = .ok value →
    value.isFinite = true

def Ready (settings : Settings) (e : Element) (a : Assembly) : Prop :=
  ∃ formula v, IsReady settings e a formula v

theorem inputs_eq_ok_iff {r : Element × Assembly} :
    inputs (some e) (some a) = .ok r ↔ Text.allBlank a.formula = false ∧ r = (e, a) := by
  simp only [inputs]
  cases Text.allBlank a.formula <;> simp [eq_comm]

theorem evaluation_eq_ok_iff {limits : Formula.Limits} {v : Formula.Evaluation} :
    evaluation limits e a = .ok v ↔ a.schema.validate e.parameters = .ok () ∧
      ∃ formula, Formula.parse limits a.formula = .ok formula ∧
        formula.evaluate limits e.bindings = .ok v := by
  unfold evaluation
  simp only [bind_eq_ok]
  exact ⟨fun ⟨_, hvalid, h⟩ => ⟨hvalid, h⟩, fun ⟨hvalid, h⟩ => ⟨(), hvalid, h⟩⟩

theorem standardized_eq_ok_iff {raw value : Float} :
    standardized a raw = .ok value ↔ raw.isFinite = true ∧
      Measure.convert raw a.sourceUnit a.unit = .ok value ∧ value.isFinite = true := by
  unfold standardized
  cases hraw : raw.isFinite with
  | false => simp [bind, Except.bind, throw, throwThe, MonadExceptOf.throw]
  | true =>
    cases hconvert : Measure.convert raw a.sourceUnit a.unit with
    | error f => simp [bind, Except.bind]
    | ok x =>
      cases hx : x.isFinite with
      | false =>
        simp only [bind, Except.bind, pure, Except.pure, throw, throwThe, MonadExceptOf.throw,
          Bool.not_true, Bool.not_false, Bool.false_eq_true, if_false, if_true, hx, reduceCtorEq,
          Except.ok.injEq, true_and, false_iff]
        rintro ⟨rfl, hfinite⟩
        rw [hx] at hfinite
        cases hfinite
      | true =>
        simp only [bind, Except.bind, pure, Except.pure, Bool.not_true, Bool.false_eq_true,
          if_false, hx, Except.ok.injEq, true_and]
        exact ⟨fun h => ⟨h, h ▸ hx⟩, fun h => h.1⟩

/-- A result is computed exactly for an element and an assembly that are ready. -/
theorem compute_eq_ok_iff {r : Element × Assembly × (Instant → CalculationResult)} :
    compute settings (some e) (some a) = .ok r ↔
      ∃ formula v value, IsReady settings e a formula v ∧
        Measure.convert v.value a.sourceUnit a.unit = .ok value ∧
        r = (e, a, resultOf settings.engineVersion e a v value) := by
  unfold compute
  constructor
  · intro h
    obtain ⟨p, hinputs, h⟩ := bind_eq_ok.1 h
    obtain ⟨-, rfl⟩ := inputs_eq_ok_iff.1 hinputs
    obtain ⟨v, hv, h⟩ := bind_eq_ok.1 h
    obtain ⟨value, hvalue, h⟩ := bind_eq_ok.1 h
    obtain ⟨hvalid, formula, hparse, heval⟩ := evaluation_eq_ok_iff.1 hv
    obtain ⟨hsupplied, hpassed⟩ := Parameter.Schema.validate_eq_ok_iff.1 hvalid
    obtain ⟨hraw, hconvert, hfinite⟩ := standardized_eq_ok_iff.1 hvalue
    cases h
    refine ⟨formula, v, value, ?_, hconvert, rfl⟩
    exact {
      supplied := hsupplied
      passed := hpassed
      parsed := hparse
      evaluated := heval
      finite := hraw
      family := Measure.exists_convert_iff.1 ⟨value, hconvert⟩
      converted := by
        intro value' h'
        cases hconvert.symm.trans h'
        exact hfinite }
  · rintro ⟨formula, v, value, ready, hconvert, rfl⟩
    -- The engine asks for a formula that is not blank; one that parses never is.
    have hinputs : inputs (some e) (some a) = .ok (e, a) :=
      inputs_eq_ok_iff.2 ⟨Formula.not_allBlank_of_parse ready.parsed, rfl⟩
    have hvalid := Parameter.Schema.validate_eq_ok_iff.2 ⟨ready.supplied, ready.passed⟩
    have hv : evaluation settings.limits e a = .ok v :=
      evaluation_eq_ok_iff.2 ⟨hvalid, formula, ready.parsed, ready.evaluated⟩
    have hvalue : standardized a v.value = .ok value :=
      standardized_eq_ok_iff.2 ⟨ready.finite, hconvert, ready.converted value hconvert⟩
    refine bind_eq_ok.2 ⟨_, hinputs, bind_eq_ok.2 ⟨v, hv, bind_eq_ok.2 ⟨value, hvalue, rfl⟩⟩⟩

theorem exists_compute_iff :
    (∃ r, compute settings (some e) (some a) = .ok r) ↔ Ready settings e a := by
  constructor
  · rintro ⟨r, h⟩
    obtain ⟨formula, v, value, ready, -⟩ := compute_eq_ok_iff.1 h
    exact ⟨formula, v, ready⟩
  · rintro ⟨formula, v, ready⟩
    obtain ⟨value, hconvert⟩ := Measure.exists_convert_iff.2 ready.family
    exact ⟨_, compute_eq_ok_iff.2 ⟨formula, v, value, ready, hconvert, rfl⟩⟩

/-! ## Quantities -/

/-- A quantity has what was computed for an element and an assembly: the value of the formula and
its conversion, both finite, a warning if the value is negative, the parameters, and the trace of the
evaluation with a step for the result and one for its conversion behind it. -/
structure IsWellFormed (settings : Settings) (e : Element) (a : Assembly) (formula : Formula)
    (trace : List Formula.Step) (q : Quantity) : Prop where
  element : q.elementId = e.id
  assembly : q.assemblyId = a.id
  parsed : Formula.parse settings.limits a.formula = .ok formula
  evaluated : formula.evaluate settings.limits e.bindings = .ok ⟨q.result.raw, trace⟩
  rawFinite : q.result.raw.isFinite = true
  converted : Measure.convert q.result.raw a.sourceUnit a.unit = .ok q.result.standardized
  value : q.value = q.result.standardized
  valueFinite : q.value.isFinite = true
  unit : q.unit = a.unit ∧ q.result.unit = a.unit
  warnings : q.warnings = (if q.result.raw < 0 then [.negative q.result.raw] else []) ∧
    q.result.warnings = q.warnings
  formulaText : q.result.formula = a.formula
  parameters : q.result.parameters = e.parameters
  steps : ∃ expression, q.result.steps = trace ++
    [{ kind := .result, expression := formula.source, value := q.result.raw,
       unit := some a.sourceUnit },
     { kind := .unitConversion, expression := expression, value := q.result.standardized,
       unit := some a.unit,
       detail := if a.sourceUnit = a.unit then some "identity" else none }]

def WellFormed (settings : Settings) (e : Element) (a : Assembly) (q : Quantity) : Prop :=
  ∃ formula trace, IsWellFormed settings e a formula trace q

theorem wellFormed_ofResult {formula : Formula} {v : Formula.Evaluation} {value : Float}
    (ready : IsReady settings e a formula v)
    (hconvert : Measure.convert v.value a.sourceUnit a.unit = .ok value) (id : Identifier)
    (time : Instant) : IsWellFormed settings e a formula v.steps
      (Quantity.ofResult id e.id a.id (resultOf settings.engineVersion e a v value time)) where
  element := rfl
  assembly := rfl
  parsed := ready.parsed
  evaluated := ready.evaluated
  rawFinite := ready.finite
  converted := hconvert
  value := rfl
  valueFinite := ready.converted value hconvert
  unit := ⟨rfl, rfl⟩
  warnings := ⟨rfl, rfl⟩
  formulaText := rfl
  parameters := rfl
  steps := by
    have hsource : formula.source = a.formula := (Formula.parse_eq_ok_iff.1 ready.parsed).1
    rw [hsource]
    exact ⟨_, rfl⟩

theorem Yields.wellFormed {q : Quantity} (h : Yields settings (some e) (some a) (.ok q)) :
    WellFormed settings e a q := by
  cases h with
  | computed id time h =>
    obtain ⟨formula, v, value, ready, hconvert, heq⟩ := compute_eq_ok_iff.1 h
    cases heq
    exact ⟨formula, v.steps, wellFormed_ofResult ready hconvert id time⟩

theorem Yields.exists_of_ready {outcome : Except Failure Quantity}
    (h : Yields settings (some e) (some a) outcome) (ready : Ready settings e a) :
    ∃ q, outcome = .ok q ∧ WellFormed settings e a q := by
  cases h with
  | failed h =>
    obtain ⟨r, hr⟩ := exists_compute_iff.2 ready
    rw [h] at hr
    cases hr
  | computed id time h => exact ⟨_, rfl, Yields.wellFormed (.computed id time h)⟩

theorem Yields.ready {q : Quantity} (h : Yields settings (some e) (some a) (.ok q)) :
    Ready settings e a := by
  cases h with
  | computed id time h => exact exists_compute_iff.1 ⟨_, h⟩

/-! ## Attempts, calculations and batches -/

variable {σ : Type}

/-- The log refused a record with a failure after one world and before another. -/
def RefusedSince (w w' : World σ) (f : Failure) : Prop :=
  ∃ r, (r, some f) ∈ w'.history.offers.drop w.history.offers.length

/-- What is attempted comes to a quantity exactly if it is ready, and then to a well formed one. -/
structure AttemptIsExact (settings : Settings) (e : Element) (a : Assembly)
    (outcome : Except Failure Quantity) : Prop where
  wellFormed : ∀ q, outcome = .ok q → WellFormed settings e a q
  succeeds_iff : (∃ q, outcome = .ok q) ↔ Ready settings e a

/-- A calculation returns well formed quantities only, and for what is ready it returns one, unless
the store had a fault or the log refused. -/
structure CalculationIsExact (c : Circumstances σ) (settings : Settings) (e : Element)
    (a : Assembly) (w : World σ) (result : Except Failure Quantity × World σ) : Prop where
  wellFormed : ∀ q, result.1 = .ok q → WellFormed settings e a q
  succeeds : Ready settings e a → (∃ q, result.1 = .ok q) ∨
    ∃ f, result.1 = .error f ∧
      ((∃ q s, WellFormed settings e a q ∧ (c.insertFault? q s).1 = some f) ∨
        RefusedSince w result.2 f)

/-- The report of a batch has well formed quantities only, each for an assembly of the batch. If the
batch was stored, there is one for every assembly that is ready, unless the log refused. -/
structure BatchIsExact (settings : Settings) (e : Element) (assemblies : List Assembly)
    (w w' : World σ) (report : Report) : Prop where
  wellFormed : ∀ q ∈ report.created, ∃ a ∈ assemblies, WellFormed settings e a q
  succeeds : report.cancelled = false → ∀ a ∈ assemblies, Ready settings e a →
    (∃ q ∈ report.created, WellFormed settings e a q) ∨
    ∃ f, ⟨a.id, a.code, f⟩ ∈ report.failures ∧ RefusedSince w w' f

section Engine

variable (c : Circumstances σ) (settings : Settings) (w : World σ) (e : Element) (actor : Actor)

theorem attempt_isExact (a : Assembly) : AttemptIsExact settings e a
    (play ((c.engine settings).attempt (some e) (some a)) w).1.2 := by
  obtain ⟨start, outcome, state, hyields, hplay⟩ := play_attempt c settings w (some e) (some a)
  rw [hplay]
  show AttemptIsExact settings e a outcome
  constructor
  · rintro q rfl
    exact hyields.wellFormed
  · constructor
    · rintro ⟨q, rfl⟩
      exact hyields.ready
    · intro ready
      exact (hyields.exists_of_ready ready).imp fun q hq => hq.1

theorem calculation_isExact (a : Assembly) : CalculationIsExact c settings e a w
    (calculation c settings (some e) (some a) actor w) := by
  obtain ⟨t, htaken, hplay⟩ := play_calculate_course c settings (some e) (some a) actor w
  have hoffers : (t.world settings (some e) (some a) actor w).history.offers
      = w.history.offers ++ [(t.record settings (some e) (some a) actor, t.refusal)] := rfl
  rw [hplay]
  constructor
  · intro q hq
    have hcomputed : t.computed = .ok q := (verdict_eq_ok (verdict_eq_ok hq).1).1
    exact (hcomputed ▸ htaken.yields).wellFormed
  · intro ready
    obtain ⟨q, hcomputed, hwell⟩ := htaken.yields.exists_of_ready ready
    cases hfault : t.fault with
    | some f =>
      have hreported : t.reported = .error f := by
        simp [Course.reported, Course.outcome, hcomputed, hfault]
      exact .inr ⟨f, hreported, .inl ⟨q, _, hwell, (htaken.stored q hcomputed).trans hfault⟩⟩
    | none =>
      cases hrefusal : t.refusal with
      | none =>
        have hreported : t.reported = .ok q := by
          simp [Course.reported, Course.outcome, hcomputed, hfault, hrefusal]
        exact .inl ⟨q, hreported⟩
      | some f =>
        have hreported : t.reported = .error f := by
          simp [Course.reported, Course.outcome, hcomputed, hfault, hrefusal]
        refine .inr ⟨f, hreported, .inr ⟨t.record settings (some e) (some a) actor, ?_⟩⟩
        rw [hoffers, hrefusal, List.drop_left]
        exact List.mem_singleton_self _

variable {settings e actor} in
/-- The trials of a batch that was stored. -/
theorem batchIsExact_of_settles {attempts : List Attempt} {trials : List Trial}
    (settled : Settles settings e actor none attempts trials)
    (attempted : AreAttempts settings e attempts) {w' : World σ}
    (hoffers : w'.history.offers = w.history.offers ++ trials.map Trial.offer) :
    BatchIsExact settings e (trials.map Trial.assembly) w w'
      ⟨e.id, trials.filterMap Trial.created?, trials.filterMap Trial.failure?, false⟩ := by
  constructor
  · intro q hq
    obtain ⟨t, ht, hcreated⟩ := List.mem_filterMap.1 hq
    have houtcome : t.outcome = .ok q := (verdict_eq_ok (toOption_eq_some.1 hcreated)).1
    exact ⟨t.assembly, List.mem_map_of_mem ht,
      (settled.yields_of_ok attempted ht houtcome).wellFormed⟩
  · intro _ a ha ready
    obtain ⟨t, ht, rfl⟩ := List.mem_map.1 ha
    obtain ⟨q, houtcome, hwell⟩ := (settled.yields attempted t ht).exists_of_ready ready
    cases hrefusal : t.refusal with
    | none =>
      refine .inl ⟨q, List.mem_filterMap.2 ⟨t, ht, ?_⟩, hwell⟩
      simp [Trial.created?, Trial.reported, houtcome, hrefusal, Except.toOption]
    | some f =>
      refine .inr ⟨f, List.mem_filterMap.2 ⟨t, ht, ?_⟩, t.record, ?_⟩
      · simp [Trial.failure?, Trial.reported, houtcome, hrefusal]
      · rw [hoffers, List.drop_left, ← hrefusal]
        exact List.mem_map_of_mem (f := Trial.offer) ht

theorem recalculation_isExact (catalog : Catalog) {k : String}
    (classified : e.classification = some k) {report : Report}
    (hreport : (recalculation c settings w e catalog actor).1 = .ok report) :
    BatchIsExact settings e (catalog.assembliesFor k) w
      (recalculation c settings w e catalog actor).2 report := by
  have h : Recalculated c settings e catalog actor w
      (recalculation c settings w e catalog actor) :=
    play_recalculate c settings e catalog actor w
  generalize recalculation c settings w e catalog actor = result at h hreport ⊢
  cases h with
  | unclassified h => cases hreport
  | lost k' attempts trials given state f h attempted whole fault settled => cases hreport
  | stopped k' attempts trials given state h attempted sub asked settled =>
    cases hreport
    exact ⟨by simp, by simp⟩
  | replaced k' attempts trials given state h attempted whole settled =>
    have hk : k' = k := by simpa [h] using classified
    subst hk
    cases hreport
    rw [← whole, ← settled.assemblies]
    exact batchIsExact_of_settles w settled attempted rfl

/-- Every attempt, calculation and batch gives well formed quantities, and gives one wherever nothing
stands in the way but the store and the log. -/
theorem quantities_well_formed :
    (∀ a, AttemptIsExact settings e a
      (play ((c.engine settings).attempt (some e) (some a)) w).1.2) ∧
    (∀ a, CalculationIsExact c settings e a w
      (calculation c settings (some e) (some a) actor w)) ∧
    ∀ (catalog : Catalog) (k : String) (report : Report), e.classification = some k →
      (recalculation c settings w e catalog actor).1 = .ok report →
      BatchIsExact settings e (catalog.assembliesFor k) w
        (recalculation c settings w e catalog actor).2 report :=
  ⟨attempt_isExact c settings w e, calculation_isExact c settings w e actor,
    fun catalog _ _ classified hreport =>
      recalculation_isExact c settings w e actor catalog classified hreport⟩

end Engine

/-- The sample slab is eight metres shorter than a recess, which gives a warning. Its batch is
reported, although the log refuses one of the records. -/
theorem sample_quantities_well_formed :
    let c := Circumstances.counting ["11.2.2"]
    let slab := Command.sampleSlab (.ofNat 3)
    let recess : Assembly :=
      { id := .ofNat 9, code := "11.3", name := "Recess", formula := "length - 20",
        unit := .millimetre, formulaUnit := some .metre }
    let batch := recalculation c {} (.start 4) slab sampleProject.catalog .system
    (∃ q, (calculation c {} (some slab) (some recess) .system (.start 4)).1 = .ok q ∧
      (q.value = -8000 ∧ q.warnings = [.negative (-8)]) ∧ WellFormed {} slab recess q) ∧
    Ready {} slab recess ∧ slab.classification = some "slab" ∧
    ∃ report, batch.1 = .ok report ∧ report.created.length = 1 ∧
      BatchIsExact {} slab (sampleProject.catalog.assembliesFor "slab") (.start 4) batch.2
        report := by
  intro c slab recess batch
  obtain ⟨hattempt, hcalculation, hbatch⟩ := quantities_well_formed c {} (.start 4) slab .system
  obtain ⟨q, hq, hvalues⟩ : ∃ q,
      (calculation c {} (some slab) (some recess) .system (.start 4)).1 = .ok q ∧
        decide (q.value = -8000 ∧ q.warnings = [.negative (-8)]) = true :=
    exists_ok_of_any (by decide +kernel)
  obtain ⟨p, hp, -⟩ : ∃ p, (play ((c.engine {}).attempt (some slab) (some recess))
      (.start 4)).1.2 = .ok p ∧ true = true :=
    exists_ok_of_any (by decide +kernel)
  obtain ⟨report, hreport, hcreated⟩ : ∃ report, batch.1 = .ok report ∧
      decide (report.created.length = 1) = true :=
    exists_ok_of_any (by decide +kernel)
  exact ⟨⟨q, hq, of_decide_eq_true hvalues, (hcalculation recess).wellFormed q hq⟩,
    (hattempt recess).succeeds_iff.1 ⟨p, hp⟩, rfl, report, hreport, of_decide_eq_true hcreated,
    hbatch _ _ report rfl hreport⟩

end Calculation

end QuantitySurvey
