import QuantitySurvey.Proofs.Calculation.Smooth
import QuantitySurvey.Proofs.Work.Stores

/-! # Batches and single calculations

What is computed for an element and an assembly depends on nothing else. A smooth recalculation
therefore comes to what smooth calculations of its assemblies come to, whenever they are made and
whatever else is made; only identifiers and times differ.

* `Yields.undated`: what an attempt comes to, but for its identifier and time.
* `Store.undated_set`: what a batch does to a store, seen in the same way.
* `batch_agrees_with_singles`: recalculations against calculations, against recalculations of the
  same element, and against those of other elements.
-/

set_option autoImplicit false

namespace QuantitySurvey

/-! ## Leaving out identifiers and times -/

/-- A quantity without its identifier and the time of its calculation. -/
def Quantity.undated (q : Quantity) : Quantity :=
  { q with id := .nil, result := { q.result with calculatedAt := default } }

def Store.undated (s : Store) : Store :=
  ⟨s.byElement.mapValues (List.map Quantity.undated)⟩

theorem Store.undated_set (s : Store) (e : Identifier) (qs : List Quantity) :
    (s.set e qs).undated = s.undated.set e (qs.map Quantity.undated) := by
  refine Store.ext_find? fun f => ?_
  have hmap : ∀ t : Store, t.undated.byElement.find? f
      = (t.byElement.find? f).map (List.map Quantity.undated) :=
    fun t => SortedMap.find?_mapValues _ _ f
  by_cases h : f = e
  · rw [hmap, h, Store.find?_set_self, Store.find?_set_self, List.isEmpty_map]
    cases qs.isEmpty <;> rfl
  · rw [hmap, Store.find?_set_of_ne _ _ h, Store.find?_set_of_ne _ _ h, hmap]

namespace Calculation

section Yields

variable (settings : Settings) (element : Element) (a : Assembly)

/-- What an assembly comes to for an element, without identifier and time. -/
def undatedOutcome : Except Failure Quantity :=
  (compute settings (some element) (some a)).map fun r =>
    Quantity.ofResult .nil r.1.id r.2.1.id (r.2.2 default)

variable {settings element a}

theorem compute_result {e' : Element} {a' : Assembly} {result : Instant → CalculationResult}
    (h : compute settings (some element) (some a) = .ok (e', a', result)) :
    ∃ v value, result = resultOf settings.engineVersion e' a' v value := by
  unfold compute at h
  obtain ⟨⟨element', assembly'⟩, -, h⟩ := bind_eq_ok.1 h
  obtain ⟨v, -, h⟩ := bind_eq_ok.1 h
  obtain ⟨value, -, h⟩ := bind_eq_ok.1 h
  cases h
  exact ⟨v, value, rfl⟩

/-- What an attempt comes to is settled by its inputs, but for the identifier and the time. -/
theorem Yields.undated {outcome : Except Failure Quantity}
    (h : Yields settings (some element) (some a) outcome) :
    outcome.map Quantity.undated = undatedOutcome settings element a := by
  cases h with
  | failed h =>
    rw [undatedOutcome, h]
    rfl
  | computed id time h =>
    obtain ⟨v, value, rfl⟩ := compute_result h
    rw [undatedOutcome, h]
    rfl

theorem toOption_undated (outcome : Except Failure Quantity) :
    outcome.toOption.map Quantity.undated = (outcome.map Quantity.undated).toOption := by
  cases outcome <;> rfl

theorem failureOf_undated (outcome : Except Failure Quantity) :
    failureOf a outcome = failureOf a (outcome.map Quantity.undated) := by
  cases outcome <;> rfl

end Yields

/-! ## What a batch comes to -/

section Batch

variable {settings : Settings} {element : Element} {attempts : List Attempt}

theorem successes_undated (h : AreAttempts settings element attempts) :
    (Engine.successes attempts).map Quantity.undated
      = (attempts.map Attempt.assembly).filterMap fun a =>
        (undatedOutcome settings element a).toOption := by
  rw [Engine.successes, List.map_filterMap, List.filterMap_map]
  refine List.filterMap_congr fun t ht => ?_
  rw [toOption_undated, (h t ht).undated]
  rfl

theorem failuresOf_undated (h : AreAttempts settings element attempts) :
    failuresOf attempts = (attempts.map Attempt.assembly).filterMap fun a =>
      failureOf a (undatedOutcome settings element a) := by
  rw [failuresOf, List.filterMap_map]
  refine List.filterMap_congr fun t ht => ?_
  rw [failureOf_undated, (h t ht).undated]
  rfl

/-- A batch sets the list of its element to what is settled by its inputs. -/
theorem IsBatch.store_undated {σ : Type} {assemblies : List Assembly} {w : World σ}
    {result : Except Failure Report × World σ}
    (h : IsBatch settings element assemblies w result attempts) :
    result.2.ledger.store.undated = w.ledger.store.undated.set element.id
      (assemblies.filterMap fun a => (undatedOutcome settings element a).toOption) := by
  rw [h.stored, Store.undated_set, successes_undated h.attempted, h.complete]

end Batch

/-! ## Agreement -/

/-- An outcome is that of some smooth calculation: by whomever, at any time, and in any world. -/
def IsCalculated (settings : Settings) (element : Element) (a : Assembly)
    (outcome : Except Failure Quantity) : Prop :=
  ∃ (σ : Type) (c : Circumstances σ) (actor : Actor) (w : World σ), c.IsSmooth ∧
    (calculation c settings (some element) (some a) actor w).1 = outcome

theorem IsCalculated.undated {settings : Settings} {element : Element} {a : Assembly}
    {outcome : Except Failure Quantity} (h : IsCalculated settings element a outcome) :
    outcome.map Quantity.undated = undatedOutcome settings element a := by
  obtain ⟨σ, c, actor, w, smooth, rfl⟩ := h
  exact (calculation_of_smooth smooth settings actor (some element) (some a) w).1.undated

/-- A report has what single calculations of the assemblies come to, in their order: their
quantities but for identifiers and times, and their failures. -/
structure AgreesWithSingles (settings : Settings) (element : Element) (assemblies : List Assembly)
    (report : Report) (single : Assembly → Except Failure Quantity) : Prop where
  created : report.created.map Quantity.undated
    = assemblies.filterMap fun a => (single a).toOption.map Quantity.undated
  failures : report.failures = assemblies.filterMap fun a => failureOf a (single a)

variable {σ : Type}

/-- A smooth recalculation creates a quantity or reports a failure for each assembly as a smooth
calculation would. Made twice it leaves what it left once, and recalculations of two elements leave
the same in either order, but for identifiers and times. -/
theorem batch_agrees_with_singles (c : Circumstances σ) (smooth : c.IsSmooth) (settings : Settings)
    (w : World σ) (element : Element) (catalog : Catalog) (actor : Actor) {k : String}
    (classified : element.classification = some k) :
    let assemblies := catalog.assembliesFor k
    let result := recalculation c settings w element catalog actor
    (∃ report, result.1 = .ok report ∧ report.cancelled = false ∧
      result.2.ledger.store.forElement element.id = report.created ∧
      ∀ single, (∀ a ∈ assemblies, IsCalculated settings element a (single a)) →
        AgreesWithSingles settings element assemblies report single) ∧
    (∀ actor', (recalculation c settings result.2 element catalog actor').2.ledger.store.undated
      = result.2.ledger.store.undated) ∧
    ∀ other catalog' actor' k', other.classification = some k' → other.id ≠ element.id →
      (recalculation c settings result.2 other catalog' actor').2.ledger.store.undated
        = (recalculation c settings (recalculation c settings w other catalog' actor').2 element
          catalog actor).2.ledger.store.undated := by
  intro assemblies result
  -- what is left in a store does not depend on the world, but for the lists of other elements
  have hstore : ∀ (w : World σ) (e : Element) (catalog : Catalog) (actor : Actor) (k : String),
      e.classification = some k →
      (recalculation c settings w e catalog actor).2.ledger.store.undated
        = w.ledger.store.undated.set e.id ((catalog.assembliesFor k).filterMap fun a =>
          (undatedOutcome settings e a).toOption) := by
    intro w e catalog actor k hk
    obtain ⟨attempts, h⟩ := recalculation_of_smooth smooth settings actor w e catalog hk
    exact h.store_undated
  refine ⟨?_, fun actor' => ?_, fun other catalog' actor' k' hk' hne => ?_⟩
  · obtain ⟨attempts, h⟩ :=
      recalculation_of_smooth smooth settings actor w element catalog classified
    refine ⟨_, h.reported, rfl, ?_, fun single hsingle => ⟨?_, ?_⟩⟩
    · rw [h.stored, Store.forElement_set_self]
    · rw [successes_undated h.attempted, h.complete]
      refine List.filterMap_congr fun a ha => ?_
      rw [toOption_undated, (hsingle a ha).undated]
    · rw [failuresOf_undated h.attempted, h.complete]
      refine List.filterMap_congr fun a ha => ?_
      rw [failureOf_undated (single a), (hsingle a ha).undated]
  · rw [hstore _ _ _ _ _ classified, hstore _ _ _ _ _ classified, Store.set_set]
  · rw [hstore _ _ _ _ _ hk', hstore _ _ _ _ _ classified, hstore _ _ _ _ _ classified,
      hstore _ _ _ _ _ hk', Store.set_comm _ hne.symm]

theorem smooth_counting : (Circumstances.counting []).IsSmooth where
  accepting := by
    intro r s
    cases hcode : r.assemblyCode <;> simp [Circumstances.counting, hcode] <;> rfl
  inserting := fun _ _ => rfl
  replacing := fun _ _ _ => rfl
  unstopped := fun _ _ => rfl

/-- The sample slab is recalculated twice, and before and after a copy of it. -/
theorem sample_batch_agrees :
    let c := Circumstances.counting []
    let slab := Command.sampleSlab (.ofNat 3)
    let copy := { slab with id := .ofNat 9 }
    let catalog := sampleProject.catalog
    let once := recalculation c {} (.start 4) slab catalog .system
    let other := recalculation c {} (.start 4) copy catalog .system
    c.IsSmooth ∧ slab.classification = some "slab" ∧ copy.id ≠ slab.id ∧
    (once.2.ledger.store.forElement slab.id).map Quantity.id = [.ofNat 4, .ofNat 5] ∧
    (∃ report, once.1 = .ok report ∧
      ∀ single, (∀ a ∈ catalog.assembliesFor "slab", IsCalculated {} slab a (single a)) →
        AgreesWithSingles {} slab (catalog.assembliesFor "slab") report single) ∧
    (recalculation c {} once.2 slab catalog .system).2.ledger.store.undated
      = once.2.ledger.store.undated ∧
    (recalculation c {} once.2 copy catalog .system).2.ledger.store.undated
      = (recalculation c {} other.2 slab catalog .system).2.ledger.store.undated := by
  intro c slab copy catalog once other
  have hne : copy.id ≠ slab.id := by decide
  have hstored : (once.2.ledger.store.forElement slab.id).map Quantity.id
      = [.ofNat 4, .ofNat 5] := by
    decide +kernel
  obtain ⟨⟨report, hreport, -, -, hsingles⟩, htwice, hothers⟩ :=
    batch_agrees_with_singles c smooth_counting {} (.start 4) slab catalog .system (k := "slab")
      rfl
  refine ⟨smooth_counting, rfl, hne, hstored, ⟨report, hreport, hsingles⟩, ?_, ?_⟩
  · simpa only [once] using htwice .system
  · simpa only [once, other] using hothers copy catalog .system "slab" rfl hne

end Calculation

end QuantitySurvey
