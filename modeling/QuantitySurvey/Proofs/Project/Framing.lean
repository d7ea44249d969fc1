import QuantitySurvey.Proofs.Calculation.Smooth
import QuantitySurvey.Proofs.Project.Calculating
import QuantitySurvey.Proofs.Work.Stores

/-! # What calculations in a project leave alone

The engine of a project works on a ledger that is made of the project and goes back to it. Its log
takes every record and its store does not fail, so it runs as smoothly as in a world where nothing
else may go wrong: `onDisk` carries over what is known of that.

* `running_eq`: a run in a project is a run in such a world.
* `calculate_framed`, `recalculate_framed`: what is the same in the project afterwards, and what was
  added to it.
-/

set_option autoImplicit false

namespace QuantitySurvey

namespace Calculation

variable {σ δ α : Type} (settings : Settings) (surroundings : Surroundings (StateM σ))

/-! ## Runs in a project -/

def Circumstances.trusting : Circumstances σ where
  surroundings := surroundings
  refusal? := fun _ => pure none
  insertFault? := fun _ => pure none
  replaceFault? := fun _ _ => pure none
  stop := fun _ => pure false

theorem smooth_trusting : (Circumstances.trusting surroundings).IsSmooth :=
  ⟨fun _ _ => rfl, fun _ _ => rfl, fun _ _ _ => rfl, fun _ _ => rfl⟩

/-- A run over a ledger comes to what it comes to in a world, and leaves everything else alone. -/
def onDisk (δ σ : Type) : Correspondence (StateT Ledger (StateT δ (StateM σ))) (Play σ) where
  Holds x y := ∀ (w : World σ) (d : δ), ((x.run w.ledger).run d).run w.history.state
    = ((((play y w).1, (play y w).2.ledger), d), (play y w).2.history.state)
  pure := fun _ _ _ => rfl
  bind := by
    intro α β x y f g hx hf w d
    have hbind : (((x >>= f).run w.ledger).run d).run w.history.state
        = (fun r : ((α × Ledger) × δ) × σ => (((f r.1.1.1).run r.1.1.2).run r.1.2).run r.2)
          (((x.run w.ledger).run d).run w.history.state) := rfl
    rw [hbind, hx w d]
    exact hf _ _ _

theorem alike_onDisk : Alike (onDisk δ σ) (engineOn settings surroundings δ)
    ((Circumstances.trusting surroundings).engine settings) where
  settings := rfl
  now := fun _ _ => rfl
  ticks := fun _ _ => rfl
  freshId := fun _ _ => rfl
  record := fun _ _ _ => rfl
  insert := fun _ _ _ => rfl
  replaceFor := by
    intro e qs
    have hledger : (onDisk δ σ).Holds (Keeper.inLedger.replaceFor e qs)
        (Keeper.inLedger.replaceFor e qs) := by
      refine (onDisk δ σ).bind (x := get) (y := get) (fun _ _ => rfl) fun l => ?_
      cases l.store.replaceFor e qs with
      | ok store => exact fun _ _ => rfl
      | error f => exact (onDisk δ σ).pure _
    exact fun w d => hledger w d
  remove := fun _ _ _ _ => rfl

/-- A ledger takes up a quantity of an element at the end of its list. -/
theorem Ledger.holding_framed {l : Ledger} (grouped : l.store.IsGrouped)
    {outcome : Except Failure Quantity} {own : Identifier}
    (howner : ∀ q, outcome = .ok q → q.elementId = own) :
    (l.holding outcome).store.IsGrouped ∧
    (l.holding outcome).store.forElement own
      = l.store.forElement own ++ outcome.toOption.toList ∧
    ∀ x, x ≠ own → (l.holding outcome).store.forElement x = l.store.forElement x := by
  cases outcome with
  | error f => exact ⟨grouped, (List.append_nil _).symm, fun _ _ => rfl⟩
  | ok q =>
    obtain rfl := howner q rfl
    exact ⟨grouped.insert q, Store.forElement_insert_self _ q,
      fun x hx => Store.forElement_insert_of_ne _ q hx⟩

theorem recalculation_of_unclassified (c : Circumstances σ) (w : World σ) {element : Element}
    (catalog : Catalog) (actor : Actor) (h : element.classification = none) :
    recalculation c settings w element catalog actor
      = (.error (.missingInput "classification"), w) := by
  rw [recalculation, Engine.recalculate, h]
  rfl

end Calculation

namespace Project

open Calculation

variable {σ δ α : Type} (settings : Settings) (surroundings : Surroundings (StateM σ))

def world (p : Project) (s : σ) : World σ := ⟨p.ledger, { state := s }⟩

theorem running_eq (p : Project) (run : Engine (StateT Ledger (StateT δ (StateM σ))) →
    StateT Ledger (StateT δ (StateM σ)) α) {y : Play σ α}
    (h : (onDisk δ σ).Holds (run (engineOn settings surroundings δ)) y) (d : δ) (s : σ) :
    ∃ now s', ((p.running settings surroundings.lift run).run d).run s
      = ((((play y (p.world s)).1, p.withLedger (play y (p.world s)).2.ledger now), d), s') := by
  have hrun := h (p.world s) d
  have hrunning : ((p.running settings surroundings.lift run).run d).run s
      = (fun r : ((α × Ledger) × δ) × σ =>
        (((r.1.1.1, p.withLedger r.1.1.2 (surroundings.now.run r.2).1), r.1.2),
          (surroundings.now.run r.2).2))
        ((((run (engineOn settings surroundings δ)).run p.ledger).run d).run s) := rfl
  have hsame : (((run (engineOn settings surroundings δ)).run p.ledger).run d).run s
      = ((((play y (p.world s)).1, (play y (p.world s)).2.ledger), d),
        (play y (p.world s)).2.history.state) := hrun
  rw [hrunning, hsame]
  exact ⟨_, _, rfl⟩

/-! ## What stays -/

/-- What is the same in a project after a run of the engine: everything but the time of the last
change, the quantities of one element, and records that were added at the end. -/
structure IsFramed (p q : Project) (own : Option Identifier) (recorded : Nat) : Prop where
  info : q.info = { p.info with modified := q.info.modified }
  preferences : q.preferences = p.preferences
  catalog : q.catalog = p.catalog
  elements : q.elements = p.elements
  trail : ∃ new, q.auditTrail = p.auditTrail ++ new ∧ new.length = recorded
  others : ∀ x, own ≠ some x → q.quantitiesFor x = p.quantitiesFor x

theorem isFramed_refl (p : Project) : IsFramed p p none 0 where
  info := rfl
  preferences := rfl
  catalog := rfl
  elements := rfl
  trail := ⟨[], (List.append_nil _).symm, rfl⟩
  others := fun _ _ => rfl

section Ledgers

variable (p : Project) {l : Ledger} (grouped : l.store.IsGrouped) (now : Instant)

theorem forElement_ledger (x : Identifier) :
    p.ledger.store.forElement x = p.quantitiesFor x :=
  Store.forElement_ofList p.quantities x

theorem isGrouped_ledger : p.ledger.store.IsGrouped := Store.isGrouped_ofList p.quantities

include grouped

theorem quantitiesFor_withLedger (x : Identifier) :
    (p.withLedger l now).quantitiesFor x = l.store.forElement x :=
  grouped.filter_all x

/-- The project takes up what a ledger has: records after those it had, and the quantities of one
element. -/
theorem isFramed_withLedger {own : Option Identifier} {recorded : Nat}
    (trail : ∃ new, l.log.records = p.auditTrail ++ new ∧ new.length = recorded)
    (others : ∀ x, own ≠ some x → l.store.forElement x = p.ledger.store.forElement x) :
    IsFramed p (p.withLedger l now) own recorded where
  info := rfl
  preferences := rfl
  catalog := rfl
  elements := rfl
  trail := trail
  others := by
    intro x hx
    rw [quantitiesFor_withLedger p grouped, others x hx, forElement_ledger]

end Ledgers

/-! ## Calculations -/

section Calculations

variable (p : Project) (e : Element) (actor : Actor) (d : δ) (s : σ)

/-- A calculation adds one record, and its quantity at the end of the list of its element. -/
theorem calculate_framed (a : Assembly) :
    let r := ((p.calculate settings surroundings.lift e a actor).run d).run s
    r.1.2 = d ∧ IsFramed p r.1.1.2 (some e.id) 1 ∧
      r.1.1.2.quantitiesFor e.id = p.quantitiesFor e.id ++ r.1.1.1.toOption.toList := by
  intro r
  let c := Circumstances.trusting surroundings
  obtain ⟨now, s', hrun⟩ := running_eq settings surroundings p
    (fun engine => engine.calculate (some e) (some a) actor)
    ((alike_onDisk settings surroundings).calculate (some e) (some a) actor) d s
  obtain ⟨hyields, hstore, record, hrecords⟩ := calculation_of_smooth
    (smooth_trusting surroundings) settings actor (some e) (some a) (p.world s)
  have hr : r = ((((calculation c settings (some e) (some a) actor (p.world s)).1,
      p.withLedger (calculation c settings (some e) (some a) actor (p.world s)).2.ledger now), d),
        s') := hrun
  generalize calculation c settings (some e) (some a) actor (p.world s) = result
    at hr hyields hstore hrecords
  have howner : ∀ q, result.1 = .ok q → q.elementId = e.id := by
    intro q hq
    rw [hq] at hyields
    exact (Option.some.inj hyields.owner.1).symm
  obtain ⟨hgrouped, hown, hothers⟩ := Ledger.holding_framed (isGrouped_ledger p) howner
  have hledger : (p.world s).ledger = p.ledger := rfl
  rw [hledger] at hstore hrecords
  rw [← hstore] at hgrouped hown hothers
  rw [hr]
  refine ⟨rfl, isFramed_withLedger p hgrouped now ⟨[record], hrecords, rfl⟩ ?_, ?_⟩
  · exact fun x hx => hothers x fun h => hx (congrArg some h.symm)
  · rw [quantitiesFor_withLedger p hgrouped, hown, forElement_ledger]

/-- A recalculation adds a record for each assembly of the classification of its element, and
nothing if that has none. -/
theorem recalculate_framed :
    let r := ((p.recalculate settings surroundings.lift e actor).run d).run s
    r.1.2 = d ∧ IsFramed p r.1.1.2 (some e.id)
      (e.classification.elim 0 fun k => (p.catalog.assembliesFor k).length) := by
  intro r
  let c := Circumstances.trusting surroundings
  have hstop : ∀ k, (onDisk δ σ).Holds (pure false) (c.stopping k) := fun _ _ _ => rfl
  obtain ⟨now, s', hrun⟩ := running_eq settings surroundings p
    (fun engine => engine.recalculate e p.catalog actor)
    ((alike_onDisk settings surroundings).recalculate hstop e p.catalog actor) d s
  have hr : r = ((((recalculation c settings (p.world s) e p.catalog actor).1,
      p.withLedger (recalculation c settings (p.world s) e p.catalog actor).2.ledger now), d),
        s') := hrun
  rw [hr]
  refine ⟨rfl, ?_⟩
  have hledger : (p.world s).ledger = p.ledger := rfl
  cases hk : e.classification with
  | none =>
    rw [recalculation_of_unclassified settings c _ _ _ hk]
    exact isFramed_withLedger p (isGrouped_ledger p) now ⟨[], (List.append_nil _).symm, rfl⟩
      fun _ _ => rfl
  | some k =>
    obtain ⟨attempts, h⟩ := recalculation_of_smooth (smooth_trusting surroundings) settings actor
      (p.world s) e p.catalog hk
    have hstore := h.stored
    obtain ⟨new, hrecords, hcount⟩ := h.logged
    have hlength : new.length = (p.catalog.assembliesFor k).length := by
      rw [hcount, ← h.complete, List.length_map]
    rw [hledger] at hstore
    refine isFramed_withLedger p ?_ now ⟨new, hrecords, hlength⟩ fun x hx => ?_
    · rw [hstore]
      exact (isGrouped_ledger p).set (successes_owner settings e h.attempted)
    · rw [hstore]
      exact Store.forElement_set_of_ne _ _ fun h => hx (congrArg some h.symm)

end Calculations

end Project

end QuantitySurvey
