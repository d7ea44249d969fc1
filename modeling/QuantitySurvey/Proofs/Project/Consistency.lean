import QuantitySurvey.Proofs.Audit.Ascending
import QuantitySurvey.Proofs.Calculation.Custody
import QuantitySurvey.Proofs.Project.Framing

/-! # Consistency of a project over its life

A project is edited and calculated in, in any order. Its parts refer to each other: elements are kept
under their identifiers, quantities and records name elements, every quantity was recorded, and the
records are numbered upwards. An engine works on a copy of the quantities and records and puts them
back, and the removal of an element takes records from the middle of the trail; either way the parts
still fit.

* `IsRun`: what a run of the engine for one element leaves in a ledger.
* `Operated`, `Lives`: one operation on a project, and all that a project may come to.
* `IsConsistent.operated`, `ascending_operated`: one operation keeps a project consistent.
* `consistent_of_lives`: over its whole life.
-/

set_option autoImplicit false

namespace QuantitySurvey

/-! ## Runs of the engine -/

namespace Calculation

/-- What a run for an element leaves in a ledger: the log has taken records of attempts for this
element, and one of them documents each quantity that was not in the store before. -/
structure IsRun (l l' : Ledger) (element : Identifier) (offered : List Audit.Record) : Prop where
  logged : l'.log = l.log.addAll offered
  own : ∀ r ∈ offered, r.elementId = some element
  stored : ∀ q ∈ l'.store.all, q ∈ l.store.all ∨ ∃ r ∈ offered, r.Documents q

theorem isRun_refl (l : Ledger) (element : Identifier) : IsRun l l element [] where
  logged := rfl
  own := by simp
  stored := fun _ hq => .inl hq

section Smooth

variable {σ : Type} {c : Circumstances σ} (smooth : c.IsSmooth) (settings : Settings)
  (actor : Actor) (w : World σ) (e : Element)

include smooth in
theorem calculation_isRun (a : Option Assembly) : ∃ offered,
    IsRun w.ledger (calculation c settings (some e) a actor w).2.ledger e.id offered := by
  obtain ⟨t, htaken, hplay⟩ := play_calculate_course c settings (some e) a actor w
  obtain ⟨hrefusal, hreported⟩ := Course.reported_of_smooth smooth settings actor htaken
  have houtcome : t.outcome = t.computed := by
    rw [← hreported, Course.reported, hrefusal, verdict_accepted]
  have hworld : (t.world settings (some e) a actor w).ledger
      = { w.ledger.holding t.outcome with
          log := (w.ledger.log.add (t.record settings (some e) a actor)).2 } := by
    simp only [Course.world, hrefusal, Ledger.settled, Ledger.holding_log]
  rw [hplay, hworld]
  refine ⟨[t.record settings (some e) a actor], rfl, ?_, ?_⟩
  · intro r hr
    rw [List.mem_singleton.1 hr]
    rfl
  · intro q hq
    cases hcomputed : t.computed with
    | error f =>
      rw [houtcome, hcomputed] at hq
      exact .inl hq
    | ok p =>
      rw [houtcome, hcomputed] at hq
      rcases Store.mem_all_insert hq with rfl | hq
      · have htells : Tells (t.record settings (some e) a actor) t.outcome :=
          tells_recordOf settings t.start t.ticks actor fun p' hp' => by
            rw [← hp', houtcome]
            exact htaken.yields
        refine .inr ⟨_, List.mem_singleton_self _, htells.success _ (houtcome.trans hcomputed)⟩
      · exact .inl hq

variable {settings actor e} in
/-- Trials that were all accepted have their records in the log, one after the other. -/
theorem log_tried_of_accepted {trials : List Trial} (l : Ledger)
    (h : ∀ t ∈ trials, t.refusal = none) :
    (l.tried trials).log = l.log.addAll (trials.map Trial.record) := by
  induction trials generalizing l with
  | nil => rfl
  | cons t rest ih =>
    rw [tried_cons, ih _ fun u hu => h u (List.mem_cons_of_mem t hu), h t List.mem_cons_self]
    rfl

include smooth in
theorem recalculation_isRun (catalog : Catalog) : ∃ offered,
    IsRun w.ledger (recalculation c settings w e catalog actor).2.ledger e.id offered := by
  have h : Recalculated c settings e catalog actor w
      (recalculation c settings w e catalog actor) :=
    play_recalculate c settings e catalog actor w
  have hoffers := recalculation_accepted smooth.accepting settings w e catalog actor
  generalize recalculation c settings w e catalog actor = result at h hoffers ⊢
  cases h with
  | unclassified h => exact ⟨[], isRun_refl _ _⟩
  | stopped k attempts trials given state h attempted sub asked settled =>
    obtain ⟨n, s, hasked⟩ := asked
    rw [smooth.unstopped] at hasked
    cases hasked
  | lost k attempts trials given state f h attempted whole fault settled =>
    obtain ⟨s, hfault⟩ := fault
    rw [smooth.replacing] at hfault
    cases hfault
  | replaced k attempts trials given state h attempted whole settled =>
    obtain ⟨new, hnew⟩ := hoffers
    have hnone := refusal_eq_none_of_offers hnew
    have htells := settled.tells settings attempted
    refine ⟨trials.map Trial.record, log_tried_of_accepted _ hnone, ?_, ?_⟩
    · intro r hr
      obtain ⟨t, ht, rfl⟩ := List.mem_map.1 hr
      obtain ⟨start, ticks, hrecord⟩ := settled.recorded t ht
      rw [hrecord]
      rfl
    · intro q hq
      have hstore : (Ledger.tried { w.ledger with
          store := w.ledger.store.set e.id (Engine.successes attempts) } trials).store
            = w.ledger.store.set e.id (Engine.successes attempts) :=
        store_tried_of_accepted _ hnone
      rcases Store.mem_all_set (hstore ▸ hq) with hq | hq
      · rw [← settled.pending] at hq
        obtain ⟨t, ht, hok⟩ := List.mem_filterMap.1 hq
        have houtcome : t.outcome = .ok q := toOption_eq_some.1 hok
        exact .inr ⟨t.record, List.mem_map_of_mem ht, (htells t ht).success q houtcome⟩
      · exact .inl hq

end Smooth

end Calculation

namespace Project

open Calculation

/-! ## Consistency -/

/-- The parts of a project fit together. -/
structure IsConsistent (p : Project) : Prop where
  /-- Elements are kept under their own identifiers. -/
  keyed : ∀ id e, p.elements.find? id = some e → e.id = id
  owned : ∀ q ∈ p.quantities, p.elements.contains q.elementId = true
  told : ∀ r ∈ p.auditTrail, ∀ id, r.elementId = some id → p.elements.contains id = true
  /-- Of every quantity there is a record of its success, with its identifier, value and unit. -/
  documented : ∀ q ∈ p.quantities, ∃ r ∈ p.auditTrail, r.Documents q

theorem isConsistent_new (now : Instant) (estimator job client : String) :
    IsConsistent (Project.new now estimator job client) where
  keyed := fun _ _ h => by cases h
  owned := fun _ h => by cases h
  told := fun _ h => by cases h
  documented := fun _ h => by cases h

namespace IsConsistent

variable {p : Project} (h : IsConsistent p)
include h

theorem contains_of_mem {e : Element} (he : e ∈ p.elements.values) :
    p.elements.contains e.id = true := by
  obtain ⟨id, hfind⟩ := SortedMap.exists_find?_of_mem_values he
  rw [h.keyed id e hfind, SortedMap.contains, hfind]
  rfl

theorem addElement (now : Instant) (e : Element) : IsConsistent (p.addElement now e) := by
  have hcontains : ∀ id, p.elements.contains id = true →
      (p.elements.insert e.id e).contains id = true :=
    fun id hid => SortedMap.contains_insert_iff.2 (.inr hid)
  exact {
    keyed := by
      intro id f hf
      by_cases hsame : id = e.id
      · subst hsame
        rw [show (p.addElement now e).elements = p.elements.insert e.id e from rfl,
          SortedMap.find?_insert_self] at hf
        cases hf
        rfl
      · exact h.keyed id f
          ((SortedMap.find?_insert_of_ne _ _ (Store.compare_ne_eq hsame)).symm.trans hf)
    owned := fun q hq => hcontains _ (h.owned q hq)
    told := fun r hr id hid => hcontains _ (h.told r hr id hid)
    documented := h.documented }

theorem addAssembly (now : Instant) (a : Assembly) : IsConsistent (p.addAssembly now a) :=
  ⟨h.keyed, h.owned, h.told, h.documented⟩

/-- With an element everything goes that names it, and nothing else. -/
theorem removeElement {now : Instant} {id : Identifier} {e : Element} {p' : Project}
    (hremoved : p.removeElement now id = some (e, p')) : IsConsistent p' := by
  obtain ⟨e', -, hp'⟩ := Option.map_eq_some_iff.1 hremoved
  obtain ⟨rfl, rfl⟩ := Prod.mk.inj hp'
  have hcontains : ∀ x, x ≠ id → p.elements.contains x = true →
      (p.elements.erase id).contains x = true :=
    fun x hx hx' => SortedMap.contains_erase_iff.2 ⟨hx, hx'⟩
  constructor
  · intro x f hf
    have hx : x ≠ id := by
      rintro rfl
      rw [show (Project.touch _ now).elements = p.elements.erase x from rfl,
        SortedMap.find?_erase_self] at hf
      cases hf
    exact h.keyed x f ((SortedMap.find?_erase_of_ne _ (Store.compare_ne_eq hx)).symm.trans hf)
  · intro q hq
    obtain ⟨hq, hne⟩ := List.mem_filter.1 hq
    exact hcontains _ (by simpa using hne) (h.owned q hq)
  · intro r hr x hx
    obtain ⟨hr, hne⟩ := List.mem_filter.1 hr
    refine hcontains x ?_ (h.told r hr x hx)
    rintro rfl
    simp [hx] at hne
  · intro q hq
    obtain ⟨hq, hne⟩ := List.mem_filter.1 hq
    -- The record names the element of the quantity, so it stays where the quantity does.
    obtain ⟨r, hr, hdocuments⟩ := h.documented q hq
    refine ⟨r, List.mem_filter.2 ⟨hr, ?_⟩, hdocuments⟩
    simpa [hdocuments.element] using hne

/-- A run for an element of the project leaves quantities with records, all of elements that are
there. -/
theorem withLedger {l : Ledger} {e : Element} (he : e ∈ p.elements.values)
    {offered : List Audit.Record} (hrun : IsRun p.ledger l e.id offered) (now : Instant) :
    IsConsistent (p.withLedger l now) := by
  obtain ⟨new, hrecords, hnew⟩ := Audit.Log.records_addAll offered p.ledger.log
  have htrail : (p.withLedger l now).auditTrail = p.auditTrail ++ new := by
    show l.log.records = _
    rw [hrun.logged, hrecords]
    rfl
  have hown : ∀ r ∈ new, r.elementId = some e.id := by
    intro r hr
    -- The log changes nothing but the number of what it is offered.
    have hmem : r.unnumbered ∈ offered.map Audit.Record.unnumbered :=
      hnew ▸ List.mem_map_of_mem hr
    obtain ⟨s, hs, heq⟩ := List.mem_map.1 hmem
    exact (congrArg Audit.Record.elementId heq).symm.trans (hrun.own s hs)
  have hdocumented : ∀ q ∈ l.store.all, ∃ r ∈ p.auditTrail ++ new, r.Documents q := by
    intro q hq
    rcases hrun.stored q hq with hq | ⟨r, hr, hdocuments⟩
    · obtain ⟨r, hr, hdocuments⟩ := h.documented q (Store.mem_all_ofList hq)
      exact ⟨r, List.mem_append_left new hr, hdocuments⟩
    · have hmem : r.unnumbered ∈ new.map Audit.Record.unnumbered :=
        hnew ▸ List.mem_map_of_mem hr
      obtain ⟨s, hs, heq⟩ := List.mem_map.1 hmem
      exact ⟨s, List.mem_append_right _ hs, hdocuments.of_unnumbered heq⟩
  have htold : ∀ r ∈ p.auditTrail ++ new, ∀ id, r.elementId = some id →
      p.elements.contains id = true := by
    intro r hr id hid
    rcases List.mem_append.1 hr with hr | hr
    · exact h.told r hr id hid
    · rw [hown r hr] at hid
      cases hid
      exact h.contains_of_mem he
  exact {
    keyed := h.keyed
    owned := by
      intro q hq
      obtain ⟨r, hr, hdocuments⟩ := hdocumented q hq
      exact htold r hr _ hdocuments.element
    told := fun r hr => htold r (htrail ▸ hr)
    documented := fun q hq => htrail ▸ hdocumented q hq }

end IsConsistent

/-! ## Operations -/

variable {δ σ : Type}

/-- One operation on a project. A calculation is for an element and an assembly of the project, a
recalculation for an element and the assemblies of the project; the clocks, the identifiers that are
given out and all that goes on besides may be any. -/
inductive Operated (δ σ : Type) (p : Project) : Project → Prop
  | addElement (now : Instant) (e : Element) : Operated δ σ p (p.addElement now e)
  | addAssembly (now : Instant) (a : Assembly) : Operated δ σ p (p.addAssembly now a)
  | removeElement {now : Instant} {id : Identifier} {e : Element} {p' : Project}
      (h : p.removeElement now id = some (e, p')) : Operated δ σ p p'
  | calculate (settings : Settings) (surroundings : Surroundings (StateM σ)) {e : Element}
      {a : Assembly} (actor : Actor) (d : δ) (s : σ) (he : e ∈ p.elements.values)
      (ha : a ∈ p.catalog.assemblies) : Operated δ σ p
        ((p.calculate settings surroundings.lift e a actor).run d |>.run s).1.1.2
  | recalculate (settings : Settings) (surroundings : Surroundings (StateM σ)) {e : Element}
      (actor : Actor) (d : δ) (s : σ) (he : e ∈ p.elements.values) : Operated δ σ p
        ((p.recalculate settings surroundings.lift e actor).run d |>.run s).1.1.2

section Engine

variable (p : Project) (settings : Settings) (surroundings : Surroundings (StateM σ)) (e : Element)
  (actor : Actor) (d : δ) (s : σ)

theorem calculate_isRun (a : Assembly) : ∃ l now offered, IsRun p.ledger l e.id offered ∧
    ((p.calculate settings surroundings.lift e a actor).run d |>.run s).1.1.2
      = p.withLedger l now := by
  obtain ⟨now, s', hrun⟩ := running_eq settings surroundings p
    (fun engine => engine.calculate (some e) (some a) actor)
    ((alike_onDisk settings surroundings).calculate (some e) (some a) actor) d s
  obtain ⟨offered, hoffered⟩ := calculation_isRun (smooth_trusting surroundings) settings actor
    (p.world s) e (some a)
  exact ⟨_, now, offered, hoffered, congrArg (fun r => r.1.1.2) hrun⟩

theorem recalculate_isRun : ∃ l now offered, IsRun p.ledger l e.id offered ∧
    ((p.recalculate settings surroundings.lift e actor).run d |>.run s).1.1.2
      = p.withLedger l now := by
  have hstop : ∀ k, (onDisk δ σ).Holds (pure false)
      ((Circumstances.trusting surroundings).stopping k) := fun _ _ _ => rfl
  obtain ⟨now, s', hrun⟩ := running_eq settings surroundings p
    (fun engine => engine.recalculate e p.catalog actor)
    ((alike_onDisk settings surroundings).recalculate hstop e p.catalog actor) d s
  obtain ⟨offered, hoffered⟩ := recalculation_isRun (smooth_trusting surroundings) settings actor
    (p.world s) e p.catalog
  exact ⟨_, now, offered, hoffered, congrArg (fun r => r.1.1.2) hrun⟩

end Engine

/-- An operation is an edit of elements and catalog, which adds no records, or a run of the engine
for an element of the project. -/
theorem Operated.trail {p p' : Project} (h : Operated δ σ p p') :
    p'.auditTrail.Sublist p.auditTrail ∨
      ∃ offered, p'.auditTrail = ((⟨p.auditTrail⟩ : Audit.Log).addAll offered).records := by
  cases h with
  | addElement now e => exact .inl (List.Sublist.refl _)
  | addAssembly now a => exact .inl (List.Sublist.refl _)
  | removeElement h =>
    obtain ⟨e', -, hp'⟩ := Option.map_eq_some_iff.1 h
    obtain ⟨rfl, rfl⟩ := Prod.mk.inj hp'
    exact .inl List.filter_sublist
  | calculate settings surroundings actor d s he ha =>
    obtain ⟨l, now, offered, hrun, hp'⟩ := calculate_isRun p settings surroundings _ actor d s _
    rw [hp']
    exact .inr ⟨offered, congrArg Audit.Log.records hrun.logged⟩
  | recalculate settings surroundings actor d s he =>
    obtain ⟨l, now, offered, hrun, hp'⟩ := recalculate_isRun p settings surroundings _ actor d s
    rw [hp']
    exact .inr ⟨offered, congrArg Audit.Log.records hrun.logged⟩

theorem IsConsistent.operated {p p' : Project} (h : IsConsistent p) (op : Operated δ σ p p') :
    IsConsistent p' := by
  cases op with
  | addElement now e => exact h.addElement now e
  | addAssembly now a => exact h.addAssembly now a
  | removeElement hremoved => exact h.removeElement hremoved
  | calculate settings surroundings actor d s he ha =>
    obtain ⟨l, now, offered, hrun, hp'⟩ := calculate_isRun p settings surroundings _ actor d s _
    rw [hp']
    exact h.withLedger he hrun now
  | recalculate settings surroundings actor d s he =>
    obtain ⟨l, now, offered, hrun, hp'⟩ := recalculate_isRun p settings surroundings _ actor d s
    rw [hp']
    exact h.withLedger he hrun now

/-- How many records an operation wrote. -/
def newRecords (p p' : Project) : Nat := p'.auditTrail.length - p.auditTrail.length

theorem ascending_operated {written : Nat} {p p' : Project}
    (h : Audit.IsAscending written p.auditTrail) (op : Operated δ σ p p')
    (room : written + newRecords p p' < UInt64.size) :
    Audit.IsAscending (written + newRecords p p') p'.auditTrail := by
  rcases op.trail with hfewer | ⟨offered, htrail⟩
  · exact (h.sublist hfewer).mono (Nat.le_add_right written _)
  · have hcount : newRecords p p' = offered.length := by
      obtain ⟨new, hrecords, hnew⟩ := Audit.Log.records_addAll offered ⟨p.auditTrail⟩
      have hlength : new.length = offered.length := by simpa using congrArg List.length hnew
      rw [newRecords, htrail, hrecords, List.length_append, hlength]
      exact Nat.add_sub_cancel_left _ _
    rw [hcount] at room ⊢
    rw [htrail]
    have hlog : Audit.IsAscending written (⟨p.auditTrail⟩ : Audit.Log).records := h
    exact hlog.addAll offered room

/-! ## Lives -/

/-- What a project may come to by operations in any order, with the number of records that were
written on the way, also of those that are gone. -/
inductive Lives (δ σ : Type) : Nat → Project → Prop
  | new (now : Instant) (estimator job client : String) :
      Lives δ σ 0 (Project.new now estimator job client)
  | operate {written : Nat} {p p' : Project} (before : Lives δ σ written p)
      (op : Operated δ σ p p') : Lives δ σ (written + newRecords p p') p'

theorem Lives.isConsistent {written : Nat} {p : Project} (h : Lives δ σ written p) :
    IsConsistent p := by
  induction h with
  | new now estimator job client => exact isConsistent_new now estimator job client
  | operate before op ih => exact ih.operated op

theorem Lives.isAscending {written : Nat} {p : Project} (h : Lives δ σ written p)
    (room : written < UInt64.size) : Audit.IsAscending written p.auditTrail := by
  induction h with
  | new now estimator job client =>
    exact ⟨List.Pairwise.nil, fun _ hr => (List.not_mem_nil hr).elim,
      fun _ hr => (List.not_mem_nil hr).elim⟩
  | operate before op ih =>
    exact ascending_operated (ih (Nat.lt_of_le_of_lt (Nat.le_add_right _ _) room)) op room

/-- Through all operations the parts of a project fit together, and as long as fewer records are
written than there are numbers, those that are there are numbered upwards from one. -/
theorem consistent_of_lives {written : Nat} {p : Project} (h : Lives δ σ written p) :
    IsConsistent p ∧ (written < 2 ^ 64 →
      (∀ r ∈ p.auditTrail, 1 ≤ r.sequence) ∧
      p.auditTrail.Pairwise fun r s => r.sequence < s.sequence) := by
  refine ⟨h.isConsistent, fun room => ?_⟩
  exact ⟨(h.isAscending room).positive, (h.isAscending room).ascending⟩

/-- Two slabs are calculated, one of them is removed with its record, and the other is calculated
again: its new record comes after the one that is left. -/
theorem sample_project_consistent :
    let surroundings := (Circumstances.counting []).surroundings
    let assembly := Command.slabAssembly (.ofNat 1) "11.2.1" "Ground bearing slab"
      "length * width * thickness" .cubicMetre Command.slabSchema
    let first := Command.sampleSlab (.ofNat 2)
    let second := Command.sampleSlab (.ofNat 3)
    let edited := (((Project.new default "" "" "").addAssembly default assembly).addElement default
      first).addElement default second
    let calculated :=
      (((edited.calculate {} surroundings.lift first assembly .system).run ()).run 4).1.1.2
    let batched :=
      (((calculated.recalculate {} surroundings.lift second .system).run ()).run 5).1.1.2
    let removed := ((batched.removeElement default first.id).map Prod.snd).getD batched
    let again := (((removed.recalculate {} surroundings.lift second .system).run ()).run 6).1.1.2
    again.auditTrail.map Audit.Record.sequence = [2, 3] ∧
    again.quantities.map Quantity.id = [.ofNat 6] ∧ IsConsistent again ∧
    ∃ written, Lives Unit Nat written again ∧ written < 2 ^ 64 ∧
      (∀ r ∈ again.auditTrail, 1 ≤ r.sequence) ∧
      again.auditTrail.Pairwise fun r s => r.sequence < s.sequence := by
  intro surroundings assembly first second edited calculated batched removed again
  have hremoved : batched.removeElement default first.id = some (first, removed) := by
    decide +kernel
  have lives : Lives Unit Nat _ batched :=
    (((((Lives.new default "" "" "").operate (.addAssembly default assembly)).operate
      (.addElement default first)).operate (.addElement default second)).operate
        (.calculate {} surroundings .system () 4 (by decide +kernel) (by decide +kernel))).operate
          (.recalculate {} surroundings .system () 5 (by decide +kernel))
  have hagain : Lives Unit Nat _ again := (lives.operate (.removeElement hremoved)).operate
    (.recalculate {} surroundings .system () 6 (by decide +kernel))
  obtain ⟨hconsistent, hnumbered⟩ := consistent_of_lives hagain
  exact ⟨by decide +kernel, by decide +kernel, hconsistent, _, hagain, by decide +kernel,
    hnumbered (by decide +kernel)⟩

end Project

end QuantitySurvey
