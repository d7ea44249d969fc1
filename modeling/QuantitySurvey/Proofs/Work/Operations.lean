import Mathlib.Logic.Function.Basic
import QuantitySurvey.Proofs.Work.Stores

/-! # Operations on stores

A store is used as a list of quantities for each element. Each operation is about one element, and does
to the list of that element what it does to a plain list; an element whose list becomes empty loses it.

* `perform_eq_set`: an operation sets the list of its element.
* `IsProper.perform`, `forElement_performAll`: one operation, and all of a run.
* `store_is_lists`: stores and plain lists.
-/

set_option autoImplicit false

namespace QuantitySurvey.Store

/-! ## Operations -/

inductive Operation where
  | insert (q : Quantity)
  | replaceFor (element : Identifier) (quantities : List Quantity)
  | remove (element id : Identifier)
  | deleteFor (element : Identifier)

/-- What an operation answers. -/
inductive Answer where
  | done
  | refused (failure : Failure)
  | removed (quantity : Option Quantity)
  | deleted (count : Nat)
deriving DecidableEq

/-- Carries out an operation. One that is refused changes nothing. -/
def perform (s : Store) : Operation → Answer × Store
  | .insert q => (.done, s.insert q)
  | .replaceFor element quantities =>
    match s.replaceFor element quantities with
    | .ok t => (.done, t)
    | .error e => (.refused e, s)
  | .remove element id => (.removed (s.remove element id).1, (s.remove element id).2)
  | .deleteFor element => (.deleted (s.deleteFor element).1, (s.deleteFor element).2)

/-- Carries out operations one after another. -/
def performAll (s : Store) : List Operation → List Answer × Store
  | [] => ([], s)
  | o :: rest =>
    let next := s.perform o
    let last := next.2.performAll rest
    (next.1 :: last.1, last.2)

/-! ## Plain lists -/

/-- The refusal of a quantity among those of another element. -/
def foreign (element : Identifier) (stray : Quantity) : Failure :=
  let id := stray.id.text
  let owner := stray.elementId.text
  let wanted := element.text
  .internal s!"quantity {id} belongs to element {owner}, not {wanted}"

namespace Operation

/-- The element that an operation is about. -/
def element : Operation → Identifier
  | insert q => q.elementId
  | replaceFor element _ | remove element _ | deleteFor element => element

/-- What an operation answers and does, given a plain list. -/
def onList : Operation → List Quantity → Answer × List Quantity
  | insert q, qs => (.done, qs ++ [q])
  | replaceFor element new, qs =>
    match new.find? (·.elementId != element) with
    | none => (.done, new)
    | some stray => (.refused (foreign element stray), qs)
  | remove _ id, qs => (.removed (qs.find? (·.id == id)), qs.eraseP (·.id == id))
  | deleteFor _, qs => (.deleted qs.length, [])

/-- Carries out operations on plain lists, one for each element. -/
def allOnLists (lists : Identifier → List Quantity) :
    List Operation → List Answer × (Identifier → List Quantity)
  | [] => ([], lists)
  | o :: rest =>
    let next := o.onList (lists o.element)
    let last := allOnLists (Function.update lists o.element next.2) rest
    (next.1 :: last.1, last.2)

/-- The list of an element goes on being one of its quantities. -/
theorem owned_onList (o : Operation) {qs : List Quantity} (h : ∀ q ∈ qs, q.elementId = o.element) :
    ∀ q ∈ (o.onList qs).2, q.elementId = o.element := by
  cases o with
  | insert p =>
    intro q hq
    rcases List.mem_append.1 hq with hq | hq
    · exact h q hq
    · rw [List.mem_singleton.1 hq]
      rfl
  | replaceFor e new =>
    rw [onList]
    cases hstray : new.find? (·.elementId != e) with
    | none =>
      intro q hq
      have hown : q.elementId = e := by simpa using List.find?_eq_none.1 hstray q hq
      exact hown
    | some stray => exact h
  | remove e id =>
    intro q hq
    have herased : q ∈ qs.eraseP (·.id == id) := hq
    exact h q (List.mem_of_mem_eraseP herased)
  | deleteFor e => exact fun q hq => absurd hq List.not_mem_nil

end Operation

/-! ## One operation -/

/-- Each list of a store has quantities, and all of its own element. -/
def IsProper (s : Store) : Prop :=
  ∀ e qs, s.byElement.find? e = some qs → qs ≠ [] ∧ ∀ q ∈ qs, q.elementId = e

variable {s : Store}

theorem IsProper.isGrouped (h : s.IsProper) : s.IsGrouped := by
  intro e q hq
  unfold forElement at hq
  cases hfind : s.byElement.find? e with
  | none =>
    rw [hfind] at hq
    cases hq
  | some qs =>
    rw [hfind] at hq
    exact (h e qs hfind).2 q hq

theorem IsProper.set (h : s.IsProper) {e : Identifier} {qs : List Quantity}
    (hqs : ∀ q ∈ qs, q.elementId = e) : (s.set e qs).IsProper := by
  intro f rs hfind
  by_cases hf : f = e
  · subst hf
    rw [find?_set_self] at hfind
    split at hfind
    · cases hfind
    · next hne =>
      cases hfind
      exact ⟨by simpa using hne, hqs⟩
  · rw [find?_set_of_ne s qs hf] at hfind
    exact h f rs hfind

theorem IsProper.set_forElement (h : s.IsProper) (e : Identifier) :
    s.set e (s.forElement e) = s := by
  refine ext_find? fun f => ?_
  by_cases hf : f = e
  · subst hf
    rw [find?_set_self, forElement]
    cases hfind : s.byElement.find? f with
    | none => rfl
    | some qs => simp [(h f qs hfind).1]
  · exact find?_set_of_ne s _ hf

/-- An operation sets the list of its element, to what it makes of that list. -/
theorem IsProper.perform_eq_set (h : s.IsProper) (o : Operation) :
    s.perform o =
      ((o.onList (s.forElement o.element)).1, s.set o.element (o.onList (s.forElement o.element)).2) := by
  cases o with
  | insert q =>
    have hset : s.insert q = s.set q.elementId (s.forElement q.elementId ++ [q]) := by
      rw [Store.set, if_neg (by simp)]
      rfl
    exact Prod.ext rfl hset
  | replaceFor e new =>
    rw [perform, replaceFor, Operation.onList]
    cases new.find? (·.elementId != e) with
    | none => rfl
    | some stray => exact Prod.ext rfl (h.set_forElement e).symm
  | remove e id => rfl
  | deleteFor e => rfl

theorem IsProper.perform (h : s.IsProper) (o : Operation) : (s.perform o).2.IsProper := by
  rw [h.perform_eq_set]
  exact h.set (o.owned_onList (h.isGrouped o.element))

theorem IsProper.forElement_perform (h : s.IsProper) (o : Operation) :
    (s.perform o).2.forElement =
      Function.update s.forElement o.element (o.onList (s.forElement o.element)).2 := by
  rw [h.perform_eq_set]
  funext e
  by_cases he : e = o.element
  · subst he
    rw [forElement_set_self, Function.update_self]
  · rw [forElement_set_of_ne s _ he, Function.update_of_ne he]

/-! ## Runs -/

theorem IsProper.performAll (h : s.IsProper) (os : List Operation) :
    (s.performAll os).2.IsProper := by
  induction os generalizing s with
  | nil => exact h
  | cons o os ih => exact ih (h.perform o)

/-- A run answers and does what it does on plain lists. -/
theorem IsProper.forElement_performAll (h : s.IsProper) (os : List Operation) :
    ((s.performAll os).1, (s.performAll os).2.forElement) =
      Operation.allOnLists s.forElement os := by
  induction os generalizing s with
  | nil => rfl
  | cons o os ih =>
    have hnext := ih (h.perform o)
    rw [h.forElement_perform o] at hnext
    have hanswer : (s.perform o).1 = (o.onList (s.forElement o.element)).1 := by
      rw [h.perform_eq_set]
    rw [Operation.allOnLists, ← hnext, ← hanswer]
    rfl

theorem isProper_ofList (qs : List Quantity) : (ofList qs).IsProper := by
  have hempty : ({} : Store).IsProper := nofun
  have hfold : ∀ s : Store, s.IsProper → (qs.foldl Store.insert s).IsProper := by
    induction qs with
    | nil => exact fun s h => h
    | cons q qs ih => exact fun s h => ih _ (h.perform (.insert q))
  exact hfold {} hempty

/-! ## All lists -/

/-- All quantities are those of the elements that have some, in the order of the elements. -/
theorem all_eq_flatMap (s : Store) : s.all = s.byElement.keys.flatMap s.forElement := by
  have hlists : ∀ p ∈ s.byElement.entries, p.2 = s.forElement p.1 := by
    rintro ⟨e, qs⟩ hp
    rw [forElement, SortedMap.mem_entries_iff.1 hp]
    rfl
  rw [all, SortedMap.values, SortedMap.keys, List.flatMap_map, ← List.flatMap_def]
  exact List.flatMap_congr hlists

theorem keys_ascending (s : Store) :
    s.byElement.keys.Pairwise fun e f => compare e f = .lt :=
  List.pairwise_map.2 s.byElement.ascending

theorem IsProper.mem_keys_iff (h : s.IsProper) {e : Identifier} :
    e ∈ s.byElement.keys ↔ s.forElement e ≠ [] := by
  rw [SortedMap.mem_keys_iff, SortedMap.contains, forElement]
  cases hfind : s.byElement.find? e with
  | none => simp
  | some qs => simpa using (h e qs hfind).1

/-- A store has these lists, and gives back the quantities of each of them, in the order of their
elements, and no others. -/
structure Holds (s : Store) (lists : Identifier → List Quantity) : Prop where
  forElement : ∀ e, s.forElement e = lists e
  proper : s.IsProper
  ascending : s.byElement.keys.Pairwise fun e f => compare e f = .lt
  mem_keys : ∀ e, e ∈ s.byElement.keys ↔ lists e ≠ []
  all : s.all = s.byElement.keys.flatMap lists
  filter_all : ∀ e, s.all.filter (·.elementId == e) = lists e

theorem IsProper.holds (h : s.IsProper) : s.Holds s.forElement where
  forElement _ := rfl
  proper := h
  ascending := s.keys_ascending
  mem_keys _ := h.mem_keys_iff
  all := s.all_eq_flatMap
  filter_all := h.isGrouped.filter_all

/-! ## What is refused, removed and deleted -/

theorem perform_replaceFor_foreign (s : Store) {e : Identifier} {new : List Quantity}
    (h : ∃ q ∈ new, q.elementId ≠ e) : ∃ stray ∈ new, stray.elementId ≠ e ∧
      s.perform (.replaceFor e new) = (.refused (foreign e stray), s) := by
  rw [perform, replaceFor]
  cases hstray : new.find? (·.elementId != e) with
  | none =>
    obtain ⟨q, hq, hne⟩ := h
    exact absurd (bne_iff_ne.2 hne) (List.find?_eq_none.1 hstray q hq)
  | some stray =>
    have hne := List.find?_some hstray
    exact ⟨stray, List.mem_of_find?_eq_some hstray, by simpa using hne, rfl⟩

theorem IsProper.perform_remove (h : s.IsProper) (e id : Identifier) :
    (∃ before q after, s.forElement e = before ++ q :: after ∧ q.id = id ∧
      (∀ p ∈ before, p.id ≠ id) ∧ (s.perform (.remove e id)).1 = .removed (some q) ∧
      (s.perform (.remove e id)).2.forElement e = before ++ after) ∨
    ((∀ p ∈ s.forElement e, p.id ≠ id) ∧ s.perform (.remove e id) = (.removed none, s)) := by
  have hlist : (s.perform (.remove e id)).2.forElement e
      = (s.forElement e).eraseP (·.id == id) := forElement_set_self s e _
  cases hfind : (s.forElement e).find? (·.id == id) with
  | none =>
    have hnone : ∀ p ∈ s.forElement e, ¬ (p.id == id) = true := List.find?_eq_none.1 hfind
    refine .inr ⟨fun p hp hid => hnone p hp (beq_iff_eq.2 hid), ?_⟩
    rw [h.perform_eq_set, Operation.onList, Operation.element, hfind, List.eraseP_of_forall_not hnone,
      h.set_forElement]
  | some q =>
    obtain ⟨hid, before, after, hparts, hbefore⟩ := List.find?_eq_some_iff_append.1 hfind
    have hother : ∀ p ∈ before, ¬ (p.id == id) = true := fun p hp => by simpa using hbefore p hp
    refine .inl ⟨before, q, after, hparts, beq_iff_eq.1 hid,
      fun p hp heq => hother p hp (beq_iff_eq.2 heq), ?_, ?_⟩
    · exact congrArg Answer.removed hfind
    · rw [hlist, hparts, List.eraseP_append_right _ hother]
      refine congrArg (before ++ ·) ?_
      exact List.eraseP_cons_of_pos hid

/-- After any run on a store that was made of quantities, the store has the lists that the run makes of
plain lists, with the same answers. A replacement by a quantity of another element is refused and changes
nothing; a removal takes the first quantity with the identifier, or nothing; a deletion says how many
there were. What is done to one element leaves the lists of all others as they are. -/
theorem store_is_lists {seed : List Quantity} {os : List Operation} {answers : List Answer} {s : Store}
    (hrun : (ofList seed).performAll os = (answers, s)) :
    (∃ lists, Operation.allOnLists (fun e => seed.filter (·.elementId == e)) os = (answers, lists) ∧
      s.Holds lists) ∧
    (∀ e new, (∃ q ∈ new, q.elementId ≠ e) → ∃ stray ∈ new, stray.elementId ≠ e ∧
      s.perform (.replaceFor e new) = (.refused (foreign e stray), s)) ∧
    (∀ e id,
      (∃ before q after, s.forElement e = before ++ q :: after ∧ q.id = id ∧
        (∀ p ∈ before, p.id ≠ id) ∧ (s.perform (.remove e id)).1 = .removed (some q) ∧
        (s.perform (.remove e id)).2.forElement e = before ++ after) ∨
      ((∀ p ∈ s.forElement e, p.id ≠ id) ∧ s.perform (.remove e id) = (.removed none, s))) ∧
    (∀ e, (s.perform (.deleteFor e)).1 = .deleted (s.forElement e).length ∧
      (s.perform (.deleteFor e)).2.forElement e = []) ∧
    ∀ o e, e ≠ o.element → (s.perform o).2.forElement e = s.forElement e := by
  have hseed := isProper_ofList seed
  have hproper : s.IsProper := by
    have h := hseed.performAll os
    rwa [hrun] at h
  have hlists := hseed.forElement_performAll os
  rw [hrun, funext (forElement_ofList seed)] at hlists
  refine ⟨⟨_, hlists.symm, hproper.holds⟩, fun e new => perform_replaceFor_foreign s,
    hproper.perform_remove, fun e => ⟨rfl, forElement_set_self s e []⟩, fun o e he => ?_⟩
  · rw [hproper.forElement_perform, Function.update_of_ne he]

/-- A quantity of one piece. -/
def onePiece (element id : Nat) : Quantity :=
  .ofResult (.ofNat id) (.ofNat element) .nil
    ⟨1, 1, .number, [], "1", .empty, [], "0.1.0", ⟨0, 0⟩⟩

def sampleSeed : List Quantity := [onePiece 2 1, onePiece 1 2, onePiece 2 3, onePiece 2 1]

def sampleRun : List Operation :=
  [.remove (.ofNat 2) (.ofNat 1), .replaceFor (.ofNat 1) [], .insert (onePiece 3 4),
    .replaceFor (.ofNat 3) [onePiece 2 5], .deleteFor (.ofNat 1)]

theorem sample_store_is_lists :
    ∃ s, (ofList sampleSeed).performAll sampleRun =
        ([.removed (some (onePiece 2 1)), .done, .done,
          .refused (foreign (.ofNat 3) (onePiece 2 5)), .deleted 0], s) ∧
      s.IsProper ∧ s.forElement (.ofNat 2) = [onePiece 2 3, onePiece 2 1] ∧
      s.all = [onePiece 2 3, onePiece 2 1, onePiece 3 4] ∧
      s.perform (.replaceFor (.ofNat 3) [onePiece 2 5])
        = (.refused (foreign (.ofNat 3) (onePiece 2 5)), s) := by
  obtain ⟨s, hrun, hall⟩ : ∃ s, (ofList sampleSeed).performAll sampleRun =
      ([.removed (some (onePiece 2 1)), .done, .done,
        .refused (foreign (.ofNat 3) (onePiece 2 5)), .deleted 0], s) ∧
      s.all = [onePiece 2 3, onePiece 2 1, onePiece 3 4] := by
    refine ⟨((ofList sampleSeed).performAll sampleRun).2, Prod.ext ?_ rfl, ?_⟩
    all_goals decide +kernel
  obtain ⟨⟨lists, hlists, hholds⟩, hforeign, -⟩ := store_is_lists hrun
  refine ⟨s, hrun, hholds.proper, ?_, hall, ?_⟩
  · have hlist : (Operation.allOnLists (fun e => sampleSeed.filter (·.elementId == e)) sampleRun).2
        (.ofNat 2) = [onePiece 2 3, onePiece 2 1] := by decide +kernel
    rw [hholds.forElement, ← hlist, hlists]
  · obtain ⟨stray, hstray, -, hrefused⟩ := hforeign (.ofNat 3) [onePiece 2 5]
      ⟨_, List.mem_singleton_self _, by decide +kernel⟩
    rw [List.mem_singleton.1 hstray] at hrefused
    exact hrefused

end QuantitySurvey.Store
