import QuantitySurvey.Failure
import QuantitySurvey.Work.Quantity

/-! # The store of quantities

Quantities are kept by element, each list in the order of insertion. The quantities of an element
are replaced all at once; an element without quantities has no list. -/

set_option autoImplicit false

namespace QuantitySurvey

structure Store where
  byElement : SortedMap Identifier (List Quantity) := .empty
deriving DecidableEq, Inhabited

namespace Store

/-! ## Views -/

/-- The quantities of an element, in the order of insertion. -/
def forElement (s : Store) (element : Identifier) : List Quantity :=
  (s.byElement.find? element).getD []

/-- All quantities, in the order of the elements. -/
def all (s : Store) : List Quantity := s.byElement.values.flatten

/-- Every quantity is in the list of some element. -/
theorem exists_mem_forElement {s : Store} {q : Quantity} (h : q ∈ s.all) :
    ∃ e, q ∈ s.forElement e := by
  obtain ⟨qs, hqs, hq⟩ := List.mem_flatten.1 h
  obtain ⟨e, he⟩ := SortedMap.exists_find?_of_mem_values hqs
  refine ⟨e, ?_⟩
  rw [forElement, he]
  exact hq

theorem mem_all_of_mem_forElement {s : Store} {q : Quantity} {e : Identifier}
    (h : q ∈ s.forElement e) : q ∈ s.all := by
  unfold forElement at h
  cases hqs : s.byElement.find? e with
  | none =>
    rw [hqs] at h
    cases h
  | some qs =>
    rw [hqs] at h
    exact List.mem_flatten.2 ⟨qs, SortedMap.mem_values_of_find? hqs, h⟩

/-! ## Operations -/

def set (s : Store) (element : Identifier) (quantities : List Quantity) : Store :=
  if quantities.isEmpty then ⟨s.byElement.erase element⟩
  else ⟨s.byElement.insert element quantities⟩

def insert (s : Store) (q : Quantity) : Store :=
  ⟨s.byElement.insert q.elementId (s.forElement q.elementId ++ [q])⟩

def ofList (quantities : List Quantity) : Store :=
  quantities.foldl insert {}

/-- Replaces the quantities of an element, unless one of the new ones is of another element. -/
def replaceFor (s : Store) (element : Identifier) (quantities : List Quantity) :
    Except Failure Store :=
  match quantities.find? (·.elementId != element) with
  | none => .ok (s.set element quantities)
  | some stray =>
    let id := stray.id.text
    let owner := stray.elementId.text
    let wanted := element.text
    .error (.internal s!"quantity {id} belongs to element {owner}, not {wanted}")

/-- Removes the first quantity of an element with an identifier. -/
def remove (s : Store) (element id : Identifier) : Option Quantity × Store :=
  let quantities := s.forElement element
  (quantities.find? (·.id == id), s.set element (quantities.eraseP (·.id == id)))

/-- Removes all quantities of an element, and says how many there were. -/
def deleteFor (s : Store) (element : Identifier) : Nat × Store :=
  ((s.forElement element).length, ⟨s.byElement.erase element⟩)

/-! ## What an operation does to an element -/

theorem compare_ne_eq {a b : Identifier} (h : a ≠ b) : compare a b ≠ .eq :=
  fun e => h (Identifier.compare_eq_iff.1 e)

@[simp] theorem forElement_set_self (s : Store) (e : Identifier) (qs : List Quantity) :
    (s.set e qs).forElement e = qs := by
  unfold set
  split
  · next h => simp [forElement, SortedMap.find?_erase_self, List.isEmpty_iff.1 h]
  · simp [forElement, SortedMap.find?_insert_self]

theorem forElement_set_of_ne (s : Store) {e f : Identifier} (qs : List Quantity) (h : f ≠ e) :
    (s.set e qs).forElement f = s.forElement f := by
  unfold set
  split
  · simp [forElement, SortedMap.find?_erase_of_ne _ (compare_ne_eq h)]
  · simp [forElement, SortedMap.find?_insert_of_ne _ _ (compare_ne_eq h)]

@[simp] theorem forElement_insert_self (s : Store) (q : Quantity) :
    (s.insert q).forElement q.elementId = s.forElement q.elementId ++ [q] := by
  simp [forElement, insert, SortedMap.find?_insert_self]

theorem forElement_insert_of_ne (s : Store) (q : Quantity) {f : Identifier}
    (h : f ≠ q.elementId) : (s.insert q).forElement f = s.forElement f := by
  simp [forElement, insert, SortedMap.find?_insert_of_ne _ _ (compare_ne_eq h)]

/-! ## What an operation does to the whole -/

theorem mem_all_set {s : Store} {e : Identifier} {qs : List Quantity} {q : Quantity}
    (h : q ∈ (s.set e qs).all) : q ∈ qs ∨ q ∈ s.all := by
  obtain ⟨f, hf⟩ := exists_mem_forElement h
  by_cases hfe : f = e
  · subst hfe
    rw [forElement_set_self] at hf
    exact .inl hf
  · rw [forElement_set_of_ne s qs hfe] at hf
    exact .inr (mem_all_of_mem_forElement hf)

theorem mem_all_insert {s : Store} {q p : Quantity} (h : p ∈ (s.insert q).all) :
    p = q ∨ p ∈ s.all := by
  obtain ⟨f, hf⟩ := exists_mem_forElement h
  by_cases hfe : f = q.elementId
  · subst hfe
    rw [forElement_insert_self] at hf
    rcases List.mem_append.1 hf with hf | hf
    · exact .inr (mem_all_of_mem_forElement hf)
    · exact .inl (List.mem_singleton.1 hf)
  · rw [forElement_insert_of_ne s q hfe] at hf
    exact .inr (mem_all_of_mem_forElement hf)

theorem mem_all_ofList {qs : List Quantity} {q : Quantity} (h : q ∈ (ofList qs).all) : q ∈ qs := by
  have hfold : ∀ s : Store, q ∈ (qs.foldl insert s).all → q ∈ qs ∨ q ∈ s.all := by
    clear h
    induction qs with
    | nil => exact fun s hs => .inr hs
    | cons p qs ih =>
      intro s hs
      rcases ih (s.insert p) hs with hq | hq
      · exact .inl (List.mem_cons_of_mem p hq)
      · rcases mem_all_insert hq with rfl | hq
        · exact .inl List.mem_cons_self
        · exact .inr hq
  rcases hfold {} h with hq | hq
  · exact hq
  · cases hq

end Store

end QuantitySurvey
