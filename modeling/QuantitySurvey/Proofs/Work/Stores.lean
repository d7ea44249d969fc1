import Mathlib.Data.List.Sort
import QuantitySurvey.Work.Store

/-! # Stores and their lists

A store is determined by the list it has for each element, so what is done to different elements may
be done in either order. A store that was made of a list keeps each quantity with its element, and
gives back the quantities of an element in the order in which they came.

* `SortedMap.ext_find?`: a map is determined by its bindings.
* `Store.forElement_ofList`: the quantities of an element in a store made of a list.
* `Store.IsGrouped.filter_all`: the quantities of an element among all of a store.
-/

set_option autoImplicit false

namespace QuantitySurvey

/-! ## Bindings -/

namespace SortedMap

variable {κ ν μ : Type} [Ord κ]

theorem find?_mapValues (f : ν → μ) (m : SortedMap κ ν) (k : κ) :
    (m.mapValues f).find? k = (m.find? k).map f := by
  obtain ⟨l, hl⟩ := m
  simp only [find?, mapValues]
  clear hl
  induction l with
  | nil => rfl
  | cons e rest ih =>
    rw [List.map_cons, lookup, lookup]
    split
    · rfl
    · exact ih

variable [Std.LawfulEqOrd κ]

theorem mem_of_lookup {l : List (κ × ν)} {k : κ} {x : ν} (h : lookup k l = some x) :
    (k, x) ∈ l := by
  induction l with
  | nil => cases h
  | cons e rest ih =>
    rw [lookup] at h
    split at h
    · next hk =>
      cases h
      rw [Std.LawfulEqOrd.eq_of_compare hk]
      exact List.mem_cons_self
    · exact List.mem_cons_of_mem e (ih h)

variable [Std.TransOrd κ]

theorem mem_entries_iff {m : SortedMap κ ν} {k : κ} {x : ν} :
    (k, x) ∈ m.entries ↔ m.find? k = some x :=
  ⟨lookup_of_mem m.ascending, mem_of_lookup⟩

theorem ext_find? {m n : SortedMap κ ν} (h : ∀ k, m.find? k = n.find? k) : m = n := by
  -- ascending lists with the same members are equal
  let before : κ × ν → κ × ν → Prop := fun a b => compare a.1 b.1 = .lt
  have hasymm : ∀ a b, before a b → ¬ before b a := by
    intro a b hab hba
    have hgt : compare b.1 a.1 = .gt := Std.OrientedCmp.gt_of_lt hab
    rw [show compare b.1 a.1 = .lt from hba] at hgt
    cases hgt
  have : Std.Irrefl before := ⟨fun a ha => hasymm a a ha ha⟩
  have : Std.Antisymm before := ⟨fun a b hab hba => absurd hba (hasymm a b hab)⟩
  refine ext_entries (List.Pairwise.eq_of_mem_iff m.ascending n.ascending ?_)
  rintro ⟨k, x⟩
  rw [mem_entries_iff, mem_entries_iff, h]

/-! ## Keys -/

theorem mem_keys_iff {m : SortedMap κ ν} {k : κ} : k ∈ m.keys ↔ m.contains k = true := by
  simp only [keys, contains, Option.isSome_iff_exists, List.mem_map, Prod.exists, mem_entries_iff]
  exact ⟨fun ⟨_, x, h, hk⟩ => ⟨x, hk ▸ h⟩, fun ⟨x, h⟩ => ⟨k, x, h, rfl⟩⟩

theorem contains_insert_iff {m : SortedMap κ ν} {j k : κ} {x : ν} :
    (m.insert k x).contains j = true ↔ j = k ∨ m.contains j = true := by
  unfold contains
  by_cases h : j = k
  · subst h
    simp [find?_insert_self]
  · have hne : compare j k ≠ .eq := fun he => h (Std.LawfulEqOrd.eq_of_compare he)
    simp [find?_insert_of_ne _ _ hne, h]

theorem contains_erase_iff {m : SortedMap κ ν} {j k : κ} :
    (m.erase k).contains j = true ↔ j ≠ k ∧ m.contains j = true := by
  unfold contains
  by_cases h : j = k
  · subst h
    simp [find?_erase_self]
  · have hne : compare j k ≠ .eq := fun he => h (Std.LawfulEqOrd.eq_of_compare he)
    simp [find?_erase_of_ne _ hne, h]

/-- The keys of a list of bindings are those that it binds. -/
theorem mem_keys_ofList {l : List (κ × ν)} {k : κ} :
    k ∈ (ofList l).keys ↔ k ∈ l.map Prod.fst := by
  have hfold : ∀ m : SortedMap κ ν, (l.foldl (fun m e => m.insert e.1 e.2) m).contains k = true ↔
      k ∈ l.map Prod.fst ∨ m.contains k = true := by
    induction l with
    | nil => simp
    | cons e l ih =>
      intro m
      rw [List.foldl_cons, ih, contains_insert_iff, List.map_cons, List.mem_cons]
      tauto
  rw [mem_keys_iff, ofList, hfold]
  simp [contains]

end SortedMap

namespace Store

theorem find?_set_self (s : Store) (e : Identifier) (qs : List Quantity) :
    (s.set e qs).byElement.find? e = if qs.isEmpty then none else some qs := by
  unfold set
  split
  · exact SortedMap.find?_erase_self _ _
  · exact SortedMap.find?_insert_self _ _ _

theorem find?_set_of_ne (s : Store) {e f : Identifier} (qs : List Quantity) (h : f ≠ e) :
    (s.set e qs).byElement.find? f = s.byElement.find? f := by
  unfold set
  split
  · exact SortedMap.find?_erase_of_ne _ (compare_ne_eq h)
  · exact SortedMap.find?_insert_of_ne _ _ (compare_ne_eq h)

theorem ext_find? {s t : Store} (h : ∀ e, s.byElement.find? e = t.byElement.find? e) : s = t :=
  congrArg mk (SortedMap.ext_find? h)

theorem set_set (s : Store) (e : Identifier) (qs rs : List Quantity) :
    (s.set e qs).set e rs = s.set e rs := by
  refine ext_find? fun f => ?_
  by_cases h : f = e
  · rw [h, find?_set_self, find?_set_self]
  · rw [find?_set_of_ne _ _ h, find?_set_of_ne _ _ h, find?_set_of_ne _ _ h]

theorem set_comm (s : Store) {e f : Identifier} (h : e ≠ f) (qs rs : List Quantity) :
    (s.set e qs).set f rs = (s.set f rs).set e qs := by
  refine ext_find? fun x => ?_
  by_cases hf : x = f
  · subst hf
    rw [find?_set_self, find?_set_of_ne _ _ h.symm, find?_set_self]
  · rw [find?_set_of_ne _ _ hf]
    by_cases he : x = e
    · rw [he, find?_set_self, find?_set_self]
    · rw [find?_set_of_ne _ _ he, find?_set_of_ne _ _ he, find?_set_of_ne _ _ hf]

/-! ## Grouping by element -/

def IsGrouped (s : Store) : Prop := ∀ e, ∀ q ∈ s.forElement e, q.elementId = e

variable {s : Store}

theorem IsGrouped.insert (h : s.IsGrouped) (q : Quantity) : (s.insert q).IsGrouped := by
  intro e p hp
  by_cases he : e = q.elementId
  · subst he
    rw [forElement_insert_self, List.mem_append, List.mem_singleton] at hp
    rcases hp with hp | rfl
    · exact h _ p hp
    · rfl
  · rw [forElement_insert_of_ne s q he] at hp
    exact h e p hp

theorem IsGrouped.set (h : s.IsGrouped) {e : Identifier} {qs : List Quantity}
    (hqs : ∀ q ∈ qs, q.elementId = e) : (s.set e qs).IsGrouped := by
  intro f p hp
  by_cases hf : f = e
  · subst hf
    rw [forElement_set_self] at hp
    exact hqs p hp
  · rw [forElement_set_of_ne s qs hf] at hp
    exact h f p hp

theorem forElement_foldl_insert (s : Store) (qs : List Quantity) (e : Identifier) :
    (qs.foldl Store.insert s).forElement e = s.forElement e ++ qs.filter (·.elementId == e) := by
  induction qs generalizing s with
  | nil => exact (List.append_nil _).symm
  | cons q rest ih =>
    rw [List.foldl_cons, ih, List.filter_cons]
    by_cases he : e = q.elementId
    · subst he
      simp
    · have hne : (q.elementId == e) = false := by simpa using fun h => he h.symm
      simp [forElement_insert_of_ne s q he, hne]

theorem forElement_ofList (qs : List Quantity) (e : Identifier) :
    (ofList qs).forElement e = qs.filter (·.elementId == e) :=
  forElement_foldl_insert {} qs e

theorem isGrouped_ofList (qs : List Quantity) : (ofList qs).IsGrouped := by
  intro e q hq
  rw [forElement_ofList, List.mem_filter] at hq
  simpa using hq.2

theorem filter_owned {e f : Identifier} {qs : List Quantity} (h : ∀ q ∈ qs, q.elementId = f) :
    qs.filter (·.elementId == e) = if e = f then qs else [] := by
  split
  · next he =>
    exact List.filter_eq_self.2 fun q hq => by simpa [he] using h q hq
  · next he =>
    refine List.filter_eq_nil_iff.2 fun q hq heq => he ?_
    rw [← h q hq]
    exact (beq_iff_eq.1 heq).symm

/-- The list that is bound to an element has the quantities of that element in all lists. -/
theorem filter_flatten {l : List (Identifier × List Quantity)}
    (hl : l.Pairwise fun a b => compare a.1 b.1 = .lt)
    (own : ∀ p ∈ l, ∀ q ∈ p.2, q.elementId = p.1) (e : Identifier) :
    (l.map Prod.snd).flatten.filter (·.elementId == e) = (SortedMap.lookup e l).getD [] := by
  induction l with
  | nil => rfl
  | cons p rest ih =>
    rw [List.pairwise_cons] at hl
    rw [List.map_cons, List.flatten_cons, List.filter_append,
      filter_owned (own p List.mem_cons_self), SortedMap.lookup]
    have hrest := ih hl.2 fun r hr => own r (List.mem_cons_of_mem p hr)
    by_cases hp : e = p.1
    · -- the elements of the other lists come after this one
      have hnone : SortedMap.lookup e rest = none := by
        refine Option.eq_none_iff_forall_ne_some.2 fun qs hqs => ?_
        have hlt := hl.1 (e, qs) (SortedMap.mem_of_lookup hqs)
        rw [Identifier.compare_eq_iff.2 hp.symm] at hlt
        cases hlt
      rw [hrest, hnone, if_pos hp, if_pos (Identifier.compare_eq_iff.2 hp)]
      exact List.append_nil _
    · rw [hrest, if_neg hp, if_neg fun h => hp (Identifier.compare_eq_iff.1 h), List.nil_append]

/-- The quantities of an element are those of its list, among all quantities of the store. -/
theorem IsGrouped.filter_all (h : s.IsGrouped) (e : Identifier) :
    s.all.filter (·.elementId == e) = s.forElement e := by
  refine filter_flatten s.byElement.ascending (fun p hp q hq => h p.1 q ?_) e
  rw [forElement, SortedMap.find?, SortedMap.lookup_of_mem s.byElement.ascending hp]
  exact hq

end Store

end QuantitySurvey
