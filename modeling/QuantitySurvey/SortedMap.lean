/-! # Maps kept in key order

Parameters are listed by name, and elements and quantities by identifier. `SortedMap` keeps its
entries in strictly ascending order of the keys, so two maps with the same bindings are equal and
listing one needs no sorting. `find?_insert_self` and `find?_insert_of_ne` say what insertion does
to lookups, `find?_erase_self` and `find?_erase_of_ne` what removal does. -/

set_option autoImplicit false

namespace QuantitySurvey

universe u v w

/-- Bindings of keys to values, in ascending order of the keys. -/
structure SortedMap (κ : Type u) (ν : Type v) [Ord κ] where
  entries : List (κ × ν)
  ascending : entries.Pairwise (fun a b => compare a.1 b.1 = .lt)

namespace SortedMap

variable {κ : Type u} {ν : Type v} {μ : Type w} [Ord κ]

theorem ext_entries {m n : SortedMap κ ν} (h : m.entries = n.entries) : m = n := by
  cases m; cases n; cases h; rfl

instance [DecidableEq κ] [DecidableEq ν] : DecidableEq (SortedMap κ ν) := fun m n =>
  if h : m.entries = n.entries then isTrue (ext_entries h)
  else isFalse fun e => h (congrArg entries e)

def empty : SortedMap κ ν := ⟨[], List.Pairwise.nil⟩

instance : Inhabited (SortedMap κ ν) := ⟨empty⟩

/-! ## Views -/

def keys (m : SortedMap κ ν) : List κ := m.entries.map Prod.fst

def values (m : SortedMap κ ν) : List ν := m.entries.map Prod.snd

def size (m : SortedMap κ ν) : Nat := m.entries.length

/-- The value that a list of entries binds a key to. -/
def lookup (k : κ) : List (κ × ν) → Option ν
  | [] => none
  | e :: rest => if compare k e.1 = .eq then some e.2 else lookup k rest

def find? (m : SortedMap κ ν) (k : κ) : Option ν := lookup k m.entries

def contains (m : SortedMap κ ν) (k : κ) : Bool := (m.find? k).isSome

@[simp] theorem find?_empty (k : κ) : (empty : SortedMap κ ν).find? k = none := rfl

theorem lookup_of_mem [Std.TransOrd κ] {k : κ} {x : ν} {l : List (κ × ν)}
    (h : l.Pairwise (fun a b => compare a.1 b.1 = .lt)) (hmem : (k, x) ∈ l) :
    lookup k l = some x := by
  induction l with
  | nil => cases hmem
  | cons e rest ih =>
    rw [List.pairwise_cons] at h
    rcases List.mem_cons.1 hmem with rfl | hmem
    · simp [lookup]
    · have hgt : compare k e.1 = .gt := Std.OrientedCmp.gt_of_lt (h.1 _ hmem)
      simp [lookup, hgt, ih h.2 hmem]

theorem mem_values_of_find? {m : SortedMap κ ν} {k : κ} {x : ν} (h : m.find? k = some x) :
    x ∈ m.values := by
  obtain ⟨l, hl⟩ := m
  simp only [find?, values] at h ⊢
  clear hl
  induction l with
  | nil => cases h
  | cons e rest ih =>
    rw [lookup] at h
    split at h
    · cases h
      exact List.mem_cons_self
    · exact List.mem_cons_of_mem _ (ih h)

/-- Every value is bound to a key. -/
theorem exists_find?_of_mem_values [Std.TransOrd κ] {m : SortedMap κ ν} {x : ν}
    (h : x ∈ m.values) : ∃ k, m.find? k = some x := by
  obtain ⟨⟨k, y⟩, hmem, rfl⟩ := List.mem_map.1 h
  exact ⟨k, lookup_of_mem m.ascending hmem⟩

/-! ## Insertion -/

/-- An ascending list of entries with one binding added or replaced. -/
def insertEntry (k : κ) (x : ν) : List (κ × ν) → List (κ × ν)
  | [] => [(k, x)]
  | e :: rest =>
    match compare k e.1 with
    | .lt => (k, x) :: e :: rest
    | .eq => (k, x) :: rest
    | .gt => e :: insertEntry k x rest

theorem mem_insertEntry {k : κ} {x : ν} {a : κ × ν} {l : List (κ × ν)}
    (h : a ∈ insertEntry k x l) : a = (k, x) ∨ a ∈ l := by
  induction l with
  | nil => simpa [insertEntry] using h
  | cons e rest ih =>
    simp only [insertEntry] at h
    split at h
    · simpa using h
    · rcases List.mem_cons.1 h with h | h
      · exact .inl h
      · exact .inr (List.mem_cons_of_mem _ h)
    · rcases List.mem_cons.1 h with h | h
      · exact .inr (h ▸ List.mem_cons_self)
      · exact (ih h).imp_right (List.mem_cons_of_mem _)

theorem insertEntry_ascending [Std.TransOrd κ] (k : κ) (x : ν) {l : List (κ × ν)}
    (h : l.Pairwise (fun a b => compare a.1 b.1 = .lt)) :
    (insertEntry k x l).Pairwise (fun a b => compare a.1 b.1 = .lt) := by
  induction l with
  | nil => simp [insertEntry]
  | cons e rest ih =>
    rw [List.pairwise_cons] at h
    simp only [insertEntry]
    split
    · next hlt =>
      refine List.pairwise_cons.2 ⟨fun a ha => ?_, List.pairwise_cons.2 h⟩
      rcases List.mem_cons.1 ha with rfl | ha
      · exact hlt
      · exact Std.TransCmp.lt_trans hlt (h.1 a ha)
    · next heq =>
      exact List.pairwise_cons.2
        ⟨fun a ha => Std.TransCmp.lt_of_eq_of_lt heq (h.1 a ha), h.2⟩
    · next hgt =>
      refine List.pairwise_cons.2 ⟨fun a ha => ?_, ih h.2⟩
      rcases mem_insertEntry ha with rfl | ha
      · exact Std.OrientedCmp.lt_of_gt hgt
      · exact h.1 a ha

def insert [Std.TransOrd κ] (m : SortedMap κ ν) (k : κ) (x : ν) : SortedMap κ ν :=
  ⟨insertEntry k x m.entries, insertEntry_ascending k x m.ascending⟩

theorem mem_values_insert [Std.TransOrd κ] {m : SortedMap κ ν} {k : κ} {x y : ν}
    (h : y ∈ (m.insert k x).values) : y = x ∨ y ∈ m.values := by
  obtain ⟨e, hmem, rfl⟩ := List.mem_map.1 h
  rcases mem_insertEntry hmem with rfl | hmem
  · exact .inl rfl
  · exact .inr (List.mem_map_of_mem hmem)

theorem find?_insert_self [Std.TransOrd κ] (m : SortedMap κ ν) (k : κ) (x : ν) :
    (m.insert k x).find? k = some x := by
  obtain ⟨l, hl⟩ := m
  simp only [find?, insert]
  clear hl
  induction l with
  | nil => simp [insertEntry, lookup]
  | cons e rest ih =>
    simp only [insertEntry]
    split
    · simp [lookup]
    · simp [lookup]
    · next hgt => simp [lookup, hgt, ih]

theorem find?_insert_of_ne [Std.TransOrd κ] (m : SortedMap κ ν) {k j : κ} (x : ν)
    (h : compare j k ≠ .eq) : (m.insert k x).find? j = m.find? j := by
  obtain ⟨l, hl⟩ := m
  simp only [find?, insert]
  clear hl
  induction l with
  | nil => simp [insertEntry, lookup, h]
  | cons e rest ih =>
    simp only [insertEntry]
    split
    · simp [lookup, h]
    · next heq =>
      have hne : compare j e.1 ≠ .eq := fun hj =>
        h (Std.TransCmp.eq_trans hj (Std.OrientedCmp.eq_symm heq))
      simp [lookup, h, hne]
    · simp [lookup, ih]

/-- The bindings of a list; of several for one key the last counts. -/
def ofList [Std.TransOrd κ] (l : List (κ × ν)) : SortedMap κ ν :=
  l.foldl (fun m e => m.insert e.1 e.2) empty

/-- A binding behind all others goes to the end. -/
theorem insertEntry_last [Std.TransOrd κ] {k : κ} {x : ν} {l : List (κ × ν)}
    (h : ∀ e ∈ l, compare e.1 k = .lt) : insertEntry k x l = l ++ [(k, x)] := by
  induction l with
  | nil => rfl
  | cons e l ih =>
    have hgt : compare k e.1 = .gt := Std.OrientedCmp.gt_of_lt (h e List.mem_cons_self)
    simp [insertEntry, hgt, ih fun a ha => h a (List.mem_cons_of_mem e ha)]

theorem entries_foldl_insert [Std.TransOrd κ] (l : List (κ × ν)) (m : SortedMap κ ν)
    (h : (m.entries ++ l).Pairwise (fun a b => compare a.1 b.1 = .lt)) :
    (l.foldl (fun m e => m.insert e.1 e.2) m).entries = m.entries ++ l := by
  induction l generalizing m with
  | nil => simp
  | cons e l ih =>
    have hlast : (m.insert e.1 e.2).entries = m.entries ++ [e] :=
      insertEntry_last fun a ha => (List.pairwise_append.1 h).2.2 a ha e List.mem_cons_self
    rw [List.foldl_cons, ih _ (by rw [hlast]; simpa using h), hlast]
    simp

/-- A map is the map of its entries. -/
theorem ofList_entries [Std.TransOrd κ] (m : SortedMap κ ν) : ofList m.entries = m := by
  apply ext_entries
  rw [ofList, entries_foldl_insert _ _ (by simpa [empty] using m.ascending)]
  rfl

/-! ## Removal -/

def erase (m : SortedMap κ ν) (k : κ) : SortedMap κ ν :=
  ⟨m.entries.filter (fun e => compare k e.1 != .eq), m.ascending.filter _⟩

theorem find?_erase_self (m : SortedMap κ ν) (k : κ) : (m.erase k).find? k = none := by
  obtain ⟨l, hl⟩ := m
  simp only [find?, erase]
  clear hl
  induction l with
  | nil => rfl
  | cons e rest ih =>
    by_cases he : compare k e.1 = .eq
    · simp [he, ih]
    · simp [he, lookup, ih]

theorem find?_erase_of_ne [Std.TransOrd κ] (m : SortedMap κ ν) {k j : κ}
    (h : compare j k ≠ .eq) : (m.erase k).find? j = m.find? j := by
  obtain ⟨l, hl⟩ := m
  simp only [find?, erase]
  clear hl
  induction l with
  | nil => rfl
  | cons e rest ih =>
    by_cases he : compare k e.1 = .eq
    · have hne : compare j e.1 ≠ .eq := fun hj =>
        h (Std.TransCmp.eq_trans hj (Std.OrientedCmp.eq_symm he))
      simp [he, lookup, hne, ih]
    · simp [he, lookup, ih]

/-! ## Every value at once -/

/-- The map with each value replaced. -/
def mapValues (f : ν → μ) (m : SortedMap κ ν) : SortedMap κ μ :=
  ⟨m.entries.map (fun e => (e.1, f e.2)), List.Pairwise.map _ (fun _ _ h => h) m.ascending⟩

end SortedMap

end QuantitySurvey
