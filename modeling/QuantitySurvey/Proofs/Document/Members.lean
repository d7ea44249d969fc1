import QuantitySurvey.Document.Project
import QuantitySurvey.Proofs.Json.RoundTrip

/-! # Members of written records

A record is written as a list of members, some of which are left out, and decoded name by name. The
lemmas of this module let `simp` find the members of a written record, and say what lists and maps
are read as.

* `allOf_cons`, `allOf_append`, `allOf_whenSome`: the values of the members with a name.
* `optional?_map`, `list?_ofList`, `map?_entries`: what members hold is read back if its parts are.
-/

set_option autoImplicit false

namespace QuantitySurvey

/-! ## Lists of optional results -/

/-- Data that are all read back, or some not. -/
theorem mapM_eq_ite_self {α : Type} {f : α → Option α} {p : α → Bool} {as : List α}
    (h : ∀ a ∈ as, f a = if p a then some a else none) :
    as.mapM f = if as.all p then some as else none := by
  induction as with
  | nil => rfl
  | cons a as ih =>
    rw [List.mapM_cons, h a List.mem_cons_self, ih fun b hb => h b (List.mem_cons_of_mem a hb)]
    cases hp : p a <;> cases hall : as.all p <;> simp [hp, hall]

theorem mapM_eq_some_self {α : Type} {f : α → Option α} {as : List α}
    (h : ∀ a ∈ as, f a = some a) : as.mapM f = some as := by
  have hall : as.all (fun _ => true) = true := List.all_eq_true.2 fun _ _ => rfl
  rw [mapM_eq_ite_self fun a ha => (h a ha).trans (if_pos rfl).symm, if_pos hall]

namespace Json

/-! ## Containers as they are read -/

theorem asReadElements_eq_map (js : List Json) : asReadElements js = js.map asRead := by
  induction js with
  | nil => rfl
  | cons j js ih => rw [asReadElements, ih, List.map_cons]

theorem asReadMembers_eq_map (ms : List (String × Json)) :
    asReadMembers ms = ms.map fun m => (m.1, m.2.asRead) := by
  induction ms with
  | nil => rfl
  | cons m ms ih => rw [asReadMembers, ih, List.map_cons]

@[simp] theorem asRead_array (js : List Json) : (array js).asRead = array (js.map asRead) := by
  rw [asRead, asReadElements_eq_map]

@[simp] theorem asRead_object (ms : List (String × Json)) :
    (object ms).asRead = object (ms.map fun m => (m.1, m.2.asRead)) := by
  rw [asRead, asReadMembers_eq_map]

@[simp] theorem asRead_string (s : String) : (string s).asRead = string s := rfl

theorem asRead_number {x : Float} (h : x.isFinite = true) : (number x).asRead = number x :=
  if_pos h

theorem asRead_count {n : Nat} (h : n < UInt64.size) : (integer n).asRead = integer n :=
  value_natural h

/-! ## Finding members -/

/-- The member of a record with a name, as far as it is given, and unless it is given twice. -/
def member? (name : String) (ms : List (String × Json)) : Option (Option Json) :=
  match allOf name ms with
  | [] => some none
  | [j] => some (some j)
  | _ => none

@[simp] theorem namedRecord?_object (names : List String) (ms : List (String × Json)) :
    namedRecord? names (object ms) = names.mapM fun name => member? name ms := rfl

@[simp] theorem record?_object (names : List String) (ms : List (String × Json)) :
    record? names (object ms) = names.mapM fun name => member? name ms := rfl

@[simp] theorem allOf_nil (name : String) : allOf name [] = [] := rfl

@[simp] theorem allOf_cons (name k : String) (j : Json) (ms : List (String × Json)) :
    allOf name ((k, j) :: ms) = if k = name then j :: allOf name ms else allOf name ms := by
  unfold allOf
  rw [List.filterMap_cons]
  by_cases h : k = name <;> simp [h]

@[simp] theorem allOf_append (name : String) (ms ms' : List (String × Json)) :
    allOf name (ms ++ ms') = allOf name ms ++ allOf name ms' :=
  List.filterMap_append

/-- A member that is found under a name is every member with that name. -/
theorem eq_of_member? {name : String} {ms : List (String × Json)} {j : Json} {given : Option Json}
    (hmem : (name, j) ∈ ms) (h : member? name ms = some given) : given = some j := by
  have hall : j ∈ allOf name ms := List.mem_filterMap.2 ⟨(name, j), hmem, if_pos rfl⟩
  unfold member? at h
  split at h
  · next hnil =>
    rw [hnil] at hall
    cases hall
  · next j' hone =>
    cases h
    rw [hone] at hall
    rw [List.mem_singleton.1 hall]
  · cases h

/-- A record whose first name an object has a member with. -/
theorem exists_of_record? {name : String} {names : List String} {ms : List (String × Json)} {j : Json}
    {given : List (Option Json)} (hmem : (name, j) ∈ ms)
    (h : record? (name :: names) (object ms) = some given) :
    member? name ms = some (some j) ∧ ∃ others, given = some j :: others := by
  rw [record?_object, List.mapM_cons] at h
  obtain ⟨first, hfirst, h⟩ := Option.bind_eq_some_iff.1 h
  obtain ⟨others, -, heq⟩ := Option.bind_eq_some_iff.1 h
  cases heq
  obtain rfl := eq_of_member? hmem hfirst
  exact ⟨hfirst, others, rfl⟩

/-! ## Decoding members -/

@[simp] theorem required?_some {α : Type} (decode : Json → Option α) (j : Json) :
    required? decode (some j) = decode j := rfl

@[simp] theorem orElse?_some {α : Type} (default : α) (decode : Json → Option α) (j : Json) :
    orElse? default decode (some j) = decode j := rfl

/-- A member that may be left out is read back if what it holds is read back and is not `null`. -/
theorem optional?_map {α : Type} {decode : Json → Option α} {encode : α → Json} {o : Option α}
    (h : ∀ a ∈ o, decode (encode a) = some a) (hnull : decode null = none) :
    optional? decode (o.map encode) = some o := by
  cases o with
  | none => rfl
  | some a =>
    have ha := h a rfl
    have hne : encode a ≠ null := by
      intro hencode
      rw [hencode, hnull] at ha
      cases ha
    simp only [Option.map_some, optional?, orElse?, nullable?, ha]

/-- An object that binds keys is read back if its keys and data are. -/
theorem map?_entries {κ α : Type} [Ord κ] [Std.TransOrd κ] {key : String → Option κ}
    {decode : Json → Option α} {name : κ → String} {encode : α → Json} {m : SortedMap κ α}
    (hkey : ∀ k, key (name k) = some k) (h : ∀ a ∈ m.values, decode (encode a) = some a) :
    map? key decode (object (m.entries.map fun e => (name e.1, encode e.2))) = some m := by
  have hentries : ∀ e ∈ m.entries,
      (do return (← key (name e.1), ← decode (encode e.2)) : Option (κ × α)) = some e := by
    intro e he
    rw [hkey, h e.2 (List.mem_map_of_mem he)]
    rfl
  have hmap : map? key decode (object (m.entries.map fun e => (name e.1, encode e.2)))
      = (m.entries.mapM fun e : κ × α => do
            return (← key (name e.1), ← decode (encode e.2))).bind
        fun entries => some (SortedMap.ofList entries) := by
    rw [map?, List.mapM_map]
    rfl
  rw [hmap, mapM_eq_some_self hentries, Option.bind_some, SortedMap.ofList_entries]

end Json

namespace Document

open Json

/-! ## Members that may be left out -/

@[simp] theorem map_whenSome {α : Type} (name : String) (encode : α → Json) (o : Option α) :
    (whenSome name encode o).map (fun m => (m.1, m.2.asRead))
      = whenSome name (fun a => (encode a).asRead) o := by
  cases o <;> rfl

@[simp] theorem allOf_whenSome {α : Type} (name k : String) (encode : α → Json) (o : Option α) :
    allOf name (whenSome k encode o) = if k = name then (o.map encode).toList else [] := by
  cases o <;> simp [whenSome, allOf_cons, allOf_nil]

@[simp] theorem match_toList (o : Option Json) :
    (match o.toList with
      | [] => some none
      | [j] => some (some j)
      | _ => none) = some o := by
  cases o <;> rfl

/-! ## Lists -/

section Lists

variable {α : Type} {decode : Json → Option α} {encode : α → Json} {as : List α}

theorem list?_asRead :
    list? decode (ofList encode as).asRead = as.mapM fun a => decode (encode a).asRead := by
  rw [ofList, asRead_array, List.map_map, list?, List.mapM_map]
  rfl

theorem list?_ofList (h : ∀ a ∈ as, decode (encode a).asRead = some a) :
    list? decode (ofList encode as).asRead = some as := by
  rw [list?_asRead]
  exact mapM_eq_some_self h

/-- A list is read back if each of its data is, which some condition decides. -/
theorem list?_ofList_ite {p : α → Bool}
    (h : ∀ a ∈ as, decode (encode a).asRead = if p a then some a else none) :
    list? decode (ofList encode as).asRead = if as.all p then some as else none := by
  rw [list?_asRead]
  exact mapM_eq_ite_self h

end Lists

end Document

end QuantitySurvey
