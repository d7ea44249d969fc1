import QuantitySurvey.Disk.Path
import QuantitySurvey.Proofs.Disk.Reading

/-! # Where siblings lead

A path to a file ends in its name. The path of a sibling has a longer name in that place, so it
leads to another file of the same directory, if it leads to a file at all.

* `exists_endsIn`: a path that leads to a name ends in one.
* `EndsIn.sibling`: so does that of its sibling.
* `key?_sibling`: what the two lead to.
-/

set_option autoImplicit false

namespace QuantitySurvey.Disk

/-- A path is a front, which is empty or ends with a slash, and a name. -/
structure EndsIn (path : String) (front name : List Char) : Prop where
  chars : path.toList = front ++ name
  front : front = [] ∨ ∃ way, front = way ++ ['/']
  ne_nil : name ≠ []
  noSlash : '/' ∉ name

/-- The steps of a path up to its name. -/
def steps (front : List Char) : List String := ((front.splitOn '/').map String.ofList).dropLast

variable {d : Disk} {path : String} {front name : List Char}

namespace EndsIn

theorem split (h : EndsIn path front name) :
    (path.toList.splitOn '/').map String.ofList = steps front ++ [String.ofList name] := by
  rw [h.chars]
  rcases h.front with rfl | ⟨way, rfl⟩
  · rw [List.nil_append, List.splitOn_eq_singleton h.noSlash]
    rfl
  · have hname : (way ++ ['/'] ++ name).splitOn '/' = way.splitOn '/' ++ [name] := by
      rw [List.append_assoc, List.singleton_append, List.splitOn_append_cons_self,
        List.splitOn_eq_singleton h.noSlash]
    have hway : (way ++ ['/']).splitOn '/' = way.splitOn '/' ++ [[]] := by
      rw [List.splitOn_append_cons_self]
      rfl
    rw [hname, steps, hway, List.map_append, List.map_append]
    simp

/-- What a path leads to is its name, in the directory that its steps lead to. -/
theorem place (h : EndsIn path front name) {names : List String} {slash : Bool}
    (hplace : d.place path = .ok (.name names slash)) :
    (∃ directory, d.descend (steps front) [] = .ok directory
      ∧ names = directory ++ [String.ofList name]) ∧ name ≠ ['.'] ∧ name ≠ ['.', '.'] := by
  have hname : (String.ofList name == "") = false := by
    have hne : String.ofList name ≠ "" := by
      intro he
      have := congrArg String.toList he
      rw [String.toList_ofList] at this
      exact h.ne_nil this
    simpa using hne
  unfold Disk.place at hplace
  split at hplace
  · cases hplace
  · split at hplace
    · cases hplace
    · split at hplace
      · cases hplace
      · rw [h.split, List.reverse_append, List.reverse_singleton, List.singleton_append,
          List.dropWhile_cons_of_neg (by simp [hname])] at hplace
        dsimp only at hplace
        rw [List.reverse_reverse] at hplace
        cases hdescend : d.descend (steps front) [] with
        | error e =>
          rw [hdescend] at hplace
          cases hplace
        | ok directory =>
          rw [hdescend] at hplace
          simp only [bind, Except.bind, pure, Except.pure, Bool.or_eq_true, decide_eq_true_eq]
            at hplace
          split at hplace
          · cases hplace
          · next hdots =>
            split at hplace
            · cases hplace
            · cases hplace
              refine ⟨⟨directory, rfl, rfl⟩, ?_, ?_⟩
              · exact fun h => hdots (.inl (by rw [h]))
              · exact fun h => hdots (.inr (by rw [h]))

end EndsIn

/-- A path that leads to a name has no slash at its end. -/
theorem getLast?_of_place {names : List String} (h : d.place path = .ok (.name names false)) :
    path.toList ≠ [] ∧ path.toList.getLast? ≠ some '/' := by
  unfold Disk.place at h
  split at h
  · cases h
  · next hempty =>
    refine ⟨fun hnil => hempty (String.toList_eq_nil_iff.1 hnil), fun hlast => ?_⟩
    split at h
    · cases h
    · split at h
      · cases h
      · rw [hlast] at h
        dsimp only at h
        split at h
        · cases h
        · next last before _ =>
          cases hdescend : d.descend before.reverse [] with
          | error e =>
            rw [hdescend] at h
            cases h
          | ok directory =>
            rw [hdescend] at h
            simp only [bind, Except.bind, pure, Except.pure] at h
            split at h
            · cases h
            · split at h <;> cases h

theorem exists_endsIn {names : List String} (h : d.place path = .ok (.name names false)) :
    ∃ front name, EndsIn path front name := by
  obtain ⟨hne, hlast⟩ := getLast?_of_place h
  let isLetter : Char → Bool := (· != '/')
  let cs := path.toList.reverse
  refine ⟨(cs.dropWhile isLetter).reverse, (cs.takeWhile isLetter).reverse, ?_, ?_, ?_, ?_⟩
  · rw [← List.reverse_append, List.takeWhile_append_dropWhile, List.reverse_reverse]
  · cases hdrop : cs.dropWhile isLetter with
    | nil => exact .inl rfl
    | cons c rest =>
      have hc : isLetter c = false := by
        have := List.head?_dropWhile_not isLetter cs
        simpa [hdrop] using this
      have hslash : c = '/' := by simpa [isLetter] using hc
      exact .inr ⟨rest.reverse, by rw [List.reverse_cons, hslash]⟩
  · cases hcs : cs with
    | nil => exact absurd (List.reverse_eq_nil_iff.1 hcs) hne
    | cons c rest =>
      have hc : isLetter c = true := by
        have hhead : path.toList.getLast? = some c := by
          rw [List.getLast?_eq_head?_reverse, show path.toList.reverse = c :: rest from hcs]
          rfl
        have : c ≠ '/' := fun h => hlast (h ▸ hhead)
        simpa [isLetter] using this
      simp [hc]
  · intro hmem
    have := List.all_eq_true.1 List.all_takeWhile _ (List.mem_reverse.1 hmem)
    simp [isLetter] at this

/-! ## Siblings -/

namespace EndsIn

variable (h : EndsIn path front name) (hdot : name ≠ ['.']) (hdots : name ≠ ['.', '.'])
include h hdot

theorem trimmedBackwards_reverse :
    trimmedBackwards path.toList.reverse = path.toList.reverse := by
  rw [h.chars, List.reverse_append]
  -- the name, written backwards, has a first letter, and a second one if that is a dot
  cases hname : name.reverse with
  | nil => exact absurd (List.reverse_eq_nil_iff.1 hname) h.ne_nil
  | cons c rest =>
    have hmem : ∀ x ∈ c :: rest, x ≠ '/' := by
      intro x hx hslash
      rw [← hname, List.mem_reverse, hslash] at hx
      exact h.noSlash hx
    rw [List.cons_append, trimmedBackwards]
    · intro other heq
      exact hmem c List.mem_cons_self (List.cons.inj heq).1
    · intro other heq
      obtain ⟨rfl, hrest⟩ := List.cons.inj heq
      cases rest with
      | nil =>
        have := congrArg List.reverse hname
        rw [List.reverse_reverse] at this
        exact hdot this
      | cons c' rest =>
        rw [List.cons_append] at hrest
        exact hmem c' (by simp) (List.cons.inj hrest).1

include hdots

theorem fileName?_eq : fileName? path = some (String.ofList name) := by
  have htake : path.toList.reverse.takeWhile (· != '/') = name.reverse := by
    rw [h.chars, List.reverse_append]
    have hall : ∀ c ∈ name.reverse, (c != '/') = true := by
      intro c hc
      have : c ≠ '/' := fun hslash => h.noSlash (hslash ▸ List.mem_reverse.1 hc)
      simpa using this
    rw [List.takeWhile_append_of_pos hall]
    rcases h.front with rfl | ⟨way, rfl⟩
    · simp
    · simp
  unfold fileName?
  rw [h.trimmedBackwards_reverse hdot, htake, List.reverse_reverse]
  simp [h.ne_nil, hdot, hdots]

/-- The sibling of a path ends in a longer name. -/
theorem sibling {part : String} (hpart : '/' ∉ part.toList) :
    EndsIn (sibling part path) front (name ++ '.' :: part.toList) where
  chars := by
    unfold Disk.sibling
    rw [h.fileName?_eq hdot hdots, h.trimmedBackwards_reverse hdot, List.reverse_reverse, h.chars]
    simp [String.toList_append]
  front := h.front
  ne_nil := by simp
  noSlash := by
    rw [List.mem_append, List.mem_cons, not_or, not_or]
    exact ⟨h.noSlash, by decide, hpart⟩

end EndsIn

/-- The names of a path and of its sibling, if they lead to names. -/
theorem key?_sibling {k : String} (h : d.key? path = some k) :
    ∃ directory name, k = key (directory ++ [name]) ∧ ∀ (part k' : String), '/' ∉ part.toList →
      d.key? (sibling part path) = some k' → k' = key (directory ++ [name ++ "." ++ part]) := by
  have hkey : ∀ {path k}, d.key? path = some k →
      ∃ names, d.place path = .ok (.name names false) ∧ k = key names := by
    intro path k hk
    unfold Disk.key? at hk
    split at hk
    · next names hplace => exact ⟨names, hplace, (Option.some.inj hk).symm⟩
    · cases hk
  obtain ⟨names, hplace, rfl⟩ := hkey h
  obtain ⟨front, name, hends⟩ := exists_endsIn hplace
  obtain ⟨⟨directory, hdescend, rfl⟩, hdot, hdots⟩ := hends.place hplace
  refine ⟨directory, String.ofList name, rfl, fun part k' hpart hk' => ?_⟩
  obtain ⟨names', hplace', rfl⟩ := hkey hk'
  obtain ⟨⟨directory', hdescend', rfl⟩, -⟩ := (hends.sibling hdot hdots hpart).place hplace'
  rw [hdescend] at hdescend'
  obtain rfl := Except.ok.inj hdescend'
  have hname : String.ofList (name ++ '.' :: part.toList) = String.ofList name ++ "." ++ part := by
    apply String.toList_inj.1
    simp
  rw [hname]

theorem key_inj {directory : List String} {a b : String}
    (h : key (directory ++ [a]) = key (directory ++ [b])) : a = b := by
  unfold key at h
  by_cases hnil : directory = []
  · rw [hnil, List.nil_append, List.nil_append, String.intercalate_singleton,
      String.intercalate_singleton] at h
    exact h
  · rw [String.intercalate_append_of_ne_nil hnil (by simp),
      String.intercalate_append_of_ne_nil hnil (by simp), String.intercalate_singleton,
      String.intercalate_singleton] at h
    exact (String.append_right_inj _).1 h

/-- A path and its sibling lead to different names. -/
theorem key?_sibling_ne {k : String} (h : d.key? path = some k) {part : String}
    (hpart : '/' ∉ part.toList) : d.key? (sibling part path) ≠ some k := by
  intro hsibling
  obtain ⟨directory, name, hk, hother⟩ := key?_sibling h
  have hname : name = name ++ "." ++ part := key_inj (hk.symm.trans (hother part k hpart hsibling))
  have := congrArg (List.length ∘ String.toList) hname
  simp at this

end QuantitySurvey.Disk
