import QuantitySurvey.Proofs.Measure.Units
import QuantitySurvey.Proofs.Formula.Recursion

/-! # Parts of dimension texts

A dimension text is cut at its separators, and its last part where the unit starts. That is where its
first letter stands, so a last size that is written with an exponent is cut before the mark of the
exponent, and what is left of it names no unit. In every other position such a size is read.

* `read?_of_compact`: what is read of a text whose parts are known.
* `Joined`: sizes with separators between them.
* `sizes_in_any_order`: sizes can be put in any order if none of them has an exponent, and no further.
-/

set_option autoImplicit false

namespace QuantitySurvey.Measure.Dimensions

open Text (lowered)
open Decimal (isPlain IsNumeral)
open Formula (IsExponent takeWhile_run dropWhile_run mapM_eq_some_map)

/-! ## Texts whose parts are known -/

theorem intercalate_concat_append (front : List (List Char)) (last more : List Char) :
    ['x'].intercalate (front ++ [last]) ++ more = ['x'].intercalate (front ++ [last ++ more]) := by
  induction front with
  | nil => simp
  | cons part front ih =>
    cases front with
    | nil => simp [List.intercalate_cons_cons]
    | cons part' front =>
      simp only [List.cons_append, List.intercalate_cons_cons, List.append_assoc] at ih ⊢
      rw [ih]

/-- What is read of a text is read of its parts, if the unit starts with the first letter of the last
one. -/
theorem read?_of_compact {s : String} {front : List (List Char)} {number suffix : List Char}
    (hs : compact s.toList = ['x'].intercalate (front ++ [number ++ suffix]))
    (hfront : ∀ part ∈ front, 'x' ∉ part) (hlast : 'x' ∉ number ++ suffix)
    (hnumber : ∀ c ∈ number, c.isAlpha = false) (hsuffix : ∀ c ∈ suffix.head?, c.isAlpha = true) :
    read? s = if front.length = 1 ∨ front.length = 2 then
        (suffix? suffix).bind fun unit =>
          ((front ++ [number]).mapM size?).map fun sizes => ⟨sizes, unit⟩
      else none := by
  have hparts : ∀ part ∈ front ++ [number ++ suffix], 'x' ∉ part :=
    List.forall_mem_append.2 ⟨hfront, by rwa [List.forall_mem_singleton]⟩
  have hsplit : (compact s.toList).splitOn 'x' = front ++ [number ++ suffix] := by
    rw [hs, List.splitOn_intercalate 'x' hparts (by simp)]
  have hrun : ∀ c ∈ number, (!c.isAlpha) = true := fun c hc => by rw [hnumber c hc, Bool.not_false]
  have hend : ∀ c ∈ suffix.head?, (!c.isAlpha) = false := fun c hc => by
    rw [hsuffix c hc, Bool.not_true]
  unfold read?
  dsimp only
  rw [hsplit, List.getLastD_concat, List.dropLast_concat, takeWhile_run hrun hend,
    dropWhile_run hrun hend, List.length_append, List.length_singleton]
  by_cases hcount : front.length = 1 ∨ front.length = 2
  · rw [if_pos hcount, if_neg (by simp only [Bool.or_eq_true, decide_eq_true_eq]; omega)]
    cases suffix? suffix with
    | none => rfl
    | some unit => cases (front ++ [number]).mapM size? <;> rfl
  · rw [if_neg hcount, if_pos (by simp only [Bool.or_eq_true, decide_eq_true_eq]; omega)]
    rfl

/-! ## Joined parts -/

/-- Parts with a separator between any two of them. -/
inductive Joined : List (List Char) → List Char → Prop
  | nil : Joined [] []
  | single (part : List Char) : Joined [part] part
  | cons {part next : List Char} {parts : List (List Char)} {separator : Char} {cs : List Char}
      (separates : separator ∈ ['x', 'X', '×']) (more : Joined (next :: parts) cs) :
      Joined (part :: next :: parts) (part ++ separator :: cs)

theorem joined_intercalate (parts : List (List Char)) : Joined parts (['x'].intercalate parts) := by
  induction parts with
  | nil => exact .nil
  | cons part parts ih =>
    cases parts with
    | nil => simpa using Joined.single part
    | cons next parts =>
      rw [List.intercalate_cons_cons, List.append_assoc]
      exact .cons (by simp) ih

/-- All separators become one, and the parts are compacted one by one. -/
theorem compact_joined {parts : List (List Char)} {cs : List Char} (h : Joined parts cs) :
    compact cs = ['x'].intercalate (parts.map compact) := by
  induction h with
  | nil => rfl
  | single part => simp
  | @cons part next parts separator cs separates more ih =>
    have hseparator : compact [separator] = ['x'] := by
      simp only [List.mem_cons, List.not_mem_nil, or_false] at separates
      rcases separates with rfl | rfl | rfl <;> decide +kernel
    rw [← List.singleton_append, compact_append, compact_append, hseparator, ih]
    simp only [List.map_cons, List.intercalate_cons_cons, List.append_assoc]

/-! ## Sizes -/

theorem exists_numeral_of_size? {cs : List Char} {x : Float} (h : size? cs = some x) :
    ∃ plain exponent, cs = plain ++ exponent ∧ IsNumeral plain exponent := by
  obtain ⟨hread, hsize⟩ := Option.filter_eq_some_iff.1 h
  exact Decimal.exists_numeral_of_read? hread (Bool.and_eq_true_iff.1 hsize).1

theorem size?_compact {cs : List Char} {x : Float} (h : size? cs = some x) :
    size? (compact cs) = some x := by
  obtain ⟨plain, exponent, rfl, hnumeral⟩ := exists_numeral_of_size? h
  rw [compact_of_isNumeral hnumeral, size?, Decimal.read?_lowered]
  exact h

theorem not_mem_of_isPlain {cs : List Char} (h : ∀ c ∈ cs, isPlain c = true) : 'x' ∉ cs :=
  fun hx => absurd (h _ hx) (by decide)

theorem not_mem_compact_size {cs : List Char} {x : Float} (h : size? cs = some x) :
    'x' ∉ compact cs := by
  obtain ⟨plain, exponent, rfl, hnumeral⟩ := exists_numeral_of_size? h
  rw [compact_append, compact_of_isPlain hnumeral.plain, List.mem_append, not_or]
  refine ⟨not_mem_of_isPlain hnumeral.plain, ?_⟩
  rcases hnumeral.exponent with rfl | hexponent
  · simp
  · obtain ⟨rest, hcompact, -, -, hplain⟩ := compact_of_isExponent hexponent
    rw [hcompact, List.mem_cons, not_or]
    exact ⟨by decide, not_mem_of_isPlain hplain⟩

/-- No size has the sign for kelvin in it. -/
theorem size?_kelvin (cs : List Char) : size? (cs ++ ['\u212a']) = none := by
  rw [Option.eq_none_iff_forall_ne_some]
  intro x hx
  obtain ⟨plain, exponent, hparts, hnumeral⟩ := exists_numeral_of_size? hx
  have hmem : '\u212a' ∈ plain ++ exponent := by
    rw [← hparts]
    simp
  rcases List.mem_append.1 hmem with hmem | hmem
  · exact absurd (hnumeral.plain _ hmem) (by decide)
  · rcases hnumeral.exponent with rfl | hexponent
    · cases hmem
    · obtain ⟨mark, rest, rfl, hmark, -, hplain⟩ := exists_plain_of_isExponent hexponent
      rcases List.mem_cons.1 hmem with rfl | hmem
      · revert hmark
        decide
      · exact absurd (hplain _ hmem) (by decide)

/-! ## Order -/

/-- Whether a number is written with an exponent. -/
def hasExponent (cs : List Char) : Bool :=
  cs.any fun c => c == 'e' || c == 'E'

theorem hasExponent_of_isPlain {cs : List Char} (h : ∀ c ∈ cs, isPlain c = true) :
    hasExponent cs = false := by
  rw [hasExponent, List.any_eq_false]
  intro c hc hmark
  have hplain := h c hc
  simp only [Bool.or_eq_true, beq_iff_eq] at hmark
  rcases hmark with rfl | rfl <;> exact absurd hplain (by decide)

theorem hasExponent_of_isExponent {plain exponent : List Char} (h : IsExponent exponent) :
    hasExponent (plain ++ exponent) = true := by
  obtain ⟨mark, rest, rfl, hmark, -⟩ := exists_plain_of_isExponent h
  rw [hasExponent, List.any_append, List.any_cons]
  rcases hmark with rfl | rfl <;> simp

/-- What names a unit is compacted to an ending that names it too, or it has the sign for kelvin. -/
theorem compact_of_suffix? {cs : List Char} {unit : Option Unit} (h : suffix? cs = some unit) :
    (suffix? (compact cs) = some unit ∧ IsEnding (compact cs)) ∨ compact cs = ['\u212a', 'm'] := by
  unfold suffix? at h
  split at h
  · next hempty =>
    obtain rfl := List.isEmpty_iff.1 hempty
    exact .inl ⟨h, isEnding_nil⟩
  · split at h
    · next u hread =>
      split at h
      · next hfamily =>
        cases h
        refine (compact_of_read? hread).imp_left ?_
        rintro ⟨spelling, hmem, hcompact⟩
        rw [hcompact]
        exact ⟨(suffix?_compact_spelling _ hmem).trans (if_pos hfamily),
          isEnding_compact_spelling hmem⟩
      · cases h
    · cases h

theorem not_mem_compact_suffix {cs : List Char} {unit : Option Unit} (h : suffix? cs = some unit) :
    'x' ∉ compact cs := by
  rcases compact_of_suffix? h with ⟨-, hending⟩ | hkelvin
  · exact hending.unseparated
  · rw [hkelvin]
    decide

theorem mapM_concat_eq_none {α β : Type} {f : α → Option β} {a : α} (h : f a = none) (as : List α) :
    (as ++ [a]).mapM f = none := by
  rw [List.mapM_append, List.mapM_cons, h]
  cases as.mapM f <;> rfl

/-- The sizes, with one separator, and the text of the unit. -/
def written (sizes : List (List Char × Float)) (u : List Char) : String :=
  String.ofList (['x'].intercalate (sizes.map Prod.fst) ++ u)

section Order

variable {front sizes : List (List Char × Float)} {last : List Char × Float} {u : List Char}
  {unit : Option Unit}

theorem read?_written_of_cut (count : front.length = 1 ∨ front.length = 2)
    (reads : ∀ s ∈ front ++ [last], size? s.1 = some s.2) (names : suffix? u = some unit)
    {number suffix : List Char} (hcut : compact last.1 ++ compact u = number ++ suffix)
    (hnumber : ∀ c ∈ number, c.isAlpha = false) (hsuffix : ∀ c ∈ suffix.head?, c.isAlpha = true) :
    read? (written (front ++ [last]) u) =
      (suffix? suffix).bind fun unit =>
        (((front.map fun s => compact s.1) ++ [number]).mapM size?).map fun sizes =>
          ⟨sizes, unit⟩ := by
  have hcompact : compact (written (front ++ [last]) u).toList =
      ['x'].intercalate ((front.map fun s => compact s.1) ++ [number ++ suffix]) := by
    rw [written, String.toList_ofList, compact_append, compact_joined (joined_intercalate _),
      List.map_append, List.map_append, List.map_map, ← hcut, ← intercalate_concat_append]
    rfl
  have hfront : ∀ part ∈ front.map fun s => compact s.1, 'x' ∉ part := by
    intro part hpart
    obtain ⟨s, hs, rfl⟩ := List.mem_map.1 hpart
    exact not_mem_compact_size (reads s (List.mem_append_left _ hs))
  have hlast : 'x' ∉ number ++ suffix := by
    rw [← hcut, List.mem_append, not_or]
    exact ⟨not_mem_compact_size (reads last (by simp)), not_mem_compact_suffix names⟩
  rw [read?_of_compact hcompact hfront hlast hnumber hsuffix, if_pos (by rwa [List.length_map])]

/-- The mark of an exponent in the last size is taken for the first letter of a unit. -/
theorem read?_written (count : front.length = 1 ∨ front.length = 2)
    (reads : ∀ s ∈ front ++ [last], size? s.1 = some s.2) (names : suffix? u = some unit) :
    read? (written (front ++ [last]) u) =
      if hasExponent last.1 = true ∨ compact u = ['\u212a', 'm'] then none
      else some ⟨(front ++ [last]).map Prod.snd, unit⟩ := by
  obtain ⟨plain, exponent, hparts, hnumeral⟩ := exists_numeral_of_size? (reads last (by simp))
  have hplain : ∀ c ∈ plain, c.isAlpha = false := fun c hc =>
    isAlpha_of_isPlain (hnumeral.plain c hc)
  have hcompact : compact last.1 = plain ++ compact exponent := by
    rw [hparts, compact_append, compact_of_isPlain hnumeral.plain]
  rcases hnumeral.exponent with rfl | hexponent
  · rw [compact_nil, List.append_nil] at hcompact
    rw [hparts, List.append_nil, hasExponent_of_isPlain hnumeral.plain]
    rcases compact_of_suffix? names with ⟨hsuffix, hending⟩ | hkelvin
    · have hother : compact u ≠ ['\u212a', 'm'] := by
        intro hkelvin
        rw [hkelvin] at hending
        exact absurd (hending.letter '\u212a' rfl) (by decide)
      have hsizes : ((front ++ [last]).map fun s => compact s.1).mapM size? =
          some ((front ++ [last]).map Prod.snd) := by
        rw [List.mapM_map]
        exact mapM_eq_some_map fun s hs => size?_compact (reads s hs)
      rw [List.map_append, List.map_singleton, hcompact] at hsizes
      rw [read?_written_of_cut count reads names (by rw [hcompact]) hplain hending.letter,
        hsuffix, Option.bind_some, hsizes, if_neg (by simp [hother])]
      rfl
    · -- The sign for kelvin is no ASCII letter, so it is left at the end of the number.
      have hnumber : ∀ c ∈ plain ++ ['\u212a'], c.isAlpha = false :=
        List.forall_mem_append.2 ⟨hplain, by simp only [List.forall_mem_singleton]; decide⟩
      have hcut : compact last.1 ++ compact u = plain ++ ['\u212a'] ++ ['m'] := by
        simp [hcompact, hkelvin]
      rw [read?_written_of_cut count reads names hcut hnumber (fun c hc => by cases hc; rfl),
        if_pos (.inr hkelvin), mapM_concat_eq_none (size?_kelvin plain)]
      cases suffix? ['m'] <;> rfl
  · obtain ⟨rest, hrest, -, hne, hafter⟩ := compact_of_isExponent hexponent
    have hcut : compact last.1 ++ compact u = plain ++ 'e' :: (rest ++ compact u) := by
      rw [hcompact, hrest, List.append_assoc, List.cons_append]
    rw [read?_written_of_cut count reads names hcut hplain (fun c hc => by cases hc; rfl),
      suffix?_exponent hne hafter, hparts, hasExponent_of_isExponent hexponent, if_pos (.inl rfl)]
    rfl

/-- Sizes that are read in some order are read in another one, unless the last of them has an
exponent there. -/
theorem read?_written_of_perm (count : sizes.length = 2 ∨ sizes.length = 3)
    (reads : ∀ s ∈ sizes, size? s.1 = some s.2) (names : suffix? u = some unit)
    (accepted : (read? (written sizes u)).isSome = true) {order : List (List Char × Float)}
    (horder : order.Perm sizes) :
    read? (written order u) =
      if order.getLast?.any (fun s => hasExponent s.1) then none
      else some ⟨order.map Prod.snd, unit⟩ := by
  have hlengths : ∀ {front : List (List Char × Float)} {last : List Char × Float},
      (front ++ [last]).Perm sizes → front.length = 1 ∨ front.length = 2 := by
    intro front last horder
    have hlength := horder.length_eq
    rw [List.length_append, List.length_singleton] at hlength
    omega
  -- No order at all is read with a unit that has the sign for kelvin.
  have hkelvin : compact u ≠ ['\u212a', 'm'] := by
    intro hkelvin
    rcases List.eq_nil_or_concat' sizes with rfl | ⟨front, last, rfl⟩
    · simp at count
    · rw [read?_written (hlengths (.refl _)) reads names, if_pos (.inr hkelvin)] at accepted
      cases accepted
  rcases List.eq_nil_or_concat' order with rfl | ⟨front, last, rfl⟩
  · rw [← horder.length_eq] at count
    simp at count
  · rw [read?_written (hlengths horder) (fun s hs => reads s (horder.mem_iff.1 hs)) names]
    simp [hkelvin]

/-- Two or three sizes that are read with a unit are read with it in another order, each where it
stands then, unless the last of them has an exponent. So they are read in any order exactly if none of
them has one. -/
theorem sizes_in_any_order (count : sizes.length = 2 ∨ sizes.length = 3)
    (reads : ∀ s ∈ sizes, size? s.1 = some s.2) (names : suffix? u = some unit)
    (accepted : (read? (written sizes u)).isSome = true) :
    (∀ order, order.Perm sizes →
      read? (written order u) =
        if order.getLast?.any (fun s => hasExponent s.1) then none
        else some ⟨order.map Prod.snd, unit⟩) ∧
    ((∀ order, order.Perm sizes → (read? (written order u)).isSome = true) ↔
      ∀ s ∈ sizes, hasExponent s.1 = false) := by
  have hread := fun (order : List (List Char × Float)) (horder : order.Perm sizes) =>
    read?_written_of_perm count reads names accepted horder
  refine ⟨hread, ?_, ?_⟩
  · intro haccepted s hs
    obtain ⟨before, after, rfl⟩ := List.append_of_mem hs
    have horder : (before ++ after ++ [s]).Perm (before ++ s :: after) :=
      (List.perm_append_singleton s (before ++ after)).trans List.perm_middle.symm
    have hsome := haccepted _ horder
    rw [hread _ horder, List.getLast?_concat] at hsome
    cases hmark : hasExponent s.1 with
    | false => rfl
    | true => simp [hmark] at hsome
  · intro hplain order horder
    have hlast : order.getLast?.any (fun s => hasExponent s.1) = false := by
      rw [Option.any_eq_false]
      intro s hs
      exact hplain s (horder.mem_iff.1 (List.mem_of_getLast? hs))
    rw [hread order horder, hlast]
    rfl

/-- One size with an exponent, and one without: the exponent is read in front only. -/
theorem sample_sizes_in_order :
    read? (written [("1e3".toList, 1000), ("2".toList, 2)] "mm".toList) =
        some ⟨[1000, 2], some .millimetre⟩ ∧
      read? (written [("2".toList, 2), ("1e3".toList, 1000)] "mm".toList) = none := by
  have hreads : ∀ s ∈ [("1e3".toList, (1000 : Float)), ("2".toList, 2)], size? s.1 = some s.2 := by
    decide +kernel
  have hnames : suffix? "mm".toList = some (some .millimetre) := by decide +kernel
  have hread := (sizes_in_any_order (.inl rfl) hreads hnames (by decide +kernel)).1
  exact ⟨hread _ (.refl _), hread _ (.swap _ _ _)⟩

end Order

end QuantitySurvey.Measure.Dimensions
