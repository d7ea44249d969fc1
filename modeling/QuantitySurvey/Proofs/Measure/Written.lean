import QuantitySurvey.Proofs.Measure.Dimensions
import QuantitySurvey.Proofs.Document.Members

/-! # Written dimensions

Sizes that are written out, with separators between them and a unit of length or nothing after them,
are read back, however the text is spaced. A number has neither a letter nor a separator in it, and a
spelling of a unit starts with a letter and has no separator in it, so that the text is cut between its
sizes and where the unit starts, and nowhere else.

* `Spaced`: a text with blanks put into it.
* `NamesUnit`: what may stand after the sizes.
* `written_dimensions_read_back`: what is read of such a text.
-/

set_option autoImplicit false

namespace QuantitySurvey.Measure.Dimensions

open Text (isBlank lowered)

/-! ## Texts -/

/-- A text, and the text with blanks put into it. -/
inductive Spaced : List Char → List Char → Prop
  | nil : Spaced [] []
  | keep {cs spaced : List Char} (c : Char) (more : Spaced cs spaced) :
      Spaced (c :: cs) (c :: spaced)
  | blank {cs spaced : List Char} {c : Char} (hblank : isBlank c = true) (more : Spaced cs spaced) :
      Spaced cs (c :: spaced)

theorem spaced_self (cs : List Char) : Spaced cs cs := by
  induction cs with
  | nil => exact .nil
  | cons c cs ih => exact .keep c ih

theorem compact_spaced {cs spaced : List Char} (h : Spaced cs spaced) :
    compact spaced = compact cs := by
  suffices hfilter : spaced.filter (fun c => !isBlank c) = cs.filter fun c => !isBlank c by
    rw [compact_eq, hfilter, ← compact_eq]
  induction h with
  | nil => rfl
  | keep c more ih => rw [List.filter_cons, List.filter_cons, ih]
  | blank hblank more ih => rw [List.filter_cons_of_neg (by simp [hblank]), ih]

/-- The spellings of a unit, and no text if there is no unit. -/
def NamesUnit : Option Unit → List Char → Prop
  | none, cs => cs = []
  | some u, cs => u.IsSpelling cs

/-- The unit is told from the last size, and it is read if it measures lengths. -/
theorem compact_of_namesUnit {unit : Option Unit} {cs : List Char} (h : NamesUnit unit cs) :
    (suffix? (compact cs) = if ∀ u ∈ unit, u.family = .length then some unit else none) ∧
      IsEnding (compact cs) := by
  cases unit with
  | none =>
    obtain rfl := h
    exact ⟨rfl, isEnding_nil⟩
  | some u =>
    obtain ⟨spelling, hmem, hspelling⟩ := h
    have hsuffix := suffix?_compact_spelling _ hmem
    rw [← compact_lowered cs, hspelling]
    exact ⟨by simpa using hsuffix, isEnding_compact_spelling hmem⟩

/-! ## Sizes -/

/-- The sizes as they are written. -/
def texts (sizes : List Float) : List (List Char) :=
  sizes.map fun x => (Decimal.text x).toList

section Sizes

variable {sizes : List Float} (finite : ∀ x ∈ sizes, x.isFinite = true)
include finite

theorem map_compact_texts : (texts sizes).map compact = texts sizes := by
  rw [texts, List.map_map]
  exact List.map_congr_left fun x hx =>
    compact_of_isPlain (Decimal.mem_text_of_isFinite (finite x hx))

theorem not_mem_texts : ∀ part ∈ texts sizes, 'x' ∉ part := by
  intro part hpart
  obtain ⟨x, hx, rfl⟩ := List.mem_map.1 hpart
  exact not_mem_of_isPlain (Decimal.mem_text_of_isFinite (finite x hx))

/-- Those that are positive are read back. -/
theorem mapM_texts (readsBack : ∀ x ∈ sizes, Decimal.read? (Decimal.text x).toList = some x) :
    (texts sizes).mapM size? = if ∀ x ∈ sizes, 0 < x then some sizes else none := by
  have hsize : ∀ x ∈ sizes, (size? ∘ fun x => (Decimal.text x).toList) x =
      if (fun x => decide (0 < x)) x then some x else none := by
    intro x hx
    rw [Function.comp_apply, size?, readsBack x hx]
    simp [Option.filter, finite x hx]
  rw [texts, List.mapM_map, mapM_eq_ite_self hsize]
  simp only [List.all_eq_true, decide_eq_true_eq]

end Sizes

/-! ## Dimensions -/

/-- Written sizes with a unit or nothing after them are read back if there are two or three of them,
if they are positive and if the unit measures lengths. Otherwise nothing is read. -/
theorem written_dimensions_read_back {sizes : List Float} {unit : Option Unit}
    {joined u cs : List Char} (finite : ∀ x ∈ sizes, x.isFinite = true)
    (readsBack : ∀ x ∈ sizes, Decimal.read? (Decimal.text x).toList = some x)
    (joins : Joined (texts sizes) joined) (names : NamesUnit unit u)
    (spaced : Spaced (joined ++ u) cs) :
    read? (String.ofList cs) =
      if (sizes.length = 2 ∨ sizes.length = 3) ∧ (∀ x ∈ sizes, 0 < x) ∧
          ∀ v ∈ unit, v.family = .length then
        some ⟨sizes, unit⟩
      else none := by
  obtain ⟨hsuffix, hending⟩ := compact_of_namesUnit names
  have hcompact : compact (String.ofList cs).toList = ['x'].intercalate (texts sizes) ++ compact u := by
    rw [String.toList_ofList, compact_spaced spaced, compact_append, compact_joined joins,
      map_compact_texts finite]
  have hparts := not_mem_texts finite
  have hsizes := mapM_texts finite readsBack
  rcases List.eq_nil_or_concat' sizes with rfl | ⟨front, last, rfl⟩
  · have hnothing : compact (String.ofList cs).toList =
        ['x'].intercalate ([] ++ [[] ++ compact u]) := by simpa [texts] using hcompact
    rw [read?_of_compact hnothing nofun hending.unseparated nofun hending.letter]
    simp
  · have hnumber : ∀ c ∈ (Decimal.text last).toList, c.isAlpha = false := fun c hc =>
      isAlpha_of_isPlain (Decimal.mem_text_of_isFinite (finite last (by simp)) c hc)
    have htexts : texts (front ++ [last]) = texts front ++ [(Decimal.text last).toList] :=
      List.map_append
    rw [htexts] at hcompact hparts hsizes
    rw [intercalate_concat_append] at hcompact
    obtain ⟨hfront, hlast⟩ := List.forall_mem_append.1 hparts
    have hcut : 'x' ∉ (Decimal.text last).toList ++ compact u := by
      rw [List.mem_append, not_or]
      exact ⟨hlast _ (List.mem_singleton_self _), hending.unseparated⟩
    have hcount : (texts front).length = 1 ∨ (texts front).length = 2 ↔
        (front ++ [last]).length = 2 ∨ (front ++ [last]).length = 3 := by
      simp [texts]
    rw [read?_of_compact hcompact hfront hcut hnumber hending.letter, hsuffix, hsizes,
      if_congr hcount rfl rfl]
    by_cases hfamily : ∀ v ∈ unit, v.family = .length
    · rw [if_pos hfamily, Option.bind_some]
      by_cases hpositive : ∀ x ∈ front ++ [last], 0 < x
      · rw [if_pos hpositive]
        exact if_congr (and_iff_left ⟨hpositive, hfamily⟩).symm rfl rfl
      · rw [if_neg hpositive]
        exact (ite_self none).trans (if_neg fun h => hpositive h.2.1).symm
    · rw [if_neg hfamily]
      exact (ite_self none).trans (if_neg fun h => hfamily h.2.2).symm

/-- Two sizes in millimetres, with blanks between and inside them; and two in a unit of areas. -/
theorem sample_written_dimensions :
    read? (String.ofList " 2.5 ×0.3M m".toList) = some ⟨[2.5, 0.3], some .millimetre⟩ ∧
      read? (String.ofList "2.5X0.3Sq M".toList) = none := by
  have hfinite : ∀ x ∈ [(2.5 : Float), 0.3], x.isFinite = true := by decide +kernel
  have hreads : ∀ x ∈ [(2.5 : Float), 0.3],
      Decimal.read? (Decimal.text x).toList = some x := by decide +kernel
  have htexts : texts [2.5, 0.3] = ["2.5".toList, "0.3".toList] := by decide +kernel
  have hjoins : ∀ separator ∈ ['x', 'X', '×'],
      Joined (texts [2.5, 0.3]) ("2.5".toList ++ separator :: "0.3".toList) := by
    rw [htexts]
    exact fun separator hseparator => .cons hseparator (.single _)
  have hlength : NamesUnit (some .millimetre) "Mm".toList := ⟨"mm", by decide, rfl⟩
  have harea : NamesUnit (some .squareMetre) "Sq M".toList := ⟨"sq m", by decide, rfl⟩
  constructor
  · have hspaced : Spaced ("2.5".toList ++ '×' :: "0.3".toList ++ "Mm".toList)
        " 2.5 ×0.3M m".toList :=
      .blank rfl (.keep _ (.keep _ (.keep _ (.blank rfl (.keep _ (.keep _ (.keep _ (.keep _
        (.keep _ (.blank rfl (.keep _ .nil)))))))))))
    refine (written_dimensions_read_back hfinite hreads (hjoins '×' (by decide)) hlength
      hspaced).trans ?_
    decide +kernel
  · refine (written_dimensions_read_back hfinite hreads (hjoins 'X' (by decide)) harea
      (spaced_self _)).trans ?_
    decide +kernel

end QuantitySurvey.Measure.Dimensions
