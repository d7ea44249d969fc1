import QuantitySurvey.Proofs.Decimal.Numerals
import QuantitySurvey.Measure.Dimensions

/-! # Spellings in dimension texts

A dimension text is compacted before it is cut into sizes and a unit: blanks are left out, and letters
are put in lower case. The number of a size stays what it is, and a spelling of a unit stays one if the
unit measures lengths. The sign for kelvin is the one character of a spelling that has no lower case
here, and only kilometres are spelled with it.

* `compact_of_isNumeral`: a number is compacted to itself, in lower case.
* `suffix?_compact_spelling`: a spelling names its unit after it was compacted.
* `isEnding_compact_spelling`: it is told from the number in front of it, and from other parts.
* `compact_of_read?`: what names a unit is compacted to a spelling, or to one with the sign for kelvin.
* `suffix?_exponent`: what starts with an exponent names no unit.
-/

set_option autoImplicit false

namespace QuantitySurvey.Measure

open Text (isBlank lowered trim)
open Formula (IsExponent)

/-- The accepted spellings of a unit, with `A` to `Z` and `a` to `z` alike. -/
def Unit.IsSpelling (u : Unit) (cs : List Char) : Prop :=
  ∃ spelling, (spelling, u) ∈ Unit.spellings ∧ lowered cs = spelling.toList

namespace Dimensions

open Decimal (isPlain IsNumeral)

/-! ## Compact texts -/

/-- What becomes of a character that is not blank. -/
def folded (c : Char) : Char := if c = '×' then 'x' else c.toLower

theorem compact_eq (cs : List Char) :
    compact cs = (cs.filter fun c => !isBlank c).map folded :=
  rfl

@[simp] theorem compact_nil : compact [] = [] := rfl

@[simp] theorem compact_append (s t : List Char) : compact (s ++ t) = compact s ++ compact t := by
  simp only [compact_eq, List.filter_append, List.map_append]

theorem isBlank_of_isAlpha {c : Char} (h : c.isAlpha = true) : isBlank c = false :=
  Formula.isBlank_of_isNameChar (by simp [Formula.isNameChar, Char.isAlphanum, h])

theorem isBlank_toLower (c : Char) : isBlank c.toLower = isBlank c := by
  cases h : c.isAlpha with
  | true =>
    rw [isBlank_of_isAlpha h, isBlank_of_isAlpha (by rw [Char.isAlpha_toLower_eq_isAlpha, h])]
  | false => rw [(Decimal.toLower_eq_iff h).2 rfl]

theorem folded_toLower (c : Char) : folded c.toLower = folded c := by
  have hcross : c.toLower = '×' ↔ c = '×' := Decimal.toLower_eq_iff rfl
  simp only [folded, hcross, Char.toLower_toLower_eq_toLower]

/-- Case does not count. -/
theorem compact_lowered (cs : List Char) : compact (lowered cs) = compact cs := by
  have hblank : (fun c => !isBlank c) ∘ Char.toLower = fun c => !isBlank c :=
    funext fun c => congrArg not (isBlank_toLower c)
  rw [compact_eq, lowered, List.filter_map, List.map_map, hblank]
  exact List.map_congr_left fun c _ => folded_toLower c

theorem filter_dropWhile (p : Char → Bool) (cs : List Char) :
    (cs.dropWhile p).filter (fun c => !p c) = cs.filter fun c => !p c := by
  induction cs with
  | nil => rfl
  | cons c cs ih => cases h : p c <;> simp [h, ih]

/-- Nor do the blanks around a text. -/
theorem compact_trim (cs : List Char) : compact (trim cs) = compact cs := by
  rw [compact_eq, compact_eq, trim, Text.trimEnd, Text.trimStart, List.filter_reverse,
    filter_dropWhile, ← List.filter_reverse, List.reverse_reverse, filter_dropWhile]

/-! ## Numbers -/

theorem isBlank_of_isPlain {c : Char} (h : isPlain c = true) : isBlank c = false := by
  simp only [isPlain, Bool.or_eq_true, beq_iff_eq] at h
  rcases h with ((h | rfl) | rfl) | rfl
  · exact Formula.isBlank_of_isNumberChar (Formula.isNumberChar_of_isDigit h)
  all_goals decide

theorem isAlpha_of_isPlain {c : Char} (h : isPlain c = true) : c.isAlpha = false := by
  simp only [isPlain, Bool.or_eq_true, beq_iff_eq] at h
  rcases h with ((h | rfl) | rfl) | rfl
  · exact Decimal.isAlpha_of_isDigit h
  all_goals decide

theorem folded_of_isPlain {c : Char} (h : isPlain c = true) : folded c = c := by
  have hcross : c ≠ '×' := by
    rintro rfl
    exact absurd h (by decide)
  rw [folded, if_neg hcross, (Decimal.toLower_eq_iff (isAlpha_of_isPlain h)).2 rfl]

theorem compact_of_isPlain {cs : List Char} (h : ∀ c ∈ cs, isPlain c = true) : compact cs = cs := by
  have hkept : cs.filter (fun c => !isBlank c) = cs :=
    List.filter_eq_self.2 fun c hc => by rw [isBlank_of_isPlain (h c hc), Bool.not_false]
  rw [compact_eq, hkept]
  exact (List.map_congr_left fun c hc => folded_of_isPlain (h c hc)).trans (List.map_id cs)

theorem exists_plain_of_isExponent {cs : List Char} (h : IsExponent cs) :
    ∃ mark rest, cs = mark :: rest ∧ (mark = 'e' ∨ mark = 'E') ∧ rest ≠ [] ∧
      ∀ c ∈ rest, isPlain c = true := by
  obtain ⟨mark, sign, digits, rfl, hmark, hsign, hne, hdigits⟩ := h
  refine ⟨mark, sign ++ digits, rfl, hmark, by simp [hne], ?_⟩
  have hplain : ∀ s ∈ [[], ['+'], ['-']], s.all isPlain = true := by decide
  intro c hc
  rcases List.mem_append.1 hc with hc | hc
  · exact List.all_eq_true.1 (hplain sign hsign) c hc
  · exact Decimal.isPlain_of_isDigit (hdigits c hc)

theorem lowered_of_isPlain {cs : List Char} (h : ∀ c ∈ cs, isPlain c = true) : lowered cs = cs :=
  Decimal.lowered_eq_self fun c hc => isAlpha_of_isPlain (h c hc)

/-- An exponent is compacted to the mark in lower case and to what it had after the mark. -/
theorem compact_of_isExponent {cs : List Char} (h : IsExponent cs) :
    ∃ rest, compact cs = 'e' :: rest ∧ lowered cs = 'e' :: rest ∧ rest ≠ [] ∧
      ∀ c ∈ rest, isPlain c = true := by
  obtain ⟨mark, rest, rfl, hmark, hne, hplain⟩ := exists_plain_of_isExponent h
  have hfolded : compact [mark] = ['e'] ∧ mark.toLower = 'e' := by
    rcases hmark with rfl | rfl <;> decide +kernel
  refine ⟨rest, ?_, ?_, hne, hplain⟩
  · rw [← List.singleton_append, compact_append, compact_of_isPlain hplain, hfolded.1]
    rfl
  · rw [lowered, List.map_cons, hfolded.2, ← lowered, lowered_of_isPlain hplain]

/-- All that happens to a number is that the mark of its exponent is put in lower case. -/
theorem compact_of_isNumeral {plain exponent : List Char} (h : IsNumeral plain exponent) :
    compact (plain ++ exponent) = lowered (plain ++ exponent) := by
  have hexponent : compact exponent = lowered exponent := by
    rcases h.exponent with rfl | hexponent
    · rfl
    · obtain ⟨rest, hcompact, hlowered, -⟩ := compact_of_isExponent hexponent
      rw [hcompact, hlowered]
  have happend : lowered (plain ++ exponent) = lowered plain ++ lowered exponent := List.map_append
  rw [compact_append, compact_of_isPlain h.plain, hexponent, happend, lowered_of_isPlain h.plain]

/-! ## Units -/

theorem exists_spelling_of_read? {cs : List Char} {u : Unit}
    (h : Unit.read? (String.ofList cs) = some u) :
    ∃ spelling, (spelling, u) ∈ Unit.spellings ∧
      (trim cs).map Unit.lowerCase = spelling.toList := by
  unfold Unit.read? at h
  dsimp only at h
  rw [String.toList_ofList] at h
  obtain ⟨⟨spelling, v⟩, hfind, rfl⟩ := Option.map_eq_some_iff.1 h
  have hspelling := List.find?_some hfind
  rw [beq_iff_eq] at hspelling
  refine ⟨spelling, List.mem_of_find?_eq_some hfind, ?_⟩
  exact (String.toList_ofList.symm.trans (congrArg String.toList hspelling.symm))

/-- Only one spelling has a letter that the sign for kelvin stands for. -/
theorem spelling_of_mem_k : ∀ e ∈ Unit.spellings, 'k' ∈ e.1.toList → e.1.toList = ['k', 'm'] := by
  decide +kernel

/-- Nothing else becomes that spelling with the sign for kelvin in it. -/
theorem lowered_of_kelvin {cs : List Char} (h : cs.map Unit.lowerCase = ['k', 'm'])
    (hkelvin : '\u212a' ∈ cs) : lowered cs = ['\u212a', 'm'] := by
  obtain ⟨c, rest, rfl, hc, hrest⟩ := List.map_eq_cons_iff.1 h
  obtain ⟨d, rfl, hd⟩ := List.map_eq_singleton_iff.1 hrest
  have hother : '\u212a' ≠ d := by
    rintro rfl
    exact absurd hd (by decide)
  obtain rfl : '\u212a' = c := by simpa [hother] using hkelvin
  rw [Unit.lowerCase, if_neg hother.symm] at hd
  rw [lowered, List.map_cons, List.map_singleton, hd]
  rfl

/-- What names a unit is compacted as a spelling is, or it has the sign for kelvin. -/
theorem compact_of_read? {cs : List Char} {u : Unit}
    (h : Unit.read? (String.ofList cs) = some u) :
    (∃ spelling, (spelling, u) ∈ Unit.spellings ∧ compact cs = compact spelling.toList) ∨
      compact cs = ['\u212a', 'm'] := by
  obtain ⟨spelling, hmem, hspelling⟩ := exists_spelling_of_read? h
  rw [← compact_trim cs, ← compact_lowered (trim cs)]
  by_cases hkelvin : '\u212a' ∈ trim cs
  · right
    have hk : 'k' ∈ (trim cs).map Unit.lowerCase := List.mem_map.2 ⟨'\u212a', hkelvin, by decide⟩
    rw [hspelling] at hk
    rw [spelling_of_mem_k _ hmem hk] at hspelling
    rw [lowered_of_kelvin hspelling hkelvin]
    decide +kernel
  · left
    have hlower : lowered (trim cs) = (trim cs).map Unit.lowerCase := by
      refine List.map_congr_left fun c hc => ?_
      rw [Unit.lowerCase, if_neg]
      rintro rfl
      exact hkelvin hc
    exact ⟨spelling, hmem, by rw [hlower, hspelling]⟩

/-- A spelling that was compacted names its unit. Those that have a blank are of other families. -/
theorem suffix?_compact_spelling : ∀ e ∈ Unit.spellings,
    suffix? (compact e.1.toList) = if e.2.family = .length then some (some e.2) else none := by
  decide +kernel

/-- It starts with a letter. -/
theorem compact_spelling_head : ∀ e ∈ Unit.spellings,
    (compact e.1.toList).head?.all Char.isAlpha = true := by
  decide +kernel

/-- It has no separator in it. -/
theorem not_mem_compact_spelling : ∀ e ∈ Unit.spellings, 'x' ∉ compact e.1.toList := by
  decide +kernel

/-- What may stand after a number: it starts with a letter, if there is anything, and it has no
separator in it. -/
structure IsEnding (cs : List Char) : Prop where
  letter : ∀ c ∈ cs.head?, c.isAlpha = true
  unseparated : 'x' ∉ cs

theorem isEnding_nil : IsEnding [] := ⟨by simp, List.not_mem_nil⟩

theorem isEnding_compact_spelling {spelling : String} {u : Unit}
    (h : (spelling, u) ∈ Unit.spellings) : IsEnding (compact spelling.toList) := by
  have hhead := compact_spelling_head (spelling, u) h
  have hunseparated := not_mem_compact_spelling (spelling, u) h
  exact ⟨(Option.all_eq_true _ _).1 hhead, hunseparated⟩

/-- It does not look like an exponent. -/
theorem compact_spelling_tail : ∀ e ∈ Unit.spellings, (compact e.1.toList).head? = some 'e' →
    (compact e.1.toList).tail.head?.all (fun c => !isPlain c) = true := by
  decide +kernel

/-- What starts with an exponent names no unit. -/
theorem suffix?_exponent {rest : List Char} (hne : rest ≠ [])
    (hplain : ∀ c ∈ rest, isPlain c = true) (cs : List Char) :
    suffix? ('e' :: (rest ++ cs)) = none := by
  obtain ⟨c, rest, rfl⟩ := List.exists_cons_of_ne_nil hne
  have hcompact : compact ('e' :: (c :: rest ++ cs)) = 'e' :: c :: (rest ++ compact cs) := by
    rw [← List.singleton_append, compact_append, compact_append, compact_of_isPlain hplain]
    rfl
  have hunread : Unit.read? (String.ofList ('e' :: (c :: rest ++ cs))) = none := by
    rw [Option.eq_none_iff_forall_ne_some]
    intro u hu
    rcases compact_of_read? hu with ⟨spelling, hmem, hspelling⟩ | hkelvin
    · have htail := compact_spelling_tail _ hmem
      rw [← hspelling, hcompact] at htail
      have hc : (!isPlain c) = true := htail rfl
      rw [hplain c List.mem_cons_self] at hc
      cases hc
    · rw [hcompact] at hkelvin
      exact absurd (List.cons.inj hkelvin).1 (by decide)
  unfold suffix?
  rw [hunread]
  rfl

end Dimensions

end QuantitySurvey.Measure
