import QuantitySurvey.Proofs.Decimal.Unsigned
import QuantitySurvey.Proofs.Json.Extension

/-! # Compact texts

The compact text of a value stands on one line: line feeds in strings are escaped, and no number has
one. That of an object stands between braces.

* `lineFeed_not_mem_compact`: one line.
* `compact_object`: between braces.
* `read?_spaces`: spaces before a text are skipped.
-/

set_option autoImplicit false

namespace QuantitySurvey

/-! ## Numbers -/

namespace Decimal

theorem mem_laidOut_wholeEnd {wholeEnd ds : List Char} {point : Int} {c : Char}
    (hc : c ∈ laidOut wholeEnd ds point) : c ∈ laidOut [] ds point ∨ c ∈ wholeEnd := by
  unfold laidOut at hc ⊢
  split at hc
  · next hpoint =>
    rw [if_pos hpoint]
    exact .inl hc
  · next hpoint =>
    rw [if_neg hpoint]
    split at hc
    · next hlength =>
      rw [if_pos hlength, List.append_nil]
      exact List.mem_append.1 hc
    · next hlength =>
      rw [if_neg hlength]
      exact .inl hc

theorem lineFeed_not_mem_digits (n : Nat) : '\n' ∉ digits n := by
  intro h
  have hdigit := Json.isDigit_of_mem_digits h
  cases hdigit

theorem lineFeed_not_mem_withExponent (n : Nat) (e : Int) :
    '\n' ∉ withExponent (digits n) e := by
  have hdigits := lineFeed_not_mem_digits n
  intro h
  unfold withExponent at h
  dsimp only at h
  rcases List.mem_append.1 h with h | h
  · split at h
    · next d d' more heq =>
      rw [heq] at hdigits
      simp only [List.mem_cons, not_or] at h hdigits
      rcases h with h | h | h | h
      · exact hdigits.1 h
      · cases h
      · exact hdigits.2.1 h
      · exact hdigits.2.2 h
    · exact hdigits h
  · simp only [List.mem_cons] at h
    rcases h with h | h | h
    · cases h
    · split at h <;> cases h
    · exact lineFeed_not_mem_digits _ h

/-- No double is written with a line feed. -/
theorem lineFeed_not_mem_document (x : Float) : '\n' ∉ document.finite x := by
  have hend : '\n' ∉ document.wholeEnd := by decide
  have hsize : '\n' ∉ (if (Magnitude.ofFloat x).significand = 0 then '0' :: document.wholeEnd
      else document.size (Magnitude.ofFloat x)) := by
    split
    · decide
    · unfold Style.size
      dsimp only
      split
      · intro h
        rcases mem_laidOut_wholeEnd h with h | h
        · rcases mem_laidOut (fun c hc => Json.isDigit_of_mem_digits hc) h with h | h <;> cases h
        · exact hend h
      · exact lineFeed_not_mem_withExponent _ _
  unfold Style.finite
  dsimp only
  split
  · exact List.not_mem_cons_of_ne_of_not_mem (by decide) hsize
  · exact hsize

end Decimal

namespace Json

theorem lineFeed_not_mem_writtenNumber (x : Float) : '\n' ∉ writtenNumber x := by
  unfold writtenNumber
  split
  · exact Decimal.lineFeed_not_mem_document x
  · decide

theorem lineFeed_not_mem_writtenInteger (n : Int) : '\n' ∉ writtenInteger n := by
  have hdigits := Decimal.lineFeed_not_mem_digits n.natAbs
  unfold writtenInteger
  split
  · exact List.not_mem_cons_of_ne_of_not_mem (by decide) hdigits
  · exact hdigits

/-! ## Strings -/

theorem lineFeed_not_mem_hexDigits (width n : Nat) : '\n' ∉ Text.hexDigits width n := by
  have hdigit : ∀ d < 16, '\n' ≠ Nat.digitChar d := by decide
  induction width generalizing n with
  | zero => exact List.not_mem_nil
  | succ width ih =>
    intro h
    rcases List.mem_append.1 h with h | h
    · exact ih _ h
    · exact hdigit _ (Nat.mod_lt _ (by decide)) (List.mem_singleton.1 h)

theorem lineFeed_not_mem_escapedChar (c : Char) : '\n' ∉ escapedChar c := by
  unfold escapedChar
  by_cases hfeed : c = '\n'
  · subst hfeed
    decide
  · have hhex := lineFeed_not_mem_hexDigits 4 c.toNat
    simp only [hfeed, if_false]
    repeat' split
    all_goals first | decide | simp [hhex]
    exact fun h => hfeed h.symm

theorem lineFeed_not_mem_quoted (s : String) : '\n' ∉ quoted s := by
  intro h
  unfold quoted at h
  simp only [List.cons_append, List.mem_cons, List.mem_append, List.mem_flatMap,
    List.not_mem_nil, or_false] at h
  rcases h with h | ⟨c, -, h⟩ | h
  · cases h
  · exact lineFeed_not_mem_escapedChar c h
  · cases h

/-! ## Values -/

mutual

theorem lineFeed_not_mem_compact : ∀ j : Json, '\n' ∉ compact j
  | null | unreadable => by simp only [compact]; decide
  | boolean b => by cases b <;> simp only [compact] <;> decide
  | integer n => by simpa only [compact] using lineFeed_not_mem_writtenInteger n
  | number x => by simpa only [compact] using lineFeed_not_mem_writtenNumber x
  | string s => by simpa only [compact] using lineFeed_not_mem_quoted s
  | array [] => by simp only [compact]; decide
  | array (j :: rest) => by
    have hj := lineFeed_not_mem_compact j
    have hrest := lineFeed_not_mem_compactElements rest
    simp [compact, hj, hrest]
  | object [] => by simp only [compact]; decide
  | object ((k, j) :: rest) => by
    have hk := lineFeed_not_mem_quoted k
    have hj := lineFeed_not_mem_compact j
    have hrest := lineFeed_not_mem_compactMembers rest
    simp [compact, hk, hj, hrest]

theorem lineFeed_not_mem_compactElements : ∀ js : List Json, '\n' ∉ compactElements js
  | [] => by simp only [compactElements]; decide
  | j :: rest => by
    have hj := lineFeed_not_mem_compact j
    have hrest := lineFeed_not_mem_compactElements rest
    simp [compactElements, hj, hrest]

theorem lineFeed_not_mem_compactMembers : ∀ ms : List (String × Json), '\n' ∉ compactMembers ms
  | [] => by simp only [compactMembers]; decide
  | (k, j) :: rest => by
    have hk := lineFeed_not_mem_quoted k
    have hj := lineFeed_not_mem_compact j
    have hrest := lineFeed_not_mem_compactMembers rest
    simp [compactMembers, hk, hj, hrest]

end

theorem compactMembers_eq (ms : List (String × Json)) :
    ∃ inner, compactMembers ms = inner ++ ['\x7d'] := by
  induction ms with
  | nil => exact ⟨[], rfl⟩
  | cons m ms ih =>
    obtain ⟨inner, hinner⟩ := ih
    refine ⟨',' :: quoted m.1 ++ ':' :: compact m.2 ++ inner, ?_⟩
    rw [compactMembers, hinner]
    simp

theorem compact_object (ms : List (String × Json)) :
    ∃ inner, compact (object ms) = '\x7b' :: (inner ++ ['\x7d']) := by
  cases ms with
  | nil => exact ⟨[], rfl⟩
  | cons m ms =>
    obtain ⟨inner, hinner⟩ := compactMembers_eq ms
    refine ⟨quoted m.1 ++ ':' :: compact m.2 ++ inner, ?_⟩
    rw [compact, hinner]
    simp

/-! ## Spaces before a text -/

open Reader

theorem read?_spaces {spaces : List Char} (hspaces : spaces.all isSpace = true) {s : String}
    {j : Json} (h : read? s = some j) : read? (String.ofList spaces ++ s) = some j := by
  unfold read? at h ⊢
  rw [String.toList_append, String.toList_ofList]
  dsimp only at h ⊢
  cases hvalue : value? (2 * s.toList.length + 2) 0 s.toList with
  | none =>
    rw [hvalue] at h
    cases h
  | some r =>
    obtain ⟨j', after⟩ := r
    rw [hvalue] at h
    have hlength : 2 * s.toList.length + 2 ≤ 2 * (spaces ++ s.toList).length + 2 := by
      rw [List.length_append]
      omega
    have hmore := value?_append endsNumber_nil hlength hvalue
    rw [List.append_nil, List.append_nil] at hmore
    rw [value?_skip hspaces, hmore]
    exact h

end Json

end QuantitySurvey
