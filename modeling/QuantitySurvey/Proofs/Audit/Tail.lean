import QuantitySurvey.Proofs.Audit.Lines
import QuantitySurvey.Proofs.Project.Saving

/-! # The last line

The last line that is not blank stands between lines that are ended and blanks. The end of a file
that holds the line feed before it decides on it, so the scan in pieces finds it, whatever the size
of the pieces.

* `lastLine_cases`: where the last line stands.
* `does_scanBack`: the scan finds it.
-/

set_option autoImplicit false

namespace QuantitySurvey.Audit

open Text (AreBlank isBlankByte lineFeed)

variable {content : List UInt8}

/-! ## Its place -/

theorem withoutTrailingBlanks_eq (bs : List UInt8) :
    withoutTrailingBlanks bs = bs.rdropWhile isBlankByte := rfl

theorem afterLastLineFeed_eq (bs : List UInt8) :
    afterLastLineFeed bs = bs.rtakeWhile (· != lineFeed) := rfl

/-- What stands before and after the last line. -/
structure IsLast (content before line blanks : List UInt8) : Prop where
  parts : content = before ++ (line ++ blanks)
  areEnded : AreEnded before
  oneLine : lineFeed ∉ line
  filled : ∃ b ∈ line.getLast?, isBlankByte b = false
  areBlank : AreBlank blanks

theorem IsLast.ne_nil {before line blanks : List UInt8} (h : IsLast content before line blanks) :
    line ≠ [] := by
  rintro rfl
  obtain ⟨b, hb, -⟩ := h.filled
  cases hb

theorem lineFeed_not_mem_afterLastLineFeed (bs : List UInt8) :
    lineFeed ∉ afterLastLineFeed bs := by
  intro h
  have hne := List.mem_rtakeWhile_imp (p := (· != lineFeed)) h
  simp at hne

theorem exists_before_afterLastLineFeed (bs : List UInt8) :
    ∃ before, AreEnded before ∧ bs = before ++ afterLastLineFeed bs := by
  refine ⟨bs.rdropWhile (· != lineFeed), ?_, ?_⟩
  · intro b hb
    have hne : bs.rdropWhile (· != lineFeed) ≠ [] := by
      intro hnil
      rw [hnil] at hb
      cases hb
    have hlast := List.rdropWhile_last_not (· != lineFeed) bs hne
    rw [List.getLast?_eq_some_getLast hne] at hb
    cases hb
    simpa using hlast
  · exact (List.rdropWhile_append_rtakeWhile (p := (· != lineFeed)) (l := bs)).symm

theorem exists_last_filled (h : withoutTrailingBlanks content ≠ []) :
    ∃ b ∈ (withoutTrailingBlanks content).getLast?, isBlankByte b = false := by
  rw [withoutTrailingBlanks_eq] at h ⊢
  exact ⟨_, List.getLast?_eq_some_getLast h, by simpa using List.rdropWhile_last_not _ _ h⟩

/-- A file is blank, or it has a last line. -/
theorem lastLine_cases (content : List UInt8) :
    (AreBlank content ∧ lastLine content = [])
      ∨ ∃ before blanks, IsLast content before (lastLine content) blanks := by
  by_cases hnil : withoutTrailingBlanks content = []
  · left
    have hblank : AreBlank content := List.rdropWhile_eq_nil_iff.1 hnil
    refine ⟨hblank, ?_⟩
    rw [lastLine, hnil]
    rfl
  · right
    obtain ⟨b, hb, hfilled⟩ := exists_last_filled hnil
    obtain ⟨before, hbefore, hparts⟩ :=
      exists_before_afterLastLineFeed (withoutTrailingBlanks content)
    have hcontent : withoutTrailingBlanks content ++ content.rtakeWhile isBlankByte = content :=
      List.rdropWhile_append_rtakeWhile
    change withoutTrailingBlanks content = before ++ lastLine content at hparts
    rw [hparts] at hb hcontent
    -- The last byte is no blank, so it does not end a line.
    have hne : lastLine content ≠ [] := by
      intro hempty
      rw [hempty, List.append_nil] at hb
      rw [hbefore b hb] at hfilled
      cases hfilled
    rw [List.getLast?_append_of_ne_nil _ hne] at hb
    exact ⟨before, content.rtakeWhile isBlankByte, by rw [← List.append_assoc, hcontent], hbefore,
      lineFeed_not_mem_afterLastLineFeed _, ⟨b, hb, hfilled⟩,
      fun b hb => List.mem_rtakeWhile_imp hb⟩

/-! ## Its search -/

/-- The end of a file decides as soon as the line feed before the last line is in it. -/
theorem eq_lastLine_of_lastLine? {isWhole : Bool} {before tail line : List UInt8}
    (hwhole : isWhole = true → before = []) (h : lastLine? isWhole tail = some line) :
    line = lastLine (before ++ tail) := by
  unfold lastLine? at h
  dsimp only at h
  split at h
  · next hdecided =>
    cases h
    rcases Bool.or_eq_true_iff.1 hdecided with hw | hfeed
    · rw [hwhole hw]
      rfl
    · have hmem : lineFeed ∈ withoutTrailingBlanks tail := by simpa using hfeed
      have hne : withoutTrailingBlanks tail ≠ [] := List.ne_nil_of_mem hmem
      have hfilled : withoutTrailingBlanks (before ++ tail)
          = before ++ withoutTrailingBlanks tail := by
        unfold withoutTrailingBlanks at hne ⊢
        rw [List.reverse_append, List.dropWhile_append, if_neg (by simpa using hne),
          List.reverse_append, List.reverse_reverse]
      have hshort : ((withoutTrailingBlanks tail).reverse.takeWhile (· != lineFeed)).length
          ≠ (withoutTrailingBlanks tail).reverse.length := by
        intro hlength
        have hall := List.takeWhile_eq_self_iff.1
          ((List.takeWhile_prefix _).eq_of_length hlength) lineFeed (List.mem_reverse.2 hmem)
        simp at hall
      rw [lastLine, hfilled]
      unfold afterLastLineFeed
      rw [List.reverse_append, List.takeWhile_append, if_neg hshort]
  · cases h

/-- What was read from a position on decides on the last line of the file, if it decides. -/
theorem lastLine?_drop {position : Nat} {line : List UInt8}
    (h : lastLine? (position == 0) (content.drop position) = some line) :
    line = lastLine content := by
  have hwhole : (position == 0) = true → content.take position = [] := by
    intro hzero
    rw [beq_iff_eq.1 hzero]
    rfl
  have heq := eq_lastLine_of_lastLine? hwhole h
  rwa [List.take_append_drop] at heq

/-- The whole file decides. -/
theorem ne_zero_of_lastLine? {position : Nat} {tail : List UInt8}
    (h : lastLine? (position == 0) tail = none) : position ≠ 0 := by
  rintro rfl
  simp [lastLine?] at h

theorem take_append_drop_of_le {position step : Nat} (h : step ≤ position) :
    (content.drop (position - step)).take step ++ content.drop position
      = content.drop (position - step) := by
  have hdrop : content.drop position = (content.drop (position - step)).drop step := by
    rw [List.drop_drop, Nat.sub_add_cancel h]
  rw [hdrop, List.take_append_drop]

section Scan

open Workplace

variable {σ : Type} {d : Disk}
  {readAt : Nat → Nat → Workplace σ (Except Failure (List UInt8))}

/-- Whatever the size of the pieces, the scan finds the last line. It reads within the file only. -/
theorem does_scanBack (hread : ∀ position count, position + count ≤ content.length →
      Does d (readAt position count) fun r d' =>
        r = .ok ((content.drop position).take count) ∧ d' = d)
    (pieceSize : Nat) (isPositive : 0 < pieceSize) {position : Nat}
    (hposition : position ≤ content.length) :
    Does d (scanBack readAt pieceSize isPositive position (content.drop position)) fun r d' =>
      r = .ok (lastLine content) ∧ d' = d := by
  -- What was read so far is always the file from the position on.
  induction hn : position using Nat.strongRecOn generalizing position with
  | ind n ih =>
    subst hn
    rw [scanBack]
    cases hline : lastLine? (position == 0) (content.drop position) with
    | some line => exact does_pure ⟨by rw [lastLine?_drop hline], rfl⟩
    | none =>
      have hpos : position ≠ 0 := ne_zero_of_lastLine? hline
      simp only [hpos, dite_false]
      refine (hread _ _ (by omega)).bind fun r d' hr => ?_
      obtain ⟨rfl, rfl⟩ := hr
      simp only [take_append_drop_of_le (Nat.min_le_right pieceSize position)]
      exact ih _ (by omega) (by omega) rfl

end Scan

end QuantitySurvey.Audit
