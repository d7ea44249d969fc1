import QuantitySurvey.Proofs.Audit.Appending

/-! # The last number

A record is numbered after the last line that is not blank, of which only the number is read. That
is the number of the last record if the line gives one. A line that does not, or that is no object,
may still be read as a record with the number zero or as blank, and then no number is found.

* `IsNumbered`: files whose last line gives a number.
* `numberOf_of_isNumbered`, `numberOf_of_not_isNumbered`: what is found.
* `isNumbered_added`: a record that was added gives its number.
-/

set_option autoImplicit false

namespace QuantitySurvey.Audit

open Text (AreBlank isBlankByte lineFeed)
open Json.Reader (isSpace skipSpace EndsNumber)

/-! ## Blanks after a line -/

theorem endsNumber_asciiChars {blanks : List UInt8} (h : AreBlank blanks) :
    EndsNumber (Text.asciiChars blanks) := by
  intro c hc
  have hblank := h.isBlank_asciiChars c (List.mem_of_mem_head? hc)
  simp only [Text.isAsciiBlank, Bool.or_eq_true, beq_iff_eq] at hblank
  rcases hblank with (((rfl | rfl) | rfl) | rfl) | rfl <;> decide

/-- A text that is read is not blank. -/
theorem allBlank_of_read? {t : String} {j : Json} (h : Json.read? t = some j) :
    Text.allBlank t = false := by
  rw [← Bool.not_eq_true]
  intro hblank
  have hnone : Json.read? t = none := by
    refine Json.read?_of_blank fun c hc => ?_
    have hmem := (List.dropWhile_sublist isSpace).mem (List.mem_of_mem_head? hc)
    exact List.all_eq_true.1 hblank c hmem
  rw [hnone] at h
  cases h

/-- Blanks after the text of a value do not change what the line holds, if it holds anything. -/
theorem held?_append_blanks {line blanks : List UInt8} {t : String} {j : Json} {rs : List Record}
    (htext : Text.ofBytes? line = some t) (hread : Json.read? t = some j)
    (hblanks : AreBlank blanks) (hheld : held? (line ++ blanks) = some rs) :
    ∃ r, Document.record? j = some r ∧ rs = [r] := by
  have hmore := Json.read?_append hread (endsNumber_asciiChars hblanks)
  have htext' : Text.ofBytes? (line ++ blanks)
      = some (t ++ String.ofList (Text.asciiChars blanks)) := by
    have happend := ofBytes?_append htext (String.ofList (Text.asciiChars blanks))
    rwa [hblanks.bytes_asciiChars] at happend
  have hfilled : Text.allBlank (t ++ String.ofList (Text.asciiChars blanks)) = false := by
    have ht := allBlank_of_read? hread
    unfold Text.allBlank at ht ⊢
    rw [String.toList_append, List.all_append, ht, Bool.false_and]
  rw [held?_of_text htext' hfilled, hmore] at hheld
  split at hheld
  · obtain ⟨r, hr, rfl⟩ := Option.map_eq_some_iff.1 hheld
    exact ⟨r, hr, rfl⟩
  · cases hheld

section Last

variable {content before line blanks : List UInt8} {rs : List Record}

/-- A carriage return at the end of a line is one of the blanks after its text. -/
theorem exists_withoutReturn (hfilled : ∃ b ∈ line.getLast?, isBlankByte b = false)
    (hblanks : AreBlank blanks) :
    ∃ blanks', AreBlank blanks' ∧ withoutReturn (line ++ blanks) = line ++ blanks' := by
  unfold withoutReturn
  split
  · next hreturn =>
    by_cases hnil : blanks = []
    · obtain ⟨b, hb, hnot⟩ := hfilled
      rw [hnil, List.append_nil, hb] at hreturn
      cases hreturn
      cases hnot
    · exact ⟨blanks.dropLast, fun b hb => hblanks b (List.mem_of_mem_dropLast hb),
        List.dropLast_append_of_ne_nil hnil⟩
  · exact ⟨blanks, hblanks, rfl⟩

/-- The last records of a file are those that its last line holds. -/
theorem exists_held_of_isLast (hlast : IsLast content before line blanks)
    (h : recordsOf? content = some rs) : ∃ rs₁ rs₂ blanks', AreBlank blanks'
      ∧ held? (line ++ blanks') = some rs₂ ∧ rs = rs₁ ++ rs₂ := by
  rw [hlast.parts, recordsOf?_append hlast.areEnded] at h
  obtain ⟨rs₁, -, h⟩ := Option.bind_eq_some_iff.1 h
  obtain ⟨rs₂, h₂, rfl⟩ := Option.map_eq_some_iff.1 h
  -- The line feed that ends the last line is the first among the blanks, if there is one.
  by_cases hfeed : lineFeed ∈ blanks
  · obtain ⟨first, rest, hcut, hfirst⟩ := List.eq_append_cons_of_mem hfeed
    have hblanks := hlast.areBlank
    rw [hcut, ← List.singleton_append] at hblanks
    have hended : AreEnded (line ++ first ++ [lineFeed]) := by simp [AreEnded]
    have hline : lineFeed ∉ line ++ first :=
      fun hmem => (List.mem_append.1 hmem).elim hlast.oneLine hfirst
    have hparts : line ++ blanks = line ++ first ++ [lineFeed] ++ rest := by
      rw [hcut]
      simp
    obtain ⟨blanks', hblanks', hwithout⟩ := exists_withoutReturn hlast.filled hblanks.left
    rw [hparts, recordsOf?_append hended, recordsOf?_line hline, hwithout,
      recordsOf?_blank hblanks.right.right] at h₂
    obtain ⟨rs', hheld, h₂⟩ := Option.bind_eq_some_iff.1 h₂
    cases h₂
    exact ⟨rs₁, rs', blanks', hblanks', hheld, by simp⟩
  · have hline : lineFeed ∉ line ++ blanks :=
      fun hmem => (List.mem_append.1 hmem).elim hlast.oneLine hfeed
    have hne : ¬ (line ++ blanks).isEmpty = true := by simp [hlast.ne_nil]
    rw [recordsOf?_rest hline, if_neg hne] at h₂
    exact ⟨rs₁, rs₂, blanks, hlast.areBlank, h₂, rfl⟩

end Last

/-! ## Numbers of lines -/

theorem mem_of_member? {name : String} {members : List (String × Json)} {j : Json}
    (h : Json.member? name members = some (some j)) : (name, j) ∈ members := by
  have hall : j ∈ Json.allOf name members := by
    unfold Json.member? at h
    split at h
    · cases h
    · next j' heq =>
      cases h
      rw [heq]
      exact List.mem_singleton_self j
    · cases h
  obtain ⟨m, hm, hj⟩ := List.mem_filterMap.1 hall
  obtain ⟨k, j'⟩ := m
  dsimp only at hj
  split at hj
  · next hk =>
    cases hj
    exact hk ▸ hm
  · cases hj

/-- The number of a record that gives one. -/
theorem count?_of_record? {members : List (String × Json)} {r : Record}
    (h : Document.record? (.object members) = some r) {j : Json}
    (hmember : ("sequence", j) ∈ members) :
    Json.member? "sequence" members = some (some j) ∧ j.count? = some r.sequence := by
  unfold Document.record? at h
  obtain ⟨given, hgiven, h⟩ := Option.bind_eq_some_iff.1 h
  obtain ⟨hfirst, others, rfl⟩ := Json.exists_of_record? hmember hgiven
  refine ⟨hfirst, ?_⟩
  split at h
  · next heq =>
    cases heq
    obtain ⟨n, hn, h⟩ := Option.bind_eq_some_iff.1 h
    rw [Json.orElse?_some] at hn
    iterate 11 obtain ⟨_, -, h⟩ := Option.bind_eq_some_iff.1 h
    cases h
    exact hn
  · cases h

/-- No record is read from an array that gives its number at most. -/
theorem record?_short_array {elements : List Json} (h : elements.length ≤ 1) :
    Document.record? (.array elements) = none := by
  cases elements with
  | nil => rfl
  | cons j elements =>
    obtain rfl : elements = [] := List.length_eq_zero_iff.1 (by simpa using h)
    have hgiven : (Json.array [j]).record? ["sequence", "element_id", "assembly_id",
        "assembly_code", "formula", "parameters", "steps", "outcome", "actor", "started_at",
        "duration_us", "engine_version"] = some (some j :: List.replicate 11 none) := rfl
    unfold Document.record?
    rw [hgiven]
    -- Whatever the number is, the outcome is missing.
    show (Json.orElse? 0 Json.count? (some j)).bind _ = none
    cases Json.orElse? 0 Json.count? (some j) with
    | none => rfl
    | some n => rfl

/-- The number on a line of which a value is read. -/
theorem sequenceOf?_of_read? {line : List UInt8} {t : String} {j : Json}
    (htext : Text.ofBytes? line = some t) (hread : Json.read? t = some j) :
    sequenceOf? line = (j.record? ["sequence"]).bind fun given => match given with
      | [sequence] => Json.required? Json.count? sequence
      | _ => none := by
  unfold sequenceOf?
  rw [Json.readBytes?_of_ofBytes? htext, hread]
  rfl

/-- The last line that is not blank, if there is one, is an object that gives a number. -/
def IsNumbered (content : List UInt8) : Prop :=
  lastLine content = [] ∨ ∃ text members j, Text.ofBytes? (lastLine content) = some text
    ∧ Json.read? text = some (.object members) ∧ ("sequence", j) ∈ members

/-- The number of the last record, or zero. -/
def lastNumber (rs : List Record) : Nat := (rs.getLast?.map Record.sequence).getD 0

theorem following_lastNumber (rs : List Record) : following (lastNumber rs) = nextSequence rs := by
  unfold lastNumber nextSequence
  cases rs.getLast? <;> rfl

section Numbers

variable {content : List UInt8} {rs : List Record} (h : recordsOf? content = some rs)
  (path : String)
include h

theorem numberOf_of_isNumbered (hnumbered : IsNumbered content) :
    numberOf path (lastLine content) = .ok (lastNumber rs) := by
  rcases lastLine_cases content with ⟨hblank, hnil⟩ | ⟨before, blanks, hlast⟩
  · obtain rfl : rs = [] := Option.some.inj (h.symm.trans (recordsOf?_blank hblank))
    rw [hnil]
    rfl
  · obtain ⟨rs₁, rs₂, blanks', hblanks', hheld, rfl⟩ := exists_held_of_isLast hlast h
    rcases hnumbered with hnil | ⟨t, members, j, htext, hread, hmember⟩
    · exact absurd hnil hlast.ne_nil
    · obtain ⟨r, hr, rfl⟩ := held?_append_blanks htext hread hblanks' hheld
      obtain ⟨hj, hcount⟩ := count?_of_record? hr hmember
      have hsequence : sequenceOf? (lastLine content) = some r.sequence := by
        rw [sequenceOf?_of_read? htext hread, Json.record?_object, List.mapM_cons, hj]
        exact hcount
      have hfilled : ¬ (lastLine content).isEmpty = true := by simpa using hlast.ne_nil
      unfold numberOf lastNumber
      rw [if_neg hfilled, hsequence, List.getLast?_concat]
      rfl

/-- Where a number is found, there is an object that gives it: an array that may be a record has
more than its number. -/
theorem isNumbered_of_sequenceOf? {n : Nat} (hn : sequenceOf? (lastLine content) = some n) :
    IsNumbered content := by
  rcases lastLine_cases content with ⟨-, hnil⟩ | ⟨before, blanks, hlast⟩
  · exact .inl hnil
  · obtain ⟨rs₁, rs₂, blanks', hblanks', hheld, rfl⟩ := exists_held_of_isLast hlast h
    obtain ⟨t, htext⟩ : ∃ t, Text.ofBytes? (lastLine content) = some t := by
      obtain ⟨t, htext, -⟩ := Option.bind_eq_some_iff.1 hheld
      exact Text.exists_text_of_append htext hblanks'.toNat_lt
    unfold sequenceOf? at hn
    rw [Json.readBytes?_of_ofBytes? htext] at hn
    obtain ⟨j, hread, hn⟩ := Option.bind_eq_some_iff.1 hn
    obtain ⟨given, hgiven, hn⟩ := Option.bind_eq_some_iff.1 hn
    obtain ⟨r, hr, rfl⟩ := held?_append_blanks htext hread hblanks' hheld
    cases j with
    | array elements =>
      by_cases hshort : elements.length ≤ 1
      · rw [record?_short_array hshort] at hr
        cases hr
      · rw [Json.record?, if_neg (by simpa using hshort)] at hgiven
        cases hgiven
    | object members =>
      rw [Json.record?_object, List.mapM_cons] at hgiven
      obtain ⟨first, hfirst, hgiven⟩ := Option.bind_eq_some_iff.1 hgiven
      obtain ⟨others, hothers, heq⟩ := Option.bind_eq_some_iff.1 hgiven
      cases heq
      cases hothers
      obtain ⟨j, rfl, -⟩ := Option.bind_eq_some_iff.1 hn
      exact .inr ⟨t, members, j, htext, hread, mem_of_member? hfirst⟩
    | _ => cases hgiven

theorem numberOf_of_not_isNumbered (hnumbered : ¬ IsNumbered content) :
    ∃ e, numberOf path (lastLine content) = .error e := by
  have hfilled : ¬ (lastLine content).isEmpty = true :=
    fun hempty => hnumbered (.inl (List.isEmpty_iff.1 hempty))
  unfold numberOf
  rw [if_neg hfilled]
  cases hn : sequenceOf? (lastLine content) with
  | none => exact ⟨_, rfl⟩
  | some n => exact absurd (isNumbered_of_sequenceOf? h hn) hnumbered

end Numbers

/-! ## Numbers of records that were added -/

theorem withoutTrailingBlanks_bytesOf (content : List UInt8) (r : Record) :
    withoutTrailingBlanks (content ++ bytesOf r) = content ++ bytesOf r := by
  rw [withoutTrailingBlanks_eq, List.rdropWhile_eq_self_iff]
  intro hl
  have hget := List.getLast?_eq_some_getLast hl
  rw [getLast?_append_bytesOf] at hget
  rw [← Option.some.inj hget]
  decide

theorem afterLastLineFeed_bytesOf (content : List UInt8) (r : Record) :
    afterLastLineFeed (content ++ bytesOf r) = afterLastLineFeed content ++ bytesOf r := by
  have hline : ∀ b ∈ (bytesOf r).reverse, (b != lineFeed) = true := by
    intro b hb
    rw [bne_iff_ne]
    rintro rfl
    exact lineFeed_not_mem_bytesOf r (List.mem_reverse.1 hb)
  unfold afterLastLineFeed
  rw [List.reverse_append, List.takeWhile_append_of_pos hline, List.reverse_append,
    List.reverse_reverse]

/-- A record at the end of a file is on its last line, whether a line feed follows or not. -/
theorem lastLine_bytesOf (content : List UInt8) (r : Record) :
    lastLine (content ++ bytesOf r) = afterLastLineFeed content ++ bytesOf r := by
  rw [lastLine, withoutTrailingBlanks_bytesOf, afterLastLineFeed_bytesOf]

theorem lastLine_added (content : List UInt8) (r : Record) :
    lastLine (content ++ Text.bytes (lineOf r)) = afterLastLineFeed content ++ bytesOf r := by
  have hended : withoutTrailingBlanks (content ++ Text.bytes (lineOf r))
      = withoutTrailingBlanks (content ++ bytesOf r) := by
    rw [bytes_lineOf, ← List.append_assoc, withoutTrailingBlanks_eq,
      List.rdropWhile_concat_pos _ _ _ (by decide)]
    rfl
  rw [← lastLine_bytesOf, lastLine, lastLine, hended]

/-- A record on a line of its own gives its number. -/
theorem isNumbered_of_lastLine {content spaces : List UInt8} (hspaces : AreSpaces spaces)
    {r : Record} (hr : r.IsWritable) (hline : lastLine content = spaces ++ bytesOf r) :
    IsNumbered content := by
  obtain ⟨t, htext, -, hread⟩ := exists_text_of_areSpaces hspaces hr
  rw [Document.ofRecord, Json.asRead_object] at hread
  refine .inr ⟨t, _, _, ?_, hread, List.mem_cons_self⟩
  rw [hline, htext]

theorem isNumbered_added {content : List UInt8} (hends : EndsLine content) {r : Record}
    (hr : r.IsWritable) : IsNumbered (content ++ Text.bytes (lineOf r)) :=
  isNumbered_of_lastLine hends hr (lastLine_added content r)

theorem endsLine_added (content : List UInt8) (r : Record) :
    EndsLine (content ++ Text.bytes (lineOf r)) := by
  have hnil : afterLastLineFeed (content ++ Text.bytes (lineOf r)) = [] := by
    rw [bytes_lineOf, ← List.append_assoc, afterLastLineFeed_eq,
      List.rtakeWhile_concat_neg _ _ _ (by decide)]
  rw [EndsLine, hnil]
  exact areSpaces_nil

end QuantitySurvey.Audit
