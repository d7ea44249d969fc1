import Mathlib
import QuantitySurvey.Audit.FileLog
import QuantitySurvey.Proofs.Json.Extension

/-! # Lines of log files

A file is read line by line, and what it holds is what its lines hold, one after another. So what is
read in a file that is cut after a line feed is what is read in the two parts.

* `recordsIn_eq_ok_iff`: what is read does not depend on the path or on numbers of lines.
* `recordsOf?_append`: a file in two parts.
* `recordsOf?_blank`: blanks hold nothing.
-/

set_option autoImplicit false

namespace QuantitySurvey

/-! ## Bytes of texts -/

namespace Text

theorem bytes_append (s t : String) : bytes (s ++ t) = bytes s ++ bytes t := by
  simp [bytes, String.toByteArray_append]

theorem bytes_ofList (cs : List Char) :
    bytes (String.ofList cs) = cs.flatMap String.utf8EncodeChar := by
  simp [bytes, String.toByteArray_ofList, List.utf8Encode]

/-- A byte below 128 is the character with that number. -/
theorem toNat_of_mem_utf8EncodeChar {c : Char} {b : UInt8} (h : b ∈ String.utf8EncodeChar c)
    (hb : b.toNat < 128) : b.toNat = c.toNat := by
  have hvalue : c.toNat = c.val.toNat := rfl
  unfold String.utf8EncodeChar at h
  dsimp only at h
  split at h
  · next hsmall =>
    obtain rfl := List.mem_singleton.1 h
    rw [UInt8.toNat_ofNat']
    omega
  · have hlarge : ∀ n : Nat, 128 ≤ n → n < 256 → b ≠ UInt8.ofNat n := by
      rintro n hn hn' rfl
      rw [UInt8.toNat_ofNat'] at hb
      omega
    exfalso
    split at h
    · simp only [List.mem_cons, List.not_mem_nil, or_false] at h
      rcases h with h | h <;> exact hlarge _ (by omega) (by omega) h
    · split at h
      · simp only [List.mem_cons, List.not_mem_nil, or_false] at h
        rcases h with h | h | h <;> exact hlarge _ (by omega) (by omega) h
      · simp only [List.mem_cons, List.not_mem_nil, or_false] at h
        rcases h with h | h | h | h <;> exact hlarge _ (by omega) (by omega) h

theorem mem_of_mem_bytes {s : String} {b : UInt8} (h : b ∈ bytes s) (hb : b.toNat < 128) :
    Char.ofNat b.toNat ∈ s.toList := by
  rw [← String.ofList_toList (s := s), bytes_ofList] at h
  obtain ⟨c, hc, hbyte⟩ := List.mem_flatMap.1 h
  rw [toNat_of_mem_utf8EncodeChar hbyte hb, Char.ofNat_toNat]
  exact hc

/-- The characters of bytes below 128. -/
def asciiChars (bs : List UInt8) : List Char := bs.map fun b => Char.ofNat b.toNat

theorem utf8EncodeChar_ofNat {b : UInt8} (hb : b.toNat < 128) :
    String.utf8EncodeChar (Char.ofNat b.toNat) = [b] := by
  have hvalid : (Char.ofNat b.toNat).val.toNat = b.toNat := by
    have hchar : b.toNat.isValidChar := Or.inl (by omega)
    exact (Char.toNat_ofNat b.toNat).trans (if_pos hchar)
  unfold String.utf8EncodeChar
  dsimp only
  rw [hvalid, if_pos (by omega), UInt8.ofNat_toNat]

theorem bytes_asciiChars {bs : List UInt8} (h : ∀ b ∈ bs, b.toNat < 128) :
    bytes (String.ofList (asciiChars bs)) = bs := by
  rw [bytes_ofList]
  induction bs with
  | nil => rfl
  | cons b bs ih =>
    have hrest := ih fun c hc => h c (List.mem_cons_of_mem b hc)
    unfold asciiChars at hrest ⊢
    rw [List.map_cons, List.flatMap_cons, utf8EncodeChar_ofNat (h b List.mem_cons_self), hrest]
    rfl

/-- Bytes below 128 can be taken away from the end of a text. -/
theorem exists_text_of_append {bs ascii : List UInt8} {s : String}
    (h : ofBytes? (bs ++ ascii) = some s) (hascii : ∀ b ∈ ascii, b.toNat < 128) :
    ∃ t, ofBytes? bs = some t := by
  induction ascii using List.reverseRecOn generalizing s with
  | nil => exact ⟨s, by simpa using h⟩
  | append_singleton ascii b ih =>
    have hb := hascii b (by simp)
    have hbytes : bytes s = bs ++ ascii ++ [b] := by
      rw [bytes_of_ofBytes? h, List.append_assoc]
    rw [← String.ofList_toList (s := s), bytes_ofList] at hbytes
    rcases List.eq_nil_or_concat s.toList with hnil | ⟨cs, c, hcs⟩
    · rw [hnil] at hbytes
      simp at hbytes
    · -- the last byte is that of the last character
      rw [hcs, List.concat_eq_append, List.flatMap_append, List.flatMap_singleton] at hbytes
      have hmem : b ∈ String.utf8EncodeChar c := by
        have hne : String.utf8EncodeChar c ≠ [] := by
          unfold String.utf8EncodeChar
          dsimp only
          split_ifs <;> simp
        have hlast := congrArg List.getLast? hbytes
        rw [List.getLast?_concat, List.getLast?_append_of_ne_nil _ hne] at hlast
        exact List.mem_of_getLast? hlast
      have hc : c = Char.ofNat b.toNat := by
        rw [toNat_of_mem_utf8EncodeChar hmem hb, Char.ofNat_toNat]
      rw [hc, utf8EncodeChar_ofNat hb] at hbytes
      have hrest := List.append_cancel_right hbytes
      refine ih (s := String.ofList cs) ?_ fun b' hb' => hascii b' (List.mem_append_left _ hb')
      rw [← hrest, ← bytes_ofList, ofBytes?_bytes]

/-- Bytes that stand for blanks. -/
def AreBlank (bs : List UInt8) : Prop := ∀ b ∈ bs, isBlankByte b = true

instance (bs : List UInt8) : Decidable (AreBlank bs) :=
  inferInstanceAs (Decidable (∀ b ∈ bs, isBlankByte b = true))

theorem AreBlank.left {bs cs : List UInt8} (h : AreBlank (bs ++ cs)) : AreBlank bs :=
  fun b hb => h b (List.mem_append_left cs hb)

theorem AreBlank.right {bs cs : List UInt8} (h : AreBlank (bs ++ cs)) : AreBlank cs :=
  fun b hb => h b (List.mem_append_right bs hb)

theorem toNat_of_isBlankByte {b : UInt8} (h : isBlankByte b = true) :
    b.toNat = 32 ∨ b.toNat = 9 ∨ b.toNat = 10 ∨ b.toNat = 12 ∨ b.toNat = 13 := by
  simp only [isBlankByte, Bool.or_eq_true, beq_iff_eq] at h
  rcases h with (((rfl | rfl) | rfl) | rfl) | rfl <;> decide

theorem AreBlank.toNat_lt {bs : List UInt8} (h : AreBlank bs) : ∀ b ∈ bs, b.toNat < 128 := by
  intro b hb
  rcases toNat_of_isBlankByte (h b hb) with hb | hb | hb | hb | hb <;> omega

theorem AreBlank.bytes_asciiChars {bs : List UInt8} (h : AreBlank bs) :
    bytes (String.ofList (asciiChars bs)) = bs :=
  Text.bytes_asciiChars h.toNat_lt

theorem AreBlank.isBlank_asciiChars {bs : List UInt8} (h : AreBlank bs) :
    ∀ c ∈ asciiChars bs, isAsciiBlank c = true := by
  intro c hc
  obtain ⟨b, hb, rfl⟩ := List.mem_map.1 hc
  rcases toNat_of_isBlankByte (h b hb) with hb | hb | hb | hb | hb <;> rw [hb] <;> decide

end Text

namespace Audit

open Text (AreBlank lineFeed)

/-! ## Lines -/

/-- A line without the carriage return before its end. -/
def withoutReturn (line : List UInt8) : List UInt8 :=
  if line.getLast? = some 13 then line.dropLast else line

/-- Nothing, or lines that are ended. -/
def AreEnded (bs : List UInt8) : Prop := ∀ b ∈ bs.getLast?, b = lineFeed

instance (bs : List UInt8) : Decidable (AreEnded bs) :=
  inferInstanceAs (Decidable (∀ b ∈ bs.getLast?, b = lineFeed))

theorem exists_of_areEnded {bs : List UInt8} (h : AreEnded bs) :
    bs = [] ∨ ∃ init, bs = init ++ [lineFeed] := by
  rcases List.eq_nil_or_concat bs with rfl | ⟨init, b, rfl⟩
  · exact .inl rfl
  · have hb : b = lineFeed := h b (by simp)
    exact .inr ⟨init, by rw [hb, List.concat_eq_append]⟩

theorem splitLines_cons (a b : List UInt8) : splitLines (a ++ lineFeed :: b)
    = (a.splitOn lineFeed).map withoutReturn ++ splitLines b := by
  have hsplit := List.splitOn_append_cons_self (a := lineFeed) a b
  obtain ⟨init, rest, hb⟩ : ∃ init rest, b.splitOn lineFeed = init ++ [rest] :=
    ⟨_, _, (List.dropLast_append_getLast (List.splitOn_ne_nil lineFeed b)).symm⟩
  unfold splitLines
  rw [hsplit, hb, ← List.append_assoc, List.reverse_append, List.reverse_append]
  simp [withoutReturn]

/-- Lines that are ended are the same whatever comes after them. -/
theorem splitLines_append {before : List UInt8} (h : AreEnded before) (rest : List UInt8) :
    splitLines (before ++ rest) = splitLines before ++ splitLines rest := by
  rcases exists_of_areEnded h with rfl | ⟨init, rfl⟩
  · rfl
  · have hnil : splitLines [] = [] := rfl
    rw [List.append_assoc, List.singleton_append, splitLines_cons, splitLines_cons, hnil,
      List.append_nil]

theorem splitLines_line {line : List UInt8} (h : lineFeed ∉ line) :
    splitLines (line ++ [lineFeed]) = [withoutReturn line] := by
  rw [splitLines_cons, List.splitOn_eq_singleton h]
  rfl

theorem splitLines_rest {rest : List UInt8} (h : lineFeed ∉ rest) :
    splitLines rest = if rest.isEmpty then [] else [rest] := by
  unfold splitLines
  rw [List.splitOn_eq_singleton h]
  rfl

/-! ## What lines hold -/

/-- The record on a line, or nothing if the line is blank. -/
def held? (line : List UInt8) : Option (List Record) :=
  (Text.ofBytes? line).bind fun text =>
    if Text.allBlank text then some []
    else ((Json.read? text).bind Document.record?).map fun r => [r]

def heldOn? : List (List UInt8) → Option (List Record)
  | [] => some []
  | line :: rest => (held? line).bind fun rs => (heldOn? rest).map (rs ++ ·)

def recordsOf? (content : List UInt8) : Option (List Record) := heldOn? (splitLines content)

theorem heldOn?_append (lines lines' : List (List UInt8)) :
    heldOn? (lines ++ lines')
      = (heldOn? lines).bind fun rs => (heldOn? lines').map (rs ++ ·) := by
  induction lines with
  | nil => simp [heldOn?]
  | cons line lines ih =>
    rw [List.cons_append, heldOn?, heldOn?, ih]
    cases held? line <;> cases heldOn? lines <;> cases heldOn? lines' <;> simp

/-- What is read depends on the lines only, as long as it is read at all. -/
theorem recordsOn_eq_ok_iff {path : String} {number : Nat} {lines : List (List UInt8)}
    {rs : List Record} : recordsOn path number lines = .ok rs ↔ heldOn? lines = some rs := by
  induction lines generalizing number rs with
  | nil => simp [recordsOn, heldOn?]
  | cons line lines ih =>
    rw [recordsOn, heldOn?, held?]
    cases Text.ofBytes? line with
    | none => simp
    | some text =>
      by_cases hblank : Text.allBlank text = true
      · simp [hblank, ih]
      · simp only [hblank, Option.bind_some]
        cases (Json.read? text).bind Document.record? with
        | none => simp
        | some r =>
          simp only [Option.map_some]
          constructor
          · intro h
            cases hrest : recordsOn path (number + 1) lines with
            | error e =>
              rw [hrest] at h
              cases h
            | ok rs' =>
              rw [hrest] at h
              cases h
              rw [ih.1 hrest]
              rfl
          · intro h
            obtain ⟨rs', hrest, rfl⟩ := Option.map_eq_some_iff.1 h
            rw [ih.2 hrest]
            rfl

theorem recordsIn_eq_ok_iff {path : String} {content : List UInt8} {rs : List Record} :
    recordsIn path content = .ok rs ↔ recordsOf? content = some rs :=
  recordsOn_eq_ok_iff

theorem exists_error_of_recordsOf? (path : String) {content : List UInt8}
    (h : recordsOf? content = none) : ∃ e, recordsIn path content = .error e := by
  cases hread : recordsIn path content with
  | error e => exact ⟨e, rfl⟩
  | ok rs =>
    rw [recordsIn_eq_ok_iff.1 hread] at h
    cases h

/-! ## Parts of files -/

theorem recordsOf?_append {before : List UInt8} (h : AreEnded before) (rest : List UInt8) :
    recordsOf? (before ++ rest)
      = (recordsOf? before).bind fun rs => (recordsOf? rest).map (rs ++ ·) := by
  unfold recordsOf?
  rw [splitLines_append h, heldOn?_append]

theorem heldOn?_singleton (line : List UInt8) : heldOn? [line] = held? line := by
  simp [heldOn?]

theorem recordsOf?_line {line : List UInt8} (h : lineFeed ∉ line) :
    recordsOf? (line ++ [lineFeed]) = held? (withoutReturn line) := by
  unfold recordsOf?
  rw [splitLines_line h, heldOn?_singleton]

theorem recordsOf?_rest {rest : List UInt8} (h : lineFeed ∉ rest) :
    recordsOf? rest = if rest.isEmpty then some [] else held? rest := by
  unfold recordsOf?
  rw [splitLines_rest h]
  split
  · rfl
  · rw [heldOn?_singleton]

/-! ## Blanks -/

theorem held?_blank {line : List UInt8} (h : AreBlank line) : held? line = some [] := by
  have htext : Text.ofBytes? line = some (String.ofList (Text.asciiChars line)) := by
    have hbytes := Text.ofBytes?_bytes (String.ofList (Text.asciiChars line))
    rwa [h.bytes_asciiChars] at hbytes
  have hblank : Text.allBlank (String.ofList (Text.asciiChars line)) = true := by
    rw [Text.allBlank, String.toList_ofList, List.all_eq_true]
    exact fun c hc => Text.isBlank_of_isAsciiBlank (h.isBlank_asciiChars c hc)
  unfold held?
  rw [htext, Option.bind_some, if_pos hblank]

theorem areBlank_withoutReturn {line : List UInt8} (h : AreBlank line) :
    AreBlank (withoutReturn line) := by
  unfold withoutReturn
  split
  · exact fun b hb => h b (List.mem_of_mem_dropLast hb)
  · exact h

/-- Blanks hold nothing, on however many lines. -/
theorem recordsOf?_blank {content : List UInt8} (h : AreBlank content) :
    recordsOf? content = some [] := by
  -- The first line is cut off; what is after it is shorter.
  induction hn : content.length using Nat.strongRecOn generalizing content with
  | ind n ih =>
    by_cases hline : lineFeed ∈ content
    · obtain ⟨line, rest, rfl, hnot⟩ := List.eq_append_cons_of_mem hline
      have hcut : line ++ lineFeed :: rest = (line ++ [lineFeed]) ++ rest := by simp
      have hended : AreEnded (line ++ [lineFeed]) := by simp [AreEnded]
      have hlength : rest.length < n := by
        rw [← hn, List.length_append, List.length_cons]
        omega
      have hrest : AreBlank rest := by
        rw [hcut] at h
        exact h.right
      rw [hcut, recordsOf?_append hended, recordsOf?_line hnot,
        held?_blank (areBlank_withoutReturn h.left), ih _ hlength hrest rfl]
      rfl
    · rw [recordsOf?_rest hline]
      split
      · rfl
      · exact held?_blank h

end Audit

end QuantitySurvey
