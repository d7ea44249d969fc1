import QuantitySurvey.Proofs.Audit.Tail
import QuantitySurvey.Proofs.Document.Heights
import QuantitySurvey.Proofs.Document.Projects
import QuantitySurvey.Proofs.Json.Compact

/-! # A record at the end of a file

A record is added at the end of a file, whatever the last line there is. If the file ends with a
line, the record is on a line of its own. If it does not, the record and the last line become one
line, which nothing can be read from.

* `held?_record`: a record on a line.
* `recordsOf?_added`: what is read after a record was added.
* `held?_of_not_areSpaces`: a record after something else.
-/

set_option autoImplicit false

namespace QuantitySurvey.Audit

open Text (AreBlank lineFeed)
open Json.Reader (isSpace skipSpace EndsNumber)

/-! ## Lines of records -/

/-- A document can hold a record: every double in it is finite and reads back. -/
structure Record.IsWritable (r : Record) : Prop where
  isStorable : r.IsStorable
  hasFiniteTrace : r.hasFiniteTrace = true
  areFaithful : Json.AreFaithful (Document.ofRecord r).numbers

/-- Whatever number a log gives to a record, the record can be written. -/
theorem Record.IsWritable.numbered {r : Record} (hr : r.IsWritable) {n : Nat}
    (hn : n < UInt64.size) : { r with sequence := n }.IsWritable where
  isStorable := { hr.isStorable with sequence := hn }
  hasFiniteTrace := hr.hasFiniteTrace
  areFaithful := hr.areFaithful

/-- The bytes of a record, without the line feed after it. -/
def bytesOf (r : Record) : List UInt8 := Text.bytes (Document.ofRecord r).text

theorem bytes_lineOf (r : Record) : Text.bytes (lineOf r) = bytesOf r ++ [lineFeed] := by
  rw [lineOf, Text.bytes_append]
  rfl

theorem exists_compact_ofRecord (r : Record) :
    ∃ inner, (Document.ofRecord r).compact = '\x7b' :: (inner ++ ['\x7d']) :=
  Json.compact_object _

theorem lineFeed_not_mem_bytesOf (r : Record) : lineFeed ∉ bytesOf r := by
  intro h
  have hchar := Text.mem_of_mem_bytes h (by decide)
  rw [Json.text, String.toList_ofList] at hchar
  exact Json.lineFeed_not_mem_compact _ hchar

theorem getLast?_bytesOf (r : Record) : (bytesOf r).getLast? = some 125 := by
  obtain ⟨inner, hinner⟩ := exists_compact_ofRecord r
  have hbytes : bytesOf r = Text.bytes (String.ofList ('\x7b' :: inner)) ++ [125] := by
    rw [bytesOf, Json.text, hinner, ← List.cons_append, Text.bytes_ofList, Text.bytes_ofList,
      List.flatMap_append]
    rfl
  rw [hbytes, List.getLast?_concat]

theorem bytesOf_ne_nil (r : Record) : bytesOf r ≠ [] := by
  intro hnil
  have hlast := getLast?_bytesOf r
  rw [hnil] at hlast
  cases hlast

theorem getLast?_append_bytesOf (before : List UInt8) (r : Record) :
    (before ++ bytesOf r).getLast? = some 125 := by
  rw [List.getLast?_append_of_ne_nil _ (bytesOf_ne_nil r), getLast?_bytesOf]

theorem withoutReturn_bytesOf (before : List UInt8) (r : Record) :
    withoutReturn (before ++ bytesOf r) = before ++ bytesOf r := by
  unfold withoutReturn
  rw [getLast?_append_bytesOf, if_neg (by decide)]

/-- A text with a record in it is not blank. -/
theorem allBlank_append_record (t : String) (r : Record) :
    Text.allBlank (t ++ (Document.ofRecord r).text) = false := by
  obtain ⟨inner, hinner⟩ := exists_compact_ofRecord r
  rw [Text.allBlank, String.toList_append, Json.text, String.toList_ofList, hinner, List.all_append,
    List.all_cons]
  have hbrace : Text.isBlank '\x7b' = false := by decide
  rw [hbrace, Bool.false_and, Bool.and_false]

/-! ## Spaces -/

/-- Spaces, tabs and carriage returns: what may stand around a value on its line. -/
def AreSpaces (bs : List UInt8) : Prop := ∀ b ∈ bs, b = 32 ∨ b = 9 ∨ b = 13

instance (bs : List UInt8) : Decidable (AreSpaces bs) := by
  unfold AreSpaces
  infer_instance

theorem areSpaces_nil : AreSpaces [] := fun b hb => by cases hb

theorem AreSpaces.areBlank {bs : List UInt8} (h : AreSpaces bs) : AreBlank bs := by
  intro b hb
  rcases h b hb with rfl | rfl | rfl <;> decide

theorem AreSpaces.isSpace {bs : List UInt8} (h : AreSpaces bs) :
    (Text.asciiChars bs).all isSpace = true := by
  rw [List.all_eq_true]
  intro c hc
  obtain ⟨b, hb, rfl⟩ := List.mem_map.1 hc
  rcases h b hb with rfl | rfl | rfl <;> decide

theorem areSpaces_of_isSpace {s : String} (h : s.toList.all isSpace = true)
    (hline : lineFeed ∉ Text.bytes s) : AreSpaces (Text.bytes s) := by
  intro b hb
  have hbytes := hb
  rw [← String.ofList_toList (s := s), Text.bytes_ofList] at hbytes
  obtain ⟨c, hc, hbyte⟩ := List.mem_flatMap.1 hbytes
  have hspace := List.all_eq_true.1 h c hc
  simp only [isSpace, Bool.or_eq_true, beq_iff_eq] at hspace
  rcases hspace with ((rfl | rfl) | rfl) | rfl
  · exact .inl (List.mem_singleton.1 hbyte)
  · obtain rfl : b = lineFeed := List.mem_singleton.1 hbyte
    exact absurd hb hline
  · exact .inr (.inr (List.mem_singleton.1 hbyte))
  · exact .inr (.inl (List.mem_singleton.1 hbyte))

/-! ## Lines with a record at their end -/

theorem ofBytes?_append {line : List UInt8} {t : String} (h : Text.ofBytes? line = some t)
    (s : String) : Text.ofBytes? (line ++ Text.bytes s) = some (t ++ s) := by
  rw [← Text.bytes_of_ofBytes? h, ← Text.bytes_append, Text.ofBytes?_bytes]

theorem held?_of_text {line : List UInt8} {t : String} (htext : Text.ofBytes? line = some t)
    (hblank : Text.allBlank t = false) :
    held? line = ((Json.read? t).bind Document.record?).map fun r => [r] := by
  unfold held?
  rw [htext, Option.bind_some, hblank, if_neg Bool.false_ne_true]

theorem exists_text_of_areSpaces {spaces : List UInt8} (hspaces : AreSpaces spaces) {r : Record}
    (hr : r.IsWritable) : ∃ t, Text.ofBytes? (spaces ++ bytesOf r) = some t
      ∧ Text.allBlank t = false ∧ Json.read? t = some (Document.ofRecord r).asRead := by
  have hbytes := Text.ofBytes?_bytes (String.ofList (Text.asciiChars spaces))
  rw [hspaces.areBlank.bytes_asciiChars] at hbytes
  have hheight : (Document.ofRecord r).height ≤ Json.Reader.maxDepth :=
    (Document.height_ofRecord r).trans (by decide)
  exact ⟨_, ofBytes?_append hbytes _, allBlank_append_record _ r,
    Json.read?_spaces hspaces.isSpace (Json.read?_text _ hheight hr.areFaithful)⟩

/-- A record is read back from its line, with spaces before it or not. -/
theorem held?_record {spaces : List UInt8} (hspaces : AreSpaces spaces) {r : Record}
    (hr : r.IsWritable) : held? (spaces ++ bytesOf r) = some [r] := by
  obtain ⟨t, htext, hblank, hread⟩ := exists_text_of_areSpaces hspaces hr
  rw [held?_of_text htext hblank, hread, Option.bind_some, Document.record?_asRead hr.isStorable,
    if_pos hr.hasFiniteTrace]
  rfl

/-- A record is not read where it stands after a value, or after a blank that is no space. -/
theorem read?_append_record {line : List UInt8} {t : String} (htext : Text.ofBytes? line = some t)
    (hline : lineFeed ∉ line) (hspaces : ¬ AreSpaces line)
    (hread : Text.allBlank t = false → ∃ j, Json.read? t = some j) (r : Record) :
    Json.read? (t ++ (Document.ofRecord r).text) = none := by
  cases hblank : Text.allBlank t with
  | true =>
    cases hskip : skipSpace t.toList with
    | nil =>
      rw [← Text.bytes_of_ofBytes? htext] at hline hspaces
      exact absurd (areSpaces_of_isSpace (by simpa [skipSpace] using hskip) hline) hspaces
    | cons c cs =>
      refine Json.read?_of_blank fun c' hc' => ?_
      rw [String.toList_append, Json.Reader.skipSpace_append_of_cons hskip] at hc'
      cases hc'
      have hmem : c ∈ skipSpace t.toList := by
        rw [hskip]
        exact List.mem_cons_self
      exact List.all_eq_true.1 hblank c ((List.dropWhile_sublist isSpace).mem hmem)
  | false =>
    obtain ⟨j, hj⟩ := hread hblank
    obtain ⟨inner, hinner⟩ := exists_compact_ofRecord r
    have hbrace : EndsNumber ('\x7b' :: (inner ++ ['\x7d'])) := Json.endsNumber_cons (by decide) _
    rw [Json.text, hinner, Json.read?_append hj hbrace, Json.skipSpace_cons (by decide)]
    rfl

/-- No record can be read from a line on which something else stands before it. -/
theorem held?_of_not_areSpaces {line : List UInt8} {rs : List Record} (hline : lineFeed ∉ line)
    (hheld : held? line = some rs) (hspaces : ¬ AreSpaces line) (r : Record) :
    held? (line ++ bytesOf r) = none := by
  obtain ⟨t, htext, hrs⟩ := Option.bind_eq_some_iff.1 hheld
  have hread : Text.allBlank t = false → ∃ j, Json.read? t = some j := by
    intro hblank
    rw [hblank, if_neg Bool.false_ne_true] at hrs
    obtain ⟨r', hr', -⟩ := Option.map_eq_some_iff.1 hrs
    obtain ⟨j, hj, -⟩ := Option.bind_eq_some_iff.1 hr'
    exact ⟨j, hj⟩
  have hheld' := held?_of_text (ofBytes?_append htext _) (allBlank_append_record t r)
  rw [read?_append_record htext hline hspaces hread] at hheld'
  exact hheld'

/-! ## Files with a record at their end -/

/-- Nothing but spaces stands after the last line feed. -/
def EndsLine (content : List UInt8) : Prop := AreSpaces (afterLastLineFeed content)

instance (content : List UInt8) : Decidable (EndsLine content) := by
  unfold EndsLine
  infer_instance

theorem recordsOf?_parts {content : List UInt8} {rs : List Record}
    (h : recordsOf? content = some rs) : ∃ before rs₁ rs₂, AreEnded before
      ∧ content = before ++ afterLastLineFeed content ∧ recordsOf? before = some rs₁
      ∧ recordsOf? (afterLastLineFeed content) = some rs₂ ∧ rs = rs₁ ++ rs₂ := by
  obtain ⟨before, hbefore, hcontent⟩ := exists_before_afterLastLineFeed content
  rw [hcontent, recordsOf?_append hbefore] at h
  obtain ⟨rs₁, h₁, h⟩ := Option.bind_eq_some_iff.1 h
  obtain ⟨rs₂, h₂, rfl⟩ := Option.map_eq_some_iff.1 h
  exact ⟨before, rs₁, rs₂, hbefore, hcontent, h₁, h₂, rfl⟩

/-- A record is added to those of a file if the file ends with a line. Else no records can be read
any more. -/
theorem recordsOf?_added {content : List UInt8} {rs : List Record}
    (h : recordsOf? content = some rs) {r : Record} (hr : r.IsWritable) :
    recordsOf? (content ++ Text.bytes (lineOf r))
      = if EndsLine content then some (rs ++ [r]) else none := by
  obtain ⟨before, rs₁, rs₂, hbefore, hcontent, h₁, h₂, rfl⟩ := recordsOf?_parts h
  have hrest := lineFeed_not_mem_afterLastLineFeed content
  have hline : lineFeed ∉ afterLastLineFeed content ++ bytesOf r :=
    fun hmem => (List.mem_append.1 hmem).elim hrest (lineFeed_not_mem_bytesOf r)
  -- What stands after the last line feed is on one line with the record.
  have hadded : content ++ Text.bytes (lineOf r)
      = before ++ (afterLastLineFeed content ++ bytesOf r ++ [lineFeed]) := by
    conv_lhs => rw [hcontent, bytes_lineOf]
    simp only [List.append_assoc]
  rw [hadded, recordsOf?_append hbefore, h₁, Option.bind_some, recordsOf?_line hline,
    withoutReturn_bytesOf]
  by_cases hends : EndsLine content
  · have hspaces : AreSpaces (afterLastLineFeed content) := hends
    obtain rfl : rs₂ = [] := Option.some.inj (h₂.symm.trans (recordsOf?_blank hspaces.areBlank))
    rw [held?_record hspaces hr, if_pos hends, List.append_nil]
    rfl
  · have hne : afterLastLineFeed content ≠ [] := by
      intro hnil
      refine hends ?_
      rw [EndsLine, hnil]
      exact areSpaces_nil
    rw [recordsOf?_rest hrest, if_neg (by simpa using hne)] at h₂
    rw [held?_of_not_areSpaces hrest h₂ hends, if_neg hends]
    rfl

end QuantitySurvey.Audit
