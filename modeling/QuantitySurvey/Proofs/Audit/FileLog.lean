import QuantitySurvey.Proofs.Audit.Backwards
import QuantitySurvey.Proofs.Audit.Numbering

/-! # Log files on a disk

What adding and reading records do on a disk in memory, where a path leads to a name that is not
that of a directory: both depend on the content of the file only, and only adding changes it.

* `added`: the number that a record gets, and the content after it.
* `does_record`, `does_records`: the operations.
* `record_then_records`: a record that is added to a log that can be read.
-/

set_option autoImplicit false

namespace QuantitySurvey

open Disk (Handle)
open Workplace

variable {σ : Type} {d d' : Disk} {path k : String}

/-! ## Open files -/

namespace Workplace

theorem does_openEnd (path : String) :
    Does d ((files : Files (Workplace σ) Handle).openEnd path) fun r d' =>
      (∃ e, r = .error e ∧ d.openForWriting path = .error e ∧ d' = d)
        ∨ ∃ h k n, r = .ok h ∧ Disk.Opened d path h d' k n := by
  refine (does_attempt _).mono fun r d' hrun => hrun.imp_right ?_
  rintro ⟨h, hr, hopen⟩
  obtain ⟨k, n, hopened⟩ := Disk.opened hopen
  exact ⟨h, k, n, hr, hopened⟩

theorem does_lock (shared : Bool) (h : Handle) :
    Does d ((files : Files (Workplace σ) Handle).lock shared h) fun r d' =>
      r = .ok () ∧ d' = if shared then d else d.locked h :=
  fun _ => ⟨rfl, rfl⟩

end Workplace

namespace Audit.FileLog

/-! ## Adding -/

/-- The number that a record gets at the end of a file, and the content after it. -/
def added (path : String) (content : List UInt8) (r : Record) :
    Except Failure Nat × List UInt8 :=
  match numberOf path (lastLine content) with
  | .error e => (.error e, content)
  | .ok last =>
    (.ok (following last), content ++ Text.bytes (lineOf { r with sequence := following last }))

section Handle

variable {h : Handle} {n : Nat} (hfile : h.file = some n)
include hfile

theorem does_lastSequence : Does d (lastSequence (files : Files (Workplace σ) Handle) path h)
    fun r d' => r = numberOf path (lastLine (d.contentOf n)) ∧ d' = d := by
  rw [lastSequence_eq, numberOf_eq]
  exact does_backwards hfile path (recordNumber path) (by decide)

theorem does_add (r : Record) : Does d (add (files : Files (Workplace σ) Handle) path h r)
    fun out d' => d'.nodes = d.nodes ∧ (out, d'.contentOf n) = added path (d.contentOf n) r := by
  unfold add
  refine (does_lastSequence hfile).bind fun out d₁ hlast => ?_
  obtain ⟨rfl, rfl⟩ := hlast
  unfold added
  cases numberOf path (lastLine (d₁.contentOf n)) with
  | error e => exact does_pure ⟨rfl, rfl⟩
  | ok last =>
    have hwrite : ∀ bs, Does d₁ ((files : Files (Workplace σ) Handle).write h bs) fun out d' =>
        out = .ok () ∧ d' = d₁.write h bs := fun bs _ => ⟨rfl, rfl⟩
    refine (hwrite _).bind fun out d₂ hw => ?_
    obtain ⟨rfl, rfl⟩ := hw
    refine does_pure ⟨Disk.nodes_write _, ?_⟩
    rw [Disk.contentOf_write hfile, if_pos rfl]
    rfl

theorem does_content : Does d (content (files : Files (Workplace σ) Handle) path h)
    fun out d' => out = recordsIn path (d.contentOf n) ∧ d' = d := by
  unfold content
  refine (does_size hfile).bind fun r d₁ hsize => ?_
  obtain ⟨rfl, rfl⟩ := hsize
  refine (does_readAt hfile 0 _).bind fun r d₂ hread => ?_
  obtain ⟨rfl, rfl⟩ := hread
  rw [List.drop_zero, List.take_length]
  exact does_pure ⟨rfl, rfl⟩

end Handle

/-! ## Operations -/

/-- A disk on which a name may be that of a file with some content. -/
structure Keeps (d : Disk) (k : String) (content : List UInt8) (d' : Disk) : Prop where
  directories : d.SameDirectories d'
  notDirectory : d'.nodes.find? k ≠ some .directory
  content : d'.contentAt k = content

section Operations

variable (hkey : d.key? path = some k) (hnode : d.nodes.find? k ≠ some .directory)
include hkey hnode

theorem does_record (r : Record) :
    Does d (record (files : Files (Workplace σ) Handle) path r) fun out d' =>
      out = (added path (d.contentAt k) r).1 ∧ Keeps d k (added path (d.contentAt k) r).2 d' := by
  unfold record
  refine (does_openEnd path).bind fun out d₁ hopen => ?_
  rcases hopen with ⟨e, -, herror, -⟩ | ⟨h, k₁, n, rfl, hopened⟩
  · obtain ⟨h, d₂, hok⟩ := Disk.exists_openForWriting hkey hnode
    rw [hok] at herror
    cases herror
  · obtain rfl : k₁ = k := Option.some.inj (hopened.key.symm.trans hkey)
    refine (does_lock false h).bind fun out d₂ hlock => ?_
    obtain ⟨rfl, rfl⟩ := hlock
    refine (does_add hopened.file r).bind fun out d₃ hadd => ?_
    obtain ⟨hnodes, hadded⟩ := hadd
    refine (does_close h).bind fun _ d₄ hclose => ?_
    subst hclose
    have hopen : d₁.nodes.find? k₁ = some (.file n) := by rw [hopened.nodes, if_pos rfl]
    have hsame : (d₃.closed h).nodes = d₁.nodes := by
      rw [← Disk.nodes_locked h (d := d₁)]
      exact hnodes
    have hcontent : (d₁.locked h).contentOf n = d.contentAt k₁ := by
      rw [Disk.contentOf_locked, hopened.content]
    simp only [Bool.false_eq_true, if_false, hcontent] at hadded
    have hfile : (d₃.closed h).nodes.find? k₁ = some (.file n) := by rw [hsame, hopen]
    refine does_pure ⟨congrArg Prod.fst hadded, ?_, by rw [hfile]; simp, ?_⟩
    · exact hopened.sameDirectories.trans
        (Disk.sameDirectories_of_find? fun j => .inl (by rw [hsame]))
    · rw [Disk.contentAt_of_file hfile]
      exact congrArg Prod.snd hadded

theorem does_records :
    Does d (records (files : Files (Workplace σ) Handle) path) fun out d' =>
      out = recordsIn path (d.contentAt k) ∧ Keeps d k (d.contentAt k) d' := by
  unfold records
  have hkeeps : ∀ {d₁ : Disk}, d₁.nodes = d.nodes → (∀ n, d₁.contentOf n = d.contentOf n) →
      Keeps d k (d.contentAt k) d₁ := by
    intro d₁ hnodes hcontents
    refine ⟨Disk.sameDirectories_of_find? fun j => .inl (by rw [hnodes]), by rwa [hnodes], ?_⟩
    simp only [Disk.contentAt, hnodes, hcontents]
  refine (does_attempt _).bind fun out d₁ hopen => ?_
  rw [Disk.openStart, Disk.find_of_key? hkey] at hopen
  cases hfind : d.nodes.find? k with
  | none =>
    rw [hfind] at hopen
    rcases hopen with ⟨e, rfl, herror, rfl⟩ | ⟨h, -, hok⟩
    · cases herror
      refine does_pure ⟨?_, hkeeps rfl fun _ => rfl⟩
      rw [Disk.contentAt_of_none hfind]
      rfl
    · cases hok
  | some node =>
    cases node with
    | directory => exact absurd hfind hnode
    | file n =>
      rw [hfind] at hopen
      rcases hopen with ⟨e, -, herror, -⟩ | ⟨h, rfl, hok⟩
      · cases herror
      · cases hok
        refine (does_lock true _).bind fun out d₂ hlock => ?_
        obtain ⟨rfl, rfl⟩ := hlock
        refine (does_content rfl).bind fun out d₃ hcontent => ?_
        obtain ⟨rfl, rfl⟩ := hcontent
        refine (does_close _).bind fun _ d₄ hclose => ?_
        subst hclose
        refine does_pure ⟨?_, hkeeps rfl fun _ => rfl⟩
        rw [Disk.contentAt_of_file hfind]
        rfl

end Operations

/-! ## Adding to a log that can be read -/

section Readable

variable {content : List UInt8} {rs : List Record} (h : recordsOf? content = some rs)
include h

theorem added_of_isNumbered (hnumbered : IsNumbered content) (path : String) (r : Record) :
    added path content r = (.ok (nextSequence rs),
      content ++ Text.bytes (lineOf { r with sequence := nextSequence rs })) := by
  unfold added
  rw [numberOf_of_isNumbered h path hnumbered]
  simp only [following_lastNumber]

theorem added_of_not_isNumbered (hnumbered : ¬ IsNumbered content) (path : String) (r : Record) :
    ∃ e, added path content r = (.error e, content) := by
  obtain ⟨e, he⟩ := numberOf_of_not_isNumbered h path hnumbered
  refine ⟨e, ?_⟩
  unfold added
  rw [he]

end Readable

/-- Adds a record, and reads all of them then. -/
def recordThenRead {m : Type → Type} {H : Type} [Monad m] (files : Files m H) (path : String)
    (r : Record) : m (Except Failure Nat × Except Failure (List Record)) := do
  let number ← record files path r
  let after ← records files path
  return (number, after)

section Added

variable (hkey : d.key? path = some k) (hnode : d.nodes.find? k ≠ some .directory)
include hkey hnode

theorem does_recordThenRead (r : Record) :
    Does d (recordThenRead (files : Files (Workplace σ) Handle) path r) fun out _ =>
      out.1 = (added path (d.contentAt k) r).1
        ∧ out.2 = recordsIn path (added path (d.contentAt k) r).2 := by
  unfold recordThenRead
  refine (does_record hkey hnode r).bind fun number d₁ hrecord => ?_
  obtain ⟨rfl, hkeeps⟩ := hrecord
  have hkey₁ : d₁.key? path = some k := by rw [hkeeps.directories.key?, hkey]
  refine (does_records hkey₁ hkeeps.notDirectory).bind fun after d₂ hrecords => ?_
  obtain ⟨rfl, -⟩ := hrecords
  exact does_pure ⟨rfl, by rw [hkeeps.content]⟩

/-- A record that is added to a log that can be read gets the number after the last one, and stands
after the other records, if the last line that is not blank gives its number and the file ends with
a line. If the file does not end with a line, the record spoils the line it is added to, and the log
can not be read any more. If the last line gives no number, the record is refused. -/
theorem record_then_records {s : σ} {rs : List Record}
    (hread : outcome d s (records files path) = .ok rs)
    (hlast : ∀ last ∈ rs.getLast?, last.sequence + 1 < UInt64.size) {r : Record}
    (hr : r.IsWritable) :
    (IsNumbered (d.contentAt k) →
      (outcome d s (recordThenRead files path r)).1 = .ok (lastNumber rs + 1) ∧
      (EndsLine (d.contentAt k) → (outcome d s (recordThenRead files path r)).2
        = .ok (rs ++ [{ r with sequence := lastNumber rs + 1 }])) ∧
      (¬ EndsLine (d.contentAt k) →
        ∃ e, (outcome d s (recordThenRead files path r)).2 = .error e)) ∧
    (¬ IsNumbered (d.contentAt k) →
      (∃ e, (outcome d s (recordThenRead files path r)).1 = .error e) ∧
      (outcome d s (recordThenRead files path r)).2 = .ok rs) := by
  obtain ⟨hall, -⟩ := does_records hkey hnode s
  have hrecords : recordsIn path (d.contentAt k) = .ok rs := hall.symm.trans hread
  have hrs : recordsOf? (d.contentAt k) = some rs := recordsIn_eq_ok_iff.1 hrecords
  obtain ⟨hnumber, hafter⟩ := does_recordThenRead hkey hnode r s
  have hnext : nextSequence rs = lastNumber rs + 1 := by
    unfold nextSequence lastNumber
    cases hget : rs.getLast? with
    | none => rfl
    | some last => exact Nat.mod_eq_of_lt (hlast last hget)
  refine ⟨fun hnumbered => ?_, fun hnumbered => ?_⟩
  · rw [added_of_isNumbered hrs hnumbered] at hnumber hafter
    have hwritable : ({ r with sequence := nextSequence rs } : Record).IsWritable :=
      hr.numbered (nextSequence_lt rs)
    have hadded := recordsOf?_added hrs hwritable
    rw [hnext] at hnumber hafter hadded
    refine ⟨hnumber, fun hends => ?_, fun hends => ?_⟩
    · rw [if_pos hends] at hadded
      exact hafter.trans (recordsIn_eq_ok_iff.2 hadded)
    · rw [if_neg hends] at hadded
      obtain ⟨e, he⟩ := exists_error_of_recordsOf? path hadded
      exact ⟨e, hafter.trans he⟩
  · obtain ⟨e, he⟩ := added_of_not_isNumbered hrs hnumbered path r
    rw [he] at hnumber hafter
    exact ⟨⟨e, hnumber⟩, hafter.trans hrecords⟩

end Added

/-! ## A line that is not ended -/

section Unended

variable {r : Record}

theorem recordsOf?_bytesOf (hr : r.IsWritable) : recordsOf? (bytesOf r) = some [r] := by
  have hheld := held?_record areSpaces_nil hr
  have hfilled : ¬ (bytesOf r).isEmpty = true := by simpa using bytesOf_ne_nil r
  rw [recordsOf?_rest (lineFeed_not_mem_bytesOf r), if_neg hfilled]
  exact hheld

theorem isNumbered_bytesOf (hr : r.IsWritable) : IsNumbered (bytesOf r) :=
  isNumbered_of_lastLine areSpaces_nil hr (lastLine_bytesOf [] r)

theorem not_endsLine_bytesOf (r : Record) : ¬ EndsLine (bytesOf r) := by
  intro h
  have hline : afterLastLineFeed (bytesOf r) = bytesOf r := afterLastLineFeed_bytesOf [] r
  unfold EndsLine at h
  rw [hline] at h
  have hbrace := h 125 (List.mem_of_getLast? (getLast?_bytesOf r))
  revert hbrace
  decide

end Unended

/-- A failed attempt that missed a field. -/
def missing (field : String) : Record where
  sequence := 1
  outcome := .ofFailure (.missingInput field)
  actor := .system
  startedAt := ⟨0, 0⟩
  durationMicros := 0
  engineVersion := "0.1.0"

theorem isWritable_missing (field : String) : (missing field).IsWritable := by
  have hsequence : 1 < UInt64.size := by decide
  have hparameters : Parameter.AreFinite (missing field).parameters := fun v hv => by cases hv
  have hcivil : (⟨0, 0⟩ : Instant).IsCivil := by decide
  have hmicros : 0 < UInt64.size := by decide
  have hnumbers : (Document.ofRecord (missing field)).numbers
      = (Document.ofRecord (missing "")).numbers := rfl
  refine ⟨⟨hsequence, hparameters, trivial, hcivil.isStorable, hmicros⟩, rfl, ?_⟩
  rw [hnumbers]
  decide +kernel

theorem key?_diskWith (content : List UInt8) :
    (diskWith content).key? "audit.jsonl" = some "audit.jsonl" := by
  have hsame : (diskWith []).SameDirectories (diskWith content) := fun _ => Iff.rfl
  rw [hsame.key?]
  decide +kernel

theorem find?_diskWith (content : List UInt8) :
    (diskWith content).nodes.find? "audit.jsonl" = some (.file 0) := by
  have hnodes : (diskWith content).nodes = (diskWith []).nodes := rfl
  rw [hnodes]
  decide +kernel

theorem contentAt_diskWith (content : List UInt8) :
    (diskWith content).contentAt "audit.jsonl" = content := by
  rw [Disk.contentAt_of_file (find?_diskWith content), contentOf_diskWith]

theorem notDirectory_diskWith (content : List UInt8) :
    (diskWith content).nodes.find? "audit.jsonl" ≠ some .directory := by
  rw [find?_diskWith]
  decide

theorem records_diskWith {content : List UInt8} {rs : List Record}
    (h : recordsOf? content = some rs) :
    outcome (diskWith content) () (records files "audit.jsonl") = .ok rs := by
  obtain ⟨hall, -⟩ := does_records (key?_diskWith content) (notDirectory_diskWith content) ()
  rw [contentAt_diskWith] at hall
  exact hall.trans (recordsIn_eq_ok_iff.2 h)

theorem record_spoils_unended_line :
    outcome (diskWith (bytesOf (missing "wall"))) () (records files "audit.jsonl")
        = .ok [missing "wall"]
      ∧ ∃ e, outcome (diskWith (bytesOf (missing "wall"))) ()
        (recordThenRead files "audit.jsonl" (missing "wall")) = (.ok 2, .error e) := by
  have hwritable := isWritable_missing "wall"
  have hread := records_diskWith (recordsOf?_bytesOf hwritable)
  have hlast : ∀ last ∈ [missing "wall"].getLast?, last.sequence + 1 < UInt64.size := by
    intro last hlast
    cases hlast
    decide
  have hadded := (record_then_records (key?_diskWith _) (notDirectory_diskWith _) hread hlast
    hwritable).1
  rw [contentAt_diskWith] at hadded
  obtain ⟨hnumber, -, hafter⟩ := hadded (isNumbered_bytesOf hwritable)
  obtain ⟨e, he⟩ := hafter (not_endsLine_bytesOf (missing "wall"))
  exact ⟨hread, e, Prod.ext hnumber he⟩

end Audit.FileLog

end QuantitySurvey
