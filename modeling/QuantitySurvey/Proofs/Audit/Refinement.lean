import QuantitySurvey.Proofs.Audit.FileLog

/-! # The log in a file is the log in memory

A log that is written to a new file answers every call as a log in memory does. One call keeps the
file and the list of records together, so a sequence of calls does, through whatever paths they
reach the file.

* `Call`, `Answer`: what is asked of a log.
* `Holds`: a file that holds the records of a log and can take more.
* `does_ask`: one call.
* `answers_eq_memory`: all calls.
-/

set_option autoImplicit false

namespace QuantitySurvey.Audit

open Calculation (Ledger Recorder)
open FileLog (missing isWritable_missing)
open Workplace

/-! ## Calls -/

inductive Call where
  | record (r : Record)
  | records
  | forElement (element : Identifier)
  | byStatus (status : Status)

inductive Answer where
  | number (n : Except Failure Nat)
  | records (rs : Except Failure (List Record))

section Calls

variable {m : Type → Type} [Monad m]

def Call.ask (log : Recorder m) : Call → m Answer
  | record r => do return .number (← log.record r)
  | records => do return .records (← log.records)
  | forElement element => do return .records (← log.forElement element)
  | byStatus status => do return .records (← log.byStatus status)

/-- Calls of the logs that names lead to, one after another. -/
def answers (log : String → Recorder m) : List (String × Call) → m (List Answer)
  | [] => return []
  | (name, call) :: rest => do
    let answer ← call.ask (log name)
    let later ← answers log rest
    return answer :: later

end Calls

/-- A document can hold the record that is added, if one is. -/
def Call.IsWritable : Call → Prop
  | record r => r.IsWritable
  | _ => True

/-! ## In memory -/

namespace Call

/-- What a log in memory answers, and the log after that. -/
def inMemory (l : Ledger) (call : Call) : Answer × Ledger :=
  (call.ask (Recorder.inLedger : Recorder (StateM Ledger))).run l

variable (l : Ledger)

theorem inMemory_record (r : Record) : (Call.record r).inMemory l
    = (.number (.ok (nextSequence l.log.records)), { l with log := (l.log.add r).2 }) := rfl

theorem inMemory_records : Call.records.inMemory l = (.records (.ok l.log.records), l) := rfl

theorem inMemory_forElement (element : Identifier) : (Call.forElement element).inMemory l
    = (.records (.ok (aboutElement l.log.records element)), l) := rfl

theorem inMemory_byStatus (status : Status) : (Call.byStatus status).inMemory l
    = (.records (.ok (withStatus l.log.records status)), l) := rfl

end Call

/-! ## In a file -/

/-- A file holds the records of a log, and a record that is added gets the number after them on a
line of its own. -/
structure Holds (d : Disk) (k : String) (log : Log) : Prop where
  notDirectory : d.nodes.find? k ≠ some .directory
  records : recordsOf? (d.contentAt k) = some log.records
  endsLine : EndsLine (d.contentAt k)
  isNumbered : IsNumbered (d.contentAt k)

variable {σ : Type} {d : Disk} {path k : String}

theorem holds_of_none (h : d.nodes.find? k = none) : Holds d k {} := by
  have hempty : d.contentAt k = [] := Disk.contentAt_of_none h
  refine ⟨by simp [h], ?_, ?_, ?_⟩
  · rw [hempty]
    rfl
  · rw [hempty]
    exact areSpaces_nil
  · rw [hempty]
    exact .inl rfl

section Step

variable {log : Log} (hkey : d.key? path = some k) (h : Holds d k log)
include hkey h

/-- Reading answers with the records of the log, and leaves the file alone. -/
theorem does_records_of_holds :
    Does d (FileLog.records (files : Files (Workplace σ) Disk.Handle) path) fun out d' =>
      out = .ok log.records ∧ d.SameDirectories d' ∧ Holds d' k log := by
  refine (FileLog.does_records hkey h.notDirectory).mono fun out d' hout => ?_
  obtain ⟨rfl, hkeeps⟩ := hout
  refine ⟨recordsIn_eq_ok_iff.2 h.records, hkeeps.directories, hkeeps.notDirectory, ?_, ?_, ?_⟩
  · rw [hkeeps.content, h.records]
  · rw [hkeeps.content]
    exact h.endsLine
  · rw [hkeeps.content]
    exact h.isNumbered

/-- So does what is shown of the records only. -/
theorem does_map_records (f : List Record → List Record) :
    Does d (do return (← FileLog.records (files : Files (Workplace σ) Disk.Handle) path).map f)
      fun out d' => out = .ok (f log.records) ∧ d.SameDirectories d' ∧ Holds d' k log := by
  refine (does_records_of_holds hkey h).bind fun out d' hout => ?_
  obtain ⟨rfl, hkept⟩ := hout
  exact does_pure ⟨rfl, hkept⟩

/-- Adding a record answers with its number in the log, and adds it to the file. -/
theorem does_record_of_holds {r : Record} (hr : r.IsWritable) :
    Does d (FileLog.record (files : Files (Workplace σ) Disk.Handle) path r) fun out d' =>
      out = .ok (nextSequence log.records) ∧ d.SameDirectories d' ∧ Holds d' k (log.add r).2 := by
  refine (FileLog.does_record hkey h.notDirectory r).mono fun out d' hout => ?_
  rw [FileLog.added_of_isNumbered h.records h.isNumbered] at hout
  obtain ⟨rfl, hkeeps⟩ := hout
  have hwritable : ({ r with sequence := nextSequence log.records } : Record).IsWritable :=
    hr.numbered (nextSequence_lt _)
  refine ⟨rfl, hkeeps.directories, hkeeps.notDirectory, ?_, ?_, ?_⟩
  · rw [hkeeps.content, recordsOf?_added h.records hwritable, if_pos h.endsLine]
    rfl
  · rw [hkeeps.content]
    exact endsLine_added _ _
  · rw [hkeeps.content]
    exact isNumbered_added h.endsLine hwritable

end Step

/-- One call is answered as in memory, and the file holds the same records after it. -/
theorem does_ask {l : Ledger} (hkey : d.key? path = some k) (h : Holds d k l.log) {call : Call}
    (hcall : call.IsWritable) :
    Does d (call.ask (FileLog.recorder (files : Files (Workplace σ) Disk.Handle) path))
      fun answer d' => answer = (call.inMemory l).1 ∧ d.SameDirectories d'
        ∧ Holds d' k (call.inMemory l).2.log := by
  cases call with
  | record r =>
    rw [Call.inMemory_record]
    refine (does_record_of_holds hkey h hcall).bind fun out d' hout => ?_
    obtain ⟨rfl, hsame, hholds⟩ := hout
    exact does_pure ⟨rfl, hsame, hholds⟩
  | records =>
    rw [Call.inMemory_records]
    refine (does_records_of_holds hkey h).bind fun out d' hout => ?_
    obtain ⟨rfl, hsame, hholds⟩ := hout
    exact does_pure ⟨rfl, hsame, hholds⟩
  | forElement element =>
    rw [Call.inMemory_forElement]
    refine (does_map_records hkey h (aboutElement · element)).bind fun out d' hout => ?_
    obtain ⟨rfl, hsame, hholds⟩ := hout
    exact does_pure ⟨rfl, hsame, hholds⟩
  | byStatus status =>
    rw [Call.inMemory_byStatus]
    refine (does_map_records hkey h (withStatus · status)).bind fun out d' hout => ?_
    obtain ⟨rfl, hsame, hholds⟩ := hout
    exact does_pure ⟨rfl, hsame, hholds⟩

theorem does_answers {l : Ledger} (h : Holds d k l.log) {calls : List (String × Call)}
    (hpaths : ∀ c ∈ calls, d.key? c.1 = some k) (hcalls : ∀ c ∈ calls, c.2.IsWritable) :
    Does d (answers (FileLog.recorder (files : Files (Workplace σ) Disk.Handle)) calls)
      fun out _ => out
        = ((answers (fun _ => (Recorder.inLedger : Recorder (StateM Ledger))) calls).run l).1 := by
  induction calls generalizing d l with
  | nil => exact does_pure rfl
  | cons c calls ih =>
    obtain ⟨name, call⟩ := c
    have hmemory : ((answers (fun _ => (Recorder.inLedger : Recorder (StateM Ledger)))
        ((name, call) :: calls)).run l).1 = (call.inMemory l).1
          :: ((answers (fun _ => (Recorder.inLedger : Recorder (StateM Ledger))) calls).run
            (call.inMemory l).2).1 := rfl
    rw [hmemory]
    refine (does_ask (hpaths _ List.mem_cons_self) h (hcalls _ List.mem_cons_self)).bind
      fun answer d' hanswer => ?_
    obtain ⟨rfl, hsame, hholds⟩ := hanswer
    -- No call changes directories, so the other names lead to the file as before.
    have hpaths' : ∀ c ∈ calls, d'.key? c.1 = some k := by
      intro c hc
      rw [hsame.key?, hpaths c (List.mem_cons_of_mem _ hc)]
    refine (ih hholds hpaths' fun c hc => hcalls c (List.mem_cons_of_mem _ hc)).bind
      fun later d'' hlater => ?_
    subst hlater
    exact does_pure rfl

/-- A log that is written to a new file gives the same numbers to records as a log in memory, and
shows the same records between and after them, whatever paths lead to the file. -/
theorem answers_eq_memory (hfree : d.nodes.find? k = none) {calls : List (String × Call)}
    (hpaths : ∀ c ∈ calls, d.key? c.1 = some k) (hcalls : ∀ c ∈ calls, c.2.IsWritable) (s : σ) :
    outcome d s (answers (FileLog.recorder files) calls)
      = ((answers (fun _ => (Recorder.inLedger : Recorder (StateM Ledger))) calls).run {}).1 :=
  does_answers (holds_of_none hfree) hpaths hcalls s

/-- Two names for one file, and a text over two lines in a record. -/
theorem sample_answers_eq_memory :
    outcome ({} : Disk) () (answers (FileLog.recorder files)
        [("audit.jsonl", .records), ("audit.jsonl", .record (missing "wall")),
          ("./audit.jsonl", .record (missing "two\nlines")), ("audit.jsonl", .byStatus .failure),
          ("./audit.jsonl", .byStatus .success)])
      = [.records (.ok []), .number (.ok 1), .number (.ok 2),
          .records (.ok [missing "wall", { missing "two\nlines" with sequence := 2 }]),
          .records (.ok [])] := by
  refine (answers_eq_memory (d := {}) (k := "audit.jsonl") rfl ?_ ?_ ()).trans ?_
  · decide +kernel
  · intro c hc
    simp only [List.mem_cons, List.not_mem_nil, or_false] at hc
    rcases hc with rfl | rfl | rfl | rfl | rfl
    · trivial
    · exact isWritable_missing "wall"
    · exact isWritable_missing "two\nlines"
    · trivial
    · trivial
  · rfl

end QuantitySurvey.Audit
