import QuantitySurvey.Proofs.Audit.Tail

/-! # Reading a log file backwards

The number of the last record is found from the end of the file, in pieces. What is found does not
depend on the pieces, nor on where they cut a line, a line feed, blanks or a character: the last line
that is not blank is read as if the whole file had been looked at. Every piece starts before the one
read last, so the scan ends.

* `IsLast.lastLine_eq`: the last line is the one between lines that are ended and blanks.
* `scanBack_reads`: the reads of a scan.
* `does_backwards`: what is found in an open file.
* `number_of_last_line`: all of that, for pieces of any size.
-/

set_option autoImplicit false

namespace QuantitySurvey

open Disk (Handle)
open Workplace

/-! ## Open files -/

namespace Workplace

/-- What a computation comes to on a disk. -/
def outcome {α σ : Type} (d : Disk) (s : σ) (x : Workplace σ α) : α := ((x.run d).run s).1.1

section Handle

variable {σ : Type} {d : Disk} {h : Handle} {n : Nat} (hfile : h.file = some n)
include hfile

theorem does_size : Does d ((files : Files (Workplace σ) Handle).size h) fun r d' =>
    r = .ok (d.contentOf n).length ∧ d' = d := by
  obtain ⟨number, file⟩ := h
  obtain rfl : file = some n := hfile
  exact fun _ => ⟨rfl, rfl⟩

theorem does_readAt (position count : Nat) :
    Does d ((files : Files (Workplace σ) Handle).readAt h position count) fun r d' =>
      r = .ok (((d.contentOf n).drop position).take count) ∧ d' = d := by
  obtain ⟨number, file⟩ := h
  obtain rfl : file = some n := hfile
  exact fun _ => ⟨rfl, rfl⟩

end Handle

end Workplace

namespace Audit

open Text (AreBlank isBlankByte lineFeed)

/-! ## The place of the last line -/

section Place

variable {content before line blanks : List UInt8}

theorem withoutTrailingBlanks_append (h : AreBlank blanks) (bs : List UInt8) :
    withoutTrailingBlanks (bs ++ blanks) = withoutTrailingBlanks bs := by
  unfold withoutTrailingBlanks
  rw [List.reverse_append, List.dropWhile_append_of_pos fun b hb => h b (List.mem_reverse.1 hb)]

theorem lastLine_of_areBlank (h : AreBlank content) : lastLine content = [] := by
  have hnil : withoutTrailingBlanks content = [] := List.rdropWhile_eq_nil_iff.2 h
  rw [lastLine, hnil]
  rfl

/-- The bytes between the line feed before the last byte that is not blank and that byte. -/
theorem IsLast.lastLine_eq (h : IsLast content before line blanks) : lastLine content = line := by
  have hcut : withoutTrailingBlanks content = before ++ line := by
    rw [h.parts, ← List.append_assoc, withoutTrailingBlanks_append h.areBlank,
      withoutTrailingBlanks_eq, List.rdropWhile_eq_self_iff]
    intro hne
    obtain ⟨b, hb, hfilled⟩ := h.filled
    have hlast : (before ++ line).getLast? = some b := by
      rw [List.getLast?_append_of_ne_nil _ h.ne_nil]
      exact hb
    rw [List.getLast?_eq_some_getLast hne] at hlast
    rw [Option.some.inj hlast, hfilled]
    exact Bool.false_ne_true
  have hline : ∀ b ∈ line.reverse, (b != lineFeed) = true := by
    intro b hb
    rw [bne_iff_ne]
    rintro rfl
    exact h.oneLine (List.mem_reverse.1 hb)
  have hbefore : before.reverse.takeWhile (· != lineFeed) = [] := by
    rcases exists_of_areEnded h.areEnded with rfl | ⟨init, rfl⟩
    · rfl
    · simp
  rw [lastLine, hcut]
  unfold afterLastLineFeed
  rw [List.reverse_append, List.takeWhile_append_of_pos hline, hbefore, List.append_nil,
    List.reverse_reverse]

end Place

/-! ## The reads of a scan -/

/-- Reads of a content, with an account of the positions and counts that were asked for. -/
def accounted (content : List UInt8) (position count : Nat) :
    StateM (List (Nat × Nat)) (Except Failure (List UInt8)) := do
  modify (· ++ [(position, count)])
  return .ok ((content.drop position).take count)

/-- Reads that go back from a position, each up to where the one before it started, and as long as the
pieces are, or up to the start. -/
inductive GoBack (size : Nat) : Nat → List (Nat × Nat) → Prop
  | stop {position : Nat} : GoBack size position []
  | read {position : Nat} {reads : List (Nat × Nat)} (inside : 0 < position)
      (more : GoBack size (position - min size position) reads) :
      GoBack size position ((position - min size position, min size position) :: reads)

namespace GoBack

variable {size position : Nat} {reads : List (Nat × Nat)}

/-- No byte is read twice. -/
theorem sum_le (h : GoBack size position reads) : (reads.map Prod.snd).sum ≤ position := by
  induction h with
  | stop => simp
  | read inside more ih =>
    rw [List.map_cons, List.sum_cons]
    omega

theorem within (h : GoBack size position reads) :
    ∀ r ∈ reads, r.1 + r.2 ≤ position ∧ r.2 ≤ size := by
  induction h with
  | stop => nofun
  | read inside more ih =>
    intro r hr
    rcases List.mem_cons.1 hr with rfl | hr
    · exact ⟨by dsimp only; omega, Nat.min_le_left _ _⟩
    · obtain ⟨hposition, hsize⟩ := ih r hr
      exact ⟨by omega, hsize⟩

/-- There are not more reads than pieces. -/
theorem length_mul_lt (h : GoBack size position reads) (hsize : 0 < size) :
    reads.length * size < position + size := by
  induction h with
  | stop => simp [hsize]
  | @read position reads inside more ih =>
    rw [List.length_cons, Nat.succ_mul]
    rcases Nat.lt_or_ge position size with hshort | hlong
    · have hnone : reads.length * size < 1 * size := by omega
      have hzero : reads.length = 0 := Nat.lt_one_iff.1 (Nat.lt_of_mul_lt_mul_right hnone)
      rw [hzero]
      omega
    · rw [Nat.min_eq_left hlong] at ih
      omega

end GoBack

theorem scanBack_reads {content : List UInt8} {size : Nat} (hsize : 0 < size) {position : Nat}
    (hposition : position ≤ content.length) (earlier : List (Nat × Nat)) :
    ∃ reads, GoBack size position reads ∧
      (scanBack (accounted content) size hsize position (content.drop position)).run earlier
        = (.ok (lastLine content), earlier ++ reads) := by
  induction hn : position using Nat.strongRecOn generalizing position earlier with
  | ind n ih =>
    subst hn
    rw [scanBack]
    cases hline : lastLine? (position == 0) (content.drop position) with
    | some line =>
      refine ⟨[], .stop, ?_⟩
      rw [lastLine?_drop hline, List.append_nil]
      rfl
    | none =>
      have hpos : position ≠ 0 := ne_zero_of_lastLine? hline
      obtain ⟨reads, hback, hrun⟩ := ih (position - min size position) (by omega) (by omega)
        (earlier ++ [(position - min size position, min size position)]) rfl
      refine ⟨_, .read (by omega) hback, ?_⟩
      rw [List.append_assoc, List.singleton_append,
        ← take_append_drop_of_le (Nat.min_le_right size position)] at hrun
      simp only [hpos, dite_false]
      exact hrun

/-! ## Numbers -/

/-- The number that a line stands for, or zero if there is no line. -/
def numberBy (reading : List UInt8 → Except Failure Nat) (line : List UInt8) : Except Failure Nat :=
  if line.isEmpty then .ok 0 else reading line

/-- The number of the record on a line. -/
def recordNumber (path : String) (line : List UInt8) : Except Failure Nat :=
  match sequenceOf? line with
  | some n => .ok n
  | none => .error (.document s!"{path} last line: no numbered record")

theorem numberOf_eq (path : String) : numberOf path = numberBy (recordNumber path) := rfl

namespace FileLog

variable {m : Type → Type} {H : Type} [Monad m] (files : Files m H) (path : String)

/-- The number of the last line of an open file, read in pieces of some size. -/
def backwards (reading : List UInt8 → Except Failure Nat) (size : Nat) (hsize : 0 < size) (h : H) :
    m (Except Failure Nat) := do
  match ← files.size h with
  | .error e => return checked path "seek audit log" (.error e)
  | .ok length =>
    let readAt := fun position count => do
      return checked path "read audit log" (← files.readAt h position count)
    return (← scanBack readAt size hsize length []).bind (numberBy reading)

/-- The log reads pieces of 4096 bytes. -/
theorem lastSequence_eq (h : H) :
    lastSequence files path h = backwards files path (recordNumber path) 4096 (by decide) h := rfl

end FileLog

section Handle

variable {σ : Type} {d : Disk} {h : Handle} {n : Nat} (hfile : h.file = some n)
include hfile

theorem does_backwards (path : String) (reading : List UInt8 → Except Failure Nat) {size : Nat}
    (hsize : 0 < size) :
    Does d (FileLog.backwards (files : Files (Workplace σ) Handle) path reading size hsize h)
      fun r d' => r = numberBy reading (lastLine (d.contentOf n)) ∧ d' = d := by
  unfold FileLog.backwards
  refine (does_size hfile).bind fun r d₁ hlength => ?_
  obtain ⟨rfl, rfl⟩ := hlength
  have hread : ∀ position count, position + count ≤ (d₁.contentOf n).length → Does d₁ (do
      return FileLog.checked path "read audit log"
        (← (files : Files (Workplace σ) Handle).readAt h position count)) fun r d' =>
      r = .ok (((d₁.contentOf n).drop position).take count) ∧ d' = d₁ := by
    intro position count _
    refine (does_readAt hfile position count).bind fun r d₂ hr => ?_
    obtain ⟨rfl, rfl⟩ := hr
    exact does_pure ⟨rfl, rfl⟩
  have hscan := does_scanBack hread size hsize (le_refl (d₁.contentOf n).length)
  rw [List.drop_length] at hscan
  refine hscan.bind fun r d₂ hr => ?_
  obtain ⟨rfl, rfl⟩ := hr
  exact does_pure ⟨rfl, rfl⟩

/-- Read backwards in pieces of any size, a file of blanks gives zero, and any other file gives what its
last line gives: the bytes after the line feed before the last byte that is not blank, or from the start
of the file, up to that byte. The file is not changed. The scan ends after at most as many reads as the
file has pieces, all of them within the file and of no byte twice. -/
theorem number_of_last_line (path : String) (s : σ) (reading : List UInt8 → Except Failure Nat)
    {size : Nat} (hsize : 0 < size) :
    (AreBlank (d.contentOf n) → outcome d s
      (FileLog.backwards (files : Files (Workplace σ) Handle) path reading size hsize h) = .ok 0) ∧
    (∀ before line blanks, IsLast (d.contentOf n) before line blanks → outcome d s
      (FileLog.backwards (files : Files (Workplace σ) Handle) path reading size hsize h)
        = reading line) ∧
    (AreBlank (d.contentOf n) ∨ ∃ before line blanks, IsLast (d.contentOf n) before line blanks) ∧
    Does d (FileLog.backwards (files : Files (Workplace σ) Handle) path reading size hsize h)
      (fun _ d' => d' = d) ∧
    FileLog.lastSequence (files : Files (Workplace σ) Handle) path h
      = FileLog.backwards files path (recordNumber path) 4096 (by decide) h ∧
    ∃ reads, (scanBack (accounted (d.contentOf n)) size hsize (d.contentOf n).length []).run []
        = (.ok (lastLine (d.contentOf n)), reads) ∧
      reads.length * size < (d.contentOf n).length + size ∧
      (reads.map Prod.snd).sum ≤ (d.contentOf n).length ∧
      ∀ r ∈ reads, r.1 + r.2 ≤ (d.contentOf n).length ∧ r.2 ≤ size := by
  have hdoes := does_backwards hfile path reading hsize (d := d) (σ := σ)
  obtain ⟨hnumber, -⟩ := hdoes s
  change outcome d s _ = _ at hnumber
  refine ⟨fun hblank => ?_, fun before line blanks hlast => ?_, ?_,
    hdoes.mono fun _ _ hafter => hafter.2, FileLog.lastSequence_eq files path h, ?_⟩
  · rw [hnumber, lastLine_of_areBlank hblank]
    rfl
  · rw [hnumber, hlast.lastLine_eq, numberBy, if_neg (by simpa using hlast.ne_nil)]
  · exact (lastLine_cases (d.contentOf n)).imp And.left
      fun ⟨before, blanks, hlast⟩ => ⟨before, _, blanks, hlast⟩
  · obtain ⟨reads, hback, hrun⟩ := scanBack_reads hsize (le_refl (d.contentOf n).length) []
    rw [List.drop_length] at hrun
    exact ⟨reads, hrun, hback.length_mul_lt hsize, hback.sum_le, hback.within⟩

end Handle

/-- A disk with a log file and nothing else. -/
def FileLog.diskWith (content : List UInt8) : Disk where
  nodes := SortedMap.empty.insert "audit.jsonl" (.file 0)
  contents := SortedMap.empty.insert 0 content
  next := 1

theorem FileLog.contentOf_diskWith (content : List UInt8) :
    (FileLog.diskWith content).contentOf 0 = content := by
  rw [Disk.contentOf, FileLog.diskWith, SortedMap.find?_insert_self]
  rfl

theorem sample_number_of_last_line :
    outcome (FileLog.diskWith (Text.bytes
        "\x7b\"sequence\":5\x7d\n\x7b\"sequence\":7,\"by\":\"\u00e9\"\x7d\n \n")) ()
      (FileLog.backwards files "audit.jsonl" (recordNumber "audit.jsonl") 3 (by decide) ⟨1, some 0⟩)
        = .ok 7 ∧
    outcome (FileLog.diskWith (Text.bytes " \n\n")) ()
      (FileLog.lastSequence files "audit.jsonl" ⟨1, some 0⟩) = .ok 0 := by
  constructor
  · have hlast := (@number_of_last_line Unit (FileLog.diskWith (Text.bytes
      "\x7b\"sequence\":5\x7d\n\x7b\"sequence\":7,\"by\":\"\u00e9\"\x7d\n \n")) ⟨1, some 0⟩ 0 rfl
      "audit.jsonl" () (recordNumber "audit.jsonl") 3 (by decide)).2.1
    rw [FileLog.contentOf_diskWith] at hlast
    refine (hlast (Text.bytes "\x7b\"sequence\":5\x7d\n")
      (Text.bytes "\x7b\"sequence\":7,\"by\":\"\u00e9\"\x7d") (Text.bytes "\n \n")
      ⟨?_, ?_, ?_, ⟨125, ?_, ?_⟩, ?_⟩).trans ?_
    all_goals decide +kernel
  · obtain ⟨hblank, -, -, -, hsame, -⟩ := @number_of_last_line Unit
      (FileLog.diskWith (Text.bytes " \n\n")) ⟨1, some 0⟩ 0 rfl "audit.jsonl" ()
      (recordNumber "audit.jsonl") 4096 (by decide)
    rw [FileLog.contentOf_diskWith] at hblank
    rw [hsame]
    exact hblank (by decide +kernel)

end Audit

end QuantitySurvey
