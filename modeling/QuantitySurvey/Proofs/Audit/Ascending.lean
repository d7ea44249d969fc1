import QuantitySurvey.Audit.Log
import QuantitySurvey.Proofs.Calculation.Replacement

/-! # Numbers that go upwards

A log in memory numbers a record one higher than its last, whatever was taken from it before. As long
as fewer records were ever written than there are numbers, the numbers in the log go upwards.

* `Log.addAll`: a log that takes several records.
* `IsAscending`: numbers from one upwards, no greater than the count of records ever written.
* `IsAscending.add`, `IsAscending.addAll`: one more record, and several.
-/

set_option autoImplicit false

namespace QuantitySurvey.Audit

/-! ## Several records -/

/-- The log after several records, one after the other. -/
def Log.addAll (log : Log) (rs : List Record) : Log := rs.foldl (fun log r => (log.add r).2) log

theorem Log.addAll_cons (log : Log) (r : Record) (rs : List Record) :
    log.addAll (r :: rs) = (log.add r).2.addAll rs := rfl

/-- The records come to the end of the log, with other numbers. -/
theorem Log.records_addAll (rs : List Record) (log : Log) :
    ∃ new, (log.addAll rs).records = log.records ++ new ∧
      new.map Record.unnumbered = rs.map Record.unnumbered := by
  induction rs generalizing log with
  | nil => exact ⟨[], (List.append_nil _).symm, rfl⟩
  | cons r rs ih =>
    obtain ⟨new, hrecords, hnew⟩ := ih (log.add r).2
    refine ⟨{ r with sequence := nextSequence log.records } :: new, ?_, ?_⟩
    · rw [Log.addAll_cons, hrecords, Log.records_add, List.append_assoc, List.singleton_append]
    · rw [List.map_cons, List.map_cons, hnew]
      rfl

/-! ## Ascending numbers -/

/-- The numbers of records go upwards from one, and not beyond the count of those ever written. -/
structure IsAscending (written : Nat) (records : List Record) : Prop where
  ascending : records.Pairwise fun r s => r.sequence < s.sequence
  positive : ∀ r ∈ records, 1 ≤ r.sequence
  bounded : ∀ r ∈ records, r.sequence ≤ written

namespace IsAscending

variable {written : Nat} {records : List Record}

theorem mono (h : IsAscending written records) {more : Nat} (hmore : written ≤ more) :
    IsAscending more records :=
  { h with bounded := fun r hr => Nat.le_trans (h.bounded r hr) hmore }

theorem sublist (h : IsAscending written records) {fewer : List Record}
    (hfewer : fewer.Sublist records) : IsAscending written fewer where
  ascending := h.ascending.sublist hfewer
  positive := fun r hr => h.positive r (hfewer.subset hr)
  bounded := fun r hr => h.bounded r (hfewer.subset hr)

/-- No record has a greater number than the last. -/
theorem le_getLast (h : IsAscending written records) {last : Record}
    (hlast : records.getLast? = some last) {r : Record} (hr : r ∈ records) :
    r.sequence ≤ last.sequence := by
  obtain ⟨before, rfl⟩ := List.getLast?_eq_some_iff.1 hlast
  rcases List.mem_append.1 hr with hr | hr
  · exact Nat.le_of_lt
      ((List.pairwise_append.1 h.ascending).2.2 r hr last (List.mem_singleton_self _))
  · exact Nat.le_of_eq (congrArg Record.sequence (List.mem_singleton.1 hr))

/-- As long as numbers do not run out, the next number is greater than all. -/
theorem nextSequence_spec (h : IsAscending written records) (room : written + 1 < UInt64.size) :
    1 ≤ nextSequence records ∧ nextSequence records ≤ written + 1 ∧
      ∀ r ∈ records, r.sequence < nextSequence records := by
  cases hlast : records.getLast? with
  | none =>
    have hnil : records = [] := List.getLast?_eq_none_iff.1 hlast
    subst hnil
    exact ⟨Nat.le_refl 1, Nat.le_add_left 1 written, by simp⟩
  | some last =>
    have hle : last.sequence ≤ written := h.bounded last (List.mem_of_getLast? hlast)
    have hnext : nextSequence records = last.sequence + 1 := by
      -- The last number is at most the count, so the one after it does not wrap around.
      rw [nextSequence, hlast]
      exact Nat.mod_eq_of_lt (by omega)
    rw [hnext]
    refine ⟨Nat.le_add_left 1 _, by omega, fun r hr => ?_⟩
    exact Nat.lt_succ_of_le (h.le_getLast hlast hr)

theorem add {log : Log} (h : IsAscending written log.records) (room : written + 1 < UInt64.size)
    (r : Record) : IsAscending (written + 1) (log.add r).2.records := by
  obtain ⟨hpositive, hbound, hgreater⟩ := h.nextSequence_spec room
  rw [Log.records_add]
  constructor
  · refine List.pairwise_append.2 ⟨h.ascending, List.pairwise_singleton _ _, ?_⟩
    intro s hs t ht
    rw [List.mem_singleton.1 ht]
    exact hgreater s hs
  · intro s hs
    rcases List.mem_append.1 hs with hs | hs
    · exact h.positive s hs
    · rw [List.mem_singleton.1 hs]
      exact hpositive
  · intro s hs
    rcases List.mem_append.1 hs with hs | hs
    · exact Nat.le_trans (h.bounded s hs) (Nat.le_succ written)
    · rw [List.mem_singleton.1 hs]
      exact hbound

theorem addAll (rs : List Record) {written : Nat} {log : Log} (h : IsAscending written log.records)
    (room : written + rs.length < UInt64.size) :
    IsAscending (written + rs.length) (log.addAll rs).records := by
  induction rs generalizing written log with
  | nil => exact h
  | cons r rs ih =>
    rw [List.length_cons] at room ⊢
    have hrest := ih (h.add (by omega) r) (by omega)
    rw [Log.addAll_cons]
    exact hrest.mono (by omega)

end IsAscending

end QuantitySurvey.Audit
