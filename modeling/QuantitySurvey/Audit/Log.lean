import QuantitySurvey.Audit.Record

/-! # Audit logs

A log in memory. Records are added at the end and numbered one after the last; earlier ones are
never changed. Whoever listens to a log is told of a record once it is there and has no say in it,
so listeners are no part of this. -/

set_option autoImplicit false

namespace QuantitySurvey.Audit

/-- The number after another one. Numbers are 64-bit words, so zero follows the greatest. -/
def following (sequence : Nat) : Nat := (sequence + 1) % UInt64.size

/-- The number after the last record of a list; the first is one. -/
def nextSequence (records : List Record) : Nat :=
  match records.getLast? with
  | none => 1
  | some r => following r.sequence

theorem nextSequence_lt (records : List Record) : nextSequence records < UInt64.size := by
  unfold nextSequence
  split
  · decide
  · exact Nat.mod_lt _ (by decide)

/-- Records in the order in which they were added. -/
structure Log where
  records : List Record := []
deriving DecidableEq, Inhabited

/-- The log with a record at its end, and the record as it was numbered. -/
def Log.add (log : Log) (r : Record) : Record × Log :=
  let numbered := { r with sequence := nextSequence log.records }
  (numbered, ⟨log.records ++ [numbered]⟩)

@[simp] theorem Log.records_add (log : Log) (r : Record) :
    (log.add r).2.records
      = log.records ++ [{ r with sequence := nextSequence log.records }] := rfl

end QuantitySurvey.Audit
