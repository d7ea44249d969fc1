import QuantitySurvey.Disk.Files
import QuantitySurvey.Document.Audit
import QuantitySurvey.Json.Reading

/-! # The end of a log file

The number of the last record is found from the end of the file backwards, piece by piece, so
that a long log is not read for every record that is added. A piece decides as soon as the start
of the last line that is not blank is in it. -/

set_option autoImplicit false

namespace QuantitySurvey.Audit

/-! ## The last line -/

def withoutTrailingBlanks (bs : List UInt8) : List UInt8 :=
  (bs.reverse.dropWhile Text.isBlankByte).reverse

def afterLastLineFeed (bs : List UInt8) : List UInt8 :=
  (bs.reverse.takeWhile (· != Text.lineFeed)).reverse

/-- The last line of a file that is not blank, without the blanks at its end; empty if there is
none. -/
def lastLine (content : List UInt8) : List UInt8 :=
  afterLastLineFeed (withoutTrailingBlanks content)

/-- The last line as far as the bytes at the end of a file, or all of them, decide it. -/
def lastLine? (isWhole : Bool) (tail : List UInt8) : Option (List UInt8) :=
  let filled := withoutTrailingBlanks tail
  if isWhole || filled.contains Text.lineFeed then some (afterLastLineFeed filled) else none

variable {m : Type → Type} [Monad m]

/-- The last line of a file, given the bytes from a position on. Earlier ones are read in
pieces. -/
def scanBack (readAt : (position count : Nat) → m (Except Failure (List UInt8)))
    (pieceSize : Nat) (isPositive : 0 < pieceSize) (position : Nat) (tail : List UInt8) :
    m (Except Failure (List UInt8)) := do
  match lastLine? (position == 0) tail with
  | some line => return .ok line
  | none =>
    if _atStart : position = 0 then return .ok (lastLine tail)
    else
      let step := min pieceSize position
      match ← readAt (position - step) step with
      | .error e => return .error e
      | .ok piece =>
        scanBack readAt pieceSize isPositive (position - step) (piece ++ tail)
termination_by position
decreasing_by omega

/-! ## Its number -/

/-- The number of the record on a line, of which nothing else is read. -/
def sequenceOf? (line : List UInt8) : Option Nat := do
  let [sequence] ← (← Json.readBytes? line).record? ["sequence"] | none
  Json.required? Json.count? sequence

/-- The number of the record on the last line of a file, or zero if there is no line. -/
def numberOf (path : String) (line : List UInt8) : Except Failure Nat :=
  if line.isEmpty then .ok 0
  else match sequenceOf? line with
    | some n => .ok n
    | none => .error (.document s!"{path} last line: no numbered record")

end QuantitySurvey.Audit
