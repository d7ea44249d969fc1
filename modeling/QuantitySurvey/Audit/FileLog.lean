import QuantitySurvey.Audit.Tail
import QuantitySurvey.Calculation.Collaborators
import QuantitySurvey.Json.Writing

/-! # Audit logs in files

A log file holds one record a line, as JSON. Records are added at its end, under the lock of the
file, and numbered after the last one there. Blank lines do not count. -/

set_option autoImplicit false

namespace QuantitySurvey.Audit

/-! ## Lines -/

/-- A line of a file. The line feed that ends it and a carriage return before that are not part
of it. -/
def splitLines (content : List UInt8) : List (List UInt8) :=
  match content.splitOn Text.lineFeed |>.reverse with
  | [] => []
  | rest :: ended =>
    (ended.reverse.map fun line =>
      if line.getLast? = some 13 then line.dropLast else line)
      ++ (if rest.isEmpty then [] else [rest])

/-- The records on lines, of which the first has a given number. -/
def recordsOn (path : String) : (number : Nat) → List (List UInt8) →
    Except Failure (List Record)
  | _, [] => .ok []
  | number, line :: rest =>
    match Text.ofBytes? line with
    | none => .error (.file "read audit log" path Disk.Fault.notText.text)
    | some text =>
      if Text.allBlank text then recordsOn path (number + 1) rest
      else match (Json.read? text).bind Document.record? with
        | none => .error (.document s!"{path} line {number}: no record")
        | some r => (recordsOn path (number + 1) rest).map (r :: ·)

def recordsIn (path : String) (content : List UInt8) : Except Failure (List Record) :=
  recordsOn path 1 (splitLines content)

def lineOf (r : Record) : String := (Document.ofRecord r).text ++ "\n"

/-! ## Operations -/

/-- The number of bytes that are read at once from the end of a log file. -/
def pieceSize : Nat := 4096

namespace FileLog

variable {m : Type → Type} {H : Type} [Monad m] (files : Files m H) (path : String)

def checked {α : Type} (operation : String) (result : Except Disk.Fault α) : Except Failure α :=
  result.mapError fun e => .file operation path e.text

/-- The number of the last record in an open file. -/
def lastSequence (h : H) : m (Except Failure Nat) := do
  match ← files.size h with
  | .error e => return checked path "seek audit log" (.error e)
  | .ok size =>
    let readAt := fun position count => do
      return checked path "read audit log" (← files.readAt h position count)
    return (← scanBack readAt pieceSize (by decide) size []).bind (numberOf path)

def add (h : H) (r : Record) : m (Except Failure Nat) := do
  match ← lastSequence files path h with
  | .error e => return .error e
  | .ok last =>
    let numbered := { r with sequence := following last }
    match ← files.write h (Text.bytes (lineOf numbered)) with
    | .error e => return checked path "append audit log" (.error e)
    | .ok _ =>
      return (checked path "sync audit log" (← files.sync h)).map fun _ => numbered.sequence

/-- Adds a record, and says which number it got. -/
def record (r : Record) : m (Except Failure Nat) := do
  match ← files.openEnd path with
  | .error e => return checked path "open audit log" (.error e)
  | .ok h =>
    let result ← match ← files.lock false h with
      | .error e => pure (checked path "lock audit log" (.error e))
      | .ok _ => add files path h r
    files.close h
    return result

def content (h : H) : m (Except Failure (List Record)) := do
  match ← files.size h with
  | .error e => return checked path "read audit log" (.error e)
  | .ok size =>
    match ← files.readAt h 0 size with
    | .error e => return checked path "read audit log" (.error e)
    | .ok bs => return recordsIn path bs

/-- All records; none if there is no file. -/
def records : m (Except Failure (List Record)) := do
  match ← files.openStart path with
  | .error .notFound => return .ok []
  | .error e => return checked path "open audit log" (.error e)
  | .ok h =>
    let result ← match ← files.lock true h with
      | .error e => pure (checked path "lock audit log" (.error e))
      | .ok _ => content files path h
    files.close h
    return result

def recorder : Calculation.Recorder m where
  record := record files path
  records := records files path

end FileLog

end QuantitySurvey.Audit
