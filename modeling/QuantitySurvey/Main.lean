import QuantitySurvey.Program
import Std.Time.DateTime.Timestamp

/-! # The machine

Runs the program on the files, the clocks and the environment of the machine. Under the name
`gen-functions` the program writes the function reference instead. -/

set_option autoImplicit false

namespace QuantitySurvey.Machine

/-! ## Files -/

structure OpenFile where
  path : String
  handle : IO.FS.Handle

def faultOf : IO.Error → Disk.Fault
  | .noFileOrDirectory _ _ _ => .notFound
  | .inappropriateType _ code details | .invalidArgument _ code details
  | .permissionDenied _ code details | .alreadyExists _ code details
  | .resourceExhausted _ code details | .noSuchThing _ code details =>
    .other s!"{details} (os error {code})"
  | e => .other (toString e)

def attempted {α : Type} (action : IO α) : IO (Except Disk.Fault α) := do
  match ← action.toBaseIO with
  | .ok a => return .ok a
  | .error e => return .error (faultOf e)

def openAs (mode : IO.FS.Mode) (path : String) : IO (Except Disk.Fault OpenFile) :=
  attempted do return ⟨path, ← IO.FS.Handle.mk path mode⟩

def contentOf (path : String) : IO (Except Disk.Fault (List UInt8)) :=
  attempted do return (← (← IO.FS.Handle.mk path .read).readBinToEnd).data.toList

/-- Whether there is anything at a path. What cannot be opened is there too, unless it is not
found. -/
def isPresent (path : String) : IO Bool := do
  match ← (IO.FS.Handle.mk path .read).toBaseIO with
  | .ok _ => return true
  | .error (.permissionDenied _ _ _) => return true
  | .error _ => return false

def readAt (file : OpenFile) (position count : Nat) : IO (Except Disk.Fault (List UInt8)) := do
  match ← contentOf file.path with
  | .error e => return .error e
  | .ok bs => return .ok ((bs.drop position).take count)

def files : Files IO OpenFile where
  isPresent := isPresent
  read := contentOf
  create := openAs .write
  openEnd := openAs .append
  openStart := openAs .read
  size := fun file => do return (← contentOf file.path).map List.length
  readAt := readAt
  write := fun file bs => attempted do
    file.handle.write ⟨bs.toArray⟩
    file.handle.flush
  sync := fun file => attempted file.handle.flush
  tryLock := fun file => file.handle.tryLock true
  lock := fun shared file => attempted (file.handle.lock !shared)
  close := fun file => file.handle.unlock
  rename := fun source target => attempted (IO.FS.rename source target)
  remove := fun path => attempted (IO.FS.removeFile path)

/-! ## Clocks and processes -/

def now : IO Instant := do
  let nanoseconds := (← Std.Time.Timestamp.now).toNanosecondsSinceUnixEpoch.toInt
  let unit : Int := Instant.nanosecondsPerSecond
  return ⟨nanoseconds / unit, (nanoseconds % unit).toNat⟩

/-- A random identifier, marked as one. -/
def freshId : IO Identifier := do
  let bytes := (← IO.getRandomBytes 16).data.toList
  let marked := bytes.mapIdx fun i b =>
    if i = 6 then b % 0x10 + 0x40 else if i = 8 then b % 0x40 + 0x80 else b
  return Identifier.ofNat (marked.foldl (fun n b => 256 * n + b.toNat) 0)

/-- The number of this process, which the machine keeps at the start of its state. -/
def processId : IO Nat := do
  match ← contentOf "/proc/self/stat" with
  | .error _ => return 0
  | .ok bs =>
    return Decimal.natural ((bs.map fun b => Char.ofNat b.toNat).takeWhile Char.isDigit)

def session : Lock.Session IO where
  hostName := do return (← IO.getEnv "HOSTNAME").or (← IO.getEnv "HOST")
  processId := processId
  isAlive := fun pid => isPresent s!"/proc/{pid}"
  now := now

def host : Program.Host IO OpenFile where
  files := files
  session := session
  surroundings := {
    now := now
    ticks := do return (← IO.monoNanosNow) / 1000
    freshId := freshId }
  turn := return 0
  valueOf := fun name => IO.getEnv name
  print := IO.print
  printError := IO.eprint

end QuantitySurvey.Machine

open QuantitySurvey in
/-- Runs the program that its file name asks for. -/
def main (arguments : List String) : IO UInt32 := do
  let code ← if (← IO.appPath).fileName == some "gen-functions"
    then Program.writeReference Machine.host arguments
    else Program.run Machine.host arguments
  return code.toUInt32
