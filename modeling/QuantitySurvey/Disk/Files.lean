import QuantitySurvey.Text.Bytes

/-! # Operations on files

Whatever works with files does so through `Files`, a record of operations in a monad. An
operation that can fail says why, as a `Fault`. A handle stands for an open file; locks belong to
handles and end with them. -/

set_option autoImplicit false

namespace QuantitySurvey

namespace Disk

/-! ## Faults -/

inductive Fault where
  | notFound
  | isDirectory
  | notDirectory
  | nameTooLong
  | busy
  | zeroInPath
  | notText
  | other (text : String)
deriving DecidableEq, Repr, Inhabited

/-- The wording of the operating system. -/
def Fault.text : Fault → String
  | notFound => "No such file or directory (os error 2)"
  | busy => "Device or resource busy (os error 16)"
  | notDirectory => "Not a directory (os error 20)"
  | isDirectory => "Is a directory (os error 21)"
  | nameTooLong => "File name too long (os error 36)"
  | zeroInPath => "file name contained an unexpected NUL byte"
  | notText => "stream did not contain valid UTF-8"
  | other text => text

end Disk

open Disk (Fault)

/-! ## Operations -/

/-- Operations on files, with handles of type `H`. -/
structure Files (m : Type → Type) (H : Type) where
  /-- Whether there is a file or directory at a path. -/
  isPresent : String → m Bool
  read : String → m (Except Fault (List UInt8))
  /-- Opens a file for writing, empty at first, whether it was there or not. -/
  create : String → m (Except Fault H)
  /-- Opens a file for reading and for writing at its end; makes it if it is not there. -/
  openEnd : String → m (Except Fault H)
  openStart : String → m (Except Fault H)
  size : H → m (Except Fault Nat)
  /-- Bytes of an open file: at most so many, from a position on. -/
  readAt : H → (position count : Nat) → m (Except Fault (List UInt8))
  write : H → List UInt8 → m (Except Fault Unit)
  /-- Makes what was written last. -/
  sync : H → m (Except Fault Unit)
  /-- Takes the lock of an open file, unless another handle has it. -/
  tryLock : H → m Bool
  /-- Takes the lock of an open file as soon as no other handle has it; several may share it. -/
  lock : (shared : Bool) → H → m (Except Fault Unit)
  /-- Ends a handle, and its lock. -/
  close : H → m Unit
  rename : (source target : String) → m (Except Fault Unit)
  remove : String → m (Except Fault Unit)

namespace Files

variable {m : Type → Type} {H : Type} [Monad m] (files : Files m H)

def readText (path : String) : m (Except Fault String) := do
  match ← files.read path with
  | .error e => return .error e
  | .ok bs => return (match Text.ofBytes? bs with
    | some s => .ok s
    | none => .error .notText)

/-- Adds a text to an open file and makes it last. -/
def writeText (h : H) (s : String) : m (Except Fault Unit) := do
  match ← files.write h (Text.bytes s) with
  | .error e => return .error e
  | .ok _ => files.sync h

end Files

end QuantitySurvey
