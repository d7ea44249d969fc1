import QuantitySurvey.Disk.Files
import QuantitySurvey.Disk.Path
import QuantitySurvey.Document.Lock
import QuantitySurvey.Failure
import QuantitySurvey.Json.Reading
import QuantitySurvey.Json.Writing

/-! # Locks on projects

A project that someone works on has a lock file next to it, which names the holder and is locked
itself. `Lock.acquire` takes a lock that is free or stale, `Lock.release` gives it back and
removes the file, and `Lock.holder?` tells who has it. -/

set_option autoImplicit false

namespace QuantitySurvey

structure Lock (H : Type) where
  project : String
  path : String
  handle : H
  holder : Lock.Holder

namespace Lock

variable {m : Type → Type} {H : Type} [Monad m] (files : Files m H) (session : Session m)

def pathFor (project : String) : String := Disk.sibling "lock" project

/-- The holder that a lock file names, if it can be read. -/
def named? (path : String) : m (Option Holder) := do
  match ← files.readText path with
  | .error _ => return none
  | .ok text => return (Json.read? text).bind Document.holder?

/-- Who holds the lock of a project, stale locks aside. -/
def holder? (project : String) : m (Option Holder) := do
  match ← named? files (pathFor project) with
  | none => return none
  | some h => return (if ← h.isStale session then none else some h)

/-- The failure to take a lock from its holder. -/
def heldBy (project : String) (h : Holder) : Failure :=
  .locked project (h.user ++ " (" ++ h.machine ++ ")") h.since.text

def acquire (project user : String) : m (Except Failure (Lock H)) := do
  let path := pathFor project
  let holder ← Holder.ofSession session user
  match ← holder? files session project with
  | some h => return .error (heldBy project h)
  | none =>
    match ← files.create path with
    | .error e => return .error (.file "create lock" path e.text)
    | .ok handle =>
      if ← files.tryLock handle then
        match ← files.writeText handle (Document.ofHolder holder).page with
        | .error e =>
          files.close handle
          return .error (.file "write lock" path e.text)
        | .ok _ => return .ok ⟨project, path, handle, holder⟩
      else
        files.close handle
        return .error (.locked project "another process" "unknown")

def release (lock : Lock H) : m Unit := do
  let _ ← files.remove lock.path
  files.close lock.handle

end Lock

end QuantitySurvey
