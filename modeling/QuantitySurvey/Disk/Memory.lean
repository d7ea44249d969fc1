import QuantitySurvey.Disk.Files
import QuantitySurvey.SortedMap

/-! # A disk in memory

Directories and files as a value. Names lead to numbers, numbers to contents, so a file may have
several names, and one that is removed or replaced stays what it was for the handles that are open
on it; a lock belongs to the file and not to its name. No name stands for another path.
`Files.inMemory` are the operations on files over such a disk. -/

set_option autoImplicit false

namespace QuantitySurvey

namespace Disk

/-- What a name stands for. -/
inductive Node where
  | directory
  | file (number : Nat)
deriving DecidableEq, Inhabited

/-- An open file, or an open directory, which has no number. -/
structure Handle where
  number : Nat
  file : Option Nat
deriving DecidableEq, Inhabited

end Disk

open Disk (Fault Node Handle)

structure Disk where
  /-- All but the root, by the names on the way to them with slashes between. -/
  nodes : SortedMap String Node := .empty
  contents : SortedMap Nat (List UInt8) := .empty
  /-- The locks that are taken: the numbers of file and handle. -/
  locks : List (Nat × Nat) := []
  /-- The number of the next file or handle. -/
  next : Nat := 0

instance : Inhabited Disk := ⟨{}⟩

namespace Disk

variable (d : Disk)

/-! ## Finding -/

/-- The names on the way to a node, as one text. -/
def key (names : List String) : String := "/".intercalate names

def node? (names : List String) : Option Node :=
  if names.isEmpty then some .directory else d.nodes.find? (key names)

def longestName : Nat := 255

def longestPath : Nat := 4095

/-- The directory that steps lead to from another one. -/
def descend : (steps directory : List String) → Except Fault (List String)
  | [], directory => .ok directory
  | step :: steps, directory =>
    if step = "" || step = "." then descend steps directory
    else if step = ".." then descend steps directory.dropLast
    else if longestName < step.utf8ByteSize then .error .nameTooLong
    else match d.node? (directory ++ [step]) with
      | some .directory => descend steps (directory ++ [step])
      | some (.file _) => .error .notDirectory
      | none => .error .notFound

/-- Where a path leads: to a directory, or to a name in one, with a slash after it or not. -/
inductive Place where
  | directory
  | name (names : List String) (slash : Bool)

/-- The place that a path leads to, whether there is something or not. -/
def place (path : String) : Except Fault Place :=
  if path = "" then .error .notFound
  else if path.toList.contains '\x00' then .error .zeroInPath
  else if longestPath < path.utf8ByteSize then .error .nameTooLong
  else
    let slash := path.toList.getLast? == some '/'
    match ((path.toList.splitOn '/').map String.ofList).reverse.dropWhile (· == "") with
    | [] => .ok .directory
    | last :: before => do
      let directory ← d.descend before.reverse []
      if last = "." || last = ".." then return .directory
      else if longestName < last.utf8ByteSize then throw .nameTooLong
      else return .name (directory ++ [last]) slash

def find (path : String) : Except Fault Node := do
  match ← d.place path with
  | .directory => return .directory
  | .name names slash =>
    match d.node? names with
    | none => throw .notFound
    | some .directory => return .directory
    | some (.file n) => if slash then throw .notDirectory else return .file n

def contentOf (file : Nat) : List UInt8 := (d.contents.find? file).getD []

def read (path : String) : Except Fault (List UInt8) := do
  match ← d.find path with
  | .directory => throw .isDirectory
  | .file n => return d.contentOf n

/-! ## Opening and writing -/

/-- Opens a file to write to it, and makes it if it is not there. -/
def openForWriting (path : String) : Except Fault (Handle × Disk) := do
  match ← d.place path with
  | .directory => throw .isDirectory
  | .name _ true => throw .isDirectory
  | .name names false =>
    match d.node? names with
    | some .directory => throw .isDirectory
    | some (.file n) => return (⟨d.next, some n⟩, { d with next := d.next + 1 })
    | none =>
      return (⟨d.next + 1, some d.next⟩,
        { d with
          nodes := d.nodes.insert (key names) (.file d.next)
          contents := d.contents.insert d.next []
          next := d.next + 2 })

/-- Opens a file for writing without its content. -/
def create (path : String) : Except Fault (Handle × Disk) := do
  let (h, d) ← d.openForWriting path
  match h.file with
  | none => return (h, d)
  | some n => return (h, { d with contents := d.contents.insert n [] })

def openStart (path : String) : Except Fault (Handle × Disk) := do
  let file := match ← d.find path with
    | .directory => none
    | .file n => some n
  return (⟨d.next, file⟩, { d with next := d.next + 1 })

def write (h : Handle) (bs : List UInt8) : Disk :=
  match h.file with
  | none => d
  | some n => { d with contents := d.contents.insert n (d.contentOf n ++ bs) }

/-! ## Locks -/

def isLockedByOthers (h : Handle) : Bool :=
  d.locks.any fun (file, handle) => h.file == some file && handle != h.number

/-- The disk with the file of a handle locked by it. -/
def locked (h : Handle) : Disk :=
  match h.file with
  | none => d
  | some n => { d with locks := (n, h.number) :: d.locks }

/-- The disk without the locks of a handle. -/
def closed (h : Handle) : Disk :=
  { d with locks := d.locks.filter fun (_, handle) => handle != h.number }

/-! ## Names -/

/-- Gives a file a new name. A file that had the name goes; a file that has both names already keeps
them. -/
def rename (source target : String) : Except Fault Disk := do
  let .name old slash ← d.place source | throw .busy
  let .name new newSlash ← d.place target | throw .busy
  match d.node? old, d.node? new with
  | none, _ => throw .notFound
  | some .directory, _ => throw .isDirectory
  | some (.file n), there =>
    if slash || newSlash then throw .notDirectory
    else if there = some .directory then throw .isDirectory
    else if there = some (.file n) then return d
    else return { d with nodes := (d.nodes.erase (key old)).insert (key new) (.file n) }

def remove (path : String) : Except Fault Disk := do
  match ← d.place path with
  | .directory => throw .isDirectory
  | .name names slash =>
    match d.node? names with
    | none => throw .notFound
    | some .directory => throw .isDirectory
    | some (.file _) =>
      if slash then throw .notDirectory else return { d with nodes := d.nodes.erase (key names) }

/-- The disk with a directory and all directories on the way to it. -/
def withDirectory (names : List String) : Disk :=
  let ways := (List.range names.length).map fun i => key (names.take (i + 1))
  { d with nodes := ways.foldl (fun nodes way => nodes.insert way .directory) d.nodes }

/-- All paths, those of directories with a slash at the end. -/
def paths : List String :=
  (d.nodes.entries.map fun (path, node) => match node with
    | .directory => path ++ "/"
    | .file _ => path).mergeSort

end Disk

/-! ## The operations -/

namespace Files

variable {m : Type → Type} [Monad m] [MonadStateOf Disk m]

/-- Carries out an operation that changes the disk if it succeeds. -/
def attempt {α : Type} (operation : Disk → Except Fault (α × Disk)) : m (Except Fault α) :=
  modifyGet fun d => match operation d with
    | .ok (a, d) => (.ok a, d)
    | .error e => (.error e, d)

def inMemory : Files m Handle where
  isPresent := fun path => do return ((← get).find path).toBool
  read := fun path => do return (← get).read path
  create := fun path => attempt fun d => d.create path
  openEnd := fun path => attempt fun d => d.openForWriting path
  openStart := fun path => attempt fun d => d.openStart path
  size := fun h => do
    match h.file with
    | none => return .error .isDirectory
    | some n => return .ok ((← get).contentOf n).length
  readAt := fun h position count => do
    match h.file with
    | none => return .error .isDirectory
    | some n => return .ok ((((← get).contentOf n).drop position).take count)
  write := fun h bs => attempt fun d => .ok ((), d.write h bs)
  sync := fun _ => return .ok ()
  tryLock := fun h => modifyGet fun d =>
    if d.isLockedByOthers h then (false, d) else (true, d.locked h)
  lock := fun shared h => attempt fun d => .ok ((), if shared then d else d.locked h)
  close := fun h => modify fun d => d.closed h
  rename := fun source target => attempt fun d => (d.rename source target).map fun d => ((), d)
  remove := fun path => attempt fun d => (d.remove path).map fun d => ((), d)

end Files

end QuantitySurvey
