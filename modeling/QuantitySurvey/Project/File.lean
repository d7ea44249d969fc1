import QuantitySurvey.Disk.Files
import QuantitySurvey.Disk.Path
import QuantitySurvey.Document.Project
import QuantitySurvey.Json.Reading
import QuantitySurvey.Json.Writing
import QuantitySurvey.Project.Version

/-! # Projects in files

A project is saved under a temporary name first, made to last, and then given its place, so the
file at a path is always a whole project: the old one or the new one. -/

set_option autoImplicit false

namespace QuantitySurvey.Project

variable {m : Type → Type} {H : Type} [Monad m]

/-! ## Saving -/

/-- Writes a new file, as far as that succeeds. -/
def writeNew (files : Files m H) (path text : String) : m (Except Disk.Fault Unit) := do
  match ← files.create path with
  | .error e => return .error e
  | .ok h =>
    let written ← files.writeText h text
    files.close h
    return written

/-- Saves a project in a file. If that fails, nothing but the attempt to remove the temporary
file is left of it. -/
def save (files : Files m H) (p : Project) (path : String) : m (Except Failure Unit) := do
  let temporary := Disk.sibling "tmp" path
  match ← writeNew files temporary (Document.ofProject p).page with
  | .error e =>
    let _ ← files.remove temporary
    return .error (.file "write temp file" temporary e.text)
  | .ok _ =>
    match ← files.rename temporary path with
    | .error e =>
      let _ ← files.remove temporary
      return .error (.file "rename to final" path e.text)
    | .ok _ => return .ok ()

/-! ## Loading -/

/-- The project that a text stands for, if it can be read by this version. -/
def ofText (path text : String) : Except Failure Project :=
  match (Json.read? text).bind Document.project? with
  | none => .error (.document s!"Invalid JSON in {path}: no project")
  | some p => (Version.check p.info.version).map fun _ => p

def load (files : Files m H) (path : String) : m (Except Failure Project) := do
  match ← files.readText path with
  | .error e => return .error (.file "read" path e.text)
  | .ok text => return ofText path text

end QuantitySurvey.Project
