import QuantitySurvey.Disk.Files
import QuantitySurvey.Settings.Toml

/-! # Loading settings

Settings come from a file, if there is one, and are then overridden by the environment. They are
validated after either step. -/

set_option autoImplicit false

namespace QuantitySurvey.Settings

variable {m : Type → Type} {H : Type} [Monad m]

def loadFrom (files : Files m H) (path : String) : m (Except Failure Settings) := do
  if ← files.isPresent path then
    match ← files.readText path with
    | .error e => return .error (.file "read config" path e.text)
    | .ok text =>
      match ofToml? text with
      | none => return .error (.document s!"Invalid config {path}: no settings document")
      | some s => return s.validate.map fun _ => s
  else return .ok {}

/-- The settings in a file, if one is named, after the overrides of the environment. -/
def load (files : Files m H) (path : Option String) (valueOf : String → Option String) :
    m (Except Failure Settings) := do
  let read ← match path with
    | none => pure (.ok {})
    | some path => loadFrom files path
  return do
    let s ← (← read).overridden valueOf
    s.validate
    return s

end QuantitySurvey.Settings
