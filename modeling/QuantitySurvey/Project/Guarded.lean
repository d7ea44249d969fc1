import QuantitySurvey.Lock
import QuantitySurvey.Project.File

/-! # Projects under lock

A project may be looked at while someone works on it, but it is changed under its lock only. -/

set_option autoImplicit false

namespace QuantitySurvey.Project

variable {m : Type → Type} {H : Type} [Monad m] (files : Files m H) (session : Lock.Session m)

/-- Loads a project, and tells who has its lock. -/
def loadWithHolder (path : String) : m (Except Failure (Project × Option Lock.Holder)) := do
  match ← load files path with
  | .error e => return .error e
  | .ok p => return .ok (p, ← Lock.holder? files session path)

end QuantitySurvey.Project
