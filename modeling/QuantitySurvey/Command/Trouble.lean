import QuantitySurvey.Document.Basic
import QuantitySurvey.Json.Writing

/-! # Trouble

Why a command came to nothing, and how the program reports it: in words and, if a failure of the
library is behind it, as JSON too. -/

set_option autoImplicit false

namespace QuantitySurvey.Command

inductive Trouble where
  | failure (e : Failure)
  /-- A failure in the course of something else. -/
  | during (activity : String) (e : Failure)
  | noEquals (parameter : String)
  | noName (parameter : String)
  | alreadyThere (path : String)
  | unknownElement (key : String)
  | unknownAssembly (key : String)
deriving DecidableEq

namespace Trouble

def failure? : Trouble → Option Failure
  | failure e => some e
  | during _ e => some e
  | _ => none

def message : Trouble → String
  | failure e => e.message
  | during activity e => activity ++ ": " ++ e.message
  | noEquals parameter => s!"parameter '{parameter}' is not in name=value form"
  | noName parameter => s!"parameter '{parameter}' has no name"
  | alreadyThere path => s!"{path} already exists (use --force to overwrite)"
  | unknownElement key => s!"no element named '{key}' in project"
  | unknownAssembly key => s!"no assembly with code '{key}' in catalog"

/-- A failure as JSON, under a heading. -/
def asJson (e : Failure) : String :=
  "\nError JSON:\n" ++ (Document.ofFailure e).page ++ "\n"

/-- What may help, if trying again may. -/
def hint (e : Failure) : String :=
  if e.isRecoverable then
    "\nThe project is in use; try again once the other session has closed it.\n"
  else ""

def report (t : Trouble) : String :=
  "Error: " ++ t.message ++ "\n"
    ++ (match t.failure? with
      | some e => asJson e ++ hint e
      | none => "")

end Trouble

/-- The result of a library function, whose failure is trouble. -/
def orTrouble {α : Type} : Except Failure α → Except Trouble α :=
  Except.mapError .failure

end QuantitySurvey.Command
