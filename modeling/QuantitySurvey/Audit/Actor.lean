import QuantitySurvey.Failure
import QuantitySurvey.Text.Blank

/-! # Actors

Who asked for a calculation: the system itself, a person, or a language model. -/

set_option autoImplicit false

namespace QuantitySurvey

inductive Actor where
  | system
  | user (id : String)
  | model (name : String)
deriving DecidableEq, Repr, Inhabited

namespace Actor

def text : Actor → String
  | system => "system"
  | user id => s!"user:{id}"
  | model name => s!"ai:{name}"

/-- The actor that a text stands for, blanks at its ends left aside. The words may be in any
case; what follows the first colon is kept as it is. -/
def read? (s : String) : Option Actor :=
  let cs := Text.trim s.toList
  if Text.lowered cs = "system".toList then some system
  else
    let word := String.ofList (Text.lowered (cs.takeWhile (· != ':')))
    let rest := String.ofList ((cs.dropWhile (· != ':')).drop 1)
    if rest.isEmpty then none
    else if word = "user" then some (user rest)
    else if word = "ai" then some (model rest)
    else none

def parse (s : String) : Except Failure Actor :=
  match read? s with
  | some a => .ok a
  | none => .error (.invalidParameter "actor" (Text.trimmed s)
      "expected 'system', 'user:<id>' or 'ai:<model>'")

end Actor

end QuantitySurvey
