import QuantitySurvey.Command.Printed
import QuantitySurvey.Command.Trouble
import QuantitySurvey.Settings

/-! # Evaluating and converting

The commands that need no project. Their output depends on arguments and settings alone. -/

set_option autoImplicit false

namespace QuantitySurvey.Program

open Command (Trouble orTrouble)

/-- The parameter that a text of the form `name=value` gives. A finite number is a number. -/
def parameter (s : String) : Except Trouble (String × Parameter.Value) :=
  match s.toList.dropWhile (· != '=') with
  | [] => .error (.noEquals s)
  | _ :: value =>
    let name := Text.trim (s.toList.takeWhile (· != '='))
    let value := Text.trim value
    if name = [] then .error (.noName s)
    else .ok (String.ofList name,
      match (Decimal.read? value).filter Float.isFinite with
      | some x => .number x
      | none => .text (String.ofList value))

/-- What the value of a formula is, and how it comes about. -/
def evaluate (settings : Settings) (formula : String) (parameters : List String)
    (asJson : Bool) : Except Trouble String := do
  let parameters ← parameters.mapM parameter
  let limits := settings.limits
  let parsed ← orTrouble (Formula.parse limits formula)
  let v ← orTrouble (parsed.evaluate limits ⟨SortedMap.ofList parameters, none, none⟩)
  return (if asJson then (Document.ofEvaluation v).page ++ "\n" else Command.evaluationText v)

def convert (value : Float) (source target : String) : Except Trouble String := do
  let converted ← orTrouble (Measure.convertNamed value source target)
  return Command.conversionText value converted source target

end QuantitySurvey.Program
