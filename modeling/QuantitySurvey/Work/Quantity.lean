import QuantitySurvey.Formula.Step
import QuantitySurvey.Identifier
import QuantitySurvey.Instant
import QuantitySurvey.Parameter.Value

/-! # Quantities

A quantity is what an assembly amounts to for an element. It holds the result of its calculation
in full: values, trace and inputs. Quantities are never changed; recalculation replaces them. -/

set_option autoImplicit false

namespace QuantitySurvey

/-! ## Results -/

/-- An observation about a result that does not stand in its way. -/
inductive Warning where
  | negative (value : Float)
deriving DecidableEq

def Warning.text : Warning → String
  | negative value =>
    let shown := Decimal.text value
    s!"Result is negative ({shown}); check the input dimensions"

structure CalculationResult where
  raw : Float
  standardized : Float
  unit : Measure.Unit
  steps : List Formula.Step
  formula : String
  /-- The parameters as they were when the formula was evaluated. -/
  parameters : Parameters
  warnings : List Warning
  engineVersion : String
  calculatedAt : Instant
deriving DecidableEq

/-! ## Quantities -/

/-- What an assembly amounts to for an element. -/
structure Quantity where
  id : Identifier
  elementId : Identifier
  assemblyId : Identifier
  value : Float
  unit : Measure.Unit
  warnings : List Warning
  result : CalculationResult
deriving DecidableEq

namespace Quantity

def ofResult (id elementId assemblyId : Identifier) (result : CalculationResult) : Quantity where
  id := id
  elementId := elementId
  assemblyId := assemblyId
  value := result.standardized
  unit := result.unit
  warnings := result.warnings
  result := result

def hasWarnings (q : Quantity) : Bool := !q.warnings.isEmpty

def text (q : Quantity) : String :=
  Decimal.text q.value ++ " " ++ q.unit.symbol

end Quantity

end QuantitySurvey
