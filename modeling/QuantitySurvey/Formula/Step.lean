import QuantitySurvey.Measure.Unit
import QuantitySurvey.Decimal.Written

/-! # Trace steps

A calculation leaves a trace: one step for each value looked up, function applied and unit
converted, in the order in which that happened. Steps hold no times, so equal calculations leave
equal traces. -/

set_option autoImplicit false

namespace QuantitySurvey.Formula

namespace Step

inductive Kind where
  | substitution
  | constant
  | functionCall
  | unitConversion
  | result
deriving DecidableEq, Repr

end Step

structure Step where
  kind : Step.Kind
  /-- The part of the formula that the step is about. -/
  expression : String
  value : Float
  unit : Option Measure.Unit := none
  /-- How a unit was found, for instance. -/
  detail : Option String := none
deriving DecidableEq

def Step.text (s : Step) : String :=
  let unit := match s.unit with
    | some u => " " ++ u.symbol
    | none => ""
  let detail := match s.detail with
    | some d => s!" ({d})"
    | none => ""
  s.expression ++ " = " ++ Decimal.text s.value ++ unit ++ detail

end QuantitySurvey.Formula
