import QuantitySurvey.Settings
import QuantitySurvey.Work.Assembly
import QuantitySurvey.Work.Element
import QuantitySurvey.Work.Quantity

/-! # Computing a quantity

The part of a calculation that depends on its inputs alone. Element, assembly and formula have to
be there; the parameters have to satisfy the schema; the formula has to result in a finite number,
which is then converted to the unit of the assembly. The first of these that fails decides. -/

set_option autoImplicit false

namespace QuantitySurvey.Calculation

def inputs (element : Option Element) (assembly : Option Assembly) :
    Except Failure (Element × Assembly) :=
  match element, assembly with
  | none, _ => .error (.missingInput "element")
  | some _, none => .error (.missingInput "assembly")
  | some e, some a =>
    if Text.allBlank a.formula then .error (.missingInput "formula") else .ok (e, a)

def evaluation (limits : Formula.Limits) (e : Element) (a : Assembly) :
    Except Failure Formula.Evaluation := do
  a.schema.validate e.parameters
  let formula ← Formula.parse limits a.formula
  formula.evaluate limits e.bindings

/-- What a value of the formula amounts to in the unit of the assembly. -/
def standardized (a : Assembly) (raw : Float) : Except Failure Float := do
  if !raw.isFinite then
    let shown := Decimal.text raw
    let formula := a.formula
    throw (.calculation s!"formula '{formula}' produced a non-finite result ({shown})")
  let value ← Measure.convert raw a.sourceUnit a.unit
  if !value.isFinite then
    let shown := Decimal.text raw
    let source := a.sourceUnit.symbol
    let target := a.unit.symbol
    throw (.calculation s!"converting {shown} {source} to {target} overflowed")
  return value

def resultStep (a : Assembly) (raw : Float) : Formula.Step where
  kind := .result
  expression := a.formula
  value := raw
  unit := some a.sourceUnit

def conversionStep (a : Assembly) (raw value : Float) : Formula.Step where
  kind := .unitConversion
  expression := Decimal.text raw ++ " " ++ a.sourceUnit.symbol ++ " -> " ++ a.unit.symbol
  value := value
  unit := some a.unit
  detail := if a.sourceUnit = a.unit then some "identity" else none

def warnings (raw : Float) : List Warning :=
  if raw < 0 then [.negative raw] else []

def resultOf (version : String) (e : Element) (a : Assembly) (v : Formula.Evaluation)
    (value : Float) (calculatedAt : Instant) : CalculationResult where
  raw := v.value
  standardized := value
  unit := a.unit
  steps := v.steps ++ [resultStep a v.value, conversionStep a v.value value]
  formula := a.formula
  parameters := e.parameters
  warnings := warnings v.value
  engineVersion := version
  calculatedAt := calculatedAt

/-- The element, the assembly and, for the time of its calculation, the result. -/
def compute (settings : Settings) (element : Option Element) (assembly : Option Assembly) :
    Except Failure (Element × Assembly × (Instant → CalculationResult)) := do
  let (e, a) ← inputs element assembly
  let v ← evaluation settings.limits e a
  let value ← standardized a v.value
  return (e, a, resultOf settings.engineVersion e a v value)

end QuantitySurvey.Calculation
