import QuantitySurvey.Measure.Unit

/-! # Conversion

A value is converted by one multiplication, to the base unit of the family, and one division.
Units of different families do not convert. -/

set_option autoImplicit false

namespace QuantitySurvey.Measure

def Unit.factor : Unit → Float
  | millimetre => 1e-3
  | centimetre => 1e-2
  | metre => 1.0
  | kilometre => 1e3
  | inch => 0.0254
  | foot => 0.3048
  | yard => 0.9144
  | squareMillimetre => 1e-6
  | squareCentimetre => 1e-4
  | squareMetre => 1.0
  | hectare => 1e4
  | squareInch => 0.0254 * 0.0254
  | squareFoot => 0.3048 * 0.3048
  | squareYard => 0.9144 * 0.9144
  | cubicMillimetre => 1e-9
  | cubicCentimetre => 1e-6
  | cubicMetre => 1.0
  | litre => 1e-3
  | cubicInch => 0.0254 * 0.0254 * 0.0254
  | cubicFoot => 0.3048 * 0.3048 * 0.3048
  | cubicYard => 0.9144 * 0.9144 * 0.9144
  | number => 1.0

/-- A value in one unit, expressed in another. -/
def convert (value : Float) (source target : Unit) : Except Failure Float :=
  if source = target then .ok value
  else if source.family = target.family then .ok (value * source.factor / target.factor)
  else
    let sourceFamily := source.family.title
    let targetFamily := target.family.title
    .error (.unit source.symbol target.symbol
      s!"{sourceFamily} and {targetFamily} are not convertible")

@[simp] theorem convert_self (value : Float) (u : Unit) : convert value u u = .ok value := by
  simp [convert]

/-- A value in a unit given by its spelling, expressed in another. The first unknown spelling is
reported. -/
def convertNamed (value : Float) (source target : String) : Except Failure Float :=
  match Unit.read? source, Unit.read? target with
  | some s, some t => convert value s t
  | some _, none => .error (.unit source target s!"unknown unit '{target}'")
  | none, _ => .error (.unit source target s!"unknown unit '{source}'")

end QuantitySurvey.Measure
