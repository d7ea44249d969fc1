import QuantitySurvey.Parameter.Value

/-! # Bindings

What the names of a formula stand for while it is evaluated: the parameters of an element, and
its type and material under two names of their own, which a parameter of that name hides. -/

set_option autoImplicit false

namespace QuantitySurvey.Parameter

/-- The names that a formula may read as parameters. -/
structure Bindings where
  parameters : Parameters
  elementType : Option String
  material : Option String

namespace Bindings

def find? (b : Bindings) (name : String) : Option Value :=
  match b.parameters.find? name with
  | some v => some v
  | none =>
    if name = "element_type" then b.elementType.map .text
    else if name = "material" then b.material.map .text
    else none

theorem find?_of_parameter {b : Bindings} {name : String} {v : Value}
    (h : b.parameters.find? name = some v) : b.find? name = some v := by
  simp [find?, h]

end Bindings

end QuantitySurvey.Parameter
