import QuantitySurvey.Identifier
import QuantitySurvey.Parameter.Bindings

/-! # Elements

An element is a part of a building that quantities are calculated for: a slab, a wall. Its
parameters are kept as they were collected. -/

set_option autoImplicit false

namespace QuantitySurvey

structure Element where
  id : Identifier
  name : String
  elementType : Option String := none
  material : Option String := none
  /-- The code by which assemblies are picked for the element. -/
  classification : Option String := none
  parameters : Parameters := .empty
deriving DecidableEq

def Element.bindings (e : Element) : Parameter.Bindings where
  parameters := e.parameters
  elementType := e.elementType
  material := e.material

end QuantitySurvey
