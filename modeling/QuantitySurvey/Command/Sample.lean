import QuantitySurvey.Calculation.Collaborators
import QuantitySurvey.Project

/-! # The sample of a new project

Three assemblies for slabs and one slab, to try the program with. -/

set_option autoImplicit false

namespace QuantitySurvey.Command

open Parameter (Schema Spec)

/-- The dimensions of a slab, in metres. -/
def slabSchema : Schema :=
  Schema.require (List.foldl Schema.declare {}
    [{ name := "length", kind := .number, rule := some .positive, unit := some .metre },
     { name := "width", kind := .number, rule := some .positive, unit := some .metre },
     { name := "thickness", kind := .number, minimum := some 0.05, maximum := some 1,
       unit := some .metre }])
    ["length", "width", "thickness"]

/-- The distance between laps is asked for, but the sample slab does not have it. -/
def lapsSchema : Schema :=
  Schema.require
    (Schema.declare {} { name := "lap_spacing", kind := .number, rule := some .positive })
    ["length", "width", "lap_spacing"]

def slabAssembly (id : Identifier) (code name formula : String) (unit : Measure.Unit)
    (schema : Schema) : Assembly where
  id := id
  code := code
  name := name
  formula := formula
  unit := unit
  schema := schema
  classification := some "slab"

def sampleSlab (id : Identifier) : Element where
  id := id
  name := "GF slab"
  elementType := some "slab"
  material := some "C32/40 concrete"
  classification := some "slab"
  parameters := SortedMap.ofList
    [("length", .number 12), ("width", .number 8), ("thickness", .number 0.2)]

def withSample {m : Type → Type} [Monad m] (surroundings : Calculation.Surroundings m)
    (p : Project) : m Project := do
  let slab := slabAssembly (← surroundings.freshId) "11.2.1" "Ground bearing slab"
    "length * width * thickness" .cubicMetre slabSchema
  let formwork := slabAssembly (← surroundings.freshId) "11.2.2" "Slab edge formwork"
    "2 * (length + width) * thickness" .squareMetre slabSchema
  let laps := slabAssembly (← surroundings.freshId) "11.2.3" "Mesh laps"
    "ceil(length / lap_spacing) * width" .squareMetre lapsSchema
  let element := sampleSlab (← surroundings.freshId)
  let now ← surroundings.now
  return ([slab, formwork, laps].foldl (fun p a => p.addAssembly now a) p).addElement now element

end QuantitySurvey.Command
