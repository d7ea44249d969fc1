import QuantitySurvey.Document.Formula
import QuantitySurvey.Work.Assembly
import QuantitySurvey.Work.Element
import QuantitySurvey.Work.Quantity

/-! # Elements, assemblies and quantities in documents -/

set_option autoImplicit false

namespace QuantitySurvey.Document

open Parameter (Schema Spec Rule)

/-! ## Schemas -/

def parameterKindName : Parameter.Kind → String
  | .number => "number"
  | .integer => "integer"
  | .text => "string"

def parameterKind? (j : Json) : Option Parameter.Kind :=
  j.word? false [.number, .integer, .text] parameterKindName

def ruleName : Rule → String
  | .positive => "positive_number"
  | .nonNegative => "non_negative_number"
  | .dimensions => "dimension_format"

def rule? (j : Json) : Option Rule :=
  j.word? false [.positive, .nonNegative, .dimensions] ruleName

def ofSpec (s : Spec) : Json :=
  .object <| [("name", .string s.name), ("type", .string (parameterKindName s.kind))]
    ++ whenSome "minimum" .number s.minimum ++ whenSome "maximum" .number s.maximum
    ++ whenSome "rule" (.string <| ruleName ·) s.rule
    ++ whenSome "description" .string s.description ++ whenSome "unit" ofUnit s.unit

def spec? (j : Json) : Option Spec := do
  let [name, kind, minimum, maximum, rule, description, unit] ←
    j.record? ["name", "type", "minimum", "maximum", "rule", "description", "unit"] | none
  return {
    name := ← Json.required? Json.string? name
    kind := ← Json.required? parameterKind? kind
    minimum := ← Json.optional? Json.float? minimum
    maximum := ← Json.optional? Json.float? maximum
    rule := ← Json.optional? rule? rule
    description := ← Json.optional? Json.string? description
    unit := ← Json.optional? unit? unit }

def ofSchema (s : Schema) : Json :=
  .object [("properties", ofList ofSpec s.properties), ("required", ofList .string s.required)]

def schema? (j : Json) : Option Schema := do
  let [properties, required] ← j.record? ["properties", "required"] | none
  return ⟨← Json.orElse? [] (Json.list? spec?) properties,
    ← Json.orElse? [] (Json.list? Json.string?) required⟩

/-! ## Elements -/

def ofElement (e : Element) : Json :=
  .object <| [("id", ofIdentifier e.id), ("name", .string e.name)]
    ++ whenSome "element_type" .string e.elementType ++ whenSome "material" .string e.material
    ++ whenSome "classification" .string e.classification
    ++ [("parameters", ofParameters e.parameters)]

def element? (j : Json) : Option Element := do
  let [id, name, elementType, material, classification, parameters] ←
    j.record? ["id", "name", "element_type", "material", "classification", "parameters"] | none
  return {
    id := ← Json.required? identifier? id
    name := ← Json.required? Json.string? name
    elementType := ← Json.optional? Json.string? elementType
    material := ← Json.optional? Json.string? material
    classification := ← Json.optional? Json.string? classification
    parameters := ← Json.orElse? .empty parameters? parameters }

/-! ## Assemblies -/

def ofAssembly (a : Assembly) : Json :=
  .object <| [("id", ofIdentifier a.id), ("code", .string a.code), ("name", .string a.name),
      ("formula", .string a.formula), ("unit", ofUnit a.unit)]
    ++ whenSome "formula_unit" ofUnit a.formulaUnit
    ++ [("parameter_schema", ofSchema a.schema)]
    ++ whenSome "classification" .string a.classification

def assembly? (j : Json) : Option Assembly := do
  let [id, code, name, formula, unit, formulaUnit, schema, classification] ←
    j.record? ["id", "code", "name", "formula", "unit", "formula_unit", "parameter_schema",
      "classification"] | none
  return {
    id := ← Json.required? identifier? id
    code := ← Json.required? Json.string? code
    name := ← Json.required? Json.string? name
    formula := ← Json.required? Json.string? formula
    unit := ← Json.required? unit? unit
    formulaUnit := ← Json.optional? unit? formulaUnit
    schema := ← Json.orElse? {} schema? schema
    classification := ← Json.optional? Json.string? classification }

def ofCatalog (c : Catalog) : Json := ofList ofAssembly c.assemblies

def catalog? (j : Json) : Option Catalog := (j.list? assembly?).map Catalog.mk

/-! ## Quantities -/

def ofWarning : Warning → Json
  | .negative value => .object [("type", .string "negative_result"), ("value", .number value)]

def warning? (j : Json) : Option Warning := do
  let (kind, rest) ← j.variant? "type"
  if kind.string? ≠ some "negative_result" then none
  let [value] ← rest.record? ["value"] | none
  return .negative (← Json.required? Json.float? value)

/-- A list that is left out when it is empty. -/
def ofWarnings (warnings : List Warning) : List (String × Json) :=
  if warnings.isEmpty then [] else [("warnings", ofList ofWarning warnings)]

def ofResult (r : CalculationResult) : Json :=
  .object <| [("raw_result", .number r.raw), ("standardized_result", .number r.standardized),
      ("unit", ofUnit r.unit), ("calculation_steps", ofList ofStep r.steps),
      ("formula_used", .string r.formula), ("parameters_used", ofParameters r.parameters)]
    ++ ofWarnings r.warnings
    ++ [("engine_version", .string r.engineVersion), ("calculated_at", ofInstant r.calculatedAt)]

def result? (j : Json) : Option CalculationResult := do
  let [raw, standardized, unit, steps, formula, parameters, warnings, version, calculatedAt] ←
    j.record? ["raw_result", "standardized_result", "unit", "calculation_steps", "formula_used",
      "parameters_used", "warnings", "engine_version", "calculated_at"] | none
  return {
    raw := ← Json.required? Json.float? raw
    standardized := ← Json.required? Json.float? standardized
    unit := ← Json.required? unit? unit
    steps := ← Json.required? (Json.list? step?) steps
    formula := ← Json.required? Json.string? formula
    parameters := ← Json.required? parameters? parameters
    warnings := ← Json.orElse? [] (Json.list? warning?) warnings
    engineVersion := ← Json.required? Json.string? version
    calculatedAt := ← Json.required? instant? calculatedAt }

def ofQuantity (q : Quantity) : Json :=
  .object <| [("id", ofIdentifier q.id), ("element_id", ofIdentifier q.elementId),
      ("assembly_id", ofIdentifier q.assemblyId), ("value", .number q.value),
      ("unit", ofUnit q.unit)]
    ++ ofWarnings q.warnings ++ [("result", ofResult q.result)]

def quantity? (j : Json) : Option Quantity := do
  let [id, elementId, assemblyId, value, unit, warnings, result] ←
    j.record? ["id", "element_id", "assembly_id", "value", "unit", "warnings", "result"] | none
  return {
    id := ← Json.required? identifier? id
    elementId := ← Json.required? identifier? elementId
    assemblyId := ← Json.required? identifier? assemblyId
    value := ← Json.required? Json.float? value
    unit := ← Json.required? unit? unit
    warnings := ← Json.orElse? [] (Json.list? warning?) warnings
    result := ← Json.required? result? result }

end QuantitySurvey.Document
