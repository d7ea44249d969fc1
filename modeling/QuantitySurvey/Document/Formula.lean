import QuantitySurvey.Document.Basic
import QuantitySurvey.Formula

/-! # Formulas in documents

Expressions, traces and evaluations as JSON. -/

set_option autoImplicit false

namespace QuantitySurvey.Document

open Formula (Expr Function Operator Step Evaluation Limits)

/-! ## Words -/

def operatorName : Operator → String
  | .add => "add"
  | .sub => "sub"
  | .mul => "mul"
  | .div => "div"

def operator? (setAside : Bool) (j : Json) : Option Operator :=
  j.word? setAside [.add, .sub, .mul, .div] operatorName

def function? (setAside : Bool) (j : Json) : Option Function :=
  j.word? setAside Function.all Function.name

def stepKindName : Step.Kind → String
  | .substitution => "substitution"
  | .constant => "constant"
  | .functionCall => "function_call"
  | .unitConversion => "unit_conversion"
  | .result => "result"

def stepKind? (j : Json) : Option Step.Kind :=
  j.word? false [.substitution, .constant, .functionCall, .unitConversion, .result] stepKindName

/-! ## Expressions -/

mutual

def ofExpr : Expr → Json
  | .literal x => .object [("type", .string "literal"), ("value", .number x)]
  | .identifier name => .object [("type", .string "identifier"), ("name", .string name)]
  | .unitName name => .object [("type", .string "unit_name"), ("name", .string name)]
  | .negate e => .object [("type", .string "negate"), ("operand", ofExpr e)]
  | .binary op lhs rhs =>
    .object [("type", .string "binary_op"), ("op", .string (operatorName op)),
      ("lhs", ofExpr lhs), ("rhs", ofExpr rhs)]
  | .call f args =>
    .object [("type", .string "call"), ("function", .string f.name),
      ("args", .array (ofExprs args))]

def ofExprs : List Expr → List Json
  | [] => []
  | e :: rest => ofExpr e :: ofExprs rest

end

/-- The sorts of expressions, in order. -/
def exprSorts : List String :=
  ["literal", "identifier", "unit_name", "negate", "binary_op", "call"]

/-- The sort of an expression: a word, or its place in the list if it was set aside. -/
def exprSort? (setAside : Bool) : Json → Option String
  | .string s => some s
  | .integer n => if setAside && 0 ≤ n then exprSorts[n.toNat]? else none
  | _ => none

/-- Reads an expression of at most a given height. Inner expressions were set aside with the
outer one. -/
def exprWithin? : (height : Nat) → (setAside : Bool) → Json → Option Expr
  | 0, _, _ => none
  | height + 1, setAside, j => do
    let (kind, rest) ← j.variant? "type"
    let sort ← exprSort? setAside kind
    let inner := Json.required? (exprWithin? height true)
    if sort = "literal" then
      let [x] ← rest.record? ["value"] | none
      return .literal (← Json.required? Json.float? x)
    else if sort = "identifier" then
      let [name] ← rest.record? ["name"] | none
      return .identifier (← Json.required? Json.string? name)
    else if sort = "unit_name" then
      let [name] ← rest.record? ["name"] | none
      return .unitName (← Json.required? Json.string? name)
    else if sort = "negate" then
      let [e] ← rest.record? ["operand"] | none
      return .negate (← inner e)
    else if sort = "binary_op" then
      let [op, lhs, rhs] ← rest.record? ["op", "lhs", "rhs"] | none
      return .binary (← Json.required? (operator? true) op) (← inner lhs) (← inner rhs)
    else if sort = "call" then
      let [f, args] ← rest.record? ["function", "args"] | none
      return .call (← Json.required? (function? true) f)
        (← Json.required? (Json.list? (exprWithin? height true)) args)
    else none

def expr? (j : Json) : Option Expr := exprWithin? (j.height + 1) false j

/-! ## Traces -/

def ofStep (s : Step) : Json :=
  .object <| [("kind", .string (stepKindName s.kind)), ("expression", .string s.expression),
      ("value", .number s.value)]
    ++ whenSome "unit" ofUnit s.unit ++ whenSome "detail" .string s.detail

def step? (j : Json) : Option Step := do
  let [kind, expression, value, unit, detail] ←
    j.record? ["kind", "expression", "value", "unit", "detail"] | none
  return {
    kind := ← Json.required? stepKind? kind
    expression := ← Json.required? Json.string? expression
    value := ← Json.required? Json.float? value
    unit := ← Json.optional? unit? unit
    detail := ← Json.optional? Json.string? detail }

def ofEvaluation (v : Evaluation) : Json :=
  .object [("value", .number v.value), ("steps", ofList ofStep v.steps)]

def evaluation? (j : Json) : Option Evaluation := do
  let [value, steps] ← j.record? ["value", "steps"] | none
  return ⟨← Json.required? Json.float? value, ← Json.required? (Json.list? step?) steps⟩

def ofLimits (l : Limits) : Json :=
  .object [("max_formula_length", .integer l.maxLength), ("max_trace_steps", .integer l.maxSteps)]

def limits? (j : Json) : Option Limits := do
  let [length, steps] ← j.record? ["max_formula_length", "max_trace_steps"] | none
  return ⟨← Json.required? Json.count? length, ← Json.required? Json.count? steps⟩

end QuantitySurvey.Document
