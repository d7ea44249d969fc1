import QuantitySurvey.Failure
import QuantitySurvey.Measure.Dimensions
import QuantitySurvey.Parameter.Value

/-! # Parameter schemas

What an assembly declares about its parameters. `Spec.check` finds the first violation of one
declaration: its kind, then its bounds, then its rule. `Schema.validate` reports all missing
required names together, and otherwise the first declared parameter with a violation. -/

set_option autoImplicit false

namespace QuantitySurvey.Parameter

/-! ## Declarations -/

inductive Kind where
  /-- Anything with a numeric reading. -/
  | number
  | integer
  | text
deriving DecidableEq, Repr

def Kind.title : Kind → String
  | number => "number"
  | integer => "integer"
  | text => "string"

inductive Rule where
  | positive
  | nonNegative
  /-- A text that gives two or three positive sizes. -/
  | dimensions
deriving DecidableEq, Repr

structure Spec where
  name : String
  kind : Kind
  minimum : Option Float := none
  maximum : Option Float := none
  rule : Option Rule := none
  description : Option String := none
  /-- The unit that the value is meant in, for information. -/
  unit : Option Measure.Unit := none
deriving DecidableEq

/-! ## Violations -/

/-- How a value breaks a declaration. -/
inductive Violation where
  | notNumber
  | notInteger
  | below (minimum : Float)
  | above (maximum : Float)
  | notPositive
  | negative
  | notDimensions
deriving DecidableEq

def Violation.reason : Violation → String
  | notNumber => "expected a number"
  | notInteger => "expected an integer"
  | below minimum => "must be at least " ++ Decimal.text minimum
  | above maximum => "must be at most " ++ Decimal.text maximum
  | notPositive => "must be a positive number"
  | negative => "must be zero or a positive number"
  | notDimensions => "expected dimensions such as 1200x600 or 2.4x1.2x0.3 m"

/-- A number without a fraction. Infinities and NaN are none. -/
def isWhole (x : Float) : Bool :=
  x - (if x < 0 then x.ceil else x.floor) == 0

namespace Spec

/-- The number that bounds and rules speak of, once the kind fits. A text may have one. -/
def reading (s : Spec) (v : Value) : Except Violation (Option Float) :=
  match s.kind, v.asNumber? with
  | .number, some x => .ok (some x)
  | .number, none => .error .notNumber
  | .integer, some x => if isWhole x then .ok (some x) else .error .notInteger
  | .integer, none => .error .notInteger
  | .text, x? => .ok x?

/-- The bound that a number breaks. A number that compares with nothing breaks none. -/
def boundViolation? (s : Spec) (x : Float) : Option Violation :=
  match s.minimum.filter (x < ·), s.maximum.filter (· < x) with
  | some m, _ => some (.below m)
  | none, some m => some (.above m)
  | none, none => none

/-- The rule that a value breaks, given its numeric reading. -/
def ruleViolation? (s : Spec) (v : Value) (x? : Option Float) : Option Violation :=
  match s.rule with
  | none => none
  | some .positive => if x?.any (0 < ·) then none else some .notPositive
  | some .nonNegative => if x?.any (0 ≤ ·) then none else some .negative
  | some .dimensions =>
    if (v.text?.bind Measure.Dimensions.read?).isSome then none else some .notDimensions

/-- The first violation of a declaration. -/
def violation? (s : Spec) (v : Value) : Option Violation :=
  match s.reading v with
  | .error e => some e
  | .ok x? => (x?.bind s.boundViolation?).or (s.ruleViolation? v x?)

def check (s : Spec) (v : Value) : Except Failure Unit :=
  match s.violation? v with
  | none => .ok ()
  | some e => .error (.invalidParameter s.name v.echo e.reason)

end Spec

/-! ## Schemas -/

/-- Declarations in order, and the names that must be supplied. A required name need not be
declared. -/
structure Schema where
  properties : List Spec := []
  required : List String := []
deriving DecidableEq, Inhabited

namespace Schema

/-- The schema with a declaration at the end, and no earlier one of that name. -/
def declare (s : Schema) (spec : Spec) : Schema :=
  { s with properties := s.properties.filter (·.name != spec.name) ++ [spec] }

/-- The schema with further required names, each once. -/
def require (s : Schema) (names : List String) : Schema :=
  { s with required := names.foldl (fun r n => if n ∈ r then r else r ++ [n]) s.required }

def spec? (s : Schema) (name : String) : Option Spec :=
  s.properties.find? (·.name == name)

def isRequired (s : Schema) (name : String) : Bool :=
  s.required.contains name

/-- The required names that are not supplied, in order. -/
def missing (s : Schema) (p : Parameters) : List String :=
  s.required.filter fun name => !p.contains name

def checkRequired (s : Schema) (p : Parameters) : Except Failure Unit :=
  match s.missing p with
  | [] => .ok ()
  | names => .error (.missingParameters names)

/-- Checks the declarations of a list that are supplied, up to the first violation. -/
def checkSpecs (p : Parameters) : List Spec → Except Failure Unit
  | [] => .ok ()
  | spec :: rest =>
    match p.find? spec.name with
    | none => checkSpecs p rest
    | some v =>
      match spec.check v with
      | .ok _ => checkSpecs p rest
      | .error e => .error e

def checkValues (s : Schema) (p : Parameters) : Except Failure Unit :=
  checkSpecs p s.properties

/-- Presence first, then values. -/
def validate (s : Schema) (p : Parameters) : Except Failure Unit :=
  match s.checkRequired p with
  | .error e => .error e
  | .ok _ => s.checkValues p

theorem mem_missing_iff {s : Schema} {p : Parameters} {name : String} :
    name ∈ s.missing p ↔ name ∈ s.required ∧ p.contains name = false := by
  simp [missing]

end Schema

end QuantitySurvey.Parameter
