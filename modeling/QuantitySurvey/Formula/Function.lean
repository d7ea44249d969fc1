import QuantitySurvey.Measure.Unit

/-! # Functions and constants

The closed set of names that a formula may call, with what each expects, and the named constants.
Nothing else can be called: `Function.named?_name` says that the names are looked up exactly. -/

set_option autoImplicit false

namespace QuantitySurvey.Formula

/-! ## Functions -/

inductive ArgumentKind where
  | number
  /-- The name of a unit, or of a text parameter that names one. -/
  | unit
deriving DecidableEq, Repr

inductive Function where
  | sqrt | pow | abs | round | ceil | floor | max | min | toMm | toM | toM2 | toM3
deriving DecidableEq, Repr

namespace Function

/-- Every function, in the order of the names. -/
def all : List Function :=
  [abs, ceil, floor, max, min, pow, round, sqrt, toM, toM2, toM3, toMm]

theorem mem_all (f : Function) : f ∈ all := by cases f <;> decide

def name : Function → String
  | sqrt => "sqrt"
  | pow => "pow"
  | abs => "abs"
  | round => "round"
  | ceil => "ceil"
  | floor => "floor"
  | max => "max"
  | min => "min"
  | toMm => "to_mm"
  | toM => "to_m"
  | toM2 => "to_m2"
  | toM3 => "to_m3"

def named? (s : String) : Option Function :=
  all.find? (·.name == s)

theorem named?_name (f : Function) : named? f.name = some f := by
  cases f <;> decide +kernel

/-- What the positions hold; optional ones come last. -/
def parameters : Function → List ArgumentKind
  | sqrt | abs | ceil | floor => [.number]
  | pow | max | min | round => [.number, .number]
  | toMm | toM | toM2 | toM3 => [.number, .unit]

/-- The least number of arguments. The precision of a rounding may be left out. -/
def minArity : Function → Nat
  | round => 1
  | f => f.parameters.length

def maxArity (f : Function) : Nat := f.parameters.length

def target? : Function → Option Measure.Unit
  | toMm => some .millimetre
  | toM => some .metre
  | toM2 => some .squareMetre
  | toM3 => some .cubicMetre
  | _ => none

/-! ## Documentation -/

def signature : Function → String
  | sqrt => "sqrt(x)"
  | pow => "pow(x, y)"
  | abs => "abs(x)"
  | round => "round(x[, precision])"
  | ceil => "ceil(x)"
  | floor => "floor(x)"
  | max => "max(x, y)"
  | min => "min(x, y)"
  | toMm => "to_mm(value, from_unit)"
  | toM => "to_m(value, from_unit)"
  | toM2 => "to_m2(value, from_unit)"
  | toM3 => "to_m3(value, from_unit)"

def description : Function → String
  | sqrt => "Square root. Negative input is an error."
  | pow => "x raised to the power y."
  | abs => "Absolute value."
  | round => "Round half away from zero to `precision` decimal places (default 0)."
  | ceil => "Smallest integer not less than x."
  | floor => "Largest integer not greater than x."
  | max => "Larger of two values."
  | min => "Smaller of two values."
  | toMm => "Convert a length to millimetres."
  | toM => "Convert a length to metres."
  | toM2 => "Convert an area to square metres."
  | toM3 => "Convert a volume to cubic metres."

end Function

/-! ## Constants -/

/-- The named constants, in the order of the names. -/
def constants : List (String × Float) :=
  [("E", 2.718281828459045), ("PI", 3.141592653589793)]

def constant? (name : String) : Option Float :=
  constants.lookup name

end QuantitySurvey.Formula
