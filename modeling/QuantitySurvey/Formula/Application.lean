import QuantitySurvey.Formula.Fault
import QuantitySurvey.Measure.Conversion
import QuantitySurvey.Parameter.Schema

/-! # Applying functions

The values of the functions on resolved arguments. The number of arguments is checked here too,
so that a function can be applied outside a formula. -/

set_option autoImplicit false

namespace QuantitySurvey.Formula

inductive Argument where
  | number (x : Float)
  | unit (u : Measure.Unit)
deriving DecidableEq

/-! ## Numeric functions -/

/-- The larger of two numbers. NaN gives way to a number, and of two equal ones the first is
taken. -/
def larger (x y : Float) : Float :=
  if x.isNaN || x < y then y else x

/-- The smaller of two numbers. NaN gives way to a number, and of two equal ones the first is
taken. -/
def smaller (x y : Float) : Float :=
  if x.isNaN || y < x then y else x

/-- Rounds to decimal places, half away from zero; with a negative precision to tens, hundreds
and so on. -/
def roundTo (x : Float) (precision : Int) : Float :=
  let power := Float.ofNat (Nat.pow 10 precision.natAbs)
  if precision = 0 then x.round
  else if 0 < precision then (x * power).round / power
  else (x / power).round * power

/-- The precision that a number stands for. -/
def precision (x : Float) : Except Failure Int :=
  if Parameter.isWhole x && -12 ≤ x && x ≤ 12 then .ok x.toInt64.toInt
  else
    let given := Decimal.text x
    .error (Fault.invalidPrecision.of s!"round(_, {given})")

namespace Function

/-! ## Arguments -/

def numberAt (f : Function) (args : List Argument) (i : Nat) : Except Failure Float :=
  match args[i]? with
  | some (.number x) => .ok x
  | some (.unit u) => .error ((Fault.numberExpected (i + 1) u).of f.name)
  | none => .error ((Fault.wrongArity f args.length).of f.name)

def unitAt (f : Function) (args : List Argument) (i : Nat) : Except Failure Measure.Unit :=
  match args[i]? with
  | some (.unit u) => .ok u
  | some (.number x) => .error ((Fault.unitExpected (i + 1) x).of f.name)
  | none => .error ((Fault.wrongArity f args.length).of f.name)

/-! ## Values -/

def convertTo (f : Function) (target : Measure.Unit) (x : Float) (args : List Argument) :
    Except Failure Float := do
  Measure.convert x (← f.unitAt args 1) target

/-- The value of a function with an admissible number of arguments. -/
def valueOn (f : Function) (args : List Argument) : Except Failure Float := do
  let x ← f.numberAt args 0
  match f with
  | sqrt =>
    if x < 0 then
      let given := Decimal.text x
      .error (Fault.negativeRoot.of s!"sqrt({given})")
    else return x.sqrt
  | abs => return x.abs
  | ceil => return x.ceil
  | floor => return x.floor
  | pow => return x.pow (← f.numberAt args 1)
  | max => return larger x (← f.numberAt args 1)
  | min => return smaller x (← f.numberAt args 1)
  | round =>
    if args.length < 2 then return roundTo x 0
    else return roundTo x (← precision (← f.numberAt args 1))
  | toMm => f.convertTo .millimetre x args
  | toM => f.convertTo .metre x args
  | toM2 => f.convertTo .squareMetre x args
  | toM3 => f.convertTo .cubicMetre x args

def apply (f : Function) (args : List Argument) : Except Failure Float :=
  if args.length < f.minArity || f.maxArity < args.length then
    .error ((Fault.wrongArity f args.length).of f.name)
  else f.valueOn args

end Function

end QuantitySurvey.Formula
