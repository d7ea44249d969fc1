import QuantitySurvey.Json.Value
import QuantitySurvey.Decimal.Reading

/-! # Numbers of JSON texts

A whole number in the range of signed or unsigned 64-bit words is kept as it is. Any other
number is read as a 64-bit significand, whose further digits are dropped, and a power of ten: the
significand becomes a double, which is multiplied or divided once by the power. This is the
nearest double to the text whenever significand and power are exact, as for up to 15 digits and
powers up to `10 ^ 22`. -/

set_option autoImplicit false

namespace QuantitySurvey.Json

structure Numeral where
  isNegative : Bool
  whole : List Char
  fraction : Option (List Char)
  exponent : Option (Bool × List Char)

def maxWord : Nat := UInt64.size - 1

/-! ## Significand and scale -/

/-- A significand with its power of ten. -/
structure Scaled where
  significand : Nat
  scale : Int

/-- Takes in a digit before the point. Once a digit does not fit, digits only count. -/
def Scaled.wholeDigit (s : Scaled) (c : Char) : Scaled :=
  let n := 10 * s.significand + Decimal.digitValue c
  if s.scale = 0 && n ≤ maxWord then { s with significand := n }
  else { s with scale := s.scale + 1 }

/-- Takes in digits after the point, up to the first that does not fit. -/
def Scaled.fractionDigits (s : Scaled) : List Char → Scaled
  | [] => s
  | c :: cs =>
    let n := 10 * s.significand + Decimal.digitValue c
    if n ≤ maxWord then Scaled.fractionDigits ⟨n, s.scale - 1⟩ cs else s

/-- A power of ten as a double. -/
def powerOfTen (n : Nat) : Float :=
  Float.ofScientific 1 false n

/-- A double divided by a power of ten, in steps that are doubles. -/
def dividedBy (x : Float) : (steps n : Nat) → Float
  | 0, n => x / powerOfTen n
  | steps + 1, n =>
    if n ≤ 308 then x / powerOfTen n
    else if x == 0 then x
    else dividedBy (x / powerOfTen 308) steps (n - 308)

/-- The double of a significand and a power of ten, unless it is too large. -/
def Scaled.value? (s : Scaled) : Option Float :=
  let x := Float.ofNat s.significand
  if 0 ≤ s.scale then
    if s.scale ≤ 308 then (some (x * powerOfTen s.scale.toNat)).filter Float.isFinite
    else if s.significand = 0 then some x
    else none
  else some (dividedBy x 3 s.scale.natAbs)

/-! ## Numbers -/

/-- The double of a numeral, unless it is too large. -/
def Numeral.float? (n : Numeral) : Option Float :=
  let s := (n.whole.foldl Scaled.wholeDigit ⟨0, 0⟩).fractionDigits (n.fraction.getD [])
  let e : Int := match n.exponent with
    | none => 0
    | some (isNegative, ds) => if isNegative then -(Decimal.natural ds) else Decimal.natural ds
  let size := Scaled.value? { s with scale := s.scale + e }
  size.map fun x => if n.isNegative then -x else x

/-- The value of a numeral. `-0` is a fraction, for a whole number has no sign of zero. -/
def Numeral.value (n : Numeral) : Json :=
  let size := Decimal.natural n.whole
  let isWhole := n.fraction.isNone && n.exponent.isNone
  if isWhole && !n.isNegative && size ≤ maxWord then .integer size
  else if isWhole && n.isNegative && 0 < size && Int64.minValue.toInt ≤ -(size : Int) then
    .integer (-size)
  else match n.float? with
    | some x => .number x
    | none => .unreadable

end QuantitySurvey.Json
