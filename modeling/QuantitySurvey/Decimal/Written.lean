import QuantitySurvey.Decimal.Shortest

/-! # Written numbers

How a double is written. Both styles of this library write the shortest decimal; they differ
in where an exponent is used, in how a whole number ends, and in which of two equally near
decimals is taken. `plain` is the style of messages, formulas and traces, `document` that of
stored documents. -/

set_option autoImplicit false

namespace QuantitySurvey.Decimal

/-! ## Styles -/

structure Style where
  tie : Tie
  /-- Whether a number is written without an exponent, given the exponent of its first digit. -/
  positional : Int → Bool
  /-- What follows the digits of a whole number. -/
  wholeEnd : List Char

/-- Never an exponent, and nothing after a whole number: `6`, `0.1`, `100000000000000000000000`. -/
def plain : Style where
  tie := .up
  positional := fun _ => true
  wholeEnd := []

/-- Always recognisable as a fraction: `1.0`, `0.00001`, `1e-6`, `1e+16`. -/
def document : Style where
  tie := .toEven
  positional := fun e => -5 ≤ e && e ≤ 15
  wholeEnd := ['.', '0']

/-! ## Layout of digits -/

/-- The digits of a natural number. -/
def digits (n : Nat) : List Char :=
  Nat.toDigits 10 n

/-- `0.ds · 10 ^ point`, written out. -/
def laidOut (wholeEnd : List Char) (ds : List Char) (point : Int) : List Char :=
  if point ≤ 0 then
    '0' :: '.' :: List.replicate (-point).toNat '0' ++ ds
  else if (ds.length : Int) ≤ point then
    ds ++ List.replicate (point.toNat - ds.length) '0' ++ wholeEnd
  else
    ds.take point.toNat ++ '.' :: ds.drop point.toNat

/-- The first digit, a point before the others, and the exponent with its sign. -/
def withExponent (ds : List Char) (e : Int) : List Char :=
  let mantissa := match ds with
    | d :: d' :: more => d :: '.' :: d' :: more
    | ds => ds
  mantissa ++ 'e' :: (if e < 0 then '-' else '+') :: digits e.natAbs

def Style.size (s : Style) (v : Magnitude) : List Char :=
  let p := v.shortest s.tie
  let ds := digits p.digits
  let point := p.exponent + ds.length
  if s.positional (point - 1) then laidOut s.wholeEnd ds point
  else withExponent ds (point - 1)

/-- A finite double. Zero has a sign too. -/
def Style.finite (s : Style) (x : Float) : List Char :=
  let v := Magnitude.ofFloat x
  let size := if v.significand = 0 then '0' :: s.wholeEnd else s.size v
  if isNegative x then '-' :: size else size

def text (x : Float) : String :=
  if x.isNaN then "NaN"
  else if x.isInf then if isNegative x then "-inf" else "inf"
  else String.ofList (plain.finite x)

example : plain.finite 0.30000000000000004 = "0.30000000000000004".toList := by decide +kernel
example : plain.finite 1e-7 = "0.0000001".toList := by decide +kernel
example : plain.finite 1e21 = "1000000000000000000000".toList := by decide +kernel
example : plain.finite (-0.0) = ['-', '0'] := by decide +kernel
example : document.finite 1e15 = "1000000000000000.0".toList := by decide +kernel
example : document.finite 1e16 = "1e+16".toList := by decide +kernel
example : document.finite 1e-5 = "0.00001".toList := by decide +kernel
example : document.finite 1.25e-6 = "1.25e-6".toList := by decide +kernel

end QuantitySurvey.Decimal
