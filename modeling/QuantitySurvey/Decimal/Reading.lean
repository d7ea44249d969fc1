/-! # Reading numbers

The decimal texts of formulas and of text parameters: an optional sign, then digits with at most
one point, at least one of them a digit, and an optional exponent with at least one digit; or one
of the words `inf`, `infinity` and `nan` in any case. The value is the double nearest to the
decimal. Nothing else is read, blanks and digit separators included. -/

set_option autoImplicit false

namespace QuantitySurvey.Decimal

/-! ## The value of a decimal -/

def digitValue (c : Char) : Nat :=
  c.toNat - '0'.toNat

def natural (ds : List Char) : Nat :=
  ds.foldl (fun n c => 10 * n + digitValue c) 0

/-- The double nearest to `0.ds · 10 ^ point`. Decimals of `10 ^ 310` and more are infinite, and
those below `10 ^ -330` are zero; in between the scale is small. -/
def nearest (ds : List Char) (point : Int) : Float :=
  let ds := ds.dropWhile (· == '0')
  let e := point - ds.length
  if ds.isEmpty || point < -330 then 0
  else if 310 < point then Float.ofScientific 1 false 400
  else if 0 ≤ e then Float.ofScientific (natural ds) false e.toNat
  else Float.ofScientific (natural ds) true (-e).toNat

/-- The number of leading zeros does not count for the position of the point. -/
def ofDigits (whole fraction : List Char) (exponent : Int) : Float :=
  let ds := whole ++ fraction
  let zeros := (ds.takeWhile (· == '0')).length
  nearest ds (exponent + whole.length - zeros)

/-! ## Texts -/

/-- The value of an exponent. It stops growing once it is past every double. -/
def exponentValue (ds : List Char) : Nat :=
  ds.foldl (fun n c => if n < 65536 then 10 * n + digitValue c else n) 0

/-- A sign, if there is one: whether it is a minus, and what follows. -/
def signed : List Char → Bool × List Char
  | '-' :: cs => (true, cs)
  | '+' :: cs => (false, cs)
  | cs => (false, cs)

/-- An exponent part that takes up all the text, or no text at all. -/
def exponentPart? : List Char → Option Int
  | [] => some 0
  | e :: cs =>
    if e == 'e' || e == 'E' then
      let (negative, ds) := signed cs
      if !ds.isEmpty && ds.all Char.isDigit then
        some (if negative then -(exponentValue ds : Int) else exponentValue ds)
      else none
    else none

def unsigned? (cs : List Char) : Option Float :=
  let word := cs.map Char.toLower
  if word = "inf".toList || word = "infinity".toList then some (Float.ofScientific 1 false 400)
  else if word = "nan".toList then some (0.0 / 0.0)
  else
    let whole := cs.takeWhile Char.isDigit
    let rest := cs.dropWhile Char.isDigit
    let (fraction, rest) := match rest with
      | '.' :: ds => (ds.takeWhile Char.isDigit, ds.dropWhile Char.isDigit)
      | rest => ([], rest)
    if whole.isEmpty && fraction.isEmpty then none
    else (exponentPart? rest).map (ofDigits whole fraction)

def read? (cs : List Char) : Option Float :=
  let (negative, size) := signed cs
  (unsigned? size).map fun x => if negative then -x else x

example : read? "-.5e-3".toList = some (-0.0005) := by decide +kernel
example : read? "1e400".toList = some (1.0 / 0.0) := by decide +kernel
example : read? "00012".toList = some 12 := by decide +kernel
example : read? "1e-400".toList = some 0 := by decide +kernel
example : read? "+-5".toList = none := by decide +kernel
example : read? "1e".toList = none := by decide +kernel
example : read? ".".toList = none := by decide +kernel

end QuantitySurvey.Decimal
