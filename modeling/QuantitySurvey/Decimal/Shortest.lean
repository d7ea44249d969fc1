/-! # Shortest decimals

A positive double is a whole number times a power of two, and the reals that round to it form an
interval around it. `Magnitude.shortest` finds the decimal that stands for the double: it takes
the coarsest power-of-ten grid that has a point in the interval, and of two such points the
nearer one. All arithmetic is exact, on natural numbers. -/

set_option autoImplicit false

namespace QuantitySurvey.Decimal

/-! ## Doubles as whole numbers -/

/-- A positive finite double, `significand · 2 ^ exponent`. -/
structure Magnitude where
  significand : Nat
  exponent : Int
  /-- Whether the next double below is only half as far away as the next one above. -/
  closeBelow : Bool
deriving Repr, DecidableEq

/-- What the leading bit of a significand is worth. It is not stored; the 52 bits below it are. -/
def leadingBit : Nat := 0x10000000000000

/-- The size of a finite double, read off its bits. -/
def Magnitude.ofFloat (x : Float) : Magnitude :=
  let bits : Nat := x.toBits.toNat
  let biased : Nat := bits / leadingBit % 0x800
  let fraction : Nat := bits % leadingBit
  if biased = 0 then ⟨fraction, -1074, false⟩
  else ⟨leadingBit + fraction, (biased : Int) - 1075, fraction == 0 && 1 < biased⟩

/-- Whether the sign bit is set; it is for `-0`. -/
def isNegative (x : Float) : Bool :=
  0x8000000000000000 ≤ x.toBits.toNat

/-! ## Grids -/

/-- The decimal `digits · 10 ^ exponent`. -/
structure Point where
  digits : Nat
  exponent : Int
deriving Repr, DecidableEq

inductive Tie where
  | up
  | toEven
deriving Repr, DecidableEq

/-- A double and the ends of its interval, measured in steps of a grid: each is a numerator over
`step`. The ends belong to the interval when `closed`. -/
structure Measured where
  low : Nat
  value : Nat
  high : Nat
  step : Nat
  closed : Bool

/-- The double and its interval on the grid of the multiples of `10 ^ e`. Halfway to a neighbour
is two quarters of a unit in the last place, and one quarter towards a neighbour that is close. -/
def Magnitude.onGrid (v : Magnitude) (e : Int) : Measured :=
  let quarter := v.exponent - 2
  let scale := Nat.pow 2 quarter.toNat * Nat.pow 10 (-e).toNat
  { low := (4 * v.significand - if v.closeBelow then 1 else 2) * scale
    value := 4 * v.significand * scale
    high := (4 * v.significand + 2) * scale
    step := Nat.pow 2 (-quarter).toNat * Nat.pow 10 e.toNat
    closed := v.significand % 2 == 0 }

/-- Whether the point `d` of the grid lies in the interval. -/
def Measured.holds (m : Measured) (d : Nat) : Bool :=
  if m.closed then m.low ≤ d * m.step && d * m.step ≤ m.high
  else m.low < d * m.step && d * m.step < m.high

/-- The point of the grid in the interval that is nearest to the double. Only the two neighbours
of the double can be. -/
def Measured.nearest? (tie : Tie) (m : Measured) : Option Nat :=
  let below := m.value / m.step
  match m.holds below, m.holds (below + 1) with
  | false, false => none
  | true, false => some below
  | false, true => some (below + 1)
  | true, true =>
    match compare (2 * m.value) ((2 * below + 1) * m.step), tie with
    | .lt, _ => some below
    | .gt, _ => some (below + 1)
    | .eq, .up => some (below + 1)
    | .eq, .toEven => some (below + below % 2)

/-! ## The search -/

/-- The first grid, from `10 ^ e` on towards finer ones, with a point in the interval. -/
def Magnitude.coarsest (tie : Tie) (v : Magnitude) : Nat → Int → Point
  | 0, e => ⟨(v.onGrid e).value / (v.onGrid e).step, e⟩
  | grids + 1, e =>
    match (v.onGrid e).nearest? tie with
    | some d => ⟨d, e⟩
    | none => v.coarsest tie grids (e - 1)

/-- The shortest decimal in the interval. The first grid tried is coarser than the double: a
significand is below `2 ^ 53`, and `1233 / 4096` is the decimal logarithm of two to five places.
Seventeen digits always suffice. -/
def Magnitude.shortest (tie : Tie) (v : Magnitude) : Point :=
  v.coarsest tie 40 ((v.exponent + 53) * 1233 / 4096 + 1)

example : (Magnitude.ofFloat 0.3).shortest .up = ⟨3, -1⟩ := by decide +kernel
example : (Magnitude.ofFloat 1e23).shortest .up = ⟨1, 23⟩ := by decide +kernel
example : (Magnitude.ofFloat 5e-324).shortest .up = ⟨5, -324⟩ := by decide +kernel
example : (Magnitude.ofFloat 2.98023223876953125e-8).shortest .up = ⟨29802322387695313, -24⟩ := by
  decide +kernel
example : (Magnitude.ofFloat 2.98023223876953125e-8).shortest .toEven
    = ⟨29802322387695312, -24⟩ := by
  decide +kernel

end QuantitySurvey.Decimal
