import QuantitySurvey.Measure.Unit
import QuantitySurvey.Decimal.Reading

/-! # Dimension texts

Sizes such as `1200x600` or `2.4 × 1.2 × 0.3 m`: two or three positive numbers with `x`, `X` or
`×` between them, and a unit of length after the last one if it is not left out. Blanks do not
count, wherever they stand. -/

set_option autoImplicit false

namespace QuantitySurvey.Measure

/-- The sizes of a dimension text, and their unit if it is given. -/
structure Dimensions where
  sizes : List Float
  unit : Option Unit
deriving DecidableEq

namespace Dimensions

/-- A text without blanks, in lower case, with one kind of separator. -/
def compact (cs : List Char) : List Char :=
  (cs.filter (fun c => !Text.isBlank c)).map fun c => if c = '×' then 'x' else c.toLower

/-- One size: a positive finite number. -/
def size? (cs : List Char) : Option Float :=
  (Decimal.read? cs).filter fun x => x.isFinite && 0 < x

/-- The unit after the last size; no text is no unit. The text is refused unless it names a unit
of length. -/
def suffix? (cs : List Char) : Option (Option Unit) :=
  if cs.isEmpty then some none
  else match Unit.read? (String.ofList cs) with
    | some u => if u.family = .length then some (some u) else none
    | none => none

/-- The dimensions that a text stands for. The unit starts at the first ASCII letter of the
last part. -/
def read? (s : String) : Option Dimensions := do
  let parts := (compact s.toList).splitOn 'x'
  if parts.length < 2 || 3 < parts.length then none
  let last := parts.getLastD []
  let unit ← suffix? (last.dropWhile (fun c => !c.isAlpha))
  let sizes ← (parts.dropLast ++ [last.takeWhile (fun c => !c.isAlpha)]).mapM size?
  some ⟨sizes, unit⟩

end Dimensions

end QuantitySurvey.Measure
