import QuantitySurvey.Text.Blank
import QuantitySurvey.Decimal.Reading
import QuantitySurvey.Decimal.Written
import QuantitySurvey.SortedMap

/-! # Parameter values

A parameter is a number or a text as it was collected. A text that spells a finite number counts
as that number where one is needed. -/

set_option autoImplicit false

namespace QuantitySurvey.Parameter

inductive Value where
  | number (x : Float)
  | text (s : String)
deriving DecidableEq, Repr

namespace Value

/-- The numeric reading of a value. -/
def asNumber? : Value → Option Float
  | number x => some x
  | text s => (Decimal.read? (Text.trim s.toList)).filter Float.isFinite

def text? : Value → Option String
  | number _ => none
  | text s => some s

/-- A value as it is echoed in messages. -/
def echo : Value → String
  | number x => Decimal.text x
  | text s => s

/-- A value with quotes around it if it is a text. -/
def shown : Value → String
  | number x => Decimal.text x
  | text s => s!"\"{s}\""

@[simp] theorem asNumber?_number (x : Float) : (number x).asNumber? = some x := rfl

/-- The numeric reading of a text is finite. -/
theorem isFinite_of_asNumber?_text {s : String} {x : Float}
    (h : (text s).asNumber? = some x) : x.isFinite = true := by
  simp only [asNumber?, Option.filter_eq_some_iff] at h
  exact h.2

end Value

end QuantitySurvey.Parameter

namespace QuantitySurvey

abbrev Parameters := SortedMap String Parameter.Value

end QuantitySurvey
