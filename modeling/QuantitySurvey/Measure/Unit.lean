import QuantitySurvey.Failure
import QuantitySurvey.Text.Blank

/-! # Units of measurement

The units that quantities are measured in, in four families. A unit has one symbol, which is what
is written, and further spellings that are read: in any case, with blanks around. `read?_symbol`
says that a symbol reads as its unit. -/

set_option autoImplicit false

namespace QuantitySurvey.Measure

/-! ## Families -/

inductive Family where
  | length
  | area
  | volume
  | count
deriving DecidableEq, Repr

def Family.title : Family → String
  | length => "length"
  | area => "area"
  | volume => "volume"
  | count => "count"

/-! ## Units -/

inductive Unit where
  | millimetre | centimetre | metre | kilometre | inch | foot | yard
  | squareMillimetre | squareCentimetre | squareMetre | hectare | squareInch | squareFoot
  | squareYard
  | cubicMillimetre | cubicCentimetre | cubicMetre | litre | cubicInch | cubicFoot | cubicYard
  | number
deriving DecidableEq, Repr, Inhabited

namespace Unit

/-- Every unit, by family and system. -/
def all : List Unit :=
  [millimetre, centimetre, metre, kilometre, inch, foot, yard,
   squareMillimetre, squareCentimetre, squareMetre, hectare, squareInch, squareFoot, squareYard,
   cubicMillimetre, cubicCentimetre, cubicMetre, litre, cubicInch, cubicFoot, cubicYard, number]

theorem mem_all (u : Unit) : u ∈ all := by cases u <;> decide

/-- The short form used in formulas, documents and reports. -/
def symbol : Unit → String
  | millimetre => "mm"
  | centimetre => "cm"
  | metre => "m"
  | kilometre => "km"
  | inch => "in"
  | foot => "ft"
  | yard => "yd"
  | squareMillimetre => "mm2"
  | squareCentimetre => "cm2"
  | squareMetre => "m2"
  | hectare => "ha"
  | squareInch => "in2"
  | squareFoot => "ft2"
  | squareYard => "yd2"
  | cubicMillimetre => "mm3"
  | cubicCentimetre => "cm3"
  | cubicMetre => "m3"
  | litre => "l"
  | cubicInch => "in3"
  | cubicFoot => "ft3"
  | cubicYard => "yd3"
  | number => "nr"

def family : Unit → Family
  | millimetre | centimetre | metre | kilometre | inch | foot | yard => .length
  | squareMillimetre | squareCentimetre | squareMetre | hectare | squareInch | squareFoot
  | squareYard => .area
  | cubicMillimetre | cubicCentimetre | cubicMetre | litre | cubicInch | cubicFoot
  | cubicYard => .volume
  | number => .count

/-! ## Spellings -/

/-- The spellings besides the symbols, in lower case. -/
def otherSpellings : List (String × Unit) :=
  [("millimetre", millimetre), ("millimeter", millimetre), ("metre", metre), ("meter", metre),
   ("lm", metre), ("inch", inch), ("feet", foot), ("foot", foot),
   ("mm²", squareMillimetre), ("cm²", squareCentimetre), ("m²", squareMetre),
   ("sqm", squareMetre), ("sq m", squareMetre), ("in²", squareInch), ("ft²", squareFoot),
   ("sqft", squareFoot), ("sq ft", squareFoot), ("yd²", squareYard),
   ("mm³", cubicMillimetre), ("cm³", cubicCentimetre), ("m³", cubicMetre),
   ("cum", cubicMetre), ("cu m", cubicMetre), ("litre", litre), ("liter", litre),
   ("in³", cubicInch), ("ft³", cubicFoot), ("cu ft", cubicFoot), ("yd³", cubicYard),
   ("cu yd", cubicYard), ("no", number), ("each", number), ("item", number)]

def spellings : List (String × Unit) :=
  all.map (fun u => (u.symbol, u)) ++ otherSpellings

/-- The lower-case form of a character of a spelling. Besides the capital letters only the sign
for kelvin has a form that occurs in spellings. -/
def lowerCase (c : Char) : Char :=
  if c = '\u212a' then 'k' else c.toLower

def read? (s : String) : Option Unit :=
  let key := String.ofList ((Text.trim s.toList).map lowerCase)
  (spellings.find? (fun e => e.1 == key)).map Prod.snd

theorem read?_symbol (u : Unit) : read? u.symbol = some u := by
  cases u <;> decide +kernel

/-- The unit with a spelling, or the failure that names the text. -/
def parse (s : String) : Except Failure Unit :=
  match read? s with
  | some u => .ok u
  | none => .error (.unit s "?" "unknown unit")

end Unit

/-- The unit that the others of a family are measured against. -/
def Family.base : Family → Unit
  | length => .metre
  | area => .squareMetre
  | volume => .cubicMetre
  | count => .number

end QuantitySurvey.Measure
