/-! # JSON values

The values that documents are made of. Members of an object keep their order and may repeat a
key; what reads the object decides what that means. Whole numbers stay apart from fractions,
because counters are read from whole numbers only. -/

set_option autoImplicit false

namespace QuantitySurvey

inductive Json where
  | null
  | boolean (b : Bool)
  /-- A number without fraction and exponent, in the range of 64-bit words. -/
  | integer (n : Int)
  /-- Any other number. -/
  | number (x : Float)
  | string (s : String)
  | array (elements : List Json)
  | object (members : List (String × Json))
  /-- A well-formed text that no value can be read from: half of a surrogate pair, a number
  beyond the doubles, or a container too deep inside others. It can be skipped. -/
  | unreadable

namespace Json

instance : Inhabited Json := ⟨null⟩

mutual

/-- Whether nothing in a value is unreadable. -/
def isReadable : Json → Bool
  | array elements => areReadable elements
  | object members => membersReadable members
  | unreadable => false
  | _ => true

def areReadable : List Json → Bool
  | [] => true
  | j :: rest => j.isReadable && areReadable rest

def membersReadable : List (String × Json) → Bool
  | [] => true
  | (_, j) :: rest => j.isReadable && membersReadable rest

end

mutual

/-- The number of containers around the innermost value. -/
def height : Json → Nat
  | array elements => heightOf elements + 1
  | object members => membersHeight members + 1
  | _ => 0

def heightOf : List Json → Nat
  | [] => 0
  | j :: rest => max j.height (heightOf rest)

def membersHeight : List (String × Json) → Nat
  | [] => 0
  | (_, j) :: rest => max j.height (membersHeight rest)

end

end Json

end QuantitySurvey
