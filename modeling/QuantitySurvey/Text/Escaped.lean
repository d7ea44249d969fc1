/-! # Escaped characters

How a single character is shown inside a message: printable ASCII as itself, all else as an
escape. -/

set_option autoImplicit false

namespace QuantitySurvey.Text

/-- A character as it is shown in messages. -/
def escaped (c : Char) : String :=
  if c = '\t' then "\\t"
  else if c = '\r' then "\\r"
  else if c = '\n' then "\\n"
  else if c = '\'' then "\\'"
  else if c = '"' then "\\\""
  else if c = '\\' then "\\\\"
  else if ' ' ≤ c && c ≤ '~' then c.toString
  else String.ofList ('\\' :: 'u' :: '\x7b' :: Nat.toDigits 16 c.toNat ++ ['\x7d'])

/-- The first characters of a text, with dots if there are more. -/
def shortened (most : Nat) (s : String) : String :=
  let cs := s.toList
  if cs.length ≤ most then s else String.ofList (cs.take most ++ "...".toList)

end QuantitySurvey.Text
