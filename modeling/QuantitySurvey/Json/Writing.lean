import QuantitySurvey.Json.Value
import QuantitySurvey.Decimal.Written
import QuantitySurvey.Text.Hex

/-! # Writing JSON

The compact form has no blanks; the indented form has a line for each element and member, two
spaces for each level, and nothing inside empty containers. A number that is not finite is
written as `null`. -/

set_option autoImplicit false

namespace QuantitySurvey.Json

/-! ## Leaves -/

def escapedChar (c : Char) : List Char :=
  if c = '"' then ['\\', '"']
  else if c = '\\' then ['\\', '\\']
  else if c = '\x08' then ['\\', 'b']
  else if c = '\x0c' then ['\\', 'f']
  else if c = '\n' then ['\\', 'n']
  else if c = '\r' then ['\\', 'r']
  else if c = '\t' then ['\\', 't']
  else if c < ' ' then '\\' :: 'u' :: Text.hexDigits 4 c.toNat
  else [c]

def quoted (s : String) : List Char :=
  '"' :: s.toList.flatMap escapedChar ++ ['"']

def writtenInteger (n : Int) : List Char :=
  if n < 0 then '-' :: Decimal.digits n.natAbs else Decimal.digits n.natAbs

def writtenNumber (x : Float) : List Char :=
  if x.isFinite then Decimal.document.finite x else "null".toList

/-! ## Compact form -/

mutual

def compact : Json → List Char
  | null | unreadable => "null".toList
  | boolean b => if b then "true".toList else "false".toList
  | integer n => writtenInteger n
  | number x => writtenNumber x
  | string s => quoted s
  | array [] => ['[', ']']
  | array (j :: rest) => '[' :: compact j ++ compactElements rest
  | object [] => ['\x7b', '\x7d']
  | object ((k, j) :: rest) =>
    '\x7b' :: quoted k ++ ':' :: compact j ++ compactMembers rest

def compactElements : List Json → List Char
  | [] => [']']
  | j :: rest => ',' :: compact j ++ compactElements rest

def compactMembers : List (String × Json) → List Char
  | [] => ['\x7d']
  | (k, j) :: rest => ',' :: quoted k ++ ':' :: compact j ++ compactMembers rest

end

/-! ## Indented form -/

def newLine (level : Nat) : List Char :=
  '\n' :: List.replicate (2 * level) ' '

mutual

def indented (level : Nat) : Json → List Char
  | null | unreadable => "null".toList
  | boolean b => if b then "true".toList else "false".toList
  | integer n => writtenInteger n
  | number x => writtenNumber x
  | string s => quoted s
  | array [] => ['[', ']']
  | array (j :: rest) =>
    '[' :: newLine (level + 1) ++ indented (level + 1) j ++ indentedElements level rest
  | object [] => ['\x7b', '\x7d']
  | object ((k, j) :: rest) =>
    '\x7b' :: newLine (level + 1) ++ quoted k ++ ':' :: ' ' :: indented (level + 1) j
      ++ indentedMembers level rest

def indentedElements (level : Nat) : List Json → List Char
  | [] => newLine level ++ [']']
  | j :: rest =>
    ',' :: newLine (level + 1) ++ indented (level + 1) j ++ indentedElements level rest

def indentedMembers (level : Nat) : List (String × Json) → List Char
  | [] => newLine level ++ ['\x7d']
  | (k, j) :: rest =>
    ',' :: newLine (level + 1) ++ quoted k ++ ':' :: ' ' :: indented (level + 1) j
      ++ indentedMembers level rest

end

/-- A value on one line. -/
def text (j : Json) : String := String.ofList j.compact

/-- A value on indented lines. -/
def page (j : Json) : String := String.ofList (j.indented 0)

end QuantitySurvey.Json
