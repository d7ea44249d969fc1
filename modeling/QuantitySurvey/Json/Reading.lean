import QuantitySurvey.Json.Number
import QuantitySurvey.Text.Bytes
import QuantitySurvey.Text.Hex

/-! # Reading JSON

The reader follows the grammar of JSON to the letter: no comments, no trailing commas, no leading
zeros, no control characters in strings. What is well formed but stands for no value becomes
`Json.unreadable`. Every parser takes the remaining characters and gives back those after its
value. -/

set_option autoImplicit false

namespace QuantitySurvey.Json

namespace Reader

def maxDepth : Nat := 127

/-- Space, line feed, carriage return and tab. -/
def isSpace (c : Char) : Bool :=
  c == ' ' || c == '\n' || c == '\r' || c == '\t'

def skipSpace (cs : List Char) : List Char :=
  cs.dropWhile isSpace

/-! ## Strings -/

def hexUnit? (cs : List Char) : Option (Nat × List Char) :=
  if (cs.take 4).length < 4 then none else (Text.hexNumber? (cs.take 4)).map fun n => (n, cs.drop 4)

def escape? (c : Char) : Option Char :=
  if c = '"' || c = '\\' || c = '/' then some c
  else if c = 'b' then some '\x08'
  else if c = 'f' then some '\x0c'
  else if c = 'n' then some '\n'
  else if c = 'r' then some '\r'
  else if c = 't' then some '\t'
  else none

/-- The second half of a surrogate pair, written as an escape. -/
def lowHalf? : List Char → Option (Nat × List Char)
  | '\\' :: 'u' :: rest => (hexUnit? rest).filter fun (n, _) => 0xDC00 ≤ n && n ≤ 0xDFFF
  | _ => none

/-- The characters up to the closing quote. A half of a surrogate pair without the other one
leaves no text. -/
def stringFrom : Nat → List Char → Option (List Char) → Option (Option String × List Char)
  | 0, _, _ => none
  | _ + 1, [], _ => none
  | steps + 1, c :: cs, found =>
    if c = '"' then some (found.map fun f => String.ofList f.reverse, cs)
    else if c < ' ' then none
    else if c ≠ '\\' then stringFrom steps cs (found.map (c :: ·))
    else match cs with
      | [] => none
      | e :: rest =>
        if e ≠ 'u' then
          match escape? e with
          | some d => stringFrom steps rest (found.map (d :: ·))
          | none => none
        else match hexUnit? rest with
          | none => none
          | some (n, rest) =>
            if n < 0xD800 || 0xDFFF < n then
              stringFrom steps rest (found.map (Char.ofNat n :: ·))
            else match (if n ≤ 0xDBFF then lowHalf? rest else none) with
              | some (m, rest) =>
                let c := Char.ofNat (0x10000 + (n - 0xD800) * 0x400 + (m - 0xDC00))
                stringFrom steps rest (found.map (c :: ·))
              | none => stringFrom steps rest none

def string? (cs : List Char) : Option (Option String × List Char) :=
  stringFrom (cs.length + 1) cs (some [])

/-! ## Numbers -/

def digits? (cs : List Char) : Option (List Char × List Char) :=
  let ds := cs.takeWhile Char.isDigit
  if ds.isEmpty then none else some (ds, cs.dropWhile Char.isDigit)

/-- Digits without a leading zero. -/
def whole? (cs : List Char) : Option (List Char × List Char) :=
  (digits? cs).filter fun (ds, _) => ds.head? != some '0' || ds.length == 1

def fraction? (cs : List Char) : Option (Option (List Char) × List Char) :=
  match cs with
  | '.' :: rest => (digits? rest).map fun (ds, rest) => (some ds, rest)
  | cs => some (none, cs)

def exponent? (cs : List Char) : Option (Option (Bool × List Char) × List Char) :=
  match cs with
  | [] => some (none, [])
  | e :: rest =>
    if e = 'e' || e = 'E' then
      let (isNegative, rest) := Decimal.signed rest
      (digits? rest).map fun (ds, rest) => (some (isNegative, ds), rest)
    else some (none, e :: rest)

def number? (cs : List Char) : Option (Json × List Char) := do
  let isNegative := cs.head? == some '-'
  let (whole, cs) ← whole? (if isNegative then cs.drop 1 else cs)
  let (fraction, cs) ← fraction? cs
  let (exponent, cs) ← exponent? cs
  return (Numeral.value ⟨isNegative, whole, fraction, exponent⟩, cs)

/-! ## Values -/

/-- A word at the start of a text. -/
def word? (word : String) (j : Json) (cs : List Char) : Option (Json × List Char) :=
  let w := word.toList
  if cs.take w.length = w then some (j, cs.drop w.length) else none

def nested (depth : Nat) (j : Json) : Json :=
  if depth ≤ maxDepth then j else .unreadable

/-- An object, if all its keys are texts. -/
def objectOf (members : List (Option String × Json)) : Json :=
  match members.mapM fun (k, j) => k.map fun k => (k, j) with
  | some members => .object members
  | none => .unreadable

mutual

/-- A value inside a number of containers. -/
def value? : Nat → Nat → List Char → Option (Json × List Char)
  | 0, _, _ => none
  | steps + 1, depth, cs =>
    match skipSpace cs with
    | [] => none
    | '"' :: rest =>
      (string? rest).map fun (s, rest) => (s.elim .unreadable .string, rest)
    | '[' :: rest =>
      match skipSpace rest with
      | ']' :: rest => some (nested (depth + 1) (.array []), rest)
      | rest => elements? steps (depth + 1) rest []
    | '\x7b' :: rest =>
      match skipSpace rest with
      | '\x7d' :: rest => some (nested (depth + 1) (.object []), rest)
      | rest => members? steps (depth + 1) rest []
    | 'n' :: rest => word? "ull" .null rest
    | 't' :: rest => word? "rue" (.boolean true) rest
    | 'f' :: rest => word? "alse" (.boolean false) rest
    | cs => number? cs

def elements? : Nat → Nat → List Char → List Json → Option (Json × List Char)
  | 0, _, _, _ => none
  | steps + 1, depth, cs, found =>
    match value? steps depth cs with
    | none => none
    | some (j, rest) =>
      match skipSpace rest with
      | ',' :: rest => elements? steps depth rest (j :: found)
      | ']' :: rest => some (nested depth (.array (j :: found).reverse), rest)
      | _ => none

def members? : Nat → Nat → List Char → List (Option String × Json) → Option (Json × List Char)
  | 0, _, _, _ => none
  | steps + 1, depth, cs, found =>
    match skipSpace cs with
    | '"' :: rest =>
      match string? rest with
      | none => none
      | some (key, rest) =>
        match skipSpace rest with
        | ':' :: rest =>
          match value? steps depth rest with
          | none => none
          | some (j, rest) =>
            match skipSpace rest with
            | ',' :: rest => members? steps depth rest ((key, j) :: found)
            | '\x7d' :: rest =>
              some (nested depth (objectOf ((key, j) :: found).reverse), rest)
            | _ => none
        | _ => none
    | _ => none

end

end Reader

open Reader in
/-- The value of a text that holds nothing else. -/
def read? (s : String) : Option Json :=
  let cs := s.toList
  match value? (2 * cs.length + 2) 0 cs with
  | some (j, rest) => if (skipSpace rest).isEmpty then some j else none
  | none => none

/-- The value of bytes, of which only the strings that are asked for need to be texts. In the place
of bytes that stand for nothing the reader gets half of a surrogate pair, so that it can skip them
in a string and nowhere else, and not after the start of an escape. -/
def readBytes? (bs : List UInt8) : Option Json := read? (Text.ofBytesOr "?\\udc00" bs)

theorem readBytes?_of_ofBytes? {bs : List UInt8} {s : String} (h : Text.ofBytes? bs = some s) :
    readBytes? bs = read? s := by
  rw [readBytes?, Text.ofBytesOr_of_ofBytes? h]

end QuantitySurvey.Json
