import QuantitySurvey.Formula.Fault
import QuantitySurvey.Text.Blank
import QuantitySurvey.Decimal.Reading

/-! # Tokens

A formula is cut into numbers, names and symbols, with ASCII blanks between them. A name is a
longest run of letters, digits and underscores that does not start with a digit. A number is a
longest run of digits and points, with an exponent exactly when digits follow the `e`. -/

set_option autoImplicit false

namespace QuantitySurvey.Formula

/-! ## Characters -/

/-- A character that may start a name: an ASCII letter or the underscore. -/
def isNameStart (c : Char) : Bool :=
  c.isAlpha || c == '_'

def isNameChar (c : Char) : Bool :=
  c.isAlphanum || c == '_'

/-- A character that a number starts and goes on with. -/
def isNumberChar (c : Char) : Bool :=
  c.isDigit || c == '.'

/-! ## Tokens -/

inductive Token where
  | number (x : Float)
  | name (s : String)
  | plus | minus | star | slash | leftParen | rightParen | comma
deriving DecidableEq

namespace Token

def text : Token → String
  | number x => Decimal.text x
  | name s => s
  | plus => "+"
  | minus => "-"
  | star => "*"
  | slash => "/"
  | leftParen => "("
  | rightParen => ")"
  | comma => ","

def ofSymbol? (c : Char) : Option Token :=
  if c = '+' then some plus
  else if c = '-' then some minus
  else if c = '*' then some star
  else if c = '/' then some slash
  else if c = '(' then some leftParen
  else if c = ')' then some rightParen
  else if c = ',' then some comma
  else none

end Token

/-- A token and the place where it starts, in bytes. -/
structure Located where
  token : Token
  offset : Nat
deriving DecidableEq

/-! ## Runs -/

/-- The length of the sign at the start of a text. -/
def signLength (cs : List Char) : Nat :=
  if cs.head? = some '+' || cs.head? = some '-' then 1 else 0

/-- The exponent at the start of a text, and what follows it. An `e` without digits is none. -/
def splitExponent : List Char → List Char × List Char
  | [] => ([], [])
  | e :: cs =>
    let ds := (cs.drop (signLength cs)).takeWhile Char.isDigit
    if (e = 'e' || e = 'E') && !ds.isEmpty then
      (e :: cs.take (signLength cs) ++ ds, (cs.drop (signLength cs)).dropWhile Char.isDigit)
    else ([], e :: cs)

def splitNumber (cs : List Char) : List Char × List Char :=
  let (exponent, rest) := splitExponent (cs.dropWhile isNumberChar)
  (cs.takeWhile isNumberChar ++ exponent, rest)

theorem splitExponent_append (cs : List Char) :
    (splitExponent cs).1 ++ (splitExponent cs).2 = cs := by
  cases cs with
  | nil => rfl
  | cons e cs =>
    simp only [splitExponent]
    generalize signLength cs = k
    split <;> simp

/-- Cutting off a number loses nothing. -/
theorem splitNumber_append (cs : List Char) : (splitNumber cs).1 ++ (splitNumber cs).2 = cs := by
  simp [splitNumber, List.append_assoc, splitExponent_append, List.takeWhile_append_dropWhile]

/-! ## Scanning -/

/-- Scans a text from an offset on. Every step takes at least one character, so as many steps as
there are characters are enough. -/
def scan (source : String) : Nat → Nat → List Char → List Located → Except Failure (List Located)
  | 0, _, _, found => .ok found.reverse
  | _ + 1, _, [], found => .ok found.reverse
  | steps + 1, offset, c :: cs, found =>
    match Token.ofSymbol? c with
    | some t => scan source steps (offset + 1) cs (⟨t, offset⟩ :: found)
    | none =>
      if Text.isAsciiBlank c then scan source steps (offset + 1) cs found
      else if isNumberChar c then
        let (run, rest) := splitNumber (c :: cs)
        match Decimal.read? run with
        | some x => scan source steps (offset + run.length) rest (⟨.number x, offset⟩ :: found)
        | none => .error ((Fault.invalidNumber offset).of (String.ofList run))
      else if isNameStart c then
        let run := (c :: cs).takeWhile isNameChar
        scan source steps (offset + run.length) ((c :: cs).dropWhile isNameChar)
          (⟨.name (String.ofList run), offset⟩ :: found)
      else .error ((Fault.unexpectedCharacter c offset).of source)

def tokenize (source : String) : Except Failure (List Located) :=
  scan source source.toList.length 0 source.toList []

end QuantitySurvey.Formula
