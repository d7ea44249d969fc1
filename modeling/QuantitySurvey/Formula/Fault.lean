import QuantitySurvey.Failure
import QuantitySurvey.Text.Escaped
import QuantitySurvey.Formula.Function
import QuantitySurvey.Decimal.Written

/-! # Faults of formulas

The ways in which a formula fails, from the first look at its text to its evaluation. A fault
becomes a failure together with the expression that it is reported for. -/

set_option autoImplicit false

namespace QuantitySurvey.Formula

/-- What is wrong with a formula. Offsets count bytes from the start of the text. -/
inductive Fault where
  | tooLong (bytes limit : Nat)
  | forbiddenName (name : String)
  | invalidCharacter (c : Char) (offset : Nat)
  | unexpectedCharacter (c : Char) (offset : Nat)
  | invalidNumber (offset : Nat)
  | empty
  | unexpectedEnd
  | unexpectedToken (token : String) (offset : Nat)
  | notClosedBy (token : String) (offset : Nat)
  | unclosed (offset : Nat)
  | nestedTooDeep (levels : Nat)
  | tooManyOperators (limit : Nat)
  | unknownFunction (name : String) (offset : Nat)
  | wrongArity (function : Function) (given : Nat)
  | unitNameExpected
  | unitAsNumber
  | numberExpected (position : Nat) (given : Measure.Unit)
  | unitExpected (position : Nat) (given : Float)
  | unresolved
  | notNumeric (shown : String)
  | divisionByZero
  | negativeRoot
  | invalidPrecision
  | tooManySteps (limit : Nat)
deriving DecidableEq

namespace Fault

def arityReason (f : Function) (given : Nat) : String :=
  let name := f.name
  let least := f.minArity
  let most := f.maxArity
  if least = most then s!"{name} expects {least} argument(s), got {given}"
  else s!"{name} expects {least} to {most} arguments, got {given}"

def reason : Fault → String
  | tooLong bytes limit => s!"formula is {bytes} bytes, longer than the {limit} byte limit"
  | forbiddenName name => s!"forbidden identifier '{name}'"
  | invalidCharacter c offset =>
    let shown := Text.escaped c
    s!"invalid character '{shown}' at offset {offset}"
  | unexpectedCharacter c offset =>
    let shown := Text.escaped c
    s!"unexpected character '{shown}' at offset {offset}"
  | invalidNumber offset => s!"invalid number at offset {offset}"
  | empty => "formula is empty"
  | unexpectedEnd => "unexpected end of formula"
  | unexpectedToken token offset => s!"unexpected '{token}' at offset {offset}"
  | notClosedBy token offset => s!"expected ')' but found '{token}' at offset {offset}"
  | unclosed offset => s!"unclosed '(' at offset {offset}"
  | nestedTooDeep levels => s!"nesting deeper than {levels} levels"
  | tooManyOperators limit => s!"more than {limit} operators"
  | unknownFunction name offset => s!"'{name}' is not an allowed function (offset {offset})"
  | wrongArity f given => arityReason f given
  | unitNameExpected => "expected a unit name such as mm, m2 or m3"
  | unitAsNumber => "a unit name cannot be used as a number"
  | numberExpected position given =>
    let symbol := given.symbol
    s!"argument {position} must be a number, got unit '{symbol}'"
  | unitExpected position given =>
    let value := Decimal.text given
    s!"argument {position} must be a unit, got {value}"
  | unresolved => "unresolved identifier"
  | notNumeric shown => s!"parameter has no numeric value (got {shown})"
  | divisionByZero => "division by zero"
  | negativeRoot => "square root of a negative number"
  | invalidPrecision => "precision must be a whole number between -12 and 12"
  | tooManySteps limit => s!"evaluation exceeded {limit} trace steps"

/-- The failure that reports a fault of an expression. -/
def of (expression : String) (fault : Fault) : Failure :=
  .formula expression fault.reason

end Fault

end QuantitySurvey.Formula
