import QuantitySurvey.Audit.Actor
import QuantitySurvey.Formula

/-! # Settings

The settings of the calculation engine: the version it reports, who calculates unless someone is
named, the limits on formulas, and the form of the program's own messages. -/

set_option autoImplicit false

namespace QuantitySurvey

inductive LogFormat where
  | pretty
  | json
deriving DecidableEq, Repr

structure Settings where
  /-- Stamped on every result and record. -/
  engineVersion : String := "0.1.0"
  /-- Who calculates unless someone is named. -/
  defaultActor : String := "system"
  maxFormulaLength : Nat := 2000
  maxTraceSteps : Nat := 10000
  logFormat : LogFormat := .pretty
deriving DecidableEq, Repr

namespace Settings

/-- The greatest formula length that may be set, in bytes. -/
def formulaLengthCap : Nat := 100000

def actor (s : Settings) : Except Failure Actor :=
  Actor.parse s.defaultActor

def limits (s : Settings) : Formula.Limits where
  maxLength := s.maxFormulaLength
  maxSteps := s.maxTraceSteps

/-- Refuses settings that the engine cannot work with. -/
def validate (s : Settings) : Except Failure Unit :=
  if Text.allBlank s.engineVersion then
    .error (.internal "invalid configuration: engine_version is empty")
  else if s.maxFormulaLength = 0 || formulaLengthCap < s.maxFormulaLength then
    .error (.internal
      s!"invalid configuration: max_formula_length must be between 1 and {formulaLengthCap}")
  else if s.maxTraceSteps = 0 then
    .error (.internal "invalid configuration: max_trace_steps must be > 0")
  else s.actor.map fun _ => ()

/-! ## Overrides -/

def versionVariable : String := "TAKEOFF_ENGINE_VERSION"

def lengthVariable : String := "TAKEOFF_MAX_FORMULA_LENGTH"

/-- A whole number in the range of 64-bit words, with blanks around and a plus sign at most. -/
def count? (s : String) : Option Nat :=
  let cs := Text.trim s.toList
  let ds := if cs.head? = some '+' then cs.drop 1 else cs
  if ds.isEmpty || !ds.all Char.isDigit then none
  else (some (Decimal.natural ds)).filter (· < UInt64.size)

/-- The settings after the overrides of an environment. -/
def overridden (s : Settings) (valueOf : String → Option String) : Except Failure Settings :=
  let s := match valueOf versionVariable with
    | some version => { s with engineVersion := version }
    | none => s
  match valueOf lengthVariable with
  | none => .ok s
  | some text =>
    match count? text with
    | some n => .ok { s with maxFormulaLength := n }
    | none => .error (.internal
        s!"{lengthVariable} must be a whole number, got '{text}'")

end Settings

end QuantitySurvey
