import QuantitySurvey.Settings
import QuantitySurvey.Toml.Reading

/-! # Settings as TOML

Settings are the entries of a table. Entries that are not given keep their defaults, and entries
with other names do not count. -/

set_option autoImplicit false

namespace QuantitySurvey.Settings

open Toml (Entries Value)

/-! ## Entries -/

def string? : Value → Option String
  | .string s => some s
  | _ => none

def natural? : Value → Option Nat
  | .integer n => if 0 ≤ n then some n.toNat else none
  | _ => none

def logFormatNamed? (name : String) : Option LogFormat :=
  if name = "pretty" then some .pretty
  else if name = "json" then some .json
  else none

/-- A name may also be the only key of a table, with nothing in it. -/
def logFormat? : Value → Option LogFormat
  | .string s => logFormatNamed? s
  | .inlineTable [(k, v)] => if isNothing v then logFormatNamed? k else none
  | .table _ _ [(k, v)] => if isNothing v then logFormatNamed? k else none
  | _ => none
where
  isNothing : Value → Bool
    | .inlineTable es => es.isEmpty
    | .table _ _ es => es.isEmpty
    | .array vs => vs.isEmpty
    | .tables vs => vs.isEmpty
    | _ => false

/-- The value of an entry, or its default. -/
def entry? {α : Type} (entries : Entries) (key : String) (read : Value → Option α)
    (default : α) : Option α :=
  match entries.get? key with
  | none => some default
  | some v => read v

/-! ## Documents -/

def ofToml? (s : String) : Option Settings := do
  let entries ← Toml.read? s
  let d : Settings := {}
  return {
    engineVersion := ← entry? entries "engine_version" string? d.engineVersion
    defaultActor := ← entry? entries "default_actor" string? d.defaultActor
    maxFormulaLength := ← entry? entries "max_formula_length" natural? d.maxFormulaLength
    maxTraceSteps := ← entry? entries "max_trace_steps" natural? d.maxTraceSteps
    logFormat := ← entry? entries "log_format" logFormat? d.logFormat }

def defaultToml : String :=
  let d : Settings := {}
  "engine_version = \"" ++ d.engineVersion ++ "\"\ndefault_actor = \"" ++ d.defaultActor
    ++ "\"\nmax_formula_length = " ++ toString d.maxFormulaLength
    ++ "\nmax_trace_steps = " ++ toString d.maxTraceSteps ++ "\nlog_format = \"pretty\"\n"

example : ofToml? defaultToml = some {} := by decide +kernel
example : ofToml? "default_actor = 'ai:x'\n[other]\nmax_trace_steps = 1"
    = some { defaultActor := "ai:x" } := by decide +kernel
example : ofToml? "max_trace_steps = -1" = none := by decide +kernel

end QuantitySurvey.Settings
