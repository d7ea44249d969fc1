/-! # Failures

Everything that can go wrong, as a value with what is needed to report it. A failure is part of
audit records and stored documents, so it carries texts and not the objects they describe.
`Failure.message` is the wording, `Failure.code` the short name for programs and `Failure.kind`
the branch of the taxonomy. -/

set_option autoImplicit false

namespace QuantitySurvey

inductive Failure where
  /-- The element, the assembly or the formula itself is absent. -/
  | missingInput (field : String)
  /-- Required parameters are not supplied. -/
  | missingParameters (names : List String)
  /-- A supplied value breaks the declared type, bounds or rule. -/
  | invalidParameter (parameter value reason : String)
  | formula (expression reason : String)
  | unit (source target reason : String)
  /-- A value was found that is no usable quantity. -/
  | calculation (reason : String)
  | file (operation path reason : String)
  /-- Someone else holds the lock of a project. -/
  | locked (path holder since : String)
  /-- A text is not the document it should be. -/
  | document (reason : String)
  /-- A project was written for another version. -/
  | version (found expected : String)
  | internal (message : String)
deriving DecidableEq, Repr, Inhabited

namespace Failure

/-! ## Taxonomy -/

/-- The branches of the taxonomy. All but the last arise within calculations. -/
inductive Kind where
  | parameter
  | formula
  | unit
  | calculation
  | storage
deriving DecidableEq, Repr

/-- The name of a branch in reports. -/
def Kind.title : Kind → String
  | parameter => "ParameterError"
  | formula => "FormulaError"
  | unit => "UnitError"
  | calculation => "CalculationError"
  | storage => "StorageError"

def kind : Failure → Kind
  | missingInput _ | missingParameters _ | invalidParameter _ _ _ => .parameter
  | formula _ _ => .formula
  | unit _ _ _ => .unit
  | calculation _ => .calculation
  | file _ _ _ | locked _ _ _ | document _ | version _ _ | internal _ => .storage

/-- Only a lock goes away by itself; calculations fail again in the same way. -/
def isRecoverable : Failure → Bool
  | locked _ _ _ => true
  | _ => false

/-! ## Wording -/

def code : Failure → String
  | missingInput _ => "MISSING_INPUT"
  | missingParameters _ => "MISSING_PARAMETERS"
  | invalidParameter _ _ _ => "INVALID_PARAMETER"
  | formula _ _ => "FORMULA_ERROR"
  | unit _ _ _ => "UNIT_ERROR"
  | calculation _ => "CALCULATION_ERROR"
  | file _ _ _ => "FILE_ERROR"
  | locked _ _ _ => "FILE_LOCKED"
  | document _ => "SERIALIZATION_ERROR"
  | version _ _ => "VERSION_MISMATCH"
  | internal _ => "INTERNAL_ERROR"

def message : Failure → String
  | missingInput field => s!"Missing required input: {field}"
  | missingParameters names => "Missing required parameters: " ++ ", ".intercalate names
  | invalidParameter parameter value reason =>
    s!"Invalid parameter '{parameter}': {value} - {reason}"
  | formula expression reason => s!"Formula error in '{expression}': {reason}"
  | unit source target reason =>
    s!"Unit error: cannot convert '{source}' to '{target}' - {reason}"
  | calculation reason => s!"Calculation failed: {reason}"
  | file operation path reason => s!"File error: {operation} on '{path}' - {reason}"
  | locked path holder since => s!"File locked: '{path}' is locked by {holder} since {since}"
  | document reason => s!"Serialization error: {reason}"
  | version found expected =>
    s!"Version mismatch: file version {found}, expected {expected}"
  | internal message => s!"Internal error: {message}"

end Failure

/-! ## Steps that may fail -/

theorem bind_eq_ok {ε α β : Type} {x : Except ε α} {f : α → Except ε β} {b : β} :
    (x >>= f) = .ok b ↔ ∃ a, x = .ok a ∧ f a = .ok b := by
  cases x with
  | error e => simp [bind, Except.bind]
  | ok a => simp [bind, Except.bind]

theorem toOption_eq_some {ε α : Type} {x : Except ε α} {a : α} :
    x.toOption = some a ↔ x = .ok a := by
  cases x with
  | error e => simp [Except.toOption]
  | ok b => simp [Except.toOption]

/-- A computation whose value passes a test has a value. -/
theorem exists_ok_of_any {ε α : Type} {x : Except ε α} {p : α → Bool}
    (h : x.toOption.any p = true) : ∃ a, x = .ok a ∧ p a = true := by
  cases x with
  | error e => cases h
  | ok a => exact ⟨a, rfl, h⟩

end QuantitySurvey
