import QuantitySurvey.Calculation.Engine
import QuantitySurvey.Document.Audit

/-! # What commands print

The texts that commands print about evaluations, quantities, reports and records. -/

set_option autoImplicit false

namespace QuantitySurvey.Command

def padded (width : Nat) (s : String) : String :=
  s ++ String.ofList (List.replicate (width - s.length) ' ')

def indentedTo (width : Nat) (s : String) : String :=
  String.ofList (List.replicate (width - s.length) ' ') ++ s

def asLines (texts : List String) : String :=
  "".intercalate (texts.map (· ++ "\n"))

/-! ## Evaluations and conversions -/

/-- The steps of a trace, numbered from a number on. -/
def numbered : Nat → List Formula.Step → List String
  | _, [] => []
  | n, s :: rest => (indentedTo 3 (toString n) ++ ". " ++ s.text) :: numbered (n + 1) rest

def evaluationText (v : Formula.Evaluation) : String :=
  asLines (numbered 1 v.steps ++ ["= " ++ Decimal.text v.value])

def conversionText (value converted : Float) (source target : String) : String :=
  asLines [Decimal.text value ++ " " ++ source ++ " = " ++ Decimal.text converted ++ " " ++ target]

/-! ## Quantities and records -/

def quantityText (element assembly : String) (q : Quantity) : String :=
  asLines ((element ++ ": " ++ assembly ++ " = " ++ q.text)
    :: q.warnings.map fun w => "  warning: " ++ w.text)

/-- The code of an assembly, or nothing if the catalog has none with the identifier. -/
def codeOf (catalog : Catalog) (id : Identifier) : String :=
  ((catalog.get? id).map Assembly.code).getD ""

def reportText (element : String) (catalog : Catalog) (r : Calculation.Report) : String :=
  asLines (
    r.created.map (fun q => "  ok     " ++ padded 10 (codeOf catalog q.assemblyId) ++ " " ++ q.text)
    ++ r.failures.map (fun f => "  failed " ++ padded 10 f.assemblyCode ++ " " ++ f.error.message)
    ++ [element ++ ": " ++ toString r.created.length ++ " created, "
      ++ toString r.failures.length ++ " failed"])

def recordsText (records : List Audit.Record) : String :=
  if records.isEmpty then "No audit records\n" else asLines (records.map Audit.Record.text)

end QuantitySurvey.Command
