import QuantitySurvey.Formula.Function
import QuantitySurvey.Decimal.Written

/-! # The function reference

The page that documents what formulas may use: functions, constants and units, each taken from
the definitions that evaluation uses. -/

set_option autoImplicit false

namespace QuantitySurvey.Formula

def functionRow (f : Function) : String :=
  "| `" ++ f.signature ++ "` | " ++ f.description ++ " |\n"

def constantRow (name : String) (value : Float) : String :=
  "| `" ++ name ++ "` | " ++ Decimal.text value ++ " |\n"

def unitItem (u : Measure.Unit) : String :=
  "- `" ++ u.symbol ++ "` (" ++ u.family.title ++ ")\n"

/-- The reference as a Markdown page. -/
def reference : String :=
  "# Formula Function Reference\n\n"
    ++ "<!-- Generated by `cargo run --bin gen-functions`. Do not edit by hand. -->\n\n"
    ++ "Assembly formulas may use `+ - * /`, parentheses, parameters, and the items below. "
    ++ "Nothing else is callable.\n\n"
    ++ "## Functions\n\n"
    ++ "| Signature | Description |\n"
    ++ "|-----------|-------------|\n"
    ++ "".intercalate (Function.all.map functionRow)
    ++ "\n## Constants\n\n"
    ++ "| Name | Value |\n"
    ++ "|------|-------|\n"
    ++ "".intercalate (constants.map fun (name, value) => constantRow name value)
    ++ "\n## Units\n\n"
    ++ "Conversion helpers accept these unit names as their second argument:\n\n"
    ++ "".intercalate (Measure.Unit.all.map unitItem)

end QuantitySurvey.Formula
