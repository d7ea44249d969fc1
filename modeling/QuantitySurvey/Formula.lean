import QuantitySurvey.Formula.Evaluation
import QuantitySurvey.Formula.Grammar
import QuantitySurvey.Formula.Screen

/-! # Formulas

A formula is read once and evaluated any number of times. `Formula.parse` screens the text,
cuts it into tokens and builds the expression; `Formula.evaluate` computes value and trace from
bindings. Both are functions of their arguments alone. -/

set_option autoImplicit false

namespace QuantitySurvey

namespace Formula

structure Limits where
  /-- The longest text accepted, in bytes. -/
  maxLength : Nat := 2000
  /-- The longest trace of one evaluation. -/
  maxSteps : Nat := 10000
deriving DecidableEq, Repr

structure Evaluation where
  value : Float
  steps : List Step
deriving DecidableEq

end Formula

structure Formula where
  source : String
  expr : Formula.Expr

namespace Formula

/-- Reads a formula: length, words, characters, tokens and grammar, in this order. -/
def parse (limits : Limits) (source : String) : Except Failure Formula := do
  let bytes := source.utf8ByteSize
  if limits.maxLength < bytes then
    throw ((Fault.tooLong bytes limits.maxLength).of (Text.shortened 40 source))
  checkWords source
  checkCharacters source
  return ⟨source, ← parseTokens source (← tokenize source)⟩

/-- The value of a formula and its trace. -/
def evaluate (formula : Formula) (limits : Limits) (b : Parameter.Bindings) :
    Except Failure Evaluation :=
  match formula.expr.run b limits.maxSteps with
  | (.ok value, steps) => .ok ⟨value, steps⟩
  | (.error e, _) => .error e

end Formula

end QuantitySurvey
