import QuantitySurvey.Formula.Application
import QuantitySurvey.Formula.Expr
import QuantitySurvey.Formula.Step
import QuantitySurvey.Parameter.Bindings

/-! # Evaluation

An expression is evaluated from the leaves up, operands and arguments from left to right. Each
name looked up and each function applied adds a step to the trace, which has a greatest length.
The trace is kept when the evaluation fails. -/

set_option autoImplicit false

namespace QuantitySurvey.Formula

/-- A computation that extends a trace and may fail. -/
abbrev Traced := ExceptT Failure (StateM (Array Step))

/-- Adds a step, if the trace has room for it. -/
def record (maxSteps : Nat) (s : Step) : Traced Unit := do
  if maxSteps ≤ (← get).size then
    throw ((Fault.tooManySteps maxSteps).of s.expression)
  modify (·.push s)

/-- The number that a name stands for: a parameter, else a constant. -/
def resolve (b : Parameter.Bindings) (maxSteps : Nat) (name : String) : Traced Float := do
  match b.find? name with
  | some v =>
    match v.asNumber? with
    | some x =>
      record maxSteps { kind := .substitution, expression := name, value := x }
      return x
    | none => throw ((Fault.notNumeric v.shown).of name)
  | none =>
    match constant? name with
    | some x =>
      record maxSteps { kind := .constant, expression := name, value := x }
      return x
    | none => throw (Fault.unresolved.of name)

/-- The unit that a name stands for, and how it was found if a text parameter names it. A
parameter that is a number does not hide a unit. -/
def resolveUnit (b : Parameter.Bindings) (name : String) :
    Except Failure (Measure.Unit × Option String) :=
  match b.find? name with
  | some (.text s) =>
    match Measure.Unit.read? s with
    | some u =>
      let symbol := u.symbol
      .ok (u, some s!"{name} = {symbol}")
    | none => .error (.unit s "?" s!"parameter '{name}' names an unknown unit")
  | _ =>
    match Measure.Unit.read? name with
    | some u => .ok (u, none)
    | none => .error (.unit name "?" "unknown unit")

/-- A failure of a function within a formula is reported for the call. -/
def reportedFor (call : Expr) : Failure → Failure
  | .formula _ reason => .formula call.text reason
  | e => e

def callStep (f : Function) (args : List Expr) (details : List String) (x : Float) : Step where
  kind := .functionCall
  expression := (Expr.call f args).text
  value := x
  unit := f.target?
  detail := if details.isEmpty then none else some (", ".intercalate details)

def operate (op : Operator) (lhs rhs : Expr) (x y : Float) : Except Failure Float :=
  match op with
  | .add => .ok (x + y)
  | .sub => .ok (x - y)
  | .mul => .ok (x * y)
  | .div =>
    if y == 0 then .error (Fault.divisionByZero.of (Expr.binary .div lhs rhs).text)
    else .ok (x / y)

mutual

/-- Evaluates an expression, with functions that are applied in some way. -/
def evalWith (apply : Function → List Argument → Except Failure Float) (b : Parameter.Bindings)
    (maxSteps : Nat) : Expr → Traced Float
  | .literal x => return x
  | .identifier name => resolve b maxSteps name
  | .unitName name => throw (Fault.unitAsNumber.of name)
  | .negate e => return -(← evalWith apply b maxSteps e)
  | .binary op lhs rhs => do
    let x ← evalWith apply b maxSteps lhs
    let y ← evalWith apply b maxSteps rhs
    ExceptT.mk (pure (operate op lhs rhs x y))
  | .call f args => do
    let (values, details) ← evalArgumentsWith apply b maxSteps args
    match apply f values with
    | .error e => throw (reportedFor (.call f args) e)
    | .ok x =>
      record maxSteps (callStep f args details x)
      return x

/-- Evaluates arguments, with notes on how their units were found. -/
def evalArgumentsWith (apply : Function → List Argument → Except Failure Float)
    (b : Parameter.Bindings) (maxSteps : Nat) : List Expr → Traced (List Argument × List String)
  | [] => return ([], [])
  | .unitName name :: rest => do
    let (u, detail) ← ExceptT.mk (pure (resolveUnit b name))
    let (values, details) ← evalArgumentsWith apply b maxSteps rest
    return (.unit u :: values, detail.toList ++ details)
  | e :: rest => do
    let x ← evalWith apply b maxSteps e
    let (values, details) ← evalArgumentsWith apply b maxSteps rest
    return (.number x :: values, details)

end

abbrev eval : Parameter.Bindings → Nat → Expr → Traced Float := evalWith Function.apply

abbrev evalArguments : Parameter.Bindings → Nat → List Expr →
    Traced (List Argument × List String) := evalArgumentsWith Function.apply

/-- Evaluates an expression from an empty trace: the outcome, and the steps made either way. -/
def Expr.run (e : Expr) (b : Parameter.Bindings) (maxSteps : Nat) :
    Except Failure Float × List Step :=
  let (outcome, steps) := (eval b maxSteps e).run #[]
  (outcome, steps.toList)

end QuantitySurvey.Formula
