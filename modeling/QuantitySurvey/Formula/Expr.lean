import QuantitySurvey.Formula.Function
import QuantitySurvey.Decimal.Written
import QuantitySurvey.SortedMap

/-! # Expressions

The trees of formulas and their canonical text, which has only the parentheses that precedence
asks for. `Expr.identifiers` and `Expr.unitNames` list the names that a tree reads. -/

set_option autoImplicit false

namespace QuantitySurvey.Formula

/-! ## Trees -/

inductive Operator where
  | add | sub | mul | div
deriving DecidableEq, Repr

namespace Operator

def symbol : Operator → Char
  | add => '+'
  | sub => '-'
  | mul => '*'
  | div => '/'

/-- Multiplication and division bind tighter than addition and subtraction. -/
def precedence : Operator → Nat
  | add | sub => 1
  | mul | div => 2

/-- Whether regrouping the right operand to the left changes the value. -/
def isOneSided : Operator → Bool
  | sub | div => true
  | add | mul => false

end Operator

inductive Expr where
  | literal (value : Float)
  /-- The name of a parameter or constant, read as a number. -/
  | identifier (name : String)
  /-- The name of a unit, or of a text parameter that names one. -/
  | unitName (name : String)
  | negate (operand : Expr)
  | binary (op : Operator) (lhs rhs : Expr)
  | call (function : Function) (arguments : List Expr)

instance : Inhabited Expr := ⟨.literal 0⟩

namespace Expr

/-- Induction on trees, where a call has what all its arguments have. -/
@[elab_as_elim]
theorem inductionOn {P : Expr → Prop} (e : Expr) (literal : ∀ x, P (.literal x))
    (identifier : ∀ name, P (.identifier name)) (unitName : ∀ name, P (.unitName name))
    (negate : ∀ operand, P operand → P (.negate operand))
    (binary : ∀ op lhs rhs, P lhs → P rhs → P (.binary op lhs rhs))
    (call : ∀ f args, (∀ a ∈ args, P a) → P (.call f args)) : P e :=
  Expr.rec (motive_1 := P) (motive_2 := fun args => ∀ a ∈ args, P a)
    literal identifier unitName negate binary call
    (fun _ h => absurd h List.not_mem_nil)
    (fun _ _ hhead htail a ha => (List.mem_cons.1 ha).elim (fun h => h ▸ hhead) (htail a)) e

/-! ## Canonical text -/

/-- How tightly the outermost node binds: operators, then negation, then all else. -/
def precedence : Expr → Nat
  | binary op _ _ => op.precedence
  | negate _ => 3
  | _ => 4

/-- A text, in parentheses if they are needed. -/
def grouped (needed : Bool) (text : List Char) : List Char :=
  if needed then '(' :: text ++ [')'] else text

/-- Whether the right operand of an operator needs parentheses: `a - (b - c)` and `a / (b * c)`
keep theirs. -/
def groupsRight (op : Operator) (rhs : Expr) : Bool :=
  rhs.precedence < op.precedence || (rhs.precedence == op.precedence && op.isOneSided)

mutual

/-- The canonical text. -/
def written : Expr → List Char
  | literal x => (Decimal.text x).toList
  | identifier name | unitName name => name.toList
  | negate e => '-' :: grouped (e.precedence < 3) e.written
  | binary op lhs rhs =>
    grouped (lhs.precedence < op.precedence) lhs.written
      ++ ' ' :: op.symbol :: ' ' :: grouped (groupsRight op rhs) rhs.written
  | call f args => f.name.toList ++ '(' :: writtenArguments args ++ [')']

def writtenArguments : List Expr → List Char
  | [] => []
  | e :: rest => e.written ++ writtenFurther rest

def writtenFurther : List Expr → List Char
  | [] => []
  | e :: rest => ',' :: ' ' :: e.written ++ writtenFurther rest

end

def text (e : Expr) : String := String.ofList e.written

/-! ## Names -/

mutual

/-- The names read as numbers, from left to right. -/
def numberNames : Expr → List String
  | literal _ | unitName _ => []
  | identifier name => [name]
  | negate e => e.numberNames
  | binary _ lhs rhs => lhs.numberNames ++ rhs.numberNames
  | call _ args => numberNamesOf args

def numberNamesOf : List Expr → List String
  | [] => []
  | e :: rest => e.numberNames ++ numberNamesOf rest

end

mutual

/-- The names read as units, from left to right. -/
def unitPositions : Expr → List String
  | literal _ | identifier _ => []
  | unitName name => [name]
  | negate e => e.unitPositions
  | binary _ lhs rhs => lhs.unitPositions ++ rhs.unitPositions
  | call _ args => unitPositionsOf args

def unitPositionsOf : List Expr → List String
  | [] => []
  | e :: rest => e.unitPositions ++ unitPositionsOf rest

end

/-- The distinct names of a list, in order. -/
def inOrder (names : List String) : List String :=
  (SortedMap.ofList (names.map fun n => (n, ()))).keys

def identifiers (e : Expr) : List String := inOrder e.numberNames

def unitNames (e : Expr) : List String := inOrder e.unitPositions

end Expr

end QuantitySurvey.Formula
