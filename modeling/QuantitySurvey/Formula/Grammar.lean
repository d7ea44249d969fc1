import QuantitySurvey.Formula.Token
import QuantitySurvey.Formula.Expr

/-! # The grammar

    expr    = term (('+' | '-') term)*
    term    = unary (('*' | '/') unary)*
    unary   = ('-' | '+') unary | primary
    primary = NUMBER | NAME | NAME '(' args? ')' | '(' expr ')'
    args    = expr (',' expr)*

A parenthesis, a call and a sign each lead one level down, and there are 64 levels; a formula
has at most 1024 binary operators. `parsersAt` builds the parsers of a level from those of the
level below, so the recursion is on the levels that are left; the loops within a level take at
least one token per turn. -/

set_option autoImplicit false

namespace QuantitySurvey.Formula

def maxLevels : Nat := 64

def maxOperators : Nat := 1024

namespace Grammar

/-! ## The state of a parser -/

/-- The tokens that are left, and the operators met so far. -/
structure Cursor where
  tokens : List Located
  operators : Nat

abbrev Parser := StateT Cursor (Except Failure)

def peek : Parser (Option Token) := do
  return (← get).tokens.head?.map Located.token

def next? : Parser (Option Located) := do
  let c ← get
  match c.tokens with
  | [] => return none
  | t :: rest =>
    set { c with tokens := rest }
    return some t

def advance : Parser Unit := do
  let _ ← next?

variable (source : String)

def refuse {α : Type} (fault : Fault) : Parser α :=
  throw (fault.of source)

def unexpected {α : Type} (t : Located) : Parser α :=
  refuse source (.unexpectedToken t.token.text t.offset)

/-- Takes a binary operator, if there may be one more. -/
def takeOperator : Parser Unit := do
  if maxOperators ≤ (← get).operators then
    throw ((Fault.tooManyOperators maxOperators).of (Text.shortened 40 source))
  modify fun c => { c with operators := c.operators + 1 }
  advance

/-- Takes the parenthesis that closes the one at a token. -/
def close (opened : Located) : Parser Unit := do
  match ← next? with
  | none => refuse source (.unclosed opened.offset)
  | some t =>
    if t.token ≠ .rightParen then refuse source (.notClosedBy t.token.text t.offset)

/-! ## Loops -/

/-- An operand, followed by operators and operands as long as there are some. -/
def chainFrom (operatorOf : Token → Option Operator) (operand : Parser Expr) :
    Nat → Expr → Parser Expr
  | 0, left => return left
  | turns + 1, left => do
    match (← peek).bind operatorOf with
    | none => return left
    | some op =>
      takeOperator source
      let right ← operand
      chainFrom operatorOf operand turns (.binary op left right)

/-- Operands with operators of one precedence between them, grouped to the left. -/
def chain (operatorOf : Token → Option Operator) (operand : Parser Expr) : Parser Expr := do
  let left ← operand
  chainFrom source operatorOf operand (← get).tokens.length left

/-- Arguments with commas between them, up to a token that is no comma. -/
def argumentsFrom (expr : Parser Expr) : Nat → List Expr → Parser (List Expr)
  | 0, found => return found.reverse
  | turns + 1, found => do
    let e ← expr
    if (← peek) = some .comma then
      advance
      argumentsFrom expr turns (e :: found)
    else return (e :: found).reverse

def sumOperator? : Token → Option Operator
  | .plus => some .add
  | .minus => some .sub
  | _ => none

def productOperator? : Token → Option Operator
  | .star => some .mul
  | .slash => some .div
  | _ => none

/-! ## Calls -/

/-- An argument as its position wants it. Only a name can stand for a unit. -/
def placed (f : Function) : ArgumentKind → Expr → Except Failure Expr
  | .number, e => .ok e
  | .unit, .identifier name => .ok (.unitName name)
  | .unit, e =>
    let name := f.name
    let argument := e.text
    .error (Fault.unitNameExpected.of s!"{name}(..., {argument})")

/-- A call with the right number of arguments, each fit for its position. -/
def callOf (f : Function) (args : List Expr) : Except Failure Expr :=
  if args.length < f.minArity || f.maxArity < args.length then
    .error ((Fault.wrongArity f args.length).of (Expr.call f args).text)
  else do
    return .call f (← (f.parameters.zip args).mapM fun (kind, e) => placed f kind e)

/-! ## Levels -/

structure Parsers where
  unary : Parser Expr
  expr : Parser Expr

/-- Goes one level down, if there is one. -/
def enter (below : Option Parsers) : Parser Parsers :=
  match below with
  | some p => return p
  | none => refuse source (.nestedTooDeep maxLevels)

/-- The call of a name, whose parenthesis comes next. The name is looked up before the
arguments are read. -/
def callOn (below : Option Parsers) (name : String) (offset : Nat) : Parser Expr := do
  match Function.named? name with
  | none => throw ((Fault.unknownFunction name offset).of s!"{name}(...)")
  | some f =>
    match ← next? with
    | none => refuse source .unexpectedEnd
    | some opened =>
      let p ← enter source below
      let args ←
        if (← peek) = some .rightParen then pure []
        else argumentsFrom p.expr ((← get).tokens.length + 1) []
      close source opened
      callOf f args

def primaryOn (below : Option Parsers) : Parser Expr := do
  match ← next? with
  | none => refuse source .unexpectedEnd
  | some t =>
    match t.token with
    | .number x => return .literal x
    | .name name =>
      if (← peek) = some .leftParen then callOn source below name t.offset
      else return .identifier name
    | .leftParen =>
      let p ← enter source below
      let e ← p.expr
      close source t
      return e
    | _ => unexpected source t

def unaryOn (below : Option Parsers) : Parser Expr := do
  match ← peek with
  | some .minus =>
    advance
    let p ← enter source below
    return .negate (← p.unary)
  | some .plus =>
    advance
    let p ← enter source below
    p.unary
  | _ => primaryOn source below

def parsersOn (below : Option Parsers) : Parsers where
  unary := unaryOn source below
  expr := chain source sumOperator? (chain source productOperator? (unaryOn source below))

def parsersAt : Nat → Parsers
  | 0 => parsersOn source none
  | levels + 1 => parsersOn source (some (parsersAt levels))

/-- One expression that takes up all tokens. -/
def whole : Parser Expr := do
  if (← peek).isNone then refuse source .empty
  let e ← (parsersAt source maxLevels).expr
  match ← next? with
  | none => return e
  | some t => unexpected source t

end Grammar

/-- The expression that a list of tokens stands for. -/
def parseTokens (source : String) (tokens : List Located) : Except Failure Expr :=
  (Grammar.whole source).run' ⟨tokens, 0⟩

end QuantitySurvey.Formula
