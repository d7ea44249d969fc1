import Mathlib
import QuantitySurvey.Formula.Grammar

/-! # Derivations

What the grammar of formulas derives, without a parser in it. A derivation is of a phrase, within a
number of levels, and of a `Stretch`: tokens, the number of binary operators among them, and the
tree that they stand for.

    expr    = term (('+' | '-') term)*
    term    = unary (('*' | '/') unary)*
    unary   = ('-' | '+') unary | primary
    primary = NUMBER | NAME | NAME '(' args? ')' | '(' expr ')'
    args    = expr (',' expr)*

A sign, a parenthesis and a call take one level for what they enclose. -/

set_option autoImplicit false

namespace QuantitySurvey.Formula

def Operator.token : Operator → Token
  | add => .plus
  | sub => .minus
  | mul => .star
  | div => .slash

namespace Grammar

/-! ## Stretches -/

inductive Phrase where
  | expr | term | unary | primary

/-- Tokens, the binary operators among them, and the tree they stand for. -/
structure Stretch where
  tokens : List Token
  operators : Nat
  tree : Expr

structure Link where
  op : Operator
  operand : Stretch

def Link.tokens (l : Link) : List Token := l.op.token :: l.operand.tokens

/-- The operators of links, with those inside their operands. -/
def operatorsOf (links : List Link) : Nat :=
  (links.map fun l => l.operand.operators + 1).sum

/-- The tree of an operand and links after it, grouped to the left. -/
def groupedLeft (first : Expr) (links : List Link) : Expr :=
  links.foldl (fun left l => .binary l.op left l.operand.tree) first

/-- An operand and links after it. -/
def linked (first : Stretch) (links : List Link) : Stretch where
  tokens := first.tokens ++ links.flatMap Link.tokens
  operators := first.operators + operatorsOf links
  tree := groupedLeft first.tree links

/-- The tree of an argument in a position of some kind. -/
def asArgument : ArgumentKind → Expr → Expr
  | .unit, .identifier name => .unitName name
  | _, e => e

/-- The call of a name with arguments. -/
def called (name : String) (f : Function) (args : List Stretch) : Stretch where
  tokens := .name name :: .leftParen
    :: ([Token.comma].intercalate (args.map Stretch.tokens) ++ [.rightParen])
  operators := (args.map Stretch.operators).sum
  tree := .call f ((f.parameters.zip (args.map Stretch.tree)).map fun p => asArgument p.1 p.2)

/-! ## Derivations -/

/-- A phrase derives a stretch within a number of levels. -/
inductive Derives : Phrase → Nat → Stretch → Prop
  | expr {levels : Nat} {first : Stretch} {links : List Link}
      (head : Derives .term levels first) (signs : ∀ l ∈ links, l.op.precedence = 1)
      (tail : ∀ l ∈ links, Derives .term levels l.operand) :
      Derives .expr levels (linked first links)
  | term {levels : Nat} {first : Stretch} {links : List Link}
      (head : Derives .unary levels first) (signs : ∀ l ∈ links, l.op.precedence = 2)
      (tail : ∀ l ∈ links, Derives .unary levels l.operand) :
      Derives .term levels (linked first links)
  | minus {levels : Nat} {s : Stretch} (h : Derives .unary levels s) :
      Derives .unary (levels + 1) ⟨.minus :: s.tokens, s.operators, .negate s.tree⟩
  | plus {levels : Nat} {s : Stretch} (h : Derives .unary levels s) :
      Derives .unary (levels + 1) ⟨.plus :: s.tokens, s.operators, s.tree⟩
  | unary {levels : Nat} {s : Stretch} (h : Derives .primary levels s) : Derives .unary levels s
  | number {levels : Nat} (x : Float) : Derives .primary levels ⟨[.number x], 0, .literal x⟩
  | name {levels : Nat} (n : String) : Derives .primary levels ⟨[.name n], 0, .identifier n⟩
  | parens {levels : Nat} {s : Stretch} (h : Derives .expr levels s) :
      Derives .primary (levels + 1)
        ⟨.leftParen :: (s.tokens ++ [.rightParen]), s.operators, s.tree⟩
  | call {levels : Nat} {name : String} {f : Function} {args : List Stretch}
      (named : Function.named? name = some f) (inside : ∀ a ∈ args, Derives .expr levels a)
      (enough : f.minArity ≤ args.length) (notMore : args.length ≤ f.maxArity)
      (units : ∀ p ∈ f.parameters.zip (args.map Stretch.tree),
        p.1 = .unit → ∃ n, p.2 = .identifier n) :
      Derives .primary (levels + 1) (called name f args)

/-! ## How a phrase starts -/

def startsPhrase : Token → Bool
  | .number _ | .name _ | .plus | .minus | .leftParen => true
  | _ => false

def startsPrimary : Token → Bool
  | .number _ | .name _ | .leftParen => true
  | _ => false

theorem Derives.primary_head {levels : Nat} {s : Stretch} (h : Derives .primary levels s) :
    ∃ t rest, s.tokens = t :: rest ∧ startsPrimary t = true := by
  cases h with
  | number x => exact ⟨_, _, rfl, rfl⟩
  | name n => exact ⟨_, _, rfl, rfl⟩
  | parens h => exact ⟨_, _, rfl, rfl⟩
  | call => exact ⟨_, _, rfl, rfl⟩

/-- No phrase is without tokens, or starts with an operator of products, a closing parenthesis or a
comma. -/
theorem Derives.head {φ : Phrase} {levels : Nat} {s : Stretch} (h : Derives φ levels s) :
    ∃ t rest, s.tokens = t :: rest ∧ startsPhrase t = true := by
  induction h with
  | expr head signs tail ih =>
    obtain ⟨t, rest, htokens, ht⟩ := ih
    exact ⟨t, _, by rw [linked, htokens, List.cons_append], ht⟩
  | term head signs tail ih =>
    obtain ⟨t, rest, htokens, ht⟩ := ih
    exact ⟨t, _, by rw [linked, htokens, List.cons_append], ht⟩
  | minus h => exact ⟨_, _, rfl, rfl⟩
  | plus h => exact ⟨_, _, rfl, rfl⟩
  | unary h ih => exact ih
  | number x => exact ⟨_, _, rfl, rfl⟩
  | name n => exact ⟨_, _, rfl, rfl⟩
  | parens h => exact ⟨_, _, rfl, rfl⟩
  | call => exact ⟨_, _, rfl, rfl⟩

/-! ## Operators and their tokens -/

theorem sumOperator?_eq_some {t : Token} {op : Operator} :
    sumOperator? t = some op ↔ t = op.token ∧ op.precedence = 1 := by
  cases t <;> cases op <;> simp [sumOperator?, Operator.token, Operator.precedence]

theorem productOperator?_eq_some {t : Token} {op : Operator} :
    productOperator? t = some op ↔ t = op.token ∧ op.precedence = 2 := by
  cases t <;> cases op <;> simp [productOperator?, Operator.token, Operator.precedence]

end Grammar

end QuantitySurvey.Formula
