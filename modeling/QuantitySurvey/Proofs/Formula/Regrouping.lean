import Mathlib
import QuantitySurvey.Formula.Expr

/-! # Regrouped trees

The canonical text drops the parentheses of `a + (b - c)` and of `a * (b / c)`. What is read from it
is the tree `regrouped`, in which such right operands are grouped to the left. It is the tree itself
exactly if there is no such operand, which is `isLeftGrouped`. -/

set_option autoImplicit false

namespace QuantitySurvey.Formula.Expr

/-! ## Definitions -/

/-- What is read where an operator stands before the text of a right operand. Of operands that
operators of its own precedence join it takes the first. -/
def joined (op : Operator) (lhs : Expr) : Expr → Expr
  | .binary op' first last =>
    if op'.precedence = op.precedence then .binary op' (joined op lhs first) last
    else .binary op lhs (.binary op' first last)
  | rhs => .binary op lhs rhs

mutual

/-- The tree that is read from the canonical text. -/
def regrouped : Expr → Expr
  | literal x => literal x
  | identifier name => identifier name
  | unitName name => unitName name
  | negate e => negate e.regrouped
  | binary op lhs rhs =>
    if groupsRight op rhs then binary op lhs.regrouped rhs.regrouped
    else joined op lhs.regrouped rhs.regrouped
  | call f args => call f (regroupedAll args)

def regroupedAll : List Expr → List Expr
  | [] => []
  | e :: rest => e.regrouped :: regroupedAll rest

end

mutual

/-- No sum has a sum or difference on its right, and no product a product or quotient. -/
def isLeftGrouped : Expr → Bool
  | literal _ | identifier _ | unitName _ => true
  | negate e => e.isLeftGrouped
  | binary op lhs rhs =>
    (rhs.precedence != op.precedence || op.isOneSided) && lhs.isLeftGrouped && rhs.isLeftGrouped
  | call _ args => areLeftGrouped args

def areLeftGrouped : List Expr → Bool
  | [] => true
  | e :: rest => e.isLeftGrouped && areLeftGrouped rest

end

mutual

/-- The number of binary operators. -/
def operatorCount : Expr → Nat
  | literal _ | identifier _ | unitName _ => 0
  | negate e => e.operatorCount
  | binary _ lhs rhs => lhs.operatorCount + rhs.operatorCount + 1
  | call _ args => operatorCountOf args

def operatorCountOf : List Expr → Nat
  | [] => 0
  | e :: rest => e.operatorCount + operatorCountOf rest

end

theorem regroupedAll_eq_map (args : List Expr) : regroupedAll args = args.map regrouped := by
  induction args with
  | nil => rfl
  | cons a args ih => rw [regroupedAll, ih, List.map_cons]

theorem areLeftGrouped_iff {args : List Expr} :
    areLeftGrouped args = true ↔ ∀ a ∈ args, a.isLeftGrouped = true := by
  induction args with
  | nil => simp [areLeftGrouped]
  | cons a args ih => simp [areLeftGrouped, ih]

theorem operatorCountOf_eq_sum (args : List Expr) :
    operatorCountOf args = (args.map operatorCount).sum := by
  induction args with
  | nil => rfl
  | cons a args ih => rw [operatorCountOf, ih, List.map_cons, List.sum_cons]

/-! ## Precedence -/

theorem precedence_pos (e : Expr) : 1 ≤ e.precedence := by
  cases e with
  | binary op lhs rhs => cases op <;> simp [precedence, Operator.precedence]
  | _ => simp [precedence]

/-- Only operators bind less tightly than negation. -/
theorem exists_binary_of_precedence {e : Expr} {op : Operator}
    (h : e.precedence = op.precedence) :
    ∃ op' lhs rhs, e = .binary op' lhs rhs ∧ op'.precedence = op.precedence := by
  have hop : op.precedence < 3 := by cases op <;> simp [Operator.precedence]
  cases e with
  | binary op' lhs rhs => exact ⟨op', lhs, rhs, rfl, h⟩
  | _ =>
    simp only [precedence] at h
    omega

theorem joined_of_ne {op : Operator} {rhs : Expr} (h : rhs.precedence ≠ op.precedence)
    (lhs : Expr) : joined op lhs rhs = .binary op lhs rhs := by
  cases rhs with
  | binary op' first last =>
    have hop : op'.precedence ≠ op.precedence := h
    rw [joined, if_neg hop]
  | _ => rfl

theorem joined_binary {op op' : Operator} (h : op'.precedence = op.precedence)
    (lhs first last : Expr) :
    joined op lhs (.binary op' first last) = .binary op' (joined op lhs first) last := by
  rw [joined, if_pos h]

theorem precedence_joined (op : Operator) (lhs rhs : Expr) :
    (joined op lhs rhs).precedence = op.precedence := by
  by_cases h : rhs.precedence = op.precedence
  · obtain ⟨op', first, last, rfl, hop⟩ := exists_binary_of_precedence h
    rw [joined_binary hop]
    exact hop
  · rw [joined_of_ne h]
    rfl

theorem precedence_regrouped (e : Expr) : e.regrouped.precedence = e.precedence := by
  cases e with
  | binary op lhs rhs =>
    rw [regrouped]
    split
    · rfl
    · exact precedence_joined op _ _
  | _ => simp only [regrouped, precedence]

/-! ## Operators -/

theorem operatorCount_joined (op : Operator) (lhs rhs : Expr) :
    (joined op lhs rhs).operatorCount = lhs.operatorCount + rhs.operatorCount + 1 := by
  induction rhs using Expr.inductionOn with
  | binary op' first last ih =>
    by_cases h : op'.precedence = op.precedence
    · rw [joined_binary h]
      simp only [operatorCount, ih]
      omega
    · have hne : (binary op' first last).precedence ≠ op.precedence := h
      rw [joined_of_ne hne]
      rfl
  | _ => rfl

theorem operatorCount_regrouped (e : Expr) : e.regrouped.operatorCount = e.operatorCount := by
  induction e using Expr.inductionOn with
  | negate operand ih => simpa only [regrouped, operatorCount] using ih
  | binary op lhs rhs ihl ihr =>
    rw [regrouped]
    split
    · simp only [operatorCount, ihl, ihr]
    · rw [operatorCount_joined, ihl, ihr, operatorCount]
  | call f args ih =>
    simp only [regrouped, operatorCount, regroupedAll_eq_map, operatorCountOf_eq_sum, List.map_map]
    exact congrArg List.sum (List.map_congr_left ih)
  | _ => rfl

/-! ## Trees that stay as they are -/

/-- An operand that is grouped to the left is not on the right any more. -/
theorem joined_eq_binary {op op' : Operator} {lhs rhs lhs' rhs' : Expr}
    (h : joined op lhs rhs = .binary op' lhs' rhs')
    (hcount : rhs.operatorCount = rhs'.operatorCount) :
    rhs.precedence ≠ op.precedence ∧ lhs = lhs' ∧ rhs = rhs' := by
  by_cases hprec : rhs.precedence = op.precedence
  · exfalso
    obtain ⟨op'', first, last, rfl, hop⟩ := exists_binary_of_precedence hprec
    rw [joined_binary hop] at h
    have hlast : last = rhs' := (Expr.binary.inj h).2.2
    simp only [operatorCount, ← hlast] at hcount
    omega
  · rw [joined_of_ne hprec] at h
    exact ⟨hprec, (Expr.binary.inj h).2⟩

theorem regrouped_of_isLeftGrouped {e : Expr} (h : e.isLeftGrouped = true) : e.regrouped = e := by
  induction e using Expr.inductionOn with
  | negate operand ih =>
    rw [regrouped, ih h]
  | binary op lhs rhs ihl ihr =>
    simp only [isLeftGrouped, Bool.and_eq_true, Bool.or_eq_true, bne_iff_ne] at h
    obtain ⟨⟨hside, hl⟩, hr⟩ := h
    rw [regrouped, ihl hl, ihr hr]
    split
    · rfl
    · next hgroups =>
      refine joined_of_ne ?_ lhs
      intro hprec
      have hsided : op.isOneSided = true := hside.resolve_left (fun hne => hne hprec)
      simp [groupsRight, hprec, hsided] at hgroups
  | call f args ih =>
    have hargs := areLeftGrouped_iff.1 h
    have hmap : args.map regrouped = args :=
      (List.map_congr_left fun a ha => ih a ha (hargs a ha)).trans (List.map_id args)
    rw [regrouped, regroupedAll_eq_map, hmap]
  | _ => rfl

theorem isLeftGrouped_of_regrouped {e : Expr} (h : e.regrouped = e) : e.isLeftGrouped = true := by
  induction e using Expr.inductionOn with
  | negate operand ih =>
    rw [regrouped] at h
    exact ih (Expr.negate.inj h)
  | binary op lhs rhs ihl ihr =>
    have hparts : (rhs.precedence ≠ op.precedence ∨ op.isOneSided = true) ∧
        lhs.regrouped = lhs ∧ rhs.regrouped = rhs := by
      rw [regrouped] at h
      split at h
      · next hgroups =>
        refine ⟨?_, (Expr.binary.inj h).2⟩
        simp only [groupsRight, Bool.or_eq_true, decide_eq_true_eq, Bool.and_eq_true] at hgroups
        rcases hgroups with hlt | ⟨-, hsided⟩
        · exact .inl (Nat.ne_of_lt hlt)
        · exact .inr hsided
      · obtain ⟨hprec, hl, hr⟩ := joined_eq_binary h (operatorCount_regrouped rhs)
        rw [precedence_regrouped] at hprec
        exact ⟨.inl hprec, hl, hr⟩
    obtain ⟨hside, hl, hr⟩ := hparts
    simp only [isLeftGrouped, Bool.and_eq_true, Bool.or_eq_true, bne_iff_ne]
    exact ⟨⟨hside, ihl hl⟩, ihr hr⟩
  | call f args ih =>
    rw [regrouped, regroupedAll_eq_map] at h
    have hmap : args.map regrouped = args := (Expr.call.inj h).2
    refine areLeftGrouped_iff.2 fun a ha => ih a ha ?_
    obtain ⟨i, hi, rfl⟩ := List.getElem_of_mem ha
    have hget : (args.map regrouped)[i]? = args[i]? := by rw [hmap]
    simpa [hi] using hget
  | _ => rfl

/-- Reading the canonical text gives the same tree exactly if no operand is regrouped. -/
theorem regrouped_eq_self_iff {e : Expr} : e.regrouped = e ↔ e.isLeftGrouped = true :=
  ⟨isLeftGrouped_of_regrouped, regrouped_of_isLeftGrouped⟩

end QuantitySurvey.Formula.Expr
