import Mathlib.Data.List.Basic
import QuantitySurvey.Formula.Evaluation

/-! # Recursion over trees

Whatever is computed of a tree is computed node by node, from what the nodes right below come to: the
value with its trace, the canonical text and the names. So none of these computations goes deeper than
the longest way from the root downwards.

* `Expr.IsPath`: ways downwards.
* `foldWithin_of_paths`: how deep a recursion goes.
* `isFold_eval`, `isFold_written`, `isFold_numberNames`, `isFold_unitPositions`: such recursions.
-/

set_option autoImplicit false

namespace QuantitySurvey.Formula

/-! ## Paths -/

namespace Expr

/-- The nodes right below. -/
def children : Expr → List Expr
  | literal _ | identifier _ | unitName _ => []
  | negate e => [e]
  | binary _ lhs rhs => [lhs, rhs]
  | call _ args => args

/-- Nodes on the way from the root of a tree downwards. -/
inductive IsPath : Expr → List Expr → Prop
  | root (e : Expr) : IsPath e [e]
  | down {e child : Expr} {rest : List Expr} (h : child ∈ e.children) (more : IsPath child rest) :
      IsPath e (e :: rest)

/-- Ways downwards from a node on the way are parts of ways from the root. -/
theorem IsPath.exists_longer {e node : Expr} {path rest : List Expr} (h : IsPath e path)
    (hnode : node ∈ path) (hrest : IsPath node rest) :
    ∃ longer, IsPath e longer ∧ rest.length ≤ longer.length := by
  induction h with
  | root e =>
    obtain rfl := List.mem_singleton.1 hnode
    exact ⟨rest, hrest, Nat.le_refl _⟩
  | @down e child path hchild more ih =>
    rcases List.mem_cons.1 hnode with rfl | hnode
    · exact ⟨rest, hrest, Nat.le_refl _⟩
    · obtain ⟨longer, hlonger, hle⟩ := ih hnode
      exact ⟨e :: longer, .down hchild hlonger, Nat.le_succ_of_le hle⟩

end Expr

/-! ## Depth -/

/-- A recursion over trees that goes no deeper than a number of nodes, and gives nothing where it would
have to. At each node it has what the nodes right below it come to. -/
def foldWithin {α : Type} (node : Expr → List α → α) : Nat → Expr → Option α
  | 0, _ => none
  | depth + 1, e => (e.children.mapM (foldWithin node depth)).map (node e)

/-- A function of trees that looks at a node and what the nodes right below it come to. -/
def IsFold {α : Type} (node : Expr → List α → α) (f : Expr → α) : Prop :=
  ∀ e, f e = node e (e.children.map f)

theorem mapM_eq_some_map {α β : Type} {f : α → Option β} {g : α → β} {l : List α}
    (h : ∀ a ∈ l, f a = some (g a)) : l.mapM f = some (l.map g) := by
  induction l with
  | nil => rfl
  | cons a l ih =>
    rw [List.mapM_cons, h a List.mem_cons_self, ih fun b hb => h b (List.mem_cons_of_mem a hb)]
    rfl

/-- No recursion goes deeper than the longest way downwards. -/
theorem foldWithin_of_paths {α : Type} {node : Expr → List α → α} {f : Expr → α}
    (hf : IsFold node f) {depth : Nat} {e : Expr}
    (h : ∀ path, Expr.IsPath e path → path.length ≤ depth) :
    foldWithin node depth e = some (f e) := by
  induction depth generalizing e with
  | zero =>
    have hroot := h [e] (.root e)
    simp at hroot
  | succ depth ih =>
    have hchildren : ∀ child ∈ e.children, foldWithin node depth child = some (f child) := by
      intro child hchild
      refine ih fun path hpath => Nat.le_of_succ_le_succ ?_
      exact h (e :: path) (.down hchild hpath)
    rw [foldWithin, mapM_eq_some_map hchildren, hf e]
    rfl

/-! ## Evaluation -/

/-- Arguments, given what each of them comes to. The name of a unit is looked up as such. -/
def gathered (b : Parameter.Bindings) :
    List (Expr × Traced Float) → Traced (List Argument × List String)
  | [] => return ([], [])
  | (.unitName name, _) :: rest => do
    let (u, detail) ← ExceptT.mk (pure (resolveUnit b name))
    let (values, details) ← gathered b rest
    return (.unit u :: values, detail.toList ++ details)
  | (_, value) :: rest => do
    let x ← value
    let (values, details) ← gathered b rest
    return (.number x :: values, details)

/-- The value of a node, given what the nodes right below it come to. -/
def evalNode (b : Parameter.Bindings) (maxSteps : Nat) : Expr → List (Traced Float) → Traced Float
  | .literal x, _ => return x
  | .identifier name, _ => resolve b maxSteps name
  | .unitName name, _ => throw (Fault.unitAsNumber.of name)
  | .negate _, [value] => return -(← value)
  | .binary op lhs rhs, [left, right] => do
    let x ← left
    let y ← right
    ExceptT.mk (pure (operate op lhs rhs x y))
  | .call f args, given => do
    let (values, details) ← gathered b (args.zip given)
    match f.apply values with
    | .error e => throw (reportedFor (.call f args) e)
    | .ok x =>
      record maxSteps (callStep f args details x)
      return x
  -- No other number of nodes is below a negation or an operator.
  | .negate _, _ | .binary .., _ => return 0

theorem evalArguments_eq_gathered (b : Parameter.Bindings) (maxSteps : Nat) (args : List Expr) :
    evalArguments b maxSteps args = gathered b (args.zip (args.map (eval b maxSteps))) := by
  induction args with
  | nil => simp only [evalArguments, evalArgumentsWith, List.zip_nil_left, gathered]
  | cons a args ih =>
    cases a <;> simp only [evalArguments, evalArgumentsWith, List.map_cons, List.zip_cons_cons,
      gathered, ih]

theorem isFold_eval (b : Parameter.Bindings) (maxSteps : Nat) :
    IsFold (evalNode b maxSteps) (eval b maxSteps) := by
  intro e
  cases e with
  | call f args =>
    simp only [eval, evalWith, evalArguments_eq_gathered]
    rfl
  | _ => simp only [eval, evalWith, evalNode, Expr.children, List.map_cons, List.map_nil]

/-! ## Canonical text -/

/-- The canonical text of a node, given those of the nodes right below it. -/
def writtenNode : Expr → List (List Char) → List Char
  | .literal x, _ => (Decimal.text x).toList
  | .identifier name, _ | .unitName name, _ => name.toList
  | .negate e, [text] => '-' :: Expr.grouped (e.precedence < 3) text
  | .binary op lhs rhs, [left, right] =>
    Expr.grouped (lhs.precedence < op.precedence) left
      ++ ' ' :: op.symbol :: ' ' :: Expr.grouped (Expr.groupsRight op rhs) right
  | .call f _, texts => f.name.toList ++ '(' :: [',', ' '].intercalate texts ++ [')']
  | .negate _, _ | .binary .., _ => []

theorem writtenArguments_eq_intercalate (args : List Expr) :
    Expr.writtenArguments args = [',', ' '].intercalate (args.map Expr.written) := by
  cases args with
  | nil => rfl
  | cons a rest =>
    rw [Expr.writtenArguments]
    induction rest generalizing a with
    | nil => simp [Expr.writtenFurther]
    | cons b rest ih =>
      have hrest := ih b
      rw [List.map_cons] at hrest
      rw [Expr.writtenFurther, List.map_cons, List.map_cons, List.intercalate_cons_cons, ← hrest,
        List.append_assoc]
      rfl

theorem isFold_written : IsFold writtenNode Expr.written := by
  intro e
  cases e with
  | call f args =>
    rw [Expr.written, writtenArguments_eq_intercalate]
    rfl
  | _ => simp only [Expr.written, writtenNode, Expr.children, List.map_cons, List.map_nil]

/-! ## Names -/

/-- The names of a node, given those of the nodes right below it. -/
def namesNode (own : Expr → List String) (e : Expr) (names : List (List String)) : List String :=
  own e ++ names.flatten

def ownNumberName : Expr → List String
  | .identifier name => [name]
  | _ => []

def ownUnitPosition : Expr → List String
  | .unitName name => [name]
  | _ => []

theorem numberNamesOf_eq_flatten (args : List Expr) :
    Expr.numberNamesOf args = (args.map Expr.numberNames).flatten := by
  induction args with
  | nil => rfl
  | cons a args ih => rw [Expr.numberNamesOf, ih, List.map_cons, List.flatten_cons]

theorem unitPositionsOf_eq_flatten (args : List Expr) :
    Expr.unitPositionsOf args = (args.map Expr.unitPositions).flatten := by
  induction args with
  | nil => rfl
  | cons a args ih => rw [Expr.unitPositionsOf, ih, List.map_cons, List.flatten_cons]

theorem isFold_numberNames : IsFold (namesNode ownNumberName) Expr.numberNames := by
  intro e
  cases e with
  | call f args => exact numberNamesOf_eq_flatten args
  | _ => simp [Expr.numberNames, namesNode, ownNumberName, Expr.children]

theorem isFold_unitPositions : IsFold (namesNode ownUnitPosition) Expr.unitPositions := by
  intro e
  cases e with
  | call f args => exact unitPositionsOf_eq_flatten args
  | _ => simp [Expr.unitPositions, namesNode, ownUnitPosition, Expr.children]

end QuantitySurvey.Formula
