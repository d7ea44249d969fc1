import QuantitySurvey.Proofs.Decimal.Nonnegative
import QuantitySurvey.Proofs.Formula.CanonicalText
import QuantitySurvey.Proofs.Formula.Recursion

/-! # Bounds of trees

However long a text may be, the tree that is read from it is bounded. Every negation and every call
takes one of the levels, on each way from the root downwards, and every other node that has nodes below
it is a binary operator, of which there are only so many. So no way is long, and what recurses over the
tree does not go deep.

* `nestsWithin_of_derives`: the levels of what is derived.
* `IsPath.length_le`: the length of a way.
* `isNaN_of_derives`: the numbers of what is derived.
* `tree_is_bounded`: the bounds of a formula.
-/

set_option autoImplicit false

namespace QuantitySurvey.Formula

namespace Expr

/-! ## Levels -/

/-- A negation or a call. -/
def takesLevel : Expr → Bool
  | negate _ | call _ _ => true
  | _ => false

/-- On no way downwards there are more negations and calls than levels. -/
def NestsWithin (levels : Nat) (e : Expr) : Prop :=
  ∀ path, IsPath e path → path.countP takesLevel ≤ levels

section Levels

variable {levels : Nat} {e : Expr}

theorem NestsWithin.mono (h : NestsWithin levels e) : NestsWithin (levels + 1) e :=
  fun path hpath => (h path hpath).trans (Nat.le_succ _)

theorem nestsWithin_of_children (hlevel : e.takesLevel = false)
    (h : ∀ child ∈ e.children, NestsWithin levels child) : NestsWithin levels e := by
  intro path hpath
  cases hpath with
  | root => simp [hlevel]
  | @down _ child rest hchild more =>
    rw [List.countP_cons_of_neg (by simp [hlevel])]
    exact h child hchild rest more

theorem nestsWithin_succ (h : ∀ child ∈ e.children, NestsWithin levels child) :
    NestsWithin (levels + 1) e := by
  intro path hpath
  have hle : ∀ rest : List Expr, (e :: rest).countP takesLevel ≤ rest.countP takesLevel + 1 := by
    intro rest
    rw [List.countP_cons]
    split <;> omega
  cases hpath with
  | root => exact (hle []).trans (by simp)
  | @down _ child rest hchild more =>
    exact (hle rest).trans (Nat.succ_le_succ (h child hchild rest more))

theorem nestsWithin_leaf (hlevel : e.takesLevel = false) (h : e.children = []) :
    NestsWithin levels e :=
  nestsWithin_of_children hlevel (by rw [h]; nofun)

end Levels

/-! ## Length -/

/-- A node that does not take a level is an operator if there are nodes below it. -/
theorem operatorCount_child {e child : Expr} (h : child ∈ e.children) :
    child.operatorCount + 1 ≤ e.operatorCount + if e.takesLevel then 1 else 0 := by
  cases e with
  | negate operand =>
    obtain rfl := List.mem_singleton.1 h
    exact Nat.le_refl _
  | binary op lhs rhs =>
    simp only [children, List.mem_cons, List.not_mem_nil, or_false] at h
    rw [operatorCount]
    rcases h with rfl | rfl <;> omega
  | call f args =>
    have hmem : child.operatorCount ∈ args.map operatorCount := List.mem_map_of_mem h
    have hle := List.le_sum_of_mem hmem
    rw [operatorCount, operatorCountOf_eq_sum]
    exact Nat.succ_le_succ hle
  | _ => cases h

theorem IsPath.length_le {e : Expr} {path : List Expr} (h : IsPath e path) :
    path.length ≤ path.countP takesLevel + e.operatorCount + 1 := by
  induction h with
  | root e => simp
  | @down e child rest hchild more ih =>
    have hcount := operatorCount_child hchild
    rw [List.length_cons, List.countP_cons]
    omega

end Expr

/-! ## Derivations -/

namespace Grammar

theorem nestsWithin_linked {levels : Nat} {first : Expr} {links : List Link}
    (hfirst : Expr.NestsWithin levels first)
    (hlinks : ∀ l ∈ links, Expr.NestsWithin levels l.operand.tree) :
    Expr.NestsWithin levels (groupedLeft first links) := by
  induction links generalizing first with
  | nil => exact hfirst
  | cons l rest ih =>
    refine ih (Expr.nestsWithin_of_children rfl fun child hchild => ?_)
      fun m hm => hlinks m (List.mem_cons_of_mem l hm)
    simp only [Expr.children, List.mem_cons, List.not_mem_nil, or_false] at hchild
    rcases hchild with rfl | rfl
    · exact hfirst
    · exact hlinks l List.mem_cons_self

theorem nestsWithin_asArgument {levels : Nat} {e : Expr} (kind : ArgumentKind)
    (h : Expr.NestsWithin levels e) : Expr.NestsWithin levels (asArgument kind e) := by
  unfold asArgument
  split
  · exact Expr.nestsWithin_leaf rfl rfl
  · exact h

/-- What is derived within levels nests within them: a sign, a parenthesis and a call take one each, the
negation and the call leave a node. -/
theorem nestsWithin_of_derives {φ : Phrase} {levels : Nat} {s : Stretch} (h : Derives φ levels s) :
    Expr.NestsWithin levels s.tree := by
  induction h with
  | expr head signs tail ihhead ihtail => exact nestsWithin_linked ihhead ihtail
  | term head signs tail ihhead ihtail => exact nestsWithin_linked ihhead ihtail
  | minus h ih =>
    refine Expr.nestsWithin_succ fun child hchild => ?_
    obtain rfl := List.mem_singleton.1 hchild
    exact ih
  | plus h ih => exact ih.mono
  | unary h ih => exact ih
  | number x => exact Expr.nestsWithin_leaf rfl rfl
  | name n => exact Expr.nestsWithin_leaf rfl rfl
  | parens h ih => exact ih.mono
  | call named inside enough notMore units ih =>
    refine Expr.nestsWithin_succ fun child hchild => ?_
    obtain ⟨p, hp, rfl⟩ := List.mem_map.1 hchild
    obtain ⟨a, ha, htree⟩ := List.mem_map.1 (List.of_mem_zip hp).2
    exact nestsWithin_asArgument p.1 (htree ▸ ih a ha)

end Grammar

/-! ## Numbers -/

open Grammar

theorem mem_tokens_of_literals {e : Expr} {x : Float} (h : x ∈ e.literals) :
    .number x ∈ e.tokens := by
  induction e using Expr.inductionOn with
  | literal y =>
    obtain rfl := List.mem_singleton.1 h
    exact List.mem_singleton_self _
  | negate operand ih => exact (mem_tokens_negate rfl).2 (ih h)
  | binary op lhs rhs ihl ihr =>
    exact (mem_tokens_binary rfl).2 ((List.mem_append.1 h).imp ihl ihr)
  | call f args ih =>
    obtain ⟨a, ha, hx⟩ := Expr.mem_literalsOf.1 h
    exact (mem_tokens_call rfl).2 (.inr ⟨a, ha, ih a ha hx⟩)
  | _ => cases h

theorem toLower_ne_of_isNumberChar {c : Char} (h : isNumberChar c = true) : c.toLower ≠ 'n' := by
  rcases isNumberChar_cases h with ⟨-, hdigit⟩ | rfl
  · rw [toLower_of_isDigit hdigit]
    rintro rfl
    cases hdigit
  · decide

/-- The numbers of a tree are written in its source, with a digit or a point at the start. -/
theorem isNaN_of_derives {levels : Nat} {s : Stretch} {cs : List Char}
    (hs : Derives .expr levels s) (hclean : IsClean s.tokens cs) {x : Float}
    (hx : .number x ∈ s.tree.tokens) : x.isNaN = false := by
  rcases mem_tokens_of_derives hs rfl hx with hsource | ⟨f, hf⟩
  · obtain ⟨run, ⟨c, hc, hnumber⟩, hread⟩ := read?_of_spelled hclean.spelled hsource
    obtain ⟨rest, rfl⟩ := List.head?_eq_some_iff.1 hc
    rw [Decimal.read?, signed_of_isNumberChar hnumber] at hread
    obtain ⟨y, hy, rfl⟩ := Option.map_eq_some_iff.1 hread
    exact Decimal.isNaN_of_unsigned? (toLower_ne_of_isNumberChar hnumber) hy
  · cases hf

/-! ## Formulas -/

/-- However long the text of a formula is, its tree has at most 1024 binary operators. On each way from
the root downwards there are at most 64 negations and calls, so that it has at most 1089 nodes. The
numbers of the tree are not negative, and numbers. Its value and its names are computed without going
deeper, and so is the canonical text of each of its nodes, as the trace shows it. -/
theorem tree_is_bounded {limits : Limits} {source : String} {formula : Formula}
    (parsed : Formula.parse limits source = .ok formula) :
    formula.expr.operatorCount ≤ 1024 ∧
    (∀ path, Expr.IsPath formula.expr path →
      path.countP Expr.takesLevel ≤ 64 ∧ path.length ≤ 1089) ∧
    (∀ x ∈ formula.expr.literals, 0 ≤ x ∧ x.isNaN = false) ∧
    (∀ b maxSteps, foldWithin (evalNode b maxSteps) 1089 formula.expr
      = some (eval b maxSteps formula.expr)) ∧
    (∀ path, Expr.IsPath formula.expr path → ∀ node ∈ path,
      foldWithin writtenNode 1089 node = some node.written) ∧
    foldWithin (namesNode ownNumberName) 1089 formula.expr = some formula.expr.numberNames ∧
    foldWithin (namesNode ownUnitPosition) 1089 formula.expr
      = some formula.expr.unitPositions := by
  obtain ⟨-, -, s, hclean, hs, hroom, htree⟩ := parse_eq_ok_iff.1 parsed
  rw [← htree]
  have hoperators : s.tree.operatorCount ≤ 1024 := operators_eq_operatorCount hs ▸ hroom
  have hlevels : Expr.NestsWithin 64 s.tree := nestsWithin_of_derives hs
  have hpaths : ∀ path, Expr.IsPath s.tree path → path.length ≤ 1089 := by
    intro path hpath
    have hlength := hpath.length_le
    have hnested := hlevels path hpath
    omega
  refine ⟨hoperators, fun path hpath => ⟨hlevels path hpath, hpaths path hpath⟩, fun x hx => ?_,
    fun b maxSteps => foldWithin_of_paths (isFold_eval b maxSteps) hpaths,
    fun path hpath node hnode => foldWithin_of_paths isFold_written fun rest hrest => ?_,
    foldWithin_of_paths isFold_numberNames hpaths, foldWithin_of_paths isFold_unitPositions hpaths⟩
  · have htoken := mem_tokens_of_literals hx
    have hnumber := isNaN_of_derives hs hclean htoken
    exact ⟨(isUnsigned_of_derives hs hclean htoken).nonneg hnumber, hnumber⟩
  · obtain ⟨longer, hlonger, hle⟩ := hpath.exists_longer hnode hrest
    exact hle.trans (hpaths longer hlonger)

theorem sample_tree_is_bounded :
    ∃ formula, Formula.parse {} "-(2 + abs(3 * x)) / 1e400" = .ok formula ∧
      formula.expr.operatorCount = 3 ∧ formula.expr.literals = [2, 3, 1.0 / 0.0] ∧
      (∀ x ∈ formula.expr.literals, 0 ≤ x ∧ x.isNaN = false) ∧
      (∀ path, Expr.IsPath formula.expr path → path.length ≤ 1089) ∧
      foldWithin writtenNode 1089 formula.expr = some formula.expr.written := by
  obtain ⟨formula, parsed, hformula⟩ :=
    @exists_of_any_parse {} "-(2 + abs(3 * x)) / 1e400" (fun formula =>
      decide (formula.expr.operatorCount = 3 ∧ formula.expr.literals = [2, 3, 1.0 / 0.0]))
      (by decide +kernel)
  obtain ⟨hcount, hliterals⟩ := of_decide_eq_true hformula
  obtain ⟨-, hpaths, hnumbers, -, hwritten, -⟩ := tree_is_bounded parsed
  exact ⟨formula, parsed, hcount, hliterals, hnumbers, fun path hpath => (hpaths path hpath).2,
    hwritten _ (.root _) _ (List.mem_singleton_self _)⟩

end QuantitySurvey.Formula
