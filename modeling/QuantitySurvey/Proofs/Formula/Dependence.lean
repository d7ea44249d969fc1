import QuantitySurvey.Proofs.Formula.CanonicalText
import QuantitySurvey.Proofs.Formula.Names
import QuantitySurvey.Proofs.Work.Stores

/-! # The names a formula reports

What a formula reports that it reads is all that its evaluation depends on. The two lists of names
that are reported are put in order and have each name once; the evaluation looks names up at the
leaves of the tree. The lists have the same members as the leaves, so bindings that agree on what is
reported give the same value and the same steps, or the same failure after the same steps. What is
done to other parameters, one after another, is never seen.

* `mem_identifiers_iff`, `mem_unitNames_iff`: the reported names are those of the leaves.
* `run_eq_of_sameFor`: bindings that agree on the reported names.
* `Change.sameFor`, `sameFor_edited`: a change under another name, and any number of them.
* `evaluation_depends_on_reported`: both for expressions and formulas.
-/

set_option autoImplicit false

namespace QuantitySurvey.Formula

open Parameter (Bindings Value)

/-! ## Reported names -/

namespace Expr

theorem mem_inOrder {names : List String} {n : String} : n ∈ inOrder names ↔ n ∈ names := by
  simp [inOrder, SortedMap.mem_keys_ofList]

theorem mem_identifiers_iff {e : Expr} {n : String} : n ∈ e.identifiers ↔ n ∈ e.numberNames :=
  mem_inOrder

theorem mem_unitNames_iff {e : Expr} {n : String} : n ∈ e.unitNames ↔ n ∈ e.unitPositions :=
  mem_inOrder

/-- A name is reported as that of a number or that of a unit. -/
def Reports (e : Expr) (n : String) : Prop := n ∈ e.identifiers ∨ n ∈ e.unitNames

instance (e : Expr) (n : String) : Decidable (e.Reports n) :=
  inferInstanceAs (Decidable (_ ∨ _))

end Expr

/-! ## Agreement on them -/

/-- Two bindings give the same under every name that an expression reports. -/
def SameFor (e : Expr) (b b' : Bindings) : Prop := ∀ n, e.Reports n → b.find? n = b'.find? n

theorem SameFor.trans {e : Expr} {b b' b'' : Bindings} (h : SameFor e b b')
    (h' : SameFor e b' b'') : SameFor e b b'' := fun n hn => (h n hn).trans (h' n hn)

theorem SameFor.agreeOn {e : Expr} {b b' : Bindings} (h : SameFor e b b') : AgreeOn b b' e := by
  intro n hn
  refine h n ?_
  rcases List.mem_append.1 hn with hn | hn
  · exact .inl (Expr.mem_identifiers_iff.2 hn)
  · exact .inr (Expr.mem_unitNames_iff.2 hn)

theorem run_eq_of_sameFor {e : Expr} {b b' : Bindings} (maxSteps : Nat) (h : SameFor e b b') :
    e.run b maxSteps = e.run b' maxSteps := by
  unfold Expr.run
  rw [eval_congr maxSteps h.agreeOn]

/-! ## Changes under other names -/

/-- What may be done to the bindings of an element between two evaluations. -/
inductive Change where
  /-- A parameter is added, or its value replaced. -/
  | supply (name : String) (value : Value)
  | withdraw (name : String)
  | retype (elementType : Option String)
  | remake (material : Option String)

namespace Change

/-- The name under which a change can be seen. -/
def name : Change → String
  | supply name _ => name
  | withdraw name => name
  | retype _ => "element_type"
  | remake _ => "material"

def apply (b : Bindings) : Change → Bindings
  | supply name value => { b with parameters := b.parameters.insert name value }
  | withdraw name => { b with parameters := b.parameters.erase name }
  | retype elementType => { b with elementType := elementType }
  | remake material => { b with material := material }

/-- A change is seen under its own name alone. -/
theorem find?_apply (c : Change) (b : Bindings) {n : String} (h : n ≠ c.name) :
    (c.apply b).find? n = b.find? n := by
  cases c with
  | supply name value =>
    have hne : compare n name ≠ .eq := fun he => h (Std.LawfulEqOrd.eq_of_compare he)
    simp only [apply, Bindings.find?, SortedMap.find?_insert_of_ne _ _ hne]
  | withdraw name =>
    have hne : compare n name ≠ .eq := fun he => h (Std.LawfulEqOrd.eq_of_compare he)
    simp only [apply, Bindings.find?, SortedMap.find?_erase_of_ne _ hne]
  | retype elementType =>
    have hne : n ≠ "element_type" := h
    simp only [apply, Bindings.find?, if_neg hne]
  | remake material =>
    have hne : n ≠ "material" := h
    simp only [apply, Bindings.find?, if_neg hne]

theorem sameFor {c : Change} {e : Expr} (h : ¬ e.Reports c.name) (b : Bindings) :
    SameFor e (c.apply b) b := by
  intro n hn
  exact c.find?_apply b fun heq => h (heq ▸ hn)

end Change

/-- The bindings after several changes. -/
def edited (b : Bindings) (changes : List Change) : Bindings := changes.foldl Change.apply b

theorem sameFor_edited {e : Expr} {changes : List Change} (b : Bindings)
    (h : ∀ c ∈ changes, ¬ e.Reports c.name) : SameFor e (edited b changes) b := by
  induction changes generalizing b with
  | nil => exact fun n _ => rfl
  | cons c changes ih =>
    have hrest : SameFor e (edited (c.apply b) changes) (c.apply b) :=
      ih (c.apply b) fun d hd => h d (List.mem_cons_of_mem c hd)
    exact hrest.trans (Change.sameFor (h c List.mem_cons_self) b)

/-! ## Evaluations -/

/-- Two bindings are evaluated alike: a tree has the same outcome and the same steps, and a formula
of that tree the same value and trace or the same failure. -/
structure EvaluatedAlike (e : Expr) (limits : Limits) (b b' : Bindings) : Prop where
  run : e.run b limits.maxSteps = e.run b' limits.maxSteps
  evaluate : ∀ formula : Formula, formula.expr = e →
    formula.evaluate limits b = formula.evaluate limits b'

theorem SameFor.evaluatedAlike {e : Expr} {b b' : Bindings} (limits : Limits)
    (h : SameFor e b b') : EvaluatedAlike e limits b b' :=
  ⟨run_eq_of_sameFor limits.maxSteps h, by
    rintro formula rfl
    exact evaluate_congr h.agreeOn⟩

/-- An evaluation depends on nothing but what stands under the names that its expression reports, so
parameters may be added, removed and changed under other names, and so may the type and the material
of the element. -/
theorem evaluation_depends_on_reported (e : Expr) (limits : Limits) (b : Bindings) :
    (∀ b', (∀ n, n ∈ e.identifiers ∨ n ∈ e.unitNames → b.find? n = b'.find? n) →
      EvaluatedAlike e limits b b') ∧
    ∀ changes : List Change, (∀ c ∈ changes, c.name ∉ e.identifiers ∧ c.name ∉ e.unitNames) →
      EvaluatedAlike e limits (edited b changes) b := by
  constructor
  · intro b' hsame
    exact SameFor.evaluatedAlike limits hsame
  · intro changes hchanges
    refine (sameFor_edited b ?_).evaluatedAlike limits
    intro c hc
    exact not_or.2 (hchanges c hc)

/-- A text parameter that names a unit is reported; the parameter `PI` here is not a constant, and
`width`, a parameter `E` and the metadata of the element are not seen. -/
theorem sample_evaluation_depends_on_reported :
    let b : Bindings :=
      ⟨.ofList [("PI", .number 3), ("length", .text " 2.5 "), ("unit", .text "mm")], none, none⟩
    let b' : Bindings := ⟨b.parameters.insert "E" (.text "none"), some "wall", some "concrete"⟩
    let changes : List Change :=
      [.supply "width" (.number 4), .withdraw "height", .retype (some "slab"), .remake none]
    ∃ formula, Formula.parse {} "to_m(length * PI, unit)" = .ok formula ∧
      formula.expr.unitNames = ["unit"] ∧ EvaluatedAlike formula.expr {} b b' ∧
      EvaluatedAlike formula.expr {} (edited b changes) b := by
  intro b b' changes
  obtain ⟨formula, hparse, hcheck⟩ := @exists_of_any_parse {} "to_m(length * PI, unit)"
    (fun formula => decide (formula.expr.identifiers = ["PI", "length"] ∧
      formula.expr.unitNames = ["unit"]))
    (by decide +kernel)
  obtain ⟨hidentifiers, hunits⟩ := of_decide_eq_true hcheck
  have hdepends := evaluation_depends_on_reported formula.expr {} b
  rw [hidentifiers, hunits] at hdepends
  refine ⟨formula, hparse, hunits, hdepends.1 b' ?_, hdepends.2 changes ?_⟩
  · intro n hn
    simp only [List.mem_cons, List.not_mem_nil, or_false] at hn
    rcases hn with (rfl | rfl) | rfl <;> decide +kernel
  · decide +kernel

end QuantitySurvey.Formula
