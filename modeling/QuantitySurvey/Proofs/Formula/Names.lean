import QuantitySurvey.Formula

/-! # The names an evaluation reads

An evaluation reads its bindings only under the names of the expression, and a successful one finds
something under each of them. A formula that was evaluated for an element can therefore be evaluated
from the parameters alone exactly if it reads the type and the material of the element as parameters.

* `eval_congr`: bindings that agree on the names of an expression give the same evaluation.
* `eval_reads`: a successful evaluation has found every name.
* `evaluate_ofParameters_iff`: when the parameters are enough.
-/

set_option autoImplicit false

namespace QuantitySurvey.Formula

/-! ## Names of arguments -/

theorem Expr.mem_numberNamesOf {args : List Expr} {n : String} :
    n ∈ Expr.numberNamesOf args ↔ ∃ a ∈ args, n ∈ a.numberNames := by
  induction args with
  | nil => simp [Expr.numberNamesOf]
  | cons a args ih => simp [Expr.numberNamesOf, ih]

theorem Expr.mem_unitPositionsOf {args : List Expr} {n : String} :
    n ∈ Expr.unitPositionsOf args ↔ ∃ a ∈ args, n ∈ a.unitPositions := by
  induction args with
  | nil => simp [Expr.unitPositionsOf]
  | cons a args ih => simp [Expr.unitPositionsOf, ih]

/-! ## Agreement -/

section Agreement

variable {b b' : Parameter.Bindings} (maxSteps : Nat)

theorem resolve_congr {name : String} (h : b.find? name = b'.find? name) :
    resolve b maxSteps name = resolve b' maxSteps name := by
  unfold resolve
  rw [h]

theorem resolveUnit_congr {name : String} (h : b.find? name = b'.find? name) :
    resolveUnit b name = resolveUnit b' name := by
  unfold resolveUnit
  rw [h]

/-- Bindings agree on what an expression reads under its names. -/
def AgreeOn (b b' : Parameter.Bindings) (e : Expr) : Prop :=
  ∀ n ∈ e.numberNames ++ e.unitPositions, b.find? n = b'.find? n

theorem evalArguments_congr {args : List Expr}
    (ih : ∀ a ∈ args, AgreeOn b b' a → eval b maxSteps a = eval b' maxSteps a)
    (h : ∀ a ∈ args, AgreeOn b b' a) :
    evalArguments b maxSteps args = evalArguments b' maxSteps args := by
  induction args with
  | nil => simp only [evalArguments, evalArgumentsWith]
  | cons a args ihargs =>
    have hrest : evalArguments b maxSteps args = evalArguments b' maxSteps args :=
      ihargs (fun c hc => ih c (List.mem_cons_of_mem a hc))
        (fun c hc => h c (List.mem_cons_of_mem a hc))
    have hhead : eval b maxSteps a = eval b' maxSteps a :=
      ih a List.mem_cons_self (h a List.mem_cons_self)
    cases a with
    | unitName name =>
      have hunit : resolveUnit b name = resolveUnit b' name :=
        resolveUnit_congr (h _ List.mem_cons_self name (by simp [Expr.unitPositions]))
      simp only [evalArguments, evalArgumentsWith, hunit, hrest]
    | _ => simp only [evalArguments, evalArgumentsWith, hhead, hrest]

theorem eval_congr {e : Expr} (h : AgreeOn b b' e) : eval b maxSteps e = eval b' maxSteps e := by
  induction e using Expr.inductionOn with
  | literal x => simp only [eval, evalWith]
  | identifier name =>
    simp only [eval, evalWith]
    exact resolve_congr maxSteps (h name (by simp [Expr.numberNames]))
  | unitName name => simp only [eval, evalWith]
  | negate operand ih =>
    simp only [eval, evalWith, ih h]
  | binary op lhs rhs ihl ihr =>
    have hl : AgreeOn b b' lhs := by
      intro n hn
      exact h n (by simp only [Expr.numberNames, Expr.unitPositions]; grind)
    have hr : AgreeOn b b' rhs := by
      intro n hn
      exact h n (by simp only [Expr.numberNames, Expr.unitPositions]; grind)
    simp only [eval, evalWith, ihl hl, ihr hr]
  | call f args ih =>
    have hargs : ∀ a ∈ args, AgreeOn b b' a := by
      intro a ha n hn
      refine h n ?_
      simp only [Expr.numberNames, Expr.unitPositions, List.mem_append,
        Expr.mem_numberNamesOf, Expr.mem_unitPositionsOf] at hn ⊢
      exact hn.imp (fun hn => ⟨a, ha, hn⟩) (fun hn => ⟨a, ha, hn⟩)
    simp only [eval, evalWith, evalArguments_congr maxSteps ih hargs]

end Agreement

/-! ## Success -/

section Success

variable {α β : Type}

/-- From a trace, a computation succeeds with a value and a longer trace. -/
def Succeeds (x : Traced α) (trace : Array Step) (a : α) (after : Array Step) : Prop :=
  x.run trace = (.ok a, after)

theorem succeeds_pure {a r : α} {trace after : Array Step} :
    Succeeds (pure a : Traced α) trace r after ↔ a = r ∧ trace = after := by
  show (Except.ok a, trace) = (Except.ok r, after) ↔ _
  simp

theorem not_succeeds_throw {e : Failure} {a : α} {trace after : Array Step} :
    ¬ Succeeds (throw e : Traced α) trace a after := by
  intro h
  cases h

theorem succeeds_bind {x : Traced α} {f : α → Traced β} {trace after : Array Step} {r : β} :
    Succeeds (x >>= f) trace r after ↔
      ∃ a mid, Succeeds x trace a mid ∧ Succeeds (f a) mid r after := by
  have hrun : (x >>= f).run trace = ExceptT.bindCont f (x.run trace).1 (x.run trace).2 := rfl
  unfold Succeeds
  rw [hrun]
  cases hx : x.run trace with
  | mk outcome mid =>
    cases outcome with
    | error e =>
      constructor
      · intro h
        cases h
      · rintro ⟨a, mid, h, -⟩
        cases h
    | ok a =>
      constructor
      · intro h
        exact ⟨a, mid, rfl, h⟩
      · rintro ⟨a', mid', h, hf⟩
        cases h
        exact hf

theorem succeeds_lift {x : Except Failure α} {a : α} {trace after : Array Step} :
    Succeeds (ExceptT.mk (pure x)) trace a after ↔ x = .ok a ∧ trace = after := by
  show (x, trace) = (Except.ok a, after) ↔ _
  simp

variable {b : Parameter.Bindings} {maxSteps : Nat}

/-- Everything that an expression names is found: numbers among the bindings and the constants,
units among the bindings and the units. -/
structure Reads (b : Parameter.Bindings) (e : Expr) : Prop where
  numbers : ∀ n ∈ e.numberNames, (b.find? n).isSome ∨ (constant? n).isSome
  units : ∀ n ∈ e.unitPositions, ∃ u, resolveUnit b n = .ok u

theorem resolve_reads {name : String} {x : Float} {trace after : Array Step}
    (h : Succeeds (resolve b maxSteps name) trace x after) :
    (b.find? name).isSome ∨ (constant? name).isSome := by
  unfold resolve at h
  cases hfind : b.find? name with
  | some v => exact .inl rfl
  | none =>
    cases hconstant : constant? name with
    | some y => exact .inr rfl
    | none =>
      rw [hfind, hconstant] at h
      exact absurd h not_succeeds_throw

theorem evalArguments_reads {args : List Expr}
    (ih : ∀ a ∈ args, ∀ trace x after, Succeeds (eval b maxSteps a) trace x after → Reads b a)
    {values : List Argument × List String} {trace after : Array Step}
    (h : Succeeds (evalArguments b maxSteps args) trace values after) :
    ∀ a ∈ args, Reads b a := by
  induction args generalizing values trace after with
  | nil =>
    intro a ha
    cases ha
  | cons a args ihargs =>
    have hhead : Reads b a ∧ ∃ mid values', Succeeds (evalArguments b maxSteps args) mid values' after := by
      cases a with
      | unitName name =>
        simp only [evalArguments, evalArgumentsWith] at h
        obtain ⟨u, mid, hu, h⟩ := succeeds_bind.1 h
        obtain ⟨values', last, hrest, h⟩ := succeeds_bind.1 h
        have hlast : last = after := (succeeds_pure.1 h).2
        refine ⟨⟨by simp [Expr.numberNames], ?_⟩, mid, values', hlast ▸ hrest⟩
        intro n hn
        have hname : n = name := by simpa [Expr.unitPositions] using hn
        rw [hname]
        exact ⟨u, (succeeds_lift.1 hu).1⟩
      | _ =>
        simp only [evalArguments, evalArgumentsWith] at h
        obtain ⟨x, mid, hx, h⟩ := succeeds_bind.1 h
        obtain ⟨values', last, hrest, h⟩ := succeeds_bind.1 h
        have hlast : last = after := (succeeds_pure.1 h).2
        exact ⟨ih _ List.mem_cons_self _ _ _ hx, mid, values', hlast ▸ hrest⟩
    obtain ⟨ha, mid, values', hrest⟩ := hhead
    intro c hc
    rcases List.mem_cons.1 hc with rfl | hc
    · exact ha
    · exact ihargs (fun d hd => ih d (List.mem_cons_of_mem a hd)) hrest c hc

/-- A successful evaluation has found every name. -/
theorem eval_reads {e : Expr} {x : Float} {trace after : Array Step}
    (h : Succeeds (eval b maxSteps e) trace x after) : Reads b e := by
  induction e using Expr.inductionOn generalizing x trace after with
  | literal y => exact ⟨by simp [Expr.numberNames], by simp [Expr.unitPositions]⟩
  | identifier name =>
    simp only [eval, evalWith] at h
    refine ⟨?_, by simp [Expr.unitPositions]⟩
    intro n hn
    have hname : n = name := by simpa [Expr.numberNames] using hn
    rw [hname]
    exact resolve_reads h
  | unitName name =>
    simp only [eval, evalWith] at h
    exact absurd h not_succeeds_throw
  | negate operand ih =>
    simp only [eval, evalWith] at h
    obtain ⟨y, mid, hy, -⟩ := succeeds_bind.1 h
    exact ⟨(ih hy).numbers, (ih hy).units⟩
  | binary op lhs rhs ihl ihr =>
    simp only [eval, evalWith] at h
    obtain ⟨y, mid, hy, h⟩ := succeeds_bind.1 h
    obtain ⟨z, last, hz, -⟩ := succeeds_bind.1 h
    have hl := ihl hy
    have hr := ihr hz
    constructor
    · intro n hn
      exact (List.mem_append.1 hn).elim (hl.numbers n) (hr.numbers n)
    · intro n hn
      exact (List.mem_append.1 hn).elim (hl.units n) (hr.units n)
  | call f args ih =>
    simp only [eval, evalWith] at h
    obtain ⟨values, mid, hvalues, -⟩ := succeeds_bind.1 h
    have hargs := evalArguments_reads (fun a ha _ _ _ => ih a ha) hvalues
    constructor
    · intro n hn
      obtain ⟨a, ha, hn⟩ := Expr.mem_numberNamesOf.1 hn
      exact (hargs a ha).numbers n hn
    · intro n hn
      obtain ⟨a, ha, hn⟩ := Expr.mem_unitPositionsOf.1 hn
      exact (hargs a ha).units n hn

end Success

/-! ## Parameters alone -/

/-- The names that stand for the type and the material of an element. -/
def IsDerived (name : String) : Prop := name = "element_type" ∨ name = "material"

theorem constant?_of_isDerived {name : String} (h : IsDerived name) : constant? name = none := by
  rcases h with rfl | rfl <;> decide +kernel

theorem unit_of_isDerived {name : String} (h : IsDerived name) :
    Measure.Unit.read? name = none := by
  rcases h with rfl | rfl <;> decide +kernel

end QuantitySurvey.Formula

namespace QuantitySurvey.Parameter.Bindings

def ofParameters (p : Parameters) : Bindings := ⟨p, none, none⟩

theorem find?_ofParameters (p : Parameters) (name : String) :
    (ofParameters p).find? name = p.find? name := by
  unfold find? ofParameters
  cases p.find? name <;> simp

/-- Only a derived name that is no parameter stands for something else than the parameters have. -/
theorem find?_eq_parameter {b : Bindings} {name : String}
    (h : Formula.IsDerived name → b.parameters.contains name = true) :
    b.find? name = b.parameters.find? name := by
  cases hfind : b.parameters.find? name with
  | some v => exact find?_of_parameter hfind
  | none =>
    have hno : ¬ Formula.IsDerived name := by
      intro hderived
      have hcontains := h hderived
      rw [SortedMap.contains, hfind] at hcontains
      cases hcontains
    have htype : name ≠ "element_type" := fun h => hno (.inl h)
    have hmaterial : name ≠ "material" := fun h => hno (.inr h)
    simp [find?, hfind, htype, hmaterial]

end QuantitySurvey.Parameter.Bindings

namespace QuantitySurvey.Formula

open Parameter (Bindings)

theorem Reads.contains {p : Parameters} {e : Expr} (h : Reads (.ofParameters p) e) {n : String}
    (hn : n ∈ e.numberNames ++ e.unitPositions) (hderived : IsDerived n) :
    p.contains n = true := by
  cases hfind : p.find? n with
  | some v => simp [SortedMap.contains, hfind]
  | none =>
    exfalso
    have hbound : (Bindings.ofParameters p).find? n = none := by
      rw [Bindings.find?_ofParameters, hfind]
    rcases List.mem_append.1 hn with hn | hn
    · have hfound := h.numbers n hn
      rw [hbound, constant?_of_isDerived hderived] at hfound
      simp at hfound
    · obtain ⟨u, hu⟩ := h.units n hn
      simp only [resolveUnit, hbound, unit_of_isDerived hderived] at hu
      cases hu

theorem evaluate_congr {formula : Formula} {limits : Limits} {b b' : Bindings}
    (h : AgreeOn b b' formula.expr) : formula.evaluate limits b = formula.evaluate limits b' := by
  unfold evaluate Expr.run
  rw [eval_congr limits.maxSteps h]

theorem evaluate_reads {formula : Formula} {limits : Limits} {b : Bindings} {v : Evaluation}
    (h : formula.evaluate limits b = .ok v) : Reads b formula.expr := by
  unfold evaluate Expr.run at h
  cases hrun : (eval b limits.maxSteps formula.expr).run #[] with
  | mk outcome steps =>
    cases outcome with
    | error e =>
      rw [hrun] at h
      cases h
    | ok x => exact eval_reads hrun

/-- A formula that was evaluated for an element is evaluated from its parameters alone, with the same
value and trace, exactly if it reads no type or material that is not among them. -/
theorem evaluate_ofParameters_iff {formula : Formula} {limits : Limits} {b : Bindings}
    {v : Evaluation} (h : formula.evaluate limits b = .ok v) :
    formula.evaluate limits (.ofParameters b.parameters) = .ok v ↔
      ∀ n ∈ formula.expr.numberNames ++ formula.expr.unitPositions, IsDerived n →
        b.parameters.contains n = true := by
  constructor
  · intro hparameters n hn hderived
    exact (evaluate_reads hparameters).contains hn hderived
  · intro hnames
    have hagree : AgreeOn b (.ofParameters b.parameters) formula.expr := by
      intro n hn
      rw [Bindings.find?_ofParameters]
      exact Bindings.find?_eq_parameter (hnames n hn)
    rw [← evaluate_congr hagree]
    exact h

end QuantitySurvey.Formula
