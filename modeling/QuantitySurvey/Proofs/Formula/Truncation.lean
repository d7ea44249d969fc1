import QuantitySurvey.Proofs.Formula.Trace

/-! # Truncated traces

The limit on the steps of an evaluation only cuts it off. The runs of one expression under all limits
are one outcome and one list of steps, stopped at the first step for which the limit has no room. So a
run under a limit says what every run under a smaller limit is.

* `exists_run_eq_stopped`: the outcome and the steps behind all runs of an expression.
* `limit_truncates`: a run under a limit, and one under a smaller limit.
-/

set_option autoImplicit false

namespace QuantitySurvey.Formula

/-! ## Stopped runs -/

/-- An outcome with its steps, stopped at the first step beyond a limit. -/
def stopped (limit : Nat) (outcome : Except Failure Float) (steps : List Step) :
    Except Failure Float × List Step :=
  match steps[limit]? with
  | none => (outcome, steps)
  | some s => (.error ((Fault.tooManySteps limit).of s.expression), steps.take limit)

section Stopped

variable {limit : Nat} {outcome : Except Failure Float} {steps : List Step}

theorem stopped_of_le (h : steps.length ≤ limit) :
    stopped limit outcome steps = (outcome, steps) := by
  unfold stopped
  rw [List.getElem?_eq_none h]

theorem stopped_of_lt (h : limit < steps.length) :
    stopped limit outcome steps
      = (.error ((Fault.tooManySteps limit).of steps[limit].expression), steps.take limit) := by
  unfold stopped
  rw [List.getElem?_eq_getElem h]

theorem stopped_steps : (stopped limit outcome steps).2 = steps.take limit := by
  rcases Nat.lt_or_ge limit steps.length with hlt | hle
  · rw [stopped_of_lt hlt]
  · rw [stopped_of_le hle, List.take_of_length_le hle]

theorem stopped_eq_cut : ((cut limit #[] outcome steps).1, (cut limit #[] outcome steps).2.toList)
    = stopped limit outcome steps := by
  rcases Nat.lt_or_ge limit steps.length with hlt | hle
  · obtain ⟨s, hs, hcut⟩ := @cut_of_lt Float limit #[] steps (by simpa using hlt)
      (Nat.zero_le limit) outcome
    rw [List.getElem?_eq_some_iff] at hs
    obtain ⟨_, rfl⟩ := hs
    rw [hcut, stopped_of_lt hlt]
    simp
  · rw [cut_of_le (by simpa using hle), stopped_of_le hle]
    simp

end Stopped

/-- All runs of an expression are one outcome and one list of steps, stopped at the limit. -/
theorem exists_run_eq_stopped (b : Parameter.Bindings) (e : Expr) :
    ∃ outcome steps, ∀ limit, e.run b limit = stopped limit outcome steps := by
  obtain ⟨outcome, steps, hmakes, -⟩ := leaves_eval (b := b) e
  exact ⟨outcome, steps, fun limit => (run_of_makes hmakes limit).trans stopped_eq_cut⟩

/-! ## Smaller limits -/

theorem run_of_length_le {b : Parameter.Bindings} {e : Expr} {m n : Nat} (hle : m ≤ n)
    (hshort : (e.run b n).2.length ≤ m) : e.run b m = e.run b n := by
  obtain ⟨outcome, steps, hrun⟩ := exists_run_eq_stopped b e
  rw [hrun, hrun]
  rw [hrun, stopped_steps, List.length_take] at hshort
  rcases Nat.lt_or_ge n steps.length with hlt | hge
  · -- The larger limit is reached, so that both limits are the same.
    obtain rfl : m = n := by omega
    rfl
  · rw [stopped_of_le hge, stopped_of_le (by omega)]

theorem run_of_lt_length {b : Parameter.Bindings} {e : Expr} {m n : Nat}
    (hlong : m < (e.run b n).2.length) : (e.run b m).1
      = .error ((Fault.tooManySteps m).of (e.run b n).2[m].expression) := by
  obtain ⟨outcome, steps, hrun⟩ := exists_run_eq_stopped b e
  have htaken : (e.run b n).2 = steps.take n := by rw [hrun, stopped_steps]
  have hlt : m < steps.length := by
    rw [htaken, List.length_take] at hlong
    omega
  have hsame : (e.run b n).2[m] = steps[m] := by
    simp only [htaken, List.getElem_take]
  rw [hsame, hrun m, stopped_of_lt hlt]

/-- A run that succeeds had room for all its steps. -/
theorem run_of_ok {b : Parameter.Bindings} {e : Expr} {m n : Nat} (hle : m ≤ n) {x : Float}
    (hok : (e.run b m).1 = .ok x) : e.run b m = e.run b n := by
  rcases Nat.lt_or_ge m (e.run b n).2.length with hlong | hshort
  · rw [run_of_lt_length hlong] at hok
    cases hok
  · exact run_of_length_le hle hshort

theorem evaluate_eq_ok_iff {formula : Formula} {limits : Limits} {b : Parameter.Bindings}
    {evaluation : Evaluation} : formula.evaluate limits b = .ok evaluation ↔
      formula.expr.run b limits.maxSteps = (.ok evaluation.value, evaluation.steps) := by
  obtain ⟨value, steps⟩ := evaluation
  unfold Formula.evaluate
  rcases formula.expr.run b limits.maxSteps with ⟨e | x, made⟩ <;> simp

/-- Under a smaller limit a run records the first steps of the larger run, as many as there is room
for. If that is all of them, the outcome is that of the larger run; if not, it is the failure that
names the expression of the first step without room. So an evaluation that succeeds under some limit
succeeds under every larger one with the same value and steps. -/
theorem limit_truncates {m n : Nat} (hle : m ≤ n) (b : Parameter.Bindings) (e : Expr) :
    (e.run b m).2 = (e.run b n).2.take (min m (e.run b n).2.length) ∧
    ((e.run b n).2.length ≤ m → (e.run b m).1 = (e.run b n).1) ∧
    (∀ hlong : m < (e.run b n).2.length, (e.run b m).1 = .error
      (.formula (e.run b n).2[m].expression s!"evaluation exceeded {m} trace steps")) ∧
    ∀ (source : String) (maxLength : Nat) (evaluation : Evaluation),
      Formula.evaluate ⟨source, e⟩ ⟨maxLength, m⟩ b = .ok evaluation →
      Formula.evaluate ⟨source, e⟩ ⟨maxLength, n⟩ b = .ok evaluation := by
  obtain ⟨outcome, steps, hrun⟩ := exists_run_eq_stopped b e
  refine ⟨?_, fun hshort => by rw [run_of_length_le hle hshort], fun hlong => ?_, ?_⟩
  · rw [hrun m, hrun n, stopped_steps, stopped_steps, ← List.take_eq_take_min, List.take_take,
      Nat.min_eq_left hle]
  · exact run_of_lt_length hlong
  · intro source maxLength evaluation hok
    rw [evaluate_eq_ok_iff] at hok ⊢
    have hvalue : (e.run b m).1 = .ok evaluation.value := congrArg Prod.fst hok
    exact (run_of_ok hle hvalue).symm.trans hok

/-- The division by zero comes after five steps. Under a limit of three it is not reached: the fourth
step is that of the first `width`. -/
theorem sample_limit_truncates :
    let e : Expr := .binary .div (.call .max [.identifier "PI", .literal 2])
      (.binary .mul (.identifier "length") (.binary .sub (.identifier "width") (.identifier "width")))
    let b : Parameter.Bindings :=
      ⟨.ofList [("length", .number 3), ("width", .text "2.5")], none, none⟩
    3 ≤ 9 ∧ (e.run b 9).1 = .error (.formula e.text "division by zero") ∧
      (e.run b 9).2.length = 5 ∧ (e.run b 3).2 = (e.run b 9).2.take 3 ∧
      (e.run b 3).1 = .error (.formula "width" "evaluation exceeded 3 trace steps") := by
  intro e b
  have hfails : (e.run b 9).1 = .error (.formula e.text "division by zero") := by decide +kernel
  have hnames : (e.run b 9).2.map Step.expression
      = ["PI", "max(PI, 2)", "length", "width", "width"] := by decide +kernel
  have hlength : (e.run b 9).2.length = 5 := by simpa using congrArg List.length hnames
  have hlong : 3 < (e.run b 9).2.length := by omega
  have hfourth : (e.run b 9).2[3].expression = "width" := by
    have hget : ((e.run b 9).2.map Step.expression)[3]? = some "width" := by rw [hnames]; rfl
    rw [List.getElem?_map, List.getElem?_eq_getElem hlong] at hget
    exact Option.some.inj hget
  obtain ⟨htaken, -, hstopped, -⟩ := @limit_truncates 3 9 (by decide) b e
  rw [hlength] at htaken
  refine ⟨by decide, hfails, hlength, htaken, ?_⟩
  rw [hstopped hlong, hfourth]
  decide

end QuantitySurvey.Formula
