import QuantitySurvey.Proofs.Formula.WellFormed

/-! # How evaluations fail

The evaluation of a well formed tree does not fail for the number or the kinds of arguments: the
parser has seen to them. What is left depends on the bindings and on the limit. On other trees the
functions check the number of arguments themselves before they look at any.

* `IsRunFailure`: the failures that are left.
* `endsIn_eval`: the evaluation of a well formed tree has no others.
* `applyOr_eq_apply`: what a function would make of an absent argument is never asked for.
* `formula_runs_well_formed`: formulas that were read, and any trees.
-/

set_option autoImplicit false

namespace QuantitySurvey.Formula

/-! ## Failures of a run -/

/-- Faults that only show when a formula is evaluated. -/
def Fault.isOfRun : Fault → Bool
  | divisionByZero | unresolved | notNumeric _ | negativeRoot | invalidPrecision
  | tooManySteps _ => true
  | _ => false

/-- Faults of a name that stands for no number. -/
def Fault.isOfLookup : Fault → Bool
  | unresolved | notNumeric _ => true
  | _ => false

/-- Faults of what is done with numbers once they are found. -/
def Fault.isOfOperation : Fault → Bool
  | divisionByZero | negativeRoot | invalidPrecision | tooManySteps _ => true
  | _ => false

theorem Fault.isOfRun_iff {fault : Fault} :
    fault.isOfRun = true ↔ fault.isOfLookup = true ∨ fault.isOfOperation = true := by
  cases fault <;> simp [isOfRun, isOfLookup, isOfOperation]

/-- Faults of the number and the kinds of arguments, and of units in the place of numbers. -/
def Fault.isOfArguments : Fault → Bool
  | wrongArity .. | numberExpected .. | unitExpected .. | unitNameExpected | unitAsNumber => true
  | _ => false

/-- What the evaluation of a well formed tree may fail with. -/
inductive IsRunFailure : Failure → Prop
  | fault (expression : String) {fault : Fault} (h : fault.isOfRun = true) :
      IsRunFailure (fault.of expression)
  | unit (source target reason : String) : IsRunFailure (.unit source target reason)

/-- What may go wrong with values that are there: in operations, functions and conversions. -/
inductive IsOperationFailure : Failure → Prop
  | fault (expression : String) {fault : Fault} (h : fault.isOfOperation = true) :
      IsOperationFailure (fault.of expression)
  | unit (source target reason : String) : IsOperationFailure (.unit source target reason)

theorem IsOperationFailure.isRunFailure {e : Failure} (h : IsOperationFailure e) :
    IsRunFailure e := by
  cases h with
  | fault x hfault => exact .fault x (Fault.isOfRun_iff.2 (.inr hfault))
  | unit source target reason => exact .unit source target reason

/-! ## How reasons begin -/

def BeginsWith (s start : String) : Prop := start.toList <+: s.toList

instance (s start : String) : Decidable (BeginsWith s start) :=
  inferInstanceAs (Decidable (start.toList <+: s.toList))

theorem BeginsWith.append {s start : String} (h : BeginsWith s start) (t : String) :
    BeginsWith (s ++ t) start := by
  rw [BeginsWith, String.toList_append]
  exact List.IsPrefix.trans h (List.prefix_append _ _)

/-- Texts that begin differently are different. -/
theorem BeginsWith.ne {s t p q : String} (hs : BeginsWith s p) (ht : BeginsWith t q)
    (hlength : p.toList.length = q.toList.length) (hne : p.toList ≠ q.toList) : s ≠ t := by
  rintro rfl
  exact hne ((List.prefix_of_prefix_length_le hs ht hlength.le).eq_of_length hlength)

namespace Fault

/-- The first letters of the reasons of runs. -/
def runOpenings : List String := ["div", "unr", "par", "squ", "pre", "eva"]

/-- The first letters of the reasons that are about arguments. The numbers of arguments are told
with the name of the function first. -/
def argumentOpenings : List String :=
  ["arg", "exp", "a u", "sqr", "pow", "abs", "rou", "cei", "flo", "max", "min", "to_"]

theorem openings_apart : ∀ p ∈ runOpenings, ∀ q ∈ argumentOpenings,
    p.toList.length = q.toList.length ∧ p.toList ≠ q.toList := by
  decide +kernel

/-- The first letters of the reasons at names. -/
def lookupOpenings : List String := ["unr", "par"]

/-- The first letters of the reasons of operations. -/
def operationOpenings : List String := ["div", "squ", "pre", "eva"]

theorem operations_apart : ∀ p ∈ operationOpenings, ∀ q ∈ lookupOpenings,
    p.toList.length = q.toList.length ∧ p.toList ≠ q.toList := by
  decide +kernel

theorem beginsWith_of_isOfLookup {fault : Fault} (h : fault.isOfLookup = true) :
    ∃ start ∈ lookupOpenings, BeginsWith fault.reason start := by
  cases fault with
  | unresolved => exact ⟨"unr", by decide, by decide +kernel⟩
  | notNumeric shown =>
    have hstart : BeginsWith "parameter has no numeric value (got " "par" := by decide +kernel
    exact ⟨"par", by decide, (hstart.append _).append _⟩
  | _ => cases h

theorem beginsWith_of_isOfOperation {fault : Fault} (h : fault.isOfOperation = true) :
    ∃ start ∈ operationOpenings, BeginsWith fault.reason start := by
  cases fault with
  | divisionByZero => exact ⟨"div", by decide, by decide +kernel⟩
  | negativeRoot => exact ⟨"squ", by decide, by decide +kernel⟩
  | invalidPrecision => exact ⟨"pre", by decide, by decide +kernel⟩
  | tooManySteps limit =>
    have hstart : BeginsWith "evaluation exceeded " "eva" := by decide +kernel
    exact ⟨"eva", by decide, (hstart.append _).append _⟩
  | _ => cases h

theorem beginsWith_of_isOfRun {fault : Fault} (h : fault.isOfRun = true) :
    ∃ start ∈ runOpenings, BeginsWith fault.reason start := by
  have hlookup : lookupOpenings ⊆ runOpenings := by decide
  have hoperation : operationOpenings ⊆ runOpenings := by decide
  rcases isOfRun_iff.1 h with h | h
  · obtain ⟨start, hstart, hreason⟩ := beginsWith_of_isOfLookup h
    exact ⟨start, hlookup hstart, hreason⟩
  · obtain ⟨start, hstart, hreason⟩ := beginsWith_of_isOfOperation h
    exact ⟨start, hoperation hstart, hreason⟩

theorem beginsWith_name (f : Function) : ∃ start ∈ argumentOpenings, BeginsWith f.name start := by
  cases f <;> decide +kernel

theorem beginsWith_arityReason {f : Function} {start : String} (h : BeginsWith f.name start)
    (given : Nat) : BeginsWith (arityReason f given) start := by
  simp only [arityReason]
  by_cases hsame : f.minArity = f.maxArity
  · rw [if_pos hsame]
    exact (((h.append _).append _).append _).append _
  · rw [if_neg hsame]
    exact (((((h.append _).append _).append _).append _).append _).append _

theorem beginsWith_of_isOfArguments {fault : Fault} (h : fault.isOfArguments = true) :
    ∃ start ∈ argumentOpenings, BeginsWith fault.reason start := by
  cases fault with
  | wrongArity f given =>
    obtain ⟨start, hmem, hstart⟩ := beginsWith_name f
    exact ⟨start, hmem, beginsWith_arityReason hstart given⟩
  | unitNameExpected => exact ⟨"exp", by decide, by decide +kernel⟩
  | unitAsNumber => exact ⟨"a u", by decide, by decide +kernel⟩
  | numberExpected position given =>
    have hstart : BeginsWith "argument " "arg" := by decide +kernel
    exact ⟨"arg", by decide, (((hstart.append _).append _).append _).append _⟩
  | unitExpected position given =>
    have hstart : BeginsWith "argument " "arg" := by decide +kernel
    exact ⟨"arg", by decide, ((hstart.append _).append _).append _⟩
  | _ => cases h

/-- What is said of arguments is never said of a run. -/
theorem reason_ne {run args : Fault} (hrun : run.isOfRun = true)
    (hargs : args.isOfArguments = true) : run.reason ≠ args.reason := by
  obtain ⟨p, hp, hpre⟩ := beginsWith_of_isOfRun hrun
  obtain ⟨q, hq, hqre⟩ := beginsWith_of_isOfArguments hargs
  obtain ⟨hlength, hne⟩ := openings_apart p hp q hq
  exact hpre.ne hqre hlength hne

end Fault

theorem IsRunFailure.ne_of_isOfArguments {e : Failure} (h : IsRunFailure e) {fault : Fault}
    (hargs : fault.isOfArguments = true) (expression : String) : e ≠ fault.of expression := by
  cases h with
  | fault x hrun =>
    intro hsame
    exact Fault.reason_ne hrun hargs (Failure.formula.inj hsame).2
  | unit source target reason =>
    intro hsame
    cases hsame

theorem IsRunFailure.reportedFor {e : Failure} (h : IsRunFailure e) (call : Expr) :
    IsRunFailure (reportedFor call e) := by
  cases h with
  | fault x hrun => exact .fault call.text hrun
  | unit source target reason => exact .unit source target reason

/-! ## What functions read of their arguments -/

namespace Function

/-- The value of a function on so many arguments, of which it asks for numbers and units by their
positions. -/
def valueFrom (f : Function) (number : Nat → Except Failure Float)
    (unit : Nat → Except Failure Measure.Unit) (count : Nat) : Except Failure Float := do
  let x ← number 0
  match f with
  | sqrt =>
    if x < 0 then
      let given := Decimal.text x
      .error (Fault.negativeRoot.of s!"sqrt({given})")
    else return x.sqrt
  | abs => return x.abs
  | ceil => return x.ceil
  | floor => return x.floor
  | pow => return x.pow (← number 1)
  | max => return larger x (← number 1)
  | min => return smaller x (← number 1)
  | round =>
    if count < 2 then return roundTo x 0
    else return roundTo x (← precision (← number 1))
  | toMm => Measure.convert x (← unit 1) .millimetre
  | toM => Measure.convert x (← unit 1) .metre
  | toM2 => Measure.convert x (← unit 1) .squareMetre
  | toM3 => Measure.convert x (← unit 1) .cubicMetre

theorem valueOn_eq_valueFrom (f : Function) (args : List Argument) :
    f.valueOn args = f.valueFrom (f.numberAt args) (f.unitAt args) args.length := by
  cases f <;> rfl

section Reading

variable {f : Function} {number number' : Nat → Except Failure Float}
  {unit unit' : Nat → Except Failure Measure.Unit} {count : Nat}

/-- With enough arguments a function only asks for those that are there. -/
theorem valueFrom_congr (enough : f.minArity ≤ count) (hnumber : ∀ i < count, number i = number' i)
    (hunit : ∀ i < count, unit i = unit' i) :
    f.valueFrom number unit count = f.valueFrom number' unit' count := by
  have hfirst : number 0 = number' 0 := by
    refine hnumber 0 (Nat.lt_of_lt_of_le ?_ enough)
    cases f <;> decide
  unfold valueFrom
  rw [hfirst]
  cases f with
  | sqrt => rfl
  | abs => rfl
  | ceil => rfl
  | floor => rfl
  | round =>
    by_cases hshort : count < 2
    · simp only [hshort, if_true]
    · simp only [hshort, if_false, hnumber 1 (by omega)]
  | pow => simp only [hnumber 1 enough]
  | max => simp only [hnumber 1 enough]
  | min => simp only [hnumber 1 enough]
  | toMm => simp only [hunit 1 enough]
  | toM => simp only [hunit 1 enough]
  | toM2 => simp only [hunit 1 enough]
  | toM3 => simp only [hunit 1 enough]

theorem precision_error {x : Float} {e : Failure} (h : precision x = .error e) :
    IsOperationFailure e := by
  unfold precision at h
  split at h
  · cases h
  · cases h
    exact .fault _ rfl

theorem convert_error {x : Float} {source target : Measure.Unit} {e : Failure}
    (h : Measure.convert x source target = .error e) : IsOperationFailure e := by
  unfold Measure.convert at h
  split at h
  · cases h
  · split at h
    · cases h
    · cases h
      exact .unit _ _ _

/-- With enough arguments of the right kinds, what is left to fail are roots, precisions and
conversions. -/
theorem valueFrom_error {e : Failure} (h : f.valueFrom number unit count = .error e)
    (enough : f.minArity ≤ count)
    (hnumber : ∀ i < count, f.parameters[i]? = some .number → ∃ x, number i = .ok x)
    (hunit : ∀ i < count, f.parameters[i]? = some .unit → ∃ u, unit i = .ok u) :
    IsOperationFailure e := by
  obtain ⟨x, hx⟩ : ∃ x, number 0 = .ok x := by
    refine hnumber 0 (Nat.lt_of_lt_of_le ?_ enough) ?_
    · cases f <;> decide
    · cases f <;> rfl
  have hvalue {target : Measure.Unit} (hsecond : 1 < count → ∃ u, unit 1 = .ok u)
      (htwo : 1 < count) (hto : (do Measure.convert x (← unit 1) target) = .error e) :
      IsOperationFailure e := by
    obtain ⟨u, hu⟩ := hsecond htwo
    rw [hu] at hto
    exact convert_error hto
  have harith {g : Float → Float} (hsecond : 1 < count → ∃ y, number 1 = .ok y)
      (htwo : 1 < count) (hg : (do return g (← number 1)) = (.error e : Except Failure Float)) :
      IsOperationFailure e := by
    obtain ⟨y, hy⟩ := hsecond htwo
    rw [hy] at hg
    cases hg
  unfold valueFrom at h
  rw [hx] at h
  cases f with
  | abs => cases h
  | ceil => cases h
  | floor => cases h
  | sqrt =>
    by_cases hneg : x < 0
    · simp only [bind, Except.bind, hneg, if_true] at h
      cases h
      exact .fault _ rfl
    · simp only [bind, Except.bind, hneg, if_false] at h
      cases h
  | round =>
    by_cases hshort : count < 2
    · simp only [bind, Except.bind, hshort, if_true] at h
      cases h
    · obtain ⟨y, hy⟩ := hnumber 1 (by omega) rfl
      simp only [bind, Except.bind, hshort, if_false, hy] at h
      cases hprecision : precision y with
      | error e' =>
        rw [hprecision] at h
        cases h
        exact precision_error hprecision
      | ok n =>
        rw [hprecision] at h
        cases h
  | pow => exact harith (fun h => hnumber 1 h rfl) enough h
  | max => exact harith (fun h => hnumber 1 h rfl) enough h
  | min => exact harith (fun h => hnumber 1 h rfl) enough h
  | toMm => exact hvalue (fun h => hunit 1 h rfl) enough h
  | toM => exact hvalue (fun h => hunit 1 h rfl) enough h
  | toM2 => exact hvalue (fun h => hunit 1 h rfl) enough h
  | toM3 => exact hvalue (fun h => hunit 1 h rfl) enough h

end Reading

/-- What a function makes of its arguments, with a failure of choice for those that it asks for and
are not there. -/
def numberOr (missing : Failure) (f : Function) (args : List Argument) (i : Nat) :
    Except Failure Float :=
  if i < args.length then f.numberAt args i else .error missing

def unitOr (missing : Failure) (f : Function) (args : List Argument) (i : Nat) :
    Except Failure Measure.Unit :=
  if i < args.length then f.unitAt args i else .error missing

def applyOr (missing : Failure) (f : Function) (args : List Argument) : Except Failure Float :=
  if args.length < f.minArity || f.maxArity < args.length then
    .error ((Fault.wrongArity f args.length).of f.name)
  else f.valueFrom (f.numberOr missing args) (f.unitOr missing args) args.length

theorem applyOr_eq_apply (missing : Failure) : applyOr missing = apply := by
  funext f args
  unfold applyOr apply
  split
  · rfl
  · next harity =>
    simp only [Bool.or_eq_true, decide_eq_true_eq, not_or, not_lt] at harity
    rw [valueOn_eq_valueFrom]
    refine valueFrom_congr harity.1 (fun i hi => ?_) fun i hi => ?_
    · exact if_pos hi
    · exact if_pos hi

end Function

/-! ## Kinds of arguments -/

def Argument.kind : Argument → ArgumentKind
  | number _ => .number
  | unit _ => .unit

/-- The kind of the value that an argument comes to. -/
def Expr.argumentKind : Expr → ArgumentKind
  | unitName _ => .unit
  | _ => .number

theorem Function.numberAt_of_kind {f : Function} {args : List Argument} {i : Nat}
    (h : (args.map Argument.kind)[i]? = some .number) : ∃ x, f.numberAt args i = .ok x := by
  rw [List.getElem?_map, Option.map_eq_some_iff] at h
  obtain ⟨a, ha, hkind⟩ := h
  cases a with
  | number x => exact ⟨x, by rw [numberAt, ha]⟩
  | unit u => cases hkind

theorem Function.unitAt_of_kind {f : Function} {args : List Argument} {i : Nat}
    (h : (args.map Argument.kind)[i]? = some .unit) : ∃ u, f.unitAt args i = .ok u := by
  rw [List.getElem?_map, Option.map_eq_some_iff] at h
  obtain ⟨a, ha, hkind⟩ := h
  cases a with
  | number x => cases hkind
  | unit u => exact ⟨u, by rw [unitAt, ha]⟩

theorem Function.apply_error {f : Function} {args : List Argument} {e : Failure}
    (h : f.apply args = .error e) (enough : f.minArity ≤ args.length)
    (kinds : args.map Argument.kind = f.parameters.take args.length)
    (notMore : args.length ≤ f.maxArity) : IsOperationFailure e := by
  have harity : ¬ (args.length < f.minArity || f.maxArity < args.length) = true := by
    simp [enough, notMore]
  have hkind : ∀ i < args.length, (args.map Argument.kind)[i]? = f.parameters[i]? := by
    intro i hi
    rw [kinds, List.getElem?_take_of_lt hi]
  rw [apply, if_neg harity, valueOn_eq_valueFrom] at h
  refine valueFrom_error h enough (fun i hi hi' => ?_) fun i hi hi' => ?_
  · exact numberAt_of_kind ((hkind i hi).trans hi')
  · exact unitAt_of_kind ((hkind i hi).trans hi')

/-- The arguments of a well formed call have the kinds of its positions. -/
theorem argumentKinds_of_wellFormed {f : Function} {args : List Expr}
    (notMore : args.length ≤ f.maxArity)
    (units : ∀ a, (ArgumentKind.unit, a) ∈ f.parameters.zip args → ∃ name, a = .unitName name)
    (numbers : ∀ a, (ArgumentKind.number, a) ∈ f.parameters.zip args → a.IsWellFormed) :
    args.map Expr.argumentKind = f.parameters.take args.length := by
  have hfits : ∀ p ∈ f.parameters.zip args, p.2.argumentKind = p.1 := by
    rintro ⟨kind, a⟩ hp
    cases kind with
    | unit =>
      obtain ⟨name, rfl⟩ := units a hp
      rfl
    | number => cases numbers a hp <;> rfl
  have hlength : args.length ≤ f.parameters.length := notMore
  calc args.map Expr.argumentKind
      = ((f.parameters.zip args).map Prod.snd).map Expr.argumentKind := by
        rw [List.map_snd_zip hlength]
    _ = (f.parameters.zip args).map Prod.fst := by
        rw [List.map_map]
        exact List.map_congr_left hfits
    _ = f.parameters.take args.length := by
        rw [List.zip_eq_zip_take_min, min_eq_right hlength, List.take_length,
          List.map_fst_zip (by simp)]

/-! ## Failures of evaluations -/

section Runs

variable {α β : Type}

/-- From every trace, a computation comes to a result as described or fails as a run may. -/
def EndsIn (x : Traced α) (post : α → Prop) : Prop :=
  ∀ trace, match (x.run trace).1 with
    | .ok a => post a
    | .error e => IsRunFailure e

theorem endsIn_pure {a : α} {post : α → Prop} (h : post a) : EndsIn (pure a : Traced α) post :=
  fun _ => h

theorem endsIn_throw {e : Failure} {post : α → Prop} (h : IsRunFailure e) :
    EndsIn (throw e : Traced α) post :=
  fun _ => h

theorem endsIn_lift {x : Except Failure α} {post : α → Prop}
    (hfailed : ∀ e, x = .error e → IsRunFailure e) (hok : ∀ a, x = .ok a → post a) :
    EndsIn (ExceptT.mk (pure x)) post := by
  cases x with
  | error e => exact fun _ => hfailed e rfl
  | ok a => exact fun _ => hok a rfl

theorem EndsIn.bind {x : Traced α} {f : α → Traced β} {mid : α → Prop} {post : β → Prop}
    (hx : EndsIn x mid) (hf : ∀ a, mid a → EndsIn (f a) post) : EndsIn (x >>= f) post := by
  intro trace
  have hrun : (x >>= f).run trace = ExceptT.bindCont f (x.run trace).1 (x.run trace).2 := rfl
  have htrace := hx trace
  rw [hrun]
  cases hout : (x.run trace).1 with
  | error e =>
    rw [hout] at htrace
    exact htrace
  | ok a =>
    rw [hout] at htrace
    exact hf a htrace _

theorem endsIn_record (maxSteps : Nat) (s : Step) : EndsIn (record maxSteps s) fun _ => True := by
  have hget : EndsIn (get : Traced (Array Step)) fun _ => True := fun _ => trivial
  refine hget.bind fun trace _ => ?_
  split
  · have hlong : EndsIn (throw ((Fault.tooManySteps maxSteps).of s.expression))
        fun _ : PUnit => True := endsIn_throw (.fault _ rfl)
    exact hlong.bind fun _ _ => fun _ => trivial
  · exact fun _ => trivial

variable {b : Parameter.Bindings} {maxSteps : Nat}

theorem endsIn_resolve (name : String) : EndsIn (resolve b maxSteps name) fun _ => True := by
  have hrecorded (s : Step) (x : Float) :
      EndsIn (do record maxSteps s; return x) fun _ => True :=
    (endsIn_record maxSteps s).bind fun _ _ => endsIn_pure trivial
  unfold resolve
  split
  · split
    · exact hrecorded _ _
    · exact endsIn_throw (.fault _ rfl)
  · split
    · exact hrecorded _ _
    · exact endsIn_throw (.fault _ rfl)

theorem resolveUnit_error {name : String} {e : Failure} (h : resolveUnit b name = .error e) :
    IsOperationFailure e := by
  unfold resolveUnit at h
  split at h
  · split at h
    · cases h
    · cases h
      exact .unit _ _ _
  · split at h
    · cases h
    · cases h
      exact .unit _ _ _

theorem operate_error {op : Operator} {lhs rhs : Expr} {x y : Float} {e : Failure}
    (h : operate op lhs rhs x y = .error e) : IsOperationFailure e := by
  cases op with
  | div =>
    simp only [operate] at h
    split at h
    · cases h
      exact .fault _ rfl
    · cases h
  | _ => cases h

/-- Arguments come to values of their kinds. -/
theorem endsIn_evalArguments {args : List Expr}
    (ih : ∀ a ∈ args, a.argumentKind = .number → EndsIn (eval b maxSteps a) fun _ => True) :
    EndsIn (evalArguments b maxSteps args)
      fun r => r.1.map Argument.kind = args.map Expr.argumentKind := by
  induction args with
  | nil =>
    simp only [evalArguments, evalArgumentsWith]
    exact endsIn_pure rfl
  | cons a args ihargs =>
    have hrest := ihargs fun c hc => ih c (List.mem_cons_of_mem a hc)
    cases a with
    | unitName name =>
      simp only [evalArguments, evalArgumentsWith]
      have hunit : EndsIn (ExceptT.mk (pure (resolveUnit b name))) fun _ => True :=
        endsIn_lift (fun e he => (resolveUnit_error he).isRunFailure) fun _ _ => trivial
      refine hunit.bind fun u _ => ?_
      refine hrest.bind fun r hr => endsIn_pure ?_
      rw [List.map_cons, List.map_cons, hr]
      rfl
    | _ =>
      simp only [evalArguments, evalArgumentsWith]
      refine (ih _ List.mem_cons_self rfl).bind fun x _ => ?_
      refine hrest.bind fun r hr => endsIn_pure ?_
      rw [List.map_cons, List.map_cons, hr]
      rfl

/-- The evaluation of a well formed tree fails as a run may, if it fails. -/
theorem endsIn_eval {e : Expr} (h : e.IsWellFormed) : EndsIn (eval b maxSteps e) fun _ => True := by
  induction h with
  | literal x =>
    simp only [eval, evalWith]
    exact endsIn_pure trivial
  | identifier name =>
    simp only [eval, evalWith]
    exact endsIn_resolve name
  | negate h ih =>
    simp only [eval, evalWith]
    exact ih.bind fun x _ => endsIn_pure trivial
  | binary op left right ihl ihr =>
    simp only [eval, evalWith]
    refine ihl.bind fun x _ => ihr.bind fun y _ => ?_
    exact endsIn_lift (fun e he => (operate_error he).isRunFailure) fun _ _ => trivial
  | @call f args enough notMore units numbers ih =>
    have hkinds := argumentKinds_of_wellFormed notMore units numbers
    simp only [eval, evalWith]
    have hargs : EndsIn (evalArguments b maxSteps args)
        fun r => r.1.map Argument.kind = args.map Expr.argumentKind := by
      refine endsIn_evalArguments fun a ha hnumber => ?_
      have hlength : args.length ≤ f.parameters.length := notMore
      rw [← List.map_snd_zip hlength] at ha
      obtain ⟨⟨kind, a⟩, hmem, rfl⟩ := List.mem_map.1 ha
      cases kind with
      | number => exact ih a hmem
      | unit =>
        obtain ⟨name, rfl⟩ := units a hmem
        cases hnumber
    refine hargs.bind ?_
    rintro ⟨values, details⟩ hvalues
    have hlength : values.length = args.length := by
      simpa using congrArg List.length hvalues
    rw [hkinds, ← hlength] at hvalues
    cases happly : f.apply values with
    | error failure =>
      refine endsIn_throw (IsRunFailure.reportedFor ?_ _)
      exact (Function.apply_error happly (by rwa [hlength]) hvalues
        (by rwa [hlength])).isRunFailure
    | ok x => exact (endsIn_record maxSteps _).bind fun _ _ => endsIn_pure trivial

theorem evaluate_error {formula : Formula} {limits : Limits} {e : Failure}
    (wellFormed : formula.expr.IsWellFormed) (h : formula.evaluate limits b = .error e) :
    IsRunFailure e := by
  have heval : EndsIn (eval b limits.maxSteps formula.expr) fun _ => True := endsIn_eval wellFormed
  have hends := heval #[]
  unfold Formula.evaluate Expr.run at h
  cases hrun : (eval b limits.maxSteps formula.expr).run #[] with
  | mk outcome steps =>
    rw [hrun] at h hends
    cases outcome with
    | ok x => cases h
    | error e' =>
      cases h
      exact hends

end Runs

/-! ## The main statement -/

/-- A formula that was read is a well formed tree, and under all bindings and limits it fails only
as a run may: never for the number or the kinds of arguments, or for the name of a unit in the place
of a number. Trees of any shape, which no formula may stand for, are evaluated in the same way
whatever an argument that is not there would be read as. -/
theorem formula_runs_well_formed :
    (∀ {limits : Limits} {source : String} {formula : Formula},
      Formula.parse limits source = .ok formula →
      formula.expr.IsWellFormed ∧
      ∀ (limits' : Limits) (b : Parameter.Bindings) (e : Failure),
        formula.evaluate limits' b = .error e →
        IsRunFailure e ∧ ∀ (x : String) (fault : Fault), fault.isOfArguments = true →
          e ≠ fault.of x) ∧
    ∀ (missing : Failure) (b : Parameter.Bindings) (maxSteps : Nat) (e : Expr),
      evalWith (Function.applyOr missing) b maxSteps e = eval b maxSteps e := by
  refine ⟨fun parsed => ⟨wellFormed_of_parse parsed, fun limits' b e he => ?_⟩, ?_⟩
  · have hrun := evaluate_error (wellFormed_of_parse parsed) he
    exact ⟨hrun, fun x fault hfault => hrun.ne_of_isOfArguments hfault x⟩
  · intro missing b maxSteps e
    rw [Function.applyOr_eq_apply]

theorem sample_formula_runs :
    let b : Parameter.Bindings :=
      ⟨.ofList [("length", .number 12), ("depth", .number 0)], none, none⟩
    let short : Expr := .call .max [.literal 1]
    (∃ formula, Formula.parse {} "round(length / to_m(depth, mm), 2)" = .ok formula ∧
      formula.expr.IsWellFormed ∧
      formula.evaluate {} b = .error (Fault.divisionByZero.of "length / to_m(depth, mm)") ∧
      IsRunFailure (Fault.divisionByZero.of "length / to_m(depth, mm)")) ∧
    evalWith (Function.applyOr (.internal "no such argument")) b 10 short = eval b 10 short := by
  intro b short
  obtain ⟨hparsed, hshort⟩ := formula_runs_well_formed
  obtain ⟨formula, hparse, hcheck⟩ := @exists_of_any_parse {} "round(length / to_m(depth, mm), 2)"
    (fun formula => decide (formula.evaluate {} b
      = .error (Fault.divisionByZero.of "length / to_m(depth, mm)"))) (by decide +kernel)
  have hfailed := of_decide_eq_true hcheck
  obtain ⟨hwell, hruns⟩ := hparsed hparse
  exact ⟨⟨formula, hparse, hwell, hfailed, (hruns {} b _ hfailed).1⟩, hshort _ b 10 short⟩

end QuantitySurvey.Formula
