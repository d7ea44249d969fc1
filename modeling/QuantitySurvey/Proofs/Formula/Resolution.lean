import QuantitySurvey.Proofs.Formula.Dependence
import QuantitySurvey.Proofs.Formula.RunFailures
import QuantitySurvey.Proofs.Parameter.Validation

/-! # Validated parameters resolve

A schema and an evaluation read parameters on their own. If every name that a formula reports as a
number is required and declared as one, or is a constant that nothing hides, then what the schema
accepts is all that the evaluation looks up. It may still divide by zero, or meet a unit that it
does not know, but it does not fail at a name.

* `IsUnread`: the failures at a name, each with the reason why there is no number under it.
* `failsAs_eval`: an evaluation fails at a name of its tree, or for another reason. The texts of
  the failures keep the two apart.
* `resolves_of_validate`: after a validation there is no failure at a name.
-/

set_option autoImplicit false

namespace QuantitySurvey.Formula

open Parameter (Bindings Schema Value)

/-! ## Failures at a name -/

/-- The failures at one of some names: nothing is found under it, or something that is no number. -/
inductive IsUnread (b : Bindings) (names : List String) : Failure → Prop
  | unresolved {n : String} (named : n ∈ names) (unbound : b.find? n = none)
      (unknown : constant? n = none) : IsUnread b names (Fault.unresolved.of n)
  | notNumeric {n : String} {v : Value} (named : n ∈ names) (bound : b.find? n = some v)
      (unread : v.asNumber? = none) : IsUnread b names ((Fault.notNumeric v.shown).of n)

/-- A failure that does not read as one at a name. -/
def IsElsewhere (e : Failure) : Prop :=
  ∀ (x : String) (fault : Fault), fault.isOfLookup = true → e ≠ fault.of x

theorem IsElsewhere.reportedFor {e : Failure} (h : IsElsewhere e) (call : Expr) :
    IsElsewhere (reportedFor call e) := by
  cases e with
  | formula x reason =>
    intro y fault hfault hsame
    refine h x fault hfault ?_
    rw [Fault.of, ← (Failure.formula.inj hsame).2]
  | _ => exact h

/-! ## What the reasons say -/

theorem IsOperationFailure.isElsewhere {e : Failure} (h : IsOperationFailure e) :
    IsElsewhere e := by
  intro y lookup hlookup hsame
  cases h with
  | fault x hfault =>
    obtain ⟨p, hp, hpre⟩ := Fault.beginsWith_of_isOfOperation hfault
    obtain ⟨q, hq, hqre⟩ := Fault.beginsWith_of_isOfLookup hlookup
    obtain ⟨hlength, hne⟩ := Fault.operations_apart p hp q hq
    exact hpre.ne hqre hlength hne (Failure.formula.inj hsame).2
  | unit source target reason => cases hsame

theorem isElsewhere_of_isOfArguments {fault : Fault} (h : fault.isOfArguments = true)
    (x : String) : IsElsewhere (fault.of x) := by
  intro y lookup hlookup hsame
  have hrun : lookup.isOfRun = true := Fault.isOfRun_iff.2 (.inl hlookup)
  exact Fault.reason_ne hrun h (Failure.formula.inj hsame).2.symm

/-! ## Failures of functions -/

section Outcomes

variable {α β : Type} {P : Failure → Prop}

/-- If a computation has failed, then as described. -/
def Only (P : Failure → Prop) (x : Except Failure α) : Prop := ∀ e, x = .error e → P e

theorem only_ok (a : α) : Only P (.ok a) := by
  intro e h
  cases h

theorem only_error {e : Failure} (h : P e) : Only P (.error e : Except Failure α) := by
  intro e' h'
  cases h'
  exact h

theorem Only.bind {x : Except Failure α} {f : α → Except Failure β} (hx : Only P x)
    (hf : ∀ a, Only P (f a)) : Only P (x >>= f) := by
  cases x with
  | error e => exact only_error (hx e rfl)
  | ok a => exact hf a

end Outcomes

namespace Function

theorem numberAt_only (f : Function) (args : List Argument) (i : Nat) :
    Only IsElsewhere (f.numberAt args i) := by
  unfold numberAt
  split
  · exact only_ok _
  · exact only_error (isElsewhere_of_isOfArguments rfl _)
  · exact only_error (isElsewhere_of_isOfArguments rfl _)

theorem unitAt_only (f : Function) (args : List Argument) (i : Nat) :
    Only IsElsewhere (f.unitAt args i) := by
  unfold unitAt
  split
  · exact only_ok _
  · exact only_error (isElsewhere_of_isOfArguments rfl _)
  · exact only_error (isElsewhere_of_isOfArguments rfl _)

theorem precision_only (x : Float) : Only IsElsewhere (precision x) :=
  fun _ h => (precision_error h).isElsewhere

theorem convert_only (x : Float) (source target : Measure.Unit) :
    Only IsElsewhere (Measure.convert x source target) :=
  fun _ h => (convert_error h).isElsewhere

theorem convertTo_only (f : Function) (target : Measure.Unit) (x : Float) (args : List Argument) :
    Only IsElsewhere (f.convertTo target x args) :=
  (f.unitAt_only args 1).bind fun u => convert_only x u target

theorem valueOn_only (f : Function) (args : List Argument) :
    Only IsElsewhere (f.valueOn args) := by
  have hsecond (g : Float → Float) : Only IsElsewhere (do return g (← f.numberAt args 1)) :=
    (f.numberAt_only args 1).bind fun y => only_ok _
  refine (f.numberAt_only args 0).bind fun x => ?_
  cases f with
  | sqrt =>
    by_cases hneg : x < 0
    · simp only [hneg, if_true]
      exact only_error (IsOperationFailure.fault _ rfl).isElsewhere
    · simp only [hneg, if_false]
      exact only_ok _
  | abs | ceil | floor => exact only_ok _
  | pow | max | min => exact hsecond _
  | round =>
    by_cases hshort : args.length < 2
    · simp only [hshort, if_true]
      exact only_ok _
    · simp only [hshort, if_false]
      exact (numberAt_only _ args 1).bind fun y => (precision_only y).bind fun n => only_ok _
  | toMm | toM | toM2 | toM3 => exact convertTo_only _ _ x args

/-- Functions are applied to values, so they do not fail at names. -/
theorem apply_only (f : Function) (args : List Argument) : Only IsElsewhere (f.apply args) := by
  unfold apply
  split
  · exact only_error (isElsewhere_of_isOfArguments rfl _)
  · exact f.valueOn_only args

end Function

/-! ## Failures of evaluations -/

section Evaluations

variable {α β : Type} {P Q : Failure → Prop}

/-- From every trace, a computation that fails does so as described. -/
def FailsAs (P : Failure → Prop) (x : Traced α) : Prop := ∀ trace, Only P (x.run trace).1

theorem failsAs_pure (a : α) : FailsAs P (pure a : Traced α) := fun _ => only_ok a

theorem failsAs_throw {e : Failure} (h : P e) : FailsAs P (throw e : Traced α) :=
  fun _ => only_error h

theorem failsAs_lift {x : Except Failure α} (h : Only P x) :
    FailsAs P (ExceptT.mk (pure x) : Traced α) := fun _ => h

theorem FailsAs.mono {x : Traced α} (h : FailsAs P x) (himp : ∀ e, P e → Q e) : FailsAs Q x :=
  fun trace e he => himp e (h trace e he)

theorem FailsAs.bind {x : Traced α} {f : α → Traced β} (hx : FailsAs P x)
    (hf : ∀ a, FailsAs P (f a)) : FailsAs P (x >>= f) := by
  intro trace
  have hrun : (x >>= f).run trace = ExceptT.bindCont f (x.run trace).1 (x.run trace).2 := rfl
  rw [hrun]
  cases hout : (x.run trace).1 with
  | error e => exact only_error (hx trace e hout)
  | ok a => exact hf a _

variable {b : Bindings} {maxSteps : Nat}

/-- A failure at one of some names, or elsewhere. -/
def UnreadOrElsewhere (b : Bindings) (names : List String) (e : Failure) : Prop :=
  IsUnread b names e ∨ IsElsewhere e

theorem UnreadOrElsewhere.of_subset {names names' : List String} (h : names ⊆ names')
    {e : Failure} (he : UnreadOrElsewhere b names e) : UnreadOrElsewhere b names' e := by
  rcases he with he | he
  · cases he with
    | unresolved named unbound unknown => exact .inl (.unresolved (h named) unbound unknown)
    | notNumeric named bound unread => exact .inl (.notNumeric (h named) bound unread)
  · exact .inr he

theorem failsAs_record (names : List String) (s : Step) :
    FailsAs (UnreadOrElsewhere b names) (record maxSteps s) := by
  have hget : FailsAs (UnreadOrElsewhere b names) (get : Traced (Array Step)) :=
    fun trace => only_ok trace
  have hpush (push : Array Step → Array Step) :
      FailsAs (UnreadOrElsewhere b names) (modify push : Traced PUnit) := fun _ => only_ok _
  refine hget.bind fun trace => ?_
  split
  · have htoo : IsElsewhere ((Fault.tooManySteps maxSteps).of s.expression) :=
      (IsOperationFailure.fault _ rfl).isElsewhere
    exact (failsAs_throw (.inr htoo)).bind fun _ => hpush _
  · exact hpush _

theorem failsAs_resolve (n : String) :
    FailsAs (UnreadOrElsewhere b [n]) (resolve b maxSteps n) := by
  have hrecorded (s : Step) (x : Float) :
      FailsAs (UnreadOrElsewhere b [n]) (do record maxSteps s; return x) :=
    (failsAs_record [n] s).bind fun _ => failsAs_pure x
  unfold resolve
  split
  · next v hv =>
    split
    · exact hrecorded _ _
    · next hx => exact failsAs_throw (.inl (.notNumeric List.mem_cons_self hv hx))
  · next hnone =>
    split
    · exact hrecorded _ _
    · next hconstant => exact failsAs_throw (.inl (.unresolved List.mem_cons_self hnone hconstant))

/-- Arguments fail at a name that one of them reads as a number, or elsewhere. -/
theorem failsAs_evalArguments {args : List Expr}
    (ih : ∀ a ∈ args, FailsAs (UnreadOrElsewhere b a.numberNames) (eval b maxSteps a)) :
    FailsAs (UnreadOrElsewhere b (Expr.numberNamesOf args)) (evalArguments b maxSteps args) := by
  induction args with
  | nil =>
    simp only [evalArguments, evalArgumentsWith]
    exact failsAs_pure _
  | cons a args ihargs =>
    have hhead := (ih a List.mem_cons_self).mono fun e he => he.of_subset
      (List.subset_append_left a.numberNames (Expr.numberNamesOf args))
    have hrest := (ihargs fun c hc => ih c (List.mem_cons_of_mem a hc)).mono fun e he =>
      he.of_subset (List.subset_append_right a.numberNames (Expr.numberNamesOf args))
    cases a with
    | unitName n =>
      -- A name in the place of a unit is no number, and the failure there is one of a unit.
      simp only [evalArguments, evalArgumentsWith]
      refine (failsAs_lift fun e he => .inr (resolveUnit_error he).isElsewhere).bind fun u => ?_
      exact hrest.bind fun r => failsAs_pure _
    | _ =>
      simp only [evalArguments, evalArgumentsWith]
      exact hhead.bind fun x => hrest.bind fun r => failsAs_pure _

/-- An evaluation fails at a name that its tree reads as a number and that stands for none, or for
a reason that is not told of a name. -/
theorem failsAs_eval (e : Expr) :
    FailsAs (UnreadOrElsewhere b e.numberNames) (eval b maxSteps e) := by
  induction e using Expr.inductionOn with
  | literal x =>
    simp only [eval, evalWith]
    exact failsAs_pure x
  | identifier n =>
    simp only [eval, evalWith]
    exact failsAs_resolve n
  | unitName n =>
    simp only [eval, evalWith]
    exact failsAs_throw (.inr (isElsewhere_of_isOfArguments rfl n))
  | negate operand ih =>
    simp only [eval, evalWith]
    exact FailsAs.bind ih fun x => failsAs_pure _
  | binary op lhs rhs ihl ihr =>
    simp only [eval, evalWith]
    have hl := ihl.mono fun e he => he.of_subset
      (List.subset_append_left lhs.numberNames rhs.numberNames)
    have hr := ihr.mono fun e he => he.of_subset
      (List.subset_append_right lhs.numberNames rhs.numberNames)
    refine hl.bind fun x => hr.bind fun y => failsAs_lift fun e he => .inr ?_
    exact (operate_error he).isElsewhere
  | call f args ih =>
    simp only [eval, evalWith]
    refine (failsAs_evalArguments ih).bind fun r => ?_
    split
    · -- What the function fails with is told of the whole call, but the reason stays.
      next e he => exact failsAs_throw (.inr ((f.apply_only r.1 e he).reportedFor _))
    · exact (failsAs_record _ _).bind fun _ => failsAs_pure _

theorem evaluate_fails_as {formula : Formula} {limits : Limits} {e : Failure}
    (h : formula.evaluate limits b = .error e) :
    UnreadOrElsewhere b formula.expr.identifiers e := by
  have heval : Only (UnreadOrElsewhere b formula.expr.numberNames)
      ((eval b limits.maxSteps formula.expr).run #[]).1 := failsAs_eval formula.expr #[]
  unfold Formula.evaluate Expr.run at h
  cases hrun : (eval b limits.maxSteps formula.expr).run #[] with
  | mk outcome steps =>
    rw [hrun] at h heval
    cases outcome with
    | ok x => cases h
    | error e' =>
      cases h
      exact (heval e rfl).of_subset fun n hn => Expr.mem_identifiers_iff.2 hn

end Evaluations

/-! ## After a validation -/

/-- A name that a schema sees to: it is required and declared as a number, or it is a constant that
the bindings do not hide. -/
def IsSeenTo (s : Schema) (b : Bindings) (n : String) : Prop :=
  (n ∈ s.required ∧ ∃ spec ∈ s.properties, spec.name = n ∧
    (spec.kind = .number ∨ spec.kind = .integer)) ∨
  ((constant? n).isSome = true ∧ b.find? n = none)

theorem IsSeenTo.not_isUnread {s : Schema} {b : Bindings} {names : List String}
    (seenTo : ∀ n ∈ names, IsSeenTo s b n) (valid : s.validate b.parameters = .ok ())
    {e : Failure} : ¬ IsUnread b names e := by
  have hnumber {n : String} (hn : n ∈ s.required) (hspec : ∃ spec ∈ s.properties, spec.name = n ∧
      spec.IsNumeric) : ∃ v x, b.find? n = some v ∧ v.asNumber? = some x := by
    obtain ⟨spec, hmem, hname, hkind⟩ := hspec
    obtain ⟨v, x, hv, hx⟩ := Schema.exists_number_of_validate valid hn hmem hname hkind
    exact ⟨v, x, Parameter.Bindings.find?_of_parameter hv, hx⟩
  rintro (⟨named, unbound, unknown⟩ | ⟨named, bound, unread⟩)
  · rcases seenTo _ named with ⟨hrequired, hspec⟩ | ⟨hconstant, -⟩
    · obtain ⟨v, x, hv, -⟩ := hnumber hrequired hspec
      rw [unbound] at hv
      cases hv
    · rw [unknown] at hconstant
      cases hconstant
  · rcases seenTo _ named with ⟨hrequired, hspec⟩ | ⟨-, hnone⟩
    · obtain ⟨v, x, hv, hx⟩ := hnumber hrequired hspec
      cases bound.symm.trans hv
      rw [unread] at hx
      cases hx
    · rw [bound] at hnone
      cases hnone

/-- If a schema sees to all names that a formula reports as numbers, then what it accepts is
evaluated without a failure at a name, under all limits: no identifier is unresolved, and no
parameter is without a numeric value. -/
theorem resolves_of_validate {s : Schema} {formula : Formula} {b : Bindings}
    (seenTo : ∀ n ∈ formula.expr.identifiers, IsSeenTo s b n)
    (valid : s.validate b.parameters = .ok ()) (limits : Limits) (n : String) :
    formula.evaluate limits b ≠ .error (Fault.unresolved.of n) ∧
    ∀ shown : String, formula.evaluate limits b ≠ .error ((Fault.notNumeric shown).of n) := by
  have hno (fault : Fault) (hfault : fault.isOfLookup = true) :
      formula.evaluate limits b ≠ .error (fault.of n) := by
    intro h
    rcases evaluate_fails_as h with hunread | helsewhere
    · exact IsSeenTo.not_isUnread seenTo valid hunread
    · exact helsewhere n fault hfault rfl
  exact ⟨hno _ rfl, fun shown => hno _ rfl⟩

/-- A number given as a text, a name that is declared twice and one that is not supplied, a constant,
and the name of a unit that the schema does not know of. -/
theorem sample_resolves_of_validate :
    let s : Schema :=
      { properties := [{ name := "length", kind := .text }, { name := "length", kind := .number },
          { name := "count", kind := .number, minimum := some 1 },
          { name := "layers", kind := .integer }],
        required := ["count", "length"] }
    let b : Bindings :=
      ⟨.ofList [("count", .number 3), ("length", .text " 2.5 ")], some "wall", none⟩
    ∃ formula, Formula.parse {} "PI * to_m(length, unit) * count" = .ok formula ∧
      (∀ n ∈ formula.expr.identifiers, IsSeenTo s b n) ∧ s.validate b.parameters = .ok () ∧
      (formula.evaluate {} b ≠ .error (Fault.unresolved.of "unit") ∧
        ∀ shown : String,
          formula.evaluate {} b ≠ .error ((Fault.notNumeric shown).of "unit")) := by
  intro s b
  obtain ⟨formula, hparse, hcheck⟩ := @exists_of_any_parse {} "PI * to_m(length, unit) * count"
    (fun formula => decide (formula.expr.identifiers = ["PI", "count", "length"]))
    (by decide +kernel)
  have hseen : ∀ n ∈ formula.expr.identifiers, IsSeenTo s b n := by
    rw [of_decide_eq_true hcheck]
    simp only [List.forall_mem_cons, List.not_mem_nil, false_imp_iff, implies_true, and_true]
    refine ⟨.inr ⟨by decide +kernel, by decide +kernel⟩, .inl ?_, .inl ?_⟩
    · exact ⟨by decide, _, List.mem_cons_of_mem _ (List.mem_cons_of_mem _ List.mem_cons_self), rfl,
        .inl rfl⟩
    · exact ⟨by decide, _, List.mem_cons_of_mem _ List.mem_cons_self, rfl, .inl rfl⟩
  have hvalid : s.validate b.parameters = .ok () := by decide +kernel
  exact ⟨formula, hparse, hseen, hvalid, resolves_of_validate hseen hvalid {} "unit"⟩

end QuantitySurvey.Formula
