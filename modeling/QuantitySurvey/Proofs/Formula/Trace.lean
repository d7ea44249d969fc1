import QuantitySurvey.Proofs.Formula.Names
import QuantitySurvey.Proofs.Formula.Nodes

/-! # Traces

What a computation comes to and which steps it makes does not depend on the limit or on the trace
before it: a limit only cuts the steps off. So a part of an expression makes the same steps alone as
within the whole, and the trace of the whole has one step for each node that leaves one.

* `Makes`: outcome and steps of a computation, apart from any limit.
* `leaves_eval`: every evaluation has them, and where it succeeds its steps are those of the nodes.
* `trace_of_run`: the trace of a successful run.
-/

set_option autoImplicit false

namespace QuantitySurvey.Formula

/-! ## Computations under a limit -/

section Limits

variable {α β : Type}

/-- An outcome and new steps, cut off at the first step for which a trace has no room. -/
def cut (limit : Nat) (trace : Array Step) (outcome : Except Failure α) (steps : List Step) :
    Except Failure α × Array Step :=
  match steps.drop (limit - trace.size) with
  | [] => (outcome, trace ++ steps.toArray)
  | s :: _ => (.error ((Fault.tooManySteps limit).of s.expression),
      trace ++ (steps.take (limit - trace.size)).toArray)

theorem cut_of_le {limit : Nat} {trace : Array Step} {steps : List Step}
    (h : trace.size + steps.length ≤ limit) (outcome : Except Failure α) :
    cut limit trace outcome steps = (outcome, trace ++ steps.toArray) := by
  have hdrop : steps.drop (limit - trace.size) = [] := List.drop_eq_nil_of_le (by omega)
  unfold cut
  rw [hdrop]

theorem cut_of_lt {limit : Nat} {trace : Array Step} {steps : List Step}
    (h : limit < trace.size + steps.length) (hsize : trace.size ≤ limit)
    (outcome : Except Failure α) :
    ∃ s, steps[limit - trace.size]? = some s ∧ cut limit trace outcome steps =
      (.error ((Fault.tooManySteps limit).of s.expression),
        trace ++ (steps.take (limit - trace.size)).toArray) := by
  have hlt : limit - trace.size < steps.length := by omega
  refine ⟨steps[limit - trace.size], List.getElem?_eq_getElem hlt, ?_⟩
  unfold cut
  rw [List.drop_eq_getElem_cons hlt]

/-- What a computation comes to, and the steps that it makes, where the trace has room for them. -/
def Makes (x : Nat → Traced α) (outcome : Except Failure α) (steps : List Step) : Prop :=
  ∀ limit trace, trace.size ≤ limit → (x limit).run trace = cut limit trace outcome steps

theorem makes_lift (x : Except Failure α) : Makes (fun _ => ExceptT.mk (pure x)) x [] := by
  intro limit trace _
  rw [cut_of_le (by simpa)]
  simp [ExceptT.run, ExceptT.mk, pure, StateT.pure]

theorem makes_pure (a : α) : Makes (fun _ => pure a) (.ok a) [] :=
  makes_lift (.ok a)

theorem makes_throw (e : Failure) : Makes (fun _ => (throw e : Traced α)) (.error e) [] :=
  makes_lift (.error e)

theorem makes_record (s : Step) : Makes (fun limit => record limit s) (.ok ()) [s] := by
  intro limit trace hsize
  have hrun : (record limit s).run trace = if limit ≤ trace.size
      then (.error ((Fault.tooManySteps limit).of s.expression), trace)
      else (.ok (), trace.push s) := by
    have hif : (record limit s).run trace
        = (if limit ≤ trace.size then throw ((Fault.tooManySteps limit).of s.expression)
            else modify (·.push s) : Traced Unit).run trace := rfl
    rw [hif]
    split <;> rfl
  rw [hrun]
  by_cases hfull : limit ≤ trace.size
  · obtain ⟨t, ht, hcut⟩ := @cut_of_lt Unit limit trace [s] (by simp; omega) hsize (.ok ())
    have hzero : limit - trace.size = 0 := by omega
    rw [hzero] at ht hcut
    cases ht
    rw [if_pos hfull, hcut]
    simp
  · rw [if_neg hfull, cut_of_le (by simp; omega)]
    simp

variable {x : Nat → Traced α} {f : Nat → α → Traced β} {steps steps' : List Step}

theorem Makes.bind_error {e : Failure} (hx : Makes x (.error e) steps) :
    Makes (fun limit => x limit >>= f limit) (.error e) steps := by
  intro limit trace hsize
  have hrun : (x limit >>= f limit).run trace
      = ExceptT.bindCont (f limit) ((x limit).run trace).1 ((x limit).run trace).2 := rfl
  rw [hrun, hx limit trace hsize]
  by_cases hroom : trace.size + steps.length ≤ limit
  · rw [cut_of_le hroom, cut_of_le hroom]
    rfl
  · obtain ⟨s, hs, hcut⟩ := @cut_of_lt α _ _ _ (Nat.lt_of_not_le hroom) hsize (.error e)
    obtain ⟨s', hs', hcut'⟩ := @cut_of_lt β _ _ _ (Nat.lt_of_not_le hroom) hsize (.error e)
    obtain rfl : s = s' := Option.some.inj (hs.symm.trans hs')
    rw [hcut, hcut']
    rfl

theorem Makes.bind {a : α} {outcome : Except Failure β} (hx : Makes x (.ok a) steps)
    (hf : Makes (fun limit => f limit a) outcome steps') :
    Makes (fun limit => x limit >>= f limit) outcome (steps ++ steps') := by
  intro limit trace hsize
  have hrun : (x limit >>= f limit).run trace
      = ExceptT.bindCont (f limit) ((x limit).run trace).1 ((x limit).run trace).2 := rfl
  rw [hrun, hx limit trace hsize]
  by_cases hroom : trace.size + steps.length ≤ limit
  · -- The first part has room, so the second goes on with what is left.
    have hnext := hf limit (trace ++ steps.toArray) (by simpa using hroom)
    rw [cut_of_le hroom]
    refine hnext.trans ?_
    have hleft : limit - (trace ++ steps.toArray).size = limit - trace.size - steps.length := by
      simp
      omega
    have hshort : steps.length ≤ limit - trace.size := by omega
    unfold cut
    rw [hleft, List.drop_append, List.take_append, List.drop_eq_nil_of_le hshort,
      List.take_of_length_le hshort, List.nil_append]
    split <;> simp
  · obtain ⟨s, hs, hcut⟩ := @cut_of_lt α _ _ _ (Nat.lt_of_not_le hroom) hsize (.ok a)
    have hlt : limit - trace.size < steps.length := by omega
    have hlong : limit < trace.size + (steps ++ steps').length := by
      rw [List.length_append]
      omega
    obtain ⟨s', hs', hcut'⟩ := cut_of_lt hlong hsize outcome
    rw [List.getElem?_append_left hlt] at hs'
    obtain rfl : s = s' := Option.some.inj (hs.symm.trans hs')
    rw [hcut, hcut', List.take_append_of_le_length (Nat.le_of_lt hlt)]
    rfl

end Limits

/-! ## Steps of nodes -/

/-- Whether a node leaves a step: names that are read as numbers do, and calls. -/
def Expr.isTraced : Expr → Bool
  | .identifier _ | .call .. => true
  | .literal _ | .unitName _ | .negate _ | .binary .. => false

/-- The nodes that leave steps, in the order of their evaluation. -/
def Expr.tracedNodes (e : Expr) : List Expr := e.nodes.filter Expr.isTraced

section Nodes

variable (b : Parameter.Bindings)

/-- The kind of the step of a node, and its unit. A parameter hides a constant. -/
def FitsNode : Expr → Step → Prop
  | .identifier name, s =>
    (((b.find? name).isSome ∧ s.kind = .substitution)
      ∨ (b.find? name = none ∧ (constant? name).isSome ∧ s.kind = .constant)) ∧ s.unit = none
  | .call f _, s => s.kind = .functionCall ∧ s.unit = f.target?
  | _, _ => False

/-- A step is that of a node: it shows the text of the node, and the value that the node alone comes
to in no more than so many steps. -/
structure IsStepOf (most : Nat) (node : Expr) (s : Step) : Prop where
  expression : s.expression = node.text
  fits : FitsNode b node s
  value : ∃ steps, steps.length ≤ most ∧
    Makes (fun limit => eval b limit node) (.ok s.value) steps

variable {b}

theorem IsStepOf.mono {most most' : Nat} (hle : most ≤ most') {node : Expr} {s : Step}
    (h : IsStepOf b most node s) : IsStepOf b most' node s := by
  obtain ⟨steps, hlength, hmakes⟩ := h.value
  exact { h with value := ⟨steps, hlength.trans hle, hmakes⟩ }

/-- Steps are those of nodes, one for each and in their order. -/
def AreStepsOf (b : Parameter.Bindings) (nodes : List Expr) (steps : List Step) : Prop :=
  List.Forall₂ (IsStepOf b steps.length) nodes steps

theorem AreStepsOf.append {nodes nodes' : List Expr} {steps steps' : List Step}
    (h : AreStepsOf b nodes steps) (h' : AreStepsOf b nodes' steps') :
    AreStepsOf b (nodes ++ nodes') (steps ++ steps') := by
  have hlength : (steps ++ steps').length = steps.length + steps'.length := List.length_append
  exact List.rel_append
    (h.imp fun _ _ hs => hs.mono (by omega)) (h'.imp fun _ _ hs => hs.mono (by omega))

/-- A computation has an outcome and steps, which are those of some nodes if it succeeds. -/
def Leaves {α : Type} (b : Parameter.Bindings) (nodes : List Expr) (x : Nat → Traced α) : Prop :=
  ∃ outcome steps, Makes x outcome steps ∧ ∀ a, outcome = .ok a → AreStepsOf b nodes steps

theorem Leaves.error {α : Type} {nodes : List Expr} {x : Nat → Traced α} {e : Failure}
    {steps : List Step} (h : Makes x (.error e) steps) : Leaves b nodes x :=
  ⟨_, _, h, fun _ ha => by cases ha⟩

theorem leaves_lift {α : Type} (x : Except Failure α) :
    Leaves b [] (fun _ => ExceptT.mk (pure x)) :=
  ⟨x, [], makes_lift x, fun _ _ => List.Forall₂.nil⟩

theorem Leaves.bind {α β : Type} {x : Nat → Traced α} {f : Nat → α → Traced β}
    {nodes nodes' : List Expr} (hx : Leaves b nodes x)
    (hf : ∀ a, Leaves b nodes' fun limit => f limit a) :
    Leaves b (nodes ++ nodes') fun limit => x limit >>= f limit := by
  obtain ⟨outcome, steps, hmakes, hsteps⟩ := hx
  cases outcome with
  | error e => exact .error hmakes.bind_error
  | ok a =>
    obtain ⟨outcome', steps', hmakes', hsteps'⟩ := hf a
    exact ⟨outcome', steps ++ steps', hmakes.bind hmakes',
      fun r hr => (hsteps a rfl).append (hsteps' r hr)⟩

/-- A computation after which a value is passed on. -/
theorem Leaves.map {α β : Type} {x : Nat → Traced α} {nodes : List Expr} (hx : Leaves b nodes x)
    (f : α → β) : Leaves b nodes fun limit => x limit >>= fun a => pure (f a) := by
  have h := hx.bind (f := fun _ a => pure (f a)) fun a => leaves_lift (.ok (f a))
  rwa [List.append_nil] at h

/-! ## Evaluation -/

theorem leaves_resolve (name : String) :
    Leaves b [.identifier name] fun limit => resolve b limit name := by
  -- The step that is made, and its value by the same run.
  have hmade : ∀ (kind : Step.Kind) (y : Float),
      (∀ limit, resolve b limit name = (do
        record limit { kind := kind, expression := name, value := y }
        return y)) →
      FitsNode b (.identifier name) { kind := kind, expression := name, value := y } →
      Leaves b [.identifier name] fun limit => resolve b limit name := by
    intro kind y hresolve hfits
    have hmakes : Makes (fun limit => resolve b limit name) (.ok y)
        [{ kind := kind, expression := name, value := y }] := by
      simp only [hresolve]
      exact (makes_record _).bind (makes_pure y)
    refine ⟨_, _, hmakes, fun x _ => List.Forall₂.cons ⟨?_, hfits, _, le_refl _, ?_⟩ .nil⟩
    · rw [Expr.text, Expr.written, String.ofList_toList]
    · simpa only [eval, evalWith] using hmakes
  cases hfind : b.find? name with
  | some v =>
    cases hnumber : v.asNumber? with
    | some y =>
      refine hmade .substitution y (fun limit => ?_) ⟨.inl ⟨by rw [hfind]; rfl, rfl⟩, rfl⟩
      simp only [resolve, hfind, hnumber]
    | none =>
      simp only [resolve, hfind, hnumber]
      exact .error (makes_throw _)
  | none =>
    cases hconstant : constant? name with
    | some y =>
      refine hmade .constant y (fun limit => ?_)
        ⟨.inr ⟨hfind, by rw [hconstant]; rfl, rfl⟩, rfl⟩
      simp only [resolve, hfind, hconstant]
    | none =>
      simp only [resolve, hfind, hconstant]
      exact .error (makes_throw _)

theorem leaves_evalArguments {args : List Expr}
    (ih : ∀ a ∈ args, Leaves b a.tracedNodes fun limit => eval b limit a) :
    Leaves b ((Expr.nodesOf args).filter Expr.isTraced)
      fun limit => evalArguments b limit args := by
  induction args with
  | nil =>
    simp only [evalArguments, evalArgumentsWith]
    exact leaves_lift (.ok ([], []))
  | cons a args ihargs =>
    have hrest := ihargs fun c hc => ih c (List.mem_cons_of_mem a hc)
    rw [Expr.nodesOf, List.filter_append]
    cases a with
    | unitName name =>
      simp only [evalArguments, evalArgumentsWith]
      refine (leaves_lift (resolveUnit b name)).bind fun r => ?_
      exact hrest.map _
    | _ =>
      simp only [evalArguments, evalArgumentsWith]
      refine (ih _ List.mem_cons_self).bind fun x => ?_
      exact hrest.map _

/-- Every evaluation has an outcome and steps apart from any limit. If it succeeds, its steps are
those of the nodes of the expression. -/
theorem leaves_eval (e : Expr) : Leaves b e.tracedNodes fun limit => eval b limit e := by
  induction e using Expr.inductionOn with
  | literal x =>
    simp only [eval, evalWith]
    exact leaves_lift (.ok x)
  | identifier name =>
    simp only [eval, evalWith]
    exact leaves_resolve name
  | unitName name =>
    simp only [eval, evalWith]
    exact .error (makes_throw _)
  | negate operand ih =>
    have hnodes : (Expr.negate operand).tracedNodes = operand.tracedNodes := by
      simp [Expr.tracedNodes, Expr.nodes, Expr.isTraced]
    rw [hnodes]
    simp only [eval, evalWith]
    exact ih.map fun x => -x
  | binary op lhs rhs ihl ihr =>
    have hnodes : (Expr.binary op lhs rhs).tracedNodes
        = lhs.tracedNodes ++ (rhs.tracedNodes ++ []) := by
      simp [Expr.tracedNodes, Expr.nodes, Expr.isTraced]
    rw [hnodes]
    simp only [eval, evalWith]
    exact ihl.bind fun x => ihr.bind fun y => leaves_lift (operate op lhs rhs x y)
  | call f args ih =>
    have hnodes : (Expr.call f args).tracedNodes
        = (Expr.nodesOf args).filter Expr.isTraced ++ [.call f args] := by
      simp [Expr.tracedNodes, Expr.nodes, Expr.isTraced]
    obtain ⟨outcome, steps, hmakes, hsteps⟩ := leaves_evalArguments ih
    cases outcome with
    | error failure =>
      simp only [eval, evalWith]
      exact .error hmakes.bind_error
    | ok r =>
      obtain ⟨values, details⟩ := r
      cases happly : f.apply values with
      | error failure =>
        have hcall : Makes (fun limit => eval b limit (.call f args))
            (.error (reportedFor (.call f args) failure)) (steps ++ []) := by
          simp only [eval, evalWith]
          refine hmakes.bind ?_
          simp only [happly]
          exact makes_throw _
        exact .error hcall
      | ok x =>
        have hcall : Makes (fun limit => eval b limit (.call f args)) (.ok x)
            (steps ++ ([callStep f args details x] ++ [])) := by
          simp only [eval, evalWith]
          refine hmakes.bind ?_
          simp only [happly]
          exact (makes_record _).bind (makes_pure x)
        rw [List.append_nil] at hcall
        have hself : IsStepOf b (steps ++ [callStep f args details x]).length (.call f args)
            (callStep f args details x) := ⟨rfl, ⟨rfl, rfl⟩, _, le_refl _, hcall⟩
        refine ⟨_, _, hcall, fun y hy => ?_⟩
        rw [hnodes, AreStepsOf, List.length_append]
        refine List.rel_append ((hsteps _ rfl).imp fun _ _ hs => hs.mono (by omega)) ?_
        exact List.Forall₂.cons (by simpa using hself) .nil

theorem run_of_makes {e : Expr} {outcome : Except Failure Float} {steps : List Step}
    (h : Makes (fun limit => eval b limit e) outcome steps) (limit : Nat) :
    e.run b limit = ((cut limit #[] outcome steps).1, (cut limit #[] outcome steps).2.toList) := by
  unfold Expr.run
  rw [h limit #[] (Nat.zero_le limit)]

/-- A successful run leaves one step for each name that is read as a number and for each call, after
those of its arguments and from left to right, and no others. A step shows the text of its node, and
has the value that the node alone comes to under the same limit. -/
theorem trace_of_run {e : Expr} {limit : Nat} {x : Float} {steps : List Step}
    (h : e.run b limit = (.ok x, steps)) :
    List.Forall₂ (fun node s => s.expression = node.text ∧ FitsNode b node s ∧
      (node.run b limit).1 = .ok s.value) e.tracedNodes steps := by
  obtain ⟨outcome, made, hmakes, hsteps⟩ := leaves_eval (b := b) e
  rw [run_of_makes hmakes] at h
  have hroom : made.length ≤ limit := by
    by_contra hlong
    obtain ⟨s, -, hcut⟩ := @cut_of_lt Float limit #[] made (by simpa using hlong)
      (Nat.zero_le limit) outcome
    rw [hcut] at h
    cases h
  rw [cut_of_le (by simpa using hroom)] at h
  obtain ⟨rfl, hmade⟩ := Prod.mk.inj h
  obtain rfl : made = steps := by simpa using hmade
  refine (hsteps x rfl).imp fun node s hs => ⟨hs.expression, hs.fits, ?_⟩
  obtain ⟨alone, hlength, halone⟩ := hs.value
  rw [run_of_makes halone, cut_of_le (by simpa using hlength.trans hroom)]

end Nodes

theorem sample_trace_of_run :
    let e : Expr := .call .max [.binary .mul (.identifier "PI") (.identifier "E"),
      .call .toM [.identifier "length", .unitName "mm"]]
    let b : Parameter.Bindings :=
      ⟨.ofList [("PI", .number 3), ("length", .number 2500)], none, none⟩
    ∃ x steps, e.run b 5 = (.ok x, steps) ∧ List.Forall₂ (fun node s =>
      s.expression = node.text ∧ FitsNode b node s ∧ (node.run b 5).1 = .ok s.value)
      e.tracedNodes steps :=
  ⟨_, _, rfl, trace_of_run rfl⟩

end QuantitySurvey.Formula
