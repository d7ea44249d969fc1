import QuantitySurvey.Proofs.Formula.RunFailures
import QuantitySurvey.Proofs.Formula.Trace

/-! # The node that fails

Nodes are evaluated after their operands and from left to right, and the first that fails ends the
evaluation. A node whose operands have come to numbers fails under its own text, also where a function
has given another one. So a failure of a formula is that of one node, and all that was evaluated before
it, its operands included, comes to numbers on its own.

* `Expr.evaluated`: the nodes that are evaluated as numbers, in the order of their evaluation.
* `Attributes`: a computation succeeds with all of some nodes, or fails at one of them.
* `attributed_node`: a node after its operands, whatever kind of node it is.
* `failure_names_node`: the failures of expressions.
-/

set_option autoImplicit false

namespace QuantitySurvey.Formula

/-! ## Nodes in the order of their evaluation -/

namespace Expr

/-- The nodes that a node has evaluated as numbers before it is evaluated itself. -/
def operands : Expr → List Expr
  | literal _ | identifier _ | unitName _ => []
  | negate e => [e]
  | binary _ lhs rhs => [lhs, rhs]
  | call _ args => args.filter fun a => a.argumentKind = .number

mutual

/-- The nodes that are evaluated as numbers, each after those below it and from left to right. The
units of a call are not. -/
def evaluated : Expr → List Expr
  | literal x => [literal x]
  | identifier name => [identifier name]
  | unitName name => [unitName name]
  | negate e => e.evaluated ++ [negate e]
  | binary op lhs rhs => lhs.evaluated ++ rhs.evaluated ++ [binary op lhs rhs]
  | call f args => evaluatedOf args ++ [call f args]

def evaluatedOf : List Expr → List Expr
  | [] => []
  | unitName _ :: rest => evaluatedOf rest
  | e :: rest => e.evaluated ++ evaluatedOf rest

end

theorem evaluatedOf_eq_flatMap (args : List Expr) :
    evaluatedOf args = (args.filter fun a => a.argumentKind = .number).flatMap evaluated := by
  induction args with
  | nil => rfl
  | cons a args ih => cases a <;> simp [evaluatedOf, argumentKind, ih]

/-- A node is evaluated after its operands. -/
theorem evaluated_eq (e : Expr) : e.evaluated = e.operands.flatMap evaluated ++ [e] := by
  cases e with
  | call f args => rw [evaluated, evaluatedOf_eq_flatMap, operands]
  | _ => simp [evaluated, operands]

theorem mem_evaluated (e : Expr) : e ∈ e.evaluated := by
  rw [evaluated_eq]
  exact List.mem_append_right _ (List.mem_singleton.2 rfl)

theorem mem_below {e o : Expr} (h : o ∈ e.operands) : o ∈ e.operands.flatMap evaluated :=
  List.mem_flatMap.2 ⟨o, h, o.mem_evaluated⟩

theorem mem_evaluated_of_mem_operands {e o : Expr} (h : o ∈ e.operands) : o ∈ e.evaluated := by
  rw [evaluated_eq]
  exact List.mem_append_left _ (mem_below h)

theorem evaluatedOf_sublist {args : List Expr} (ih : ∀ a ∈ args, a.evaluated.Sublist a.nodes) :
    (evaluatedOf args).Sublist (nodesOf args) := by
  induction args with
  | nil => exact List.Sublist.refl []
  | cons a args ihargs =>
    have hhead := ih a List.mem_cons_self
    have hrest := ihargs fun c hc => ih c (List.mem_cons_of_mem a hc)
    rw [nodesOf]
    cases a with
    | unitName name => exact hrest.trans (List.sublist_append_right _ _)
    | _ => exact hhead.append hrest

theorem evaluated_sublist (e : Expr) : e.evaluated.Sublist e.nodes := by
  induction e using Expr.inductionOn with
  | negate operand ih => exact ih.append (List.Sublist.refl _)
  | binary op lhs rhs ihl ihr => exact (ihl.append ihr).append (List.Sublist.refl _)
  | call f args ih => exact (evaluatedOf_sublist ih).append (List.Sublist.refl _)
  | _ => exact List.Sublist.refl _

/-- What a node has, if all its operands have it, every node has. -/
theorem inductionOnOperands {P : Expr → Prop} (e : Expr)
    (node : ∀ e : Expr, (∀ o ∈ e.operands, P o) → P e) : P e := by
  induction e using Expr.inductionOn with
  | negate operand ih => exact node _ (by simpa [operands] using ih)
  | binary op lhs rhs ihl ihr => exact node _ (by simpa [operands] using ⟨ihl, ihr⟩)
  | call f args ih => exact node _ fun o ho => ih o (List.mem_of_mem_filter ho)
  | _ => exact node _ (by simp [operands])

/-- A node is not evaluated after more nodes than the tree that it is in. -/
theorem length_evaluated_le {e node : Expr} (h : node ∈ e.evaluated) :
    node.evaluated.length ≤ e.evaluated.length := by
  induction e using inductionOnOperands with
  | node e ih =>
    rw [evaluated_eq e] at h ⊢
    rcases List.mem_append.1 h with hbelow | hself
    · obtain ⟨o, ho, hnode⟩ := List.mem_flatMap.1 hbelow
      have hoperand : o.evaluated.Sublist (e.operands.flatMap evaluated) :=
        List.sublist_flatten_of_mem (List.mem_map_of_mem ho)
      exact (ih o ho hnode).trans (hoperand.length_le.trans (by simp))
    · rw [List.mem_singleton.1 hself, ← evaluated_eq e]

end Expr

/-! ## What nodes come to alone -/

section Nodes

variable (b : Parameter.Bindings)

/-- What a node comes to on its own, with no more steps than there are nodes to evaluate. -/
def ComesTo (node : Expr) (outcome : Except Failure Float) : Prop :=
  ∃ steps : List Step, steps.length ≤ node.evaluated.length ∧
    Makes (fun limit => eval b limit node) outcome steps

def ComesToNumber (node : Expr) : Prop := ∃ x, ComesTo b node (.ok x)

/-- A failure of a formula is that of a node: it shows the text of the node, which fails in the same
way on its own though its operands come to numbers. -/
structure FailsAt (expression reason : String) (node : Expr) : Prop where
  text : node.text = expression
  alone : ComesTo b node (.error (.formula expression reason))
  operands : ∀ o ∈ node.operands, ComesToNumber b o

/-- A failure is that of one of some nodes, and those before it come to numbers. -/
def FailsAmong (expression reason : String) (nodes : List Expr) : Prop :=
  ∃ before node after, nodes = before ++ node :: after ∧ FailsAt b expression reason node ∧
    ∀ t ∈ before, ComesToNumber b t

/-- A computation evaluates some nodes: if it succeeds they all come to numbers, and if it fails as a
formula then at one of them. -/
structure Attributes {α : Type} (nodes : List Expr) (outcome : Except Failure α)
    (steps : List Step) : Prop where
  short : steps.length ≤ nodes.length
  ok : ∀ a, outcome = .ok a → ∀ t ∈ nodes, ComesToNumber b t
  failed : ∀ expression reason, outcome = .error (.formula expression reason) →
    FailsAmong b expression reason nodes

def Attributed {α : Type} (nodes : List Expr) (x : Nat → Traced α) : Prop :=
  ∃ outcome steps, Makes x outcome steps ∧ Attributes b nodes outcome steps

variable {b} {α β : Type} {nodes nodes' : List Expr}

theorem FailsAmong.append {expression reason : String} (h : FailsAmong b expression reason nodes)
    (more : List Expr) : FailsAmong b expression reason (nodes ++ more) := by
  obtain ⟨before, node, after, rfl, hnode, hbefore⟩ := h
  exact ⟨before, node, after ++ more, by simp, hnode, hbefore⟩

theorem FailsAmong.after {expression reason : String} (h : FailsAmong b expression reason nodes')
    (hnodes : ∀ t ∈ nodes, ComesToNumber b t) : FailsAmong b expression reason (nodes ++ nodes') := by
  obtain ⟨before, node, after, rfl, hnode, hbefore⟩ := h
  refine ⟨nodes ++ before, node, after, by simp, hnode, fun t ht => ?_⟩
  exact (List.mem_append.1 ht).elim (hnodes t) (hbefore t)

theorem attributed_lift {x : Except Failure α}
    (h : ∀ expression reason, x ≠ .error (.formula expression reason)) :
    Attributed b [] (fun _ => ExceptT.mk (pure x)) :=
  ⟨x, [], makes_lift x, Nat.le_refl 0, by simp, fun _ _ he => absurd he (h _ _)⟩

theorem attributed_pure (a : α) : Attributed b [] (fun _ => (pure a : Traced α)) :=
  attributed_lift (by simp)

theorem Attributed.bind {x : Nat → Traced α} {f : Nat → α → Traced β} (hx : Attributed b nodes x)
    (hf : ∀ a, Attributed b nodes' fun limit => f limit a) :
    Attributed b (nodes ++ nodes') fun limit => x limit >>= f limit := by
  obtain ⟨outcome, steps, hmakes, hsteps⟩ := hx
  cases outcome with
  | error e =>
    refine ⟨_, _, hmakes.bind_error, ?_, by simp, ?_⟩
    · rw [List.length_append]
      exact Nat.le_add_right_of_le hsteps.short
    · intro expression reason he
      cases he
      exact (hsteps.failed expression reason rfl).append nodes'
  | ok a =>
    obtain ⟨outcome', steps', hmakes', hsteps'⟩ := hf a
    have hnodes := hsteps.ok a rfl
    refine ⟨_, _, hmakes.bind hmakes', ?_, ?_, ?_⟩
    · rw [List.length_append, List.length_append]
      exact Nat.add_le_add hsteps.short hsteps'.short
    · intro r hr t ht
      exact (List.mem_append.1 ht).elim (hnodes t) (hsteps'.ok r hr t)
    · intro expression reason he
      exact (hsteps'.failed expression reason he).after hnodes

theorem Attributed.map {x : Nat → Traced α} (hx : Attributed b nodes x) (f : α → β) :
    Attributed b nodes fun limit => x limit >>= fun a => pure (f a) := by
  have h := hx.bind (f := fun _ a => pure (f a)) fun a => attributed_pure (f a)
  rwa [List.append_nil] at h

/-! ## A node after its operands -/

/-- What a node does when its operands are there: it makes no more than one step, and fails under its
own text if it fails as a formula. -/
def OwnPart (node : Expr) (x : Nat → Traced Float) : Prop :=
  ∃ outcome steps, Makes x outcome steps ∧ steps.length ≤ 1 ∧
    ∀ expression reason, outcome = .error (.formula expression reason) → node.text = expression

theorem ownPart_lift {node : Expr} {x : Except Failure Float}
    (h : ∀ expression reason, x = .error (.formula expression reason) → node.text = expression) :
    OwnPart node (fun _ => ExceptT.mk (pure x)) :=
  ⟨x, [], makes_lift x, Nat.zero_le 1, h⟩

theorem ownPart_recorded {node : Expr} (s : Step) (y : Float) :
    OwnPart node fun limit => do
      record limit s
      return y :=
  ⟨.ok y, [s] ++ [], (makes_record s).bind (makes_pure y), Nat.le_refl 1, by simp⟩

/-- A node has its failures attributed if its operands have. Its own failure comes last. -/
theorem attributed_node {node : Expr} {x : Nat → Traced α} {f : Nat → α → Traced Float}
    (heval : ∀ limit, eval b limit node = x limit >>= f limit)
    (hx : Attributed b (node.operands.flatMap Expr.evaluated) x)
    (hown : ∀ a, OwnPart node fun limit => f limit a) :
    Attributed b node.evaluated fun limit => eval b limit node := by
  simp only [heval]
  obtain ⟨outcome, steps, hmakes, hsteps⟩ := hx
  cases outcome with
  | error e =>
    refine ⟨_, _, hmakes.bind_error, ?_, by simp, ?_⟩
    · rw [node.evaluated_eq, List.length_append]
      exact Nat.le_add_right_of_le hsteps.short
    · intro expression reason he
      cases he
      rw [node.evaluated_eq]
      exact (hsteps.failed expression reason rfl).append [node]
  | ok a =>
    obtain ⟨outcome', steps', hmakes', hshort, htext⟩ := hown a
    have hall := hsteps.ok a rfl
    have hwhole := hmakes.bind hmakes'
    have hlength : (steps ++ steps').length ≤ node.evaluated.length := by
      rw [node.evaluated_eq, List.length_append, List.length_append]
      exact Nat.add_le_add hsteps.short hshort
    have halone : ComesTo b node outcome' := by
      refine ⟨_, hlength, ?_⟩
      simpa only [heval] using hwhole
    refine ⟨_, _, hwhole, hlength, ?_, ?_⟩
    · rintro y rfl t ht
      rw [node.evaluated_eq] at ht
      rcases List.mem_append.1 ht with ht | ht
      · exact hall t ht
      · rw [List.mem_singleton.1 ht]
        exact ⟨y, halone⟩
    · rintro expression reason rfl
      rw [node.evaluated_eq]
      refine ⟨_, node, [], rfl, ⟨htext _ _ rfl, halone, ?_⟩, hall⟩
      exact fun o ho => hall o (Expr.mem_below ho)

/-! ## Evaluation -/

theorem ownPart_resolve (name : String) :
    OwnPart (.identifier name) fun limit => resolve b limit name := by
  have htext : (Expr.identifier name).text = name := by
    rw [Expr.text, Expr.written, String.ofList_toList]
  have hfailed (fault : Fault) :
      OwnPart (.identifier name) fun _ => (throw (fault.of name) : Traced Float) :=
    ownPart_lift (x := .error (fault.of name)) fun expression reason he => by
      cases he
      exact htext
  cases hfind : b.find? name with
  | some v =>
    cases hnumber : v.asNumber? with
    | some y =>
      simp only [resolve, hfind, hnumber]
      exact ownPart_recorded _ y
    | none =>
      simp only [resolve, hfind, hnumber]
      exact hfailed _
  | none =>
    cases hconstant : constant? name with
    | some y =>
      simp only [resolve, hfind, hconstant]
      exact ownPart_recorded _ y
    | none =>
      simp only [resolve, hfind, hconstant]
      exact hfailed _

theorem eval_binary (op : Operator) (lhs rhs : Expr) (maxSteps : Nat) :
    eval b maxSteps (.binary op lhs rhs) = (do
      let x ← eval b maxSteps lhs
      let y ← eval b maxSteps rhs
      return (x, y)) >>= fun p => ExceptT.mk (pure (operate op lhs rhs p.1 p.2)) := by
  rw [eval, evalWith]
  simp only [bind_assoc, pure_bind]

theorem operate_error_text {op : Operator} {lhs rhs : Expr} {x y : Float}
    {expression reason : String}
    (h : operate op lhs rhs x y = .error (.formula expression reason)) :
    (Expr.binary op lhs rhs).text = expression := by
  cases op with
  | div =>
    simp only [operate] at h
    split at h
    · cases h
      rfl
    · cases h
  | _ => cases h

/-- What a call does when its arguments are there. -/
def applied (f : Function) (args : List Expr) (maxSteps : Nat)
    (r : List Argument × List String) : Traced Float := do
  match f.apply r.1 with
  | .error e => throw (reportedFor (.call f args) e)
  | .ok x =>
    record maxSteps (callStep f args r.2 x)
    return x

theorem eval_call (f : Function) (args : List Expr) (maxSteps : Nat) :
    eval b maxSteps (.call f args) = evalArguments b maxSteps args >>= applied f args maxSteps := by
  rw [eval, evalWith]
  rfl

theorem ownPart_call (f : Function) (args : List Expr) (r : List Argument × List String) :
    OwnPart (.call f args) fun limit => applied f args limit r := by
  cases happly : f.apply r.1 with
  | ok x =>
    simp only [applied, happly]
    exact ownPart_recorded _ x
  | error e =>
    simp only [applied, happly]
    refine ownPart_lift (x := .error (reportedFor (.call f args) e)) fun expression reason he => ?_
    cases e with
    | formula expression' reason' =>
      cases he
      rfl
    | _ => cases he

/-- Units are looked up before the call that they are arguments of, and not found under a failure of
another kind. -/
theorem resolveUnit_ne_formula (name expression reason : String) :
    resolveUnit b name ≠ .error (.formula expression reason) := by
  intro h
  unfold resolveUnit at h
  split at h
  · split at h <;> cases h
  · split at h <;> cases h

theorem attributed_evalArguments {args : List Expr}
    (ih : ∀ a ∈ args, Attributed b a.evaluated fun limit => eval b limit a) :
    Attributed b (Expr.evaluatedOf args) fun limit => evalArguments b limit args := by
  induction args with
  | nil =>
    simp only [evalArguments, evalArgumentsWith]
    exact attributed_pure ([], [])
  | cons a args ihargs =>
    have hrest := ihargs fun c hc => ih c (List.mem_cons_of_mem a hc)
    cases a with
    | unitName name =>
      simp only [evalArguments, evalArgumentsWith]
      have hunit := (attributed_lift (resolveUnit_ne_formula (b := b) name)).bind fun r =>
        hrest.map fun rest => (Argument.unit r.1 :: rest.1, r.2.toList ++ rest.2)
      exact hunit
    | _ =>
      simp only [evalArguments, evalArgumentsWith]
      refine (ih _ List.mem_cons_self).bind fun x => ?_
      exact hrest.map _

theorem attributed_eval (e : Expr) : Attributed b e.evaluated fun limit => eval b limit e := by
  induction e using Expr.inductionOn with
  | literal x =>
    refine attributed_node (f := fun _ _ => pure x) (fun limit => ?_) (attributed_pure ()) ?_
    · rw [eval, evalWith, pure_bind]
    · exact fun _ => ownPart_lift (x := .ok x) (by simp)
  | identifier name =>
    refine attributed_node (f := fun limit _ => resolve b limit name) (fun limit => ?_)
      (attributed_pure ()) fun _ => ownPart_resolve name
    rw [eval, evalWith, pure_bind]
  | unitName name =>
    refine attributed_node (f := fun _ _ => throw (Fault.unitAsNumber.of name)) (fun limit => ?_)
      (attributed_pure ()) fun _ => ?_
    · rw [eval, evalWith, pure_bind]
    · refine ownPart_lift (x := .error (Fault.unitAsNumber.of name)) fun expression reason he => ?_
      cases he
      rw [Expr.text, Expr.written, String.ofList_toList]
  | negate operand ih =>
    refine attributed_node (f := fun _ x => pure (-x)) (fun limit => by rw [eval, evalWith]) ?_
      fun x => ownPart_lift (x := .ok (-x)) (by simp)
    simpa [Expr.operands] using ih
  | binary op lhs rhs ihl ihr =>
    have hown (p : Float × Float) : OwnPart (.binary op lhs rhs)
        fun _ => ExceptT.mk (pure (operate op lhs rhs p.1 p.2)) :=
      ownPart_lift fun _ _ he => operate_error_text he
    refine attributed_node (fun limit => eval_binary op lhs rhs limit) ?_ hown
    have hoperands : (Expr.binary op lhs rhs).operands.flatMap Expr.evaluated
        = lhs.evaluated ++ rhs.evaluated := by simp [Expr.operands]
    rw [hoperands]
    exact ihl.bind fun x => ihr.map fun y => (x, y)
  | call f args ih =>
    refine attributed_node (f := applied f args) (fun limit => eval_call f args limit) ?_
      fun r => ownPart_call f args r
    rw [Expr.operands, ← Expr.evaluatedOf_eq_flatMap]
    exact attributed_evalArguments ih

theorem run_of_comesTo {node : Expr} {outcome : Except Failure Float} (h : ComesTo b node outcome)
    {limit : Nat} (hroom : node.evaluated.length ≤ limit) : (node.run b limit).1 = outcome := by
  obtain ⟨steps, hshort, hmakes⟩ := h
  rw [run_of_makes hmakes, cut_of_le (by simpa using hshort.trans hroom)]

/-- If an expression fails as a formula, with room for a step for each of its nodes, it has a node with
the text that the failure shows. That node fails in the same way on its own, though each of its
operands comes to a number on its own, and so does all that is evaluated before the node. -/
theorem failure_names_node {e : Expr} {limit : Nat} (hroom : e.nodes.length < limit)
    {expression reason : String} (hfailed : (e.run b limit).1 = .error (.formula expression reason)) :
    ∃ before node after, e.evaluated = before ++ node :: after ∧ node ∈ e.nodes ∧
      node.text = expression ∧ (node.run b limit).1 = .error (.formula expression reason) ∧
      (∀ o ∈ node.operands, ∃ x, (o.run b limit).1 = .ok x) ∧
      ∀ t ∈ before, ∃ x, (t.run b limit).1 = .ok x := by
  have hlength : e.evaluated.length ≤ limit := e.evaluated_sublist.length_le.trans hroom.le
  obtain ⟨outcome, steps, hmakes, hsteps⟩ := attributed_eval (b := b) e
  have hwhole : ComesTo b e outcome := ⟨steps, hsteps.short, hmakes⟩
  rw [run_of_comesTo hwhole hlength] at hfailed
  obtain ⟨before, node, after, hnodes, hnode, hbefore⟩ := hsteps.failed expression reason hfailed
  have hfits : ∀ t ∈ e.evaluated, t.evaluated.length ≤ limit :=
    fun t ht => (Expr.length_evaluated_le ht).trans hlength
  have hmem : node ∈ e.evaluated := by simp [hnodes]
  refine ⟨before, node, after, hnodes, e.evaluated_sublist.subset hmem, hnode.text,
    run_of_comesTo hnode.alone (hfits node hmem), fun o ho => ?_, fun t ht => ?_⟩
  · obtain ⟨x, hx⟩ := hnode.operands o ho
    have hbelow := Expr.length_evaluated_le (Expr.mem_evaluated_of_mem_operands ho)
    exact ⟨x, run_of_comesTo hx (hbelow.trans (hfits node hmem))⟩
  · obtain ⟨x, hx⟩ := hbefore t ht
    exact ⟨x, run_of_comesTo hx (hfits t (by simp [hnodes, ht]))⟩

end Nodes

/-- A root within a call names the root and not what was found under it, and comes before the division
by zero. -/
theorem sample_failure_names_node :
    let root : Expr := .call .sqrt [.binary .sub (.identifier "depth") (.literal 4)]
    let e : Expr := .binary .add (.identifier "PI")
      (.binary .div (.call .toM [.binary .mul (.literal 2) root, .unitName "mm"]) (.literal 0))
    let b : Parameter.Bindings := ⟨.ofList [("depth", .text "1")], none, none⟩
    let failure : Failure := .formula "sqrt(depth - 4)" "square root of a negative number"
    e.nodes.length < 13 ∧ (e.run b 13).1 = .error failure ∧
      ∃ before node after, e.evaluated = before ++ node :: after ∧ node ∈ e.nodes ∧
        node.text = "sqrt(depth - 4)" ∧ (node.run b 13).1 = .error failure ∧
        (∀ o ∈ node.operands, ∃ x, (o.run b 13).1 = .ok x) ∧
        ∀ t ∈ before, ∃ x, (t.run b 13).1 = .ok x := by
  intro root e b failure
  have hroom : e.nodes.length < 13 := by decide
  have hfailed : (e.run b 13).1 = .error failure := by decide +kernel
  exact ⟨hroom, hfailed, failure_names_node hroom hfailed⟩

end QuantitySurvey.Formula
