import QuantitySurvey.Document.Project

/-! # Heights of documents

Documents of projects hold lists of records in records, and nothing that goes deeper by itself, so
their height has a bound: `height_ofProject`. No reader refuses them for their depth.
-/

set_option autoImplicit false

namespace QuantitySurvey.Document

open Json

/-! ## Leaves and lists -/

@[simp] theorem height_string (s : String) : (string s).height = 0 := rfl

@[simp] theorem height_number (x : Float) : (number x).height = 0 := rfl

@[simp] theorem height_integer (n : Int) : (integer n).height = 0 := rfl

theorem heightOf_le {js : List Json} {n : Nat} (h : ∀ j ∈ js, j.height ≤ n) :
    heightOf js ≤ n := by
  induction js with
  | nil => exact Nat.zero_le n
  | cons j js ih =>
    exact Nat.max_le.2 ⟨h j List.mem_cons_self, ih fun k hk => h k (List.mem_cons_of_mem j hk)⟩

theorem height_ofList_le {α : Type} {encode : α → Json} {as : List α} {n : Nat}
    (h : ∀ a ∈ as, (encode a).height ≤ n) : (ofList encode as).height ≤ n + 1 := by
  have helements : heightOf (as.map encode) ≤ n := by
    refine heightOf_le fun j hj => ?_
    obtain ⟨a, ha, rfl⟩ := List.mem_map.1 hj
    exact h a ha
  exact Nat.succ_le_succ helements

theorem membersHeight_le {ms : List (String × Json)} {n : Nat} (h : ∀ m ∈ ms, m.2.height ≤ n) :
    membersHeight ms ≤ n := by
  induction ms with
  | nil => exact Nat.zero_le n
  | cons m ms ih =>
    exact Nat.max_le.2 ⟨h m List.mem_cons_self, ih fun k hk => h k (List.mem_cons_of_mem m hk)⟩

theorem membersHeight_append (ms ms' : List (String × Json)) :
    membersHeight (ms ++ ms') = max (membersHeight ms) (membersHeight ms') := by
  induction ms with
  | nil => simp [membersHeight]
  | cons m ms ih => simp [membersHeight, ih, Nat.max_assoc]

theorem membersHeight_whenSome {α : Type} (name : String) {encode : α → Json} (o : Option α)
    (h : ∀ a, (encode a).height = 0) : membersHeight (whenSome name encode o) = 0 := by
  cases o <;> simp [whenSome, membersHeight, h]

@[simp] theorem membersHeight_strings (name : String) (o : Option String) :
    membersHeight (whenSome name string o) = 0 :=
  membersHeight_whenSome name o height_string

@[simp] theorem membersHeight_numbers (name : String) (o : Option Float) :
    membersHeight (whenSome name number o) = 0 :=
  membersHeight_whenSome name o height_number

@[simp] theorem membersHeight_units (name : String) (o : Option Measure.Unit) :
    membersHeight (whenSome name ofUnit o) = 0 :=
  membersHeight_whenSome name o fun u => height_string u.symbol

@[simp] theorem membersHeight_identifiers (name : String) (o : Option Identifier) :
    membersHeight (whenSome name ofIdentifier o) = 0 :=
  membersHeight_whenSome name o fun i => height_string i.text

/-! ## Parts of projects -/

theorem height_ofStep (s : Formula.Step) : (ofStep s).height ≤ 1 := by
  simp [ofStep, height, membersHeight, membersHeight_append]

theorem height_ofParameters (p : Parameters) : (ofParameters p).height ≤ 1 := by
  have hmembers : membersHeight (p.entries.map fun e => (e.1, ofValue e.2)) ≤ 0 := by
    refine membersHeight_le fun m hm => ?_
    obtain ⟨⟨k, v⟩, -, rfl⟩ := List.mem_map.1 hm
    cases v <;> exact Nat.le_refl 0
  exact Nat.succ_le_succ hmembers

theorem height_ofWarnings (warnings : List Warning) : membersHeight (ofWarnings warnings) ≤ 2 := by
  have hlist : (ofList ofWarning warnings).height ≤ 2 := by
    refine height_ofList_le fun w _ => ?_
    cases w
    simp [ofWarning, height, membersHeight]
  cases warnings with
  | nil => exact Nat.zero_le 2
  | cons w ws => simpa [ofWarnings, membersHeight] using hlist

theorem height_ofSteps (steps : List Formula.Step) : (ofList ofStep steps).height ≤ 2 :=
  height_ofList_le fun s _ => height_ofStep s

theorem height_ofFailure (e : Failure) : (ofFailure e).height ≤ 3 := by
  have hstrings : ∀ names : List String, (ofList string names).height ≤ 1 := fun names =>
    height_ofList_le fun _ _ => Nat.le_refl 0
  cases e with
  | missingParameters names =>
    have hnames := hstrings names
    simp only [ofFailure, failureParts, height, membersHeight]
    omega
  | _ => simp [ofFailure, failureParts, height, membersHeight]

theorem height_ofQuantity (q : Quantity) : (ofQuantity q).height ≤ 4 := by
  have hsteps := height_ofSteps q.result.steps
  have hparameters := height_ofParameters q.result.parameters
  have hwarnings := height_ofWarnings q.warnings
  have hwarnings' := height_ofWarnings q.result.warnings
  simp [ofQuantity, ofResult, ofIdentifier, ofUnit, ofInstant, height, membersHeight,
    membersHeight_append]
  omega

theorem height_ofRecord (r : Audit.Record) : (ofRecord r).height ≤ 5 := by
  have hsteps := height_ofSteps r.steps
  have hparameters := height_ofParameters r.parameters
  have hactor : (ofActor r.actor).height ≤ 1 := by
    cases r.actor <;> simp [ofActor, height, membersHeight]
  have houtcome : (ofOutcome r.outcome).height ≤ 4 := by
    cases r.outcome with
    | success id raw value unit => simp [ofOutcome, ofIdentifier, ofUnit, height, membersHeight]
    | failure kind message error =>
      have herror := height_ofFailure error
      simp [ofOutcome, ofKind, height, membersHeight]
      omega
  simp [ofRecord, ofInstant, height, membersHeight, membersHeight_append]
  omega

theorem height_ofAssembly (a : Assembly) : (ofAssembly a).height ≤ 4 := by
  have hproperties : (ofList ofSpec a.schema.properties).height ≤ 2 := by
    refine height_ofList_le fun s _ => ?_
    have hrule := membersHeight_whenSome "rule" s.rule fun r => height_string (ruleName r)
    simp [ofSpec, height, membersHeight, membersHeight_append, hrule]
  have hrequired : (ofList string a.schema.required).height ≤ 1 :=
    height_ofList_le fun _ _ => Nat.le_refl 0
  simp [ofAssembly, ofSchema, ofIdentifier, ofUnit, height, membersHeight, membersHeight_append]
  omega

theorem height_ofElement (e : Element) : (ofElement e).height ≤ 2 := by
  have hparameters := height_ofParameters e.parameters
  simp [ofElement, ofIdentifier, height, membersHeight, membersHeight_append]
  omega

/-- Project files are flat enough for any reader. -/
theorem height_ofProject (p : Project) : (ofProject p).height ≤ 7 := by
  have hcatalog : (ofCatalog p.catalog).height ≤ 5 :=
    height_ofList_le fun a _ => height_ofAssembly a
  have hquantities : (ofList ofQuantity p.quantities).height ≤ 5 :=
    height_ofList_le fun q _ => height_ofQuantity q
  have hrecords : (ofList ofRecord p.auditTrail).height ≤ 6 :=
    height_ofList_le fun r _ => height_ofRecord r
  have helements : membersHeight (p.elements.entries.map fun e => (e.1.text, ofElement e.2))
      ≤ 2 := by
    refine membersHeight_le fun m hm => ?_
    obtain ⟨e, -, rfl⟩ := List.mem_map.1 hm
    exact height_ofElement e.2
  simp only [ofProject, ofMeta, ofPreferences, ofInstant, height, membersHeight,
    membersHeight_strings]
  omega

end QuantitySurvey.Document
