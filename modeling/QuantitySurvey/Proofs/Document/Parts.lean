import QuantitySurvey.Proofs.Document.Members
import QuantitySurvey.Proofs.Project.Storable

/-! # Common data read back

Identifiers, units, words, parameters, failures, actors and traces are read as what was written,
as far as the doubles in them are finite.

* `Identifier.read?_text`: the text of an identifier stands for it.
* `failure?_asRead`: a failure is read with all its circumstances.
* `step?_asRead`: a step is read back exactly when its value is finite.
-/

set_option autoImplicit false

namespace QuantitySurvey

/-! ## Identifiers -/

namespace Identifier

theorem ungrouped?_grouped {ds : List Char} (h : ds.length = 32) :
    ungrouped? (grouped ds) = some ds := by
  have hgroup : ∀ n, (ds.drop n).take 4 ++ ds.drop (n + 4) = ds.drop n := by
    intro n
    rw [← List.drop_drop]
    exact List.take_append_drop 4 (ds.drop n)
  have h₂₀ := hgroup 16
  have h₁₆ := hgroup 12
  have h₁₂ := hgroup 8
  simp [ungrouped?, grouped, h, List.drop_append, List.drop_take, h₂₀, h₁₆, h₁₂]

theorem length_grouped {ds : List Char} (h : ds.length = 32) : (grouped ds).length = 36 := by
  simp [grouped, h]

/-- The digits of an identifier stand in no wrapping. -/
theorem unwrapped_grouped {ds : List Char} (h : ds.length = 32) :
    unwrapped (grouped ds) = grouped ds := by
  have hlength := length_grouped h
  have hscheme : (grouped ds).take 9 ≠ "urn:uuid:".toList := by
    intro htake
    have hhyphen : ((grouped ds).take 9)[8]? = some '-' := by
      simp [grouped, h, List.take_append]
    rw [htake] at hhyphen
    exact absurd hhyphen (by decide)
  rw [unwrapped, hlength, if_neg (by simp), if_neg hscheme]

theorem read?_text (i : Identifier) : read? i.text = some i := by
  have hlength := Text.length_hexDigits 32 i.toNat
  have hsize : i.toNat % 16 ^ 32 = i.toNat := Nat.mod_eq_of_lt i.bits.isLt
  have hdigits : i.text.toList = grouped (Text.hexDigits 32 i.toNat) := String.toList_ofList
  have hother : (grouped (Text.hexDigits 32 i.toNat)).length ≠ 32 := by
    rw [length_grouped hlength]
    decide
  simp only [read?, hdigits, if_neg hother, unwrapped_grouped hlength,
    ungrouped?_grouped hlength, Option.bind_some, Text.hexNumber?_hexDigits, hsize,
    Option.map_some]
  simp [ofNat, toNat]

end Identifier

namespace Document

open Json

/-! ## Leaves -/

@[simp] theorem string?_string (s : String) : (string s).string? = some s := rfl

theorem float?_asRead (x : Float) :
    (number x).asRead.float? = if x.isFinite then some x else none := by
  rw [asRead]
  split <;> rfl

theorem float?_of_finite {x : Float} (h : x.isFinite = true) :
    (number x).asRead.float? = some x := by
  rw [float?_asRead, if_pos h]

theorem natBelow?_asRead {n bound : Nat} (h : n < bound) (hbound : bound ≤ UInt64.size) :
    (integer n).asRead.natBelow? bound = some n := by
  rw [asRead_count (Nat.lt_of_lt_of_le h hbound)]
  simp [natBelow?, h]

theorem count?_asRead {n : Nat} (h : n < UInt64.size) : (integer n).asRead.count? = some n :=
  natBelow?_asRead h (Nat.le_refl _)

theorem identifier?_asRead (i : Identifier) : identifier? (ofIdentifier i).asRead = some i := by
  rw [ofIdentifier, asRead_string, identifier?, string?_string, Option.bind_some,
    Identifier.read?_text]

theorem unit?_asRead (u : Measure.Unit) : unit? (ofUnit u).asRead = some u := by
  rw [ofUnit, asRead_string, unit?, string?_string, Option.bind_some, Measure.Unit.read?_symbol]

theorem instant?_asRead {t : Instant} (h : t.IsStorable) :
    instant? (ofInstant t).asRead = some t := by
  rw [ofInstant, asRead_string, instant?, string?_string, Option.bind_some, h]

/-! ## Parameters -/

theorem value?_asRead {v : Parameter.Value} (h : v.IsFinite) :
    value? (ofValue v).asRead = some v := by
  cases v with
  | number x =>
    rw [ofValue, asRead_number h]
    rfl
  | text s => rfl

theorem parameters?_asRead {p : Parameters} (h : Parameter.AreFinite p) :
    parameters? (ofParameters p).asRead = some p := by
  have hmembers : (ofParameters p).asRead
      = object (p.entries.map fun e => (id e.1, (ofValue e.2).asRead)) := by
    rw [ofParameters, asRead_object, List.map_map]
    rfl
  rw [hmembers]
  exact map?_entries (fun _ => rfl) fun v hv => value?_asRead (h v hv)

/-! ## Failures and actors -/

theorem kind?_ofKind (setAside : Bool) (k : Failure.Kind) :
    kind? setAside (ofKind k) = some k := by
  cases k <;> rfl

section Circumstances

variable {first second third : String} (a b c : String)

theorem text1?_members (make : String → Failure) :
    text1? make first (object [(first, string a)]) = some (make a) := by
  simp [text1?, member?]

theorem text2?_members (make : String → String → Failure) (h : first ≠ second) :
    text2? make first second (object [(first, string a), (second, string b)])
      = some (make a b) := by
  simp [text2?, member?, h, h.symm]

theorem text3?_members (make : String → String → String → Failure) (h₁₂ : first ≠ second)
    (h₁₃ : first ≠ third) (h₂₃ : second ≠ third) :
    text3? make first second third
      (object [(first, string a), (second, string b), (third, string c)])
        = some (make a b c) := by
  simp [text3?, member?, h₁₂, h₁₃, h₂₃, h₁₂.symm, h₁₃.symm, h₂₃.symm]

end Circumstances

theorem list?_strings (names : List String) :
    list? string? (ofList string names).asRead = some names :=
  list?_ofList fun _ _ => rfl

/-- The reader for a sort of failure is found by its name, and reads its circumstances. -/
theorem word?_failureReaders (setAside : Bool) (e : Failure) :
    ∃ read, word? setAside failureReaders Prod.fst (string (failureParts e).1)
        = some ((failureParts e).1, read)
      ∧ read (object (failureParts e).2).asRead = some e := by
  cases e with
  | missingInput field => exact ⟨_, rfl, text1?_members _ _⟩
  | missingParameters names =>
    refine ⟨_, rfl, ?_⟩
    simp [failureParts, member?, list?_strings]
  | invalidParameter parameter value reason =>
    exact ⟨_, rfl, text3?_members _ _ _ _ (by decide) (by decide) (by decide)⟩
  | formula expression reason => exact ⟨_, rfl, text2?_members _ _ _ (by decide)⟩
  | unit source target reason =>
    exact ⟨_, rfl, text3?_members _ _ _ _ (by decide) (by decide) (by decide)⟩
  | calculation reason => exact ⟨_, rfl, text1?_members _ _⟩
  | file operation path reason =>
    exact ⟨_, rfl, text3?_members _ _ _ _ (by decide) (by decide) (by decide)⟩
  | locked path holder since =>
    exact ⟨_, rfl, text3?_members _ _ _ _ (by decide) (by decide) (by decide)⟩
  | document reason => exact ⟨_, rfl, text1?_members _ _⟩
  | version found expected => exact ⟨_, rfl, text2?_members _ _ _ (by decide)⟩
  | internal message => exact ⟨_, rfl, text1?_members _ _⟩

theorem failure?_asRead (setAside : Bool) (e : Failure) :
    failure? setAside (ofFailure e).asRead = some e := by
  obtain ⟨read, hword, hread⟩ := word?_failureReaders setAside e
  let members := [("type", string (failureParts e).1),
    ("details", (object (failureParts e).2).asRead)]
  have hmembers : (ofFailure e).asRead = object members := by
    rw [ofFailure, asRead_object]
    rfl
  have hfound : (object members).record? ["type", "details"]
      = some [some (string (failureParts e).1), some (object (failureParts e).2).asRead] := by
    rw [record?_object]
    rfl
  have hfirst : detailsFirst (object members) = false := rfl
  rw [hmembers, failure?, hfound]
  simp only [Option.bind_eq_bind, Option.bind_some, required?_some, hword, hfirst, Bool.false_and,
    hread]
  rfl

theorem actor?_asRead (a : Actor) : actor? (ofActor a).asRead = some a := by
  cases a <;> simp [actor?, ofActor, variant?, member?, membersReadable, isReadable, isBare]

/-! ## Traces -/

theorem stepKind?_name (k : Formula.Step.Kind) : stepKind? (string (stepKindName k)) = some k := by
  cases k <;> rfl

theorem optional?_string (o : Option String) :
    optional? string? (o.map fun s => string s) = some o :=
  optional?_map (fun _ _ => rfl) rfl

theorem optional?_unit (o : Option Measure.Unit) :
    optional? unit? (o.map fun u => (ofUnit u).asRead) = some o :=
  optional?_map (fun u _ => unit?_asRead u) rfl

theorem optional?_identifier (o : Option Identifier) :
    optional? identifier? (o.map fun i => (ofIdentifier i).asRead) = some o :=
  optional?_map (fun i _ => identifier?_asRead i) rfl

theorem step?_asRead (s : Formula.Step) :
    step? (ofStep s).asRead = if s.isFinite then some s else none := by
  simp only [step?, ofStep, asRead_object, record?_object, List.map_append, List.map_cons,
    List.map_nil, map_whenSome]
  simp only [List.mapM_cons, List.mapM_nil]
  simp [member?, stepKind?_name, float?_asRead, optional?_string, optional?_unit]
  cases h : s.value.isFinite <;> simp [Formula.Step.isFinite, h]

theorem list?_steps (steps : List Formula.Step) :
    list? step? (ofList ofStep steps).asRead
      = if steps.all Formula.Step.isFinite then some steps else none :=
  list?_ofList_ite fun s _ => step?_asRead s

end Document

end QuantitySurvey
