import QuantitySurvey.Proofs.Calculation.Correspondence
import QuantitySurvey.Proofs.Calculation.Replacement

/-! # Notes of a batch

What became of a batch depends on what its checks for a stop saw and on what the store made of the
replacement. Circumstances that are `noted` write both down as they happen, and decide everything
else as they do without it.

* `recalculation_eq_forgotten`: taking notes changes nothing.
* `notes_attemptAll`: the notes of the checks.
* `silent_parts`: no notes are taken when attempts are made and settled.
-/

set_option autoImplicit false

namespace QuantitySurvey.Calculation

/-! ## Taking notes -/

inductive Note where
  /-- The check before an assembly: how many were attempted before, and whether it saw the flag. -/
  | checked (before : Nat) (raised : Bool)
  /-- The replacement of the stored quantities, with the fault of the store if it had one. -/
  | replaced (fault : Option Failure)
deriving DecidableEq

variable {σ α β : Type}

/-- A decision of which notes are taken. -/
def noting (notes : α → List Note) (x : StateM σ α) : StateM (σ × List Note) α :=
  fun s => ((x s.1).1, ((x s.1).2, s.2 ++ notes (x s.1).1))

def Circumstances.noted (c : Circumstances σ) : Circumstances (σ × List Note) where
  surroundings := {
    now := noting (fun _ => []) c.surroundings.now
    ticks := noting (fun _ => []) c.surroundings.ticks
    freshId := noting (fun _ => []) c.surroundings.freshId }
  refusal? := fun r => noting (fun _ => []) (c.refusal? r)
  insertFault? := fun q => noting (fun _ => []) (c.insertFault? q)
  replaceFault? := fun e qs => noting (fun fault => [.replaced fault]) (c.replaceFault? e qs)
  stop := fun n => noting (fun raised => [.checked n raised]) (c.stop n)

namespace World

def noted (w : World σ) : World (σ × List Note) where
  ledger := w.ledger
  history := ⟨(w.history.state, []), w.history.given, w.history.offers⟩

def forgotten (w : World (σ × List Note)) : World σ where
  ledger := w.ledger
  history := ⟨w.history.state.1, w.history.given, w.history.offers⟩

def notes (w : World (σ × List Note)) : List Note := w.history.state.2

@[simp] theorem notes_moved (w : World (σ × List Note)) (state : σ × List Note) :
    (w.moved state).notes = state.2 := rfl

end World

/-! ## Forgetting them -/

/-- A computation comes to the same and leaves the same behind, but for the notes. -/
def forgetting : Correspondence (Play (σ × List Note)) (Play σ) where
  Holds x y := ∀ w, play y w.forgotten = ((play x w).1, (play x w).2.forgotten)
  pure := fun _ _ => rfl
  bind := by
    intro α β x y f g hx hf w
    rw [play_bind, play_bind, hx w, hf]

section Batch

variable (c : Circumstances σ) (settings : Settings)

theorem alike_noted : Alike forgetting (c.noted.engine settings) (c.engine settings) where
  settings := rfl
  now := fun _ => rfl
  ticks := fun _ => rfl
  freshId := fun _ => rfl
  record := by
    intro r
    refine forgetting.bind (x := History.answering c.noted.refusal? r)
      (y := History.answering c.refusal? r) (fun _ => rfl) fun refusal => ?_
    cases refusal with
    | some f => exact forgetting.pure _
    | none => exact fun _ => rfl
  insert := by
    intro q
    refine forgetting.bind (x := History.deciding (c.noted.insertFault? q))
      (y := History.deciding (c.insertFault? q)) (fun _ => rfl) fun fault => ?_
    cases fault with
    | some f => exact forgetting.pure _
    | none => exact fun _ => rfl
  replaceFor := by
    intro e qs
    refine forgetting.bind (x := History.deciding (c.noted.replaceFault? e qs))
      (y := History.deciding (c.replaceFault? e qs)) (fun _ => rfl) fun fault => ?_
    cases fault with
    | some f => exact forgetting.pure _
    | none =>
      refine forgetting.bind (x := get) (y := get) (fun _ => rfl) fun l => ?_
      cases l.store.replaceFor e qs with
      | ok store => exact fun _ => rfl
      | error f => exact forgetting.pure _
  remove := fun _ _ _ => rfl

variable (w : World σ) (element : Element) (catalog : Catalog) (actor : Actor)

def notedRecalculation : Except Failure Report × World (σ × List Note) :=
  recalculation c.noted settings w.noted element catalog actor

def notesOf : List Note := (notedRecalculation c settings w element catalog actor).2.notes

theorem recalculation_eq_forgotten : recalculation c settings w element catalog actor
    = ((notedRecalculation c settings w element catalog actor).1,
      (notedRecalculation c settings w element catalog actor).2.forgotten) :=
  (alike_noted c settings).recalculate (fun _ _ => rfl) element catalog actor w.noted

end Batch

/-! ## What is noted -/

def silent : Correspondence (Play (σ × List Note)) (Play (σ × List Note)) where
  Holds x _ := ∀ w, (play x w).2.notes = w.notes
  pure := fun _ _ => rfl
  bind := by
    intro α β x y f g hx hf w
    rw [play_bind, hf, hx]

theorem silent_deciding (x : StateM σ α) (y : Play (σ × List Note) α) :
    silent.Holds (History.deciding (noting (fun _ => []) x)) y :=
  fun w => List.append_nil w.notes

section Parts

variable (c : Circumstances σ) (settings : Settings)

/-- Notes are only taken of the checks and of the replacement. -/
theorem silent_parts : AlikeInParts silent (c.noted.engine settings) (c.noted.engine settings) where
  settings := rfl
  now := silent_deciding _ _
  ticks := silent_deciding _ _
  freshId := fun w => List.append_nil w.notes
  record := by
    intro r
    have hanswer : silent.Holds (History.answering c.noted.refusal? r)
        (History.answering c.noted.refusal? r) := fun w => List.append_nil w.notes
    refine silent.bind hanswer fun refusal => ?_
    cases refusal with
    | some f => exact silent.pure _
    | none => exact fun _ => rfl
  insert := by
    intro q
    refine silent.bind (silent_deciding (c.insertFault? q) (History.deciding
      (c.noted.insertFault? q))) fun fault => ?_
    cases fault with
    | some f => exact silent.pure _
    | none => exact fun _ => rfl
  remove := fun _ _ _ => rfl

/-- The notes of so many checks in a row, of which at most the last one saw the flag. -/
def checksFrom (first count : Nat) (stopped : Bool) : List Note :=
  (List.range' first count).map (.checked · false)
    ++ if stopped then [.checked (first + count) true] else []

theorem mem_checksFrom {first count n : Nat} {stopped : Bool} :
    Note.checked n true ∈ checksFrom first count stopped ↔ stopped = true ∧ n = first + count := by
  cases stopped <;> simp [checksFrom]

theorem replaced_not_mem_checksFrom {first count : Nat} {stopped : Bool} {fault : Option Failure} :
    Note.replaced fault ∉ checksFrom first count stopped := by
  cases stopped <;> simp [checksFrom]

/-- The loop over the assemblies notes a check before each attempt, and the one that ends it. -/
theorem notes_attemptAll (element : Element) (assemblies : List Assembly) (made : List Attempt)
    (w : World (σ × List Note)) :
    let r := play ((c.noted.engine settings).attemptAll c.noted.stopping element assemblies made) w
    ∃ count, r.1.2.length = made.length + count
      ∧ r.2.notes = w.notes ++ checksFrom made.length count r.1.1
      ∧ (r.1.1 = true → count < assemblies.length) := by
  induction assemblies generalizing made w with
  | nil =>
    exact ⟨0, by simp [Engine.attemptAll], by simp [Engine.attemptAll, checksFrom],
      by simp [Engine.attemptAll]⟩
  | cons a rest ih =>
    let stop := c.stop made.length w.history.state.1
    let state : σ × List Note := (stop.2, w.notes ++ [.checked made.length stop.1])
    have hstop : play (c.noted.stopping made.length) w = (stop.1, w.moved state) := rfl
    simp only [Engine.attemptAll, play_bind, hstop]
    cases hs : stop.1 with
    | true => exact ⟨0, by simp, by simp [checksFrom, state, hs], by simp⟩
    | false =>
      simp only [Bool.false_eq_true, if_false, play_bind]
      have hattempt := (silent_parts c settings).attempt (some element) (some a) (w.moved state)
      generalize play ((c.noted.engine settings).attempt (some element) (some a)) (w.moved state)
        = attempted at hattempt ⊢
      -- the check of the next assembly is numbered by the attempts before, this one included
      obtain ⟨count, hlength, hnotes, hbefore⟩ :=
        ih (⟨a, attempted.1.1, attempted.1.2⟩ :: made) attempted.2
      refine ⟨count + 1, ?_, ?_, ?_⟩
      · rw [hlength, List.length_cons]
        omega
      · have hfirst : made.length + 1 + count = made.length + (count + 1) := by omega
        rw [hnotes, hattempt, World.notes_moved]
        simp [state, hs, checksFrom, List.range'_succ, hfirst]
      · intro hstopped
        have := hbefore hstopped
        simp only [List.length_cons]
        omega

end Parts

end QuantitySurvey.Calculation
