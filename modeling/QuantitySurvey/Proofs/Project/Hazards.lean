import QuantitySurvey.Proofs.Project.Saving

/-! # Files that can fail

Operations on a disk in memory for a process that is not safe: any of them can fail, what is written
gets to the file part by part, and the process can stop after each. `Hazards` decides which of it
happens; a run keeps a trail of the moments it came through, the last one first.

* `goes_passing`: an operation adds one moment to the trail.
* `goes_writeParts`: the parts that are written, one after the other.
-/

set_option autoImplicit false

namespace QuantitySurvey

open Disk (Fault Handle)

namespace Disk

/-- What a process does to files. -/
inductive Step where
  | create (path : String)
  | write
  | sync
  | close
  | rename (source target : String)
  | remove (path : String)
deriving DecidableEq

/-- A step that succeeded or failed, and the disk after it. -/
structure Moment where
  step : Step
  result : Except Fault Unit
  disk : Disk
  /-- Whether the process stopped there. -/
  isLast : Bool

end Disk

open Disk (Step Moment)

/-- What can happen to a process that works with files, decided step by step. -/
structure Hazards (σ : Type) where
  /-- The fault because of which a step is not carried out. -/
  fault? : Step → StateM σ (Option Fault)
  /-- Where bytes that are written are cut: the lengths of all parts but the last. -/
  cuts : List UInt8 → StateM σ (List Nat)
  stops : Step → StateM σ Bool

/-- A computation on a disk that may stop, with the moments it came through. -/
abbrev Exposed (σ : Type) := OptionT (StateT (List Moment) (Workplace σ))

namespace Hazards

variable {σ α β : Type} (hazards : Hazards σ)

/-! ## Operations -/

/-- The operation of a step, unless a fault keeps it from being carried out. -/
def tried (step : Step) (x : Workplace σ (Except Fault α)) : Exposed σ (Except Fault α) := do
  match ← hazards.fault? step with
  | some e => return .error e
  | none => x

/-- One step, which may fail, and which may be the last one. -/
def passing (step : Step) (x : Workplace σ (Except Fault α)) : Exposed σ (Except Fault α) := do
  let r ← hazards.tried step x
  let isLast ← hazards.stops step
  let disk ← getThe Disk
  modifyThe (List Moment) ({ step, result := r.map fun _ => (), disk, isLast } :: ·)
  if isLast then failure else return r

/-- Writes bytes in parts, until one of them fails. -/
def writeParts (h : Handle) : (cuts : List Nat) → List UInt8 → Exposed σ (Except Fault Unit)
  | [], bs => hazards.passing .write (Files.inMemory.write h bs)
  | n :: cuts, bs => do
    match ← hazards.passing .write (Files.inMemory.write h (bs.take n)) with
    | .error e => return .error e
    | .ok _ => writeParts h cuts (bs.drop n)

/-- Operations on files of which those that make, write, rename and remove one are exposed. -/
def files : Files (Exposed σ) Handle :=
  { Files.inMemory with
    create := fun path => hazards.passing (.create path) (Files.inMemory.create path)
    write := fun h bs => do hazards.writeParts h (← hazards.cuts bs) bs
    sync := fun h => hazards.passing .sync (Files.inMemory.sync h)
    close := fun h => do let _ ← hazards.passing .close (.ok <$> Files.inMemory.close h)
    rename := fun source target =>
      hazards.passing (.rename source target) (Files.inMemory.rename source target)
    remove := fun path => hazards.passing (.remove path) (Files.inMemory.remove path) }

end Hazards

namespace Exposed

/-! ## Runs -/

/-- What a run comes to, and the state of what decides over it. -/
structure Outcome (σ α : Type) where
  /-- None if the process stopped. -/
  result? : Option α
  trail : List Moment
  disk : Disk
  state : σ

/-- A run came through disks that are fine only, and its result has a property, unless the process
stopped. -/
structure Outcome.Meets {σ α : Type} (o : Outcome σ α) (isFine : Disk → Prop)
    (before : List Moment) (Q : α → List Moment → Disk → Prop) : Prop where
  fine : ∀ m ∈ o.trail, m ∈ before ∨ isFine m.disk
  stopped : o.result? = none → ∃ m, o.trail.head? = some m ∧ m.isLast ∧ m.disk = o.disk
  ends : ∀ a, o.result? = some a → Q a o.trail o.disk

variable {σ α β : Type} {isFine : Disk → Prop} {trail : List Moment} {d : Disk}

def outcome (x : Exposed σ α) (trail : List Moment) (d : Disk) (s : σ) : Outcome σ α :=
  let (((result?, trail), disk), state) := ((x.run.run trail).run d).run s
  { result?, trail, disk, state }

theorem outcome_bind (x : Exposed σ α) (f : α → Exposed σ β) (s : σ) :
    (x >>= f).outcome trail d s = match x.outcome trail d s with
      | ⟨some a, trail', d', s'⟩ => (f a).outcome trail' d' s'
      | ⟨none, trail', d', s'⟩ => ⟨none, trail', d', s'⟩ := by
  unfold outcome
  rw [OptionT.run_bind, Option.elimM, StateT.run_bind, StateT.run_bind, StateT.run_bind]
  rcases ((x.run.run trail).run d).run s with ⟨⟨⟨_ | a, trail'⟩, d'⟩, s'⟩
  · rfl
  · rfl

def Goes (isFine : Disk → Prop) (trail : List Moment) (d : Disk) (x : Exposed σ α)
    (Q : α → List Moment → Disk → Prop) : Prop :=
  ∀ s, (x.outcome trail d s).Meets isFine trail Q

theorem goes_pure {a : α} {Q : α → List Moment → Disk → Prop} (h : Q a trail d) :
    Goes isFine trail d (pure a : Exposed σ α) Q :=
  fun _ => ⟨fun _ hm => .inl hm, nofun, fun _ ha => Option.some.inj ha ▸ h⟩

theorem Goes.bind {x : Exposed σ α} {f : α → Exposed σ β} {P : α → List Moment → Disk → Prop}
    {Q : β → List Moment → Disk → Prop} (hx : Goes isFine trail d x P)
    (hf : ∀ a trail' d', P a trail' d' → Goes isFine trail' d' (f a) Q) :
    Goes isFine trail d (x >>= f) Q := by
  intro s
  rw [outcome_bind]
  have h := hx s
  revert h
  rcases x.outcome trail d s with ⟨_ | a, trail', d', s'⟩ <;> intro h
  · exact ⟨h.fine, fun _ => h.stopped rfl, nofun⟩
  · have hrest := hf a trail' d' (h.ends a rfl) s'
    refine ⟨fun m hm => ?_, hrest.stopped, hrest.ends⟩
    rcases hrest.fine m hm with hm | hm
    · exact h.fine m hm
    · exact .inr hm

theorem Goes.mono {x : Exposed σ α} {P Q : α → List Moment → Disk → Prop}
    (hx : Goes isFine trail d x P) (h : ∀ a trail' d', P a trail' d' → Q a trail' d') :
    Goes isFine trail d x Q :=
  fun s => ⟨(hx s).fine, (hx s).stopped, fun a ha => h _ _ _ ((hx s).ends a ha)⟩

theorem goes_lift {x : Workplace σ α} {P : α → Disk → Prop} (hx : Workplace.Does d x P) :
    Goes isFine trail d (liftM x : Exposed σ α) fun a trail' d' => trail' = trail ∧ P a d' :=
  fun s => ⟨fun _ hm => .inl hm, nofun, fun _ ha => ⟨rfl, Option.some.inj ha ▸ hx s⟩⟩

/-- What is decided outside leaves trail and disk alone. -/
theorem goes_decide (x : StateM σ α) :
    Goes isFine trail d (liftM x : Exposed σ α) fun _ trail' d' => trail' = trail ∧ d' = d :=
  fun _ => ⟨fun _ hm => .inl hm, nofun, fun _ _ => ⟨rfl, rfl⟩⟩

theorem goes_disk :
    Goes isFine trail d (getThe Disk : Exposed σ Disk) fun now trail' d' =>
      trail' = trail ∧ now = d ∧ d' = d :=
  fun _ => ⟨fun _ hm => .inl hm, nofun, fun _ ha => ⟨rfl, (Option.some.inj ha).symm, rfl⟩⟩

theorem goes_note {m : Moment} (hm : isFine m.disk) :
    Goes isFine trail d (modifyThe (List Moment) (m :: ·) : Exposed σ Unit) fun _ trail' d' =>
      trail' = m :: trail ∧ d' = d := by
  refine fun _ => ⟨fun m' hm' => ?_, nofun, fun _ _ => ⟨rfl, rfl⟩⟩
  rcases List.mem_cons.1 hm' with rfl | hm'
  · exact .inr hm
  · exact .inl hm'

theorem goes_failure {m : Moment} (hm : m.isLast) (Q : α → List Moment → Disk → Prop) :
    Goes isFine (m :: trail) m.disk (failure : Exposed σ α) Q :=
  fun _ => ⟨fun _ hm => .inl hm, fun _ => ⟨m, rfl, hm, rfl⟩, nofun⟩

/-! ## Steps -/

variable (hazards : Hazards σ)

theorem goes_tried (step : Step) {x : Workplace σ (Except Fault α)}
    {P : Except Fault α → Disk → Prop} (hx : Workplace.Does d x P) (hfault : ∀ e, P (.error e) d) :
    Goes isFine trail d (hazards.tried step x) fun r trail' d' => trail' = trail ∧ P r d' := by
  unfold Hazards.tried
  refine (goes_decide _).bind fun fault? trail' d' hdecided => ?_
  obtain ⟨rfl, rfl⟩ := hdecided
  cases fault? with
  | some e => exact goes_pure ⟨rfl, hfault e⟩
  | none => exact goes_lift hx

/-- A step that fails leaves the disk as it is; and whatever it does, it is told in the trail. -/
theorem goes_passing (step : Step) {x : Workplace σ (Except Fault α)}
    {P : Except Fault α → Disk → Prop} (hx : Workplace.Does d x P) (hfault : ∀ e, P (.error e) d)
    (hfine : ∀ r d', P r d' → isFine d') :
    Goes isFine trail d (hazards.passing step x) fun r trail' d' => P r d' ∧
      ∃ m, trail' = m :: trail ∧ m.step = step ∧ m.result = r.map fun _ => () := by
  unfold Hazards.passing
  refine (goes_tried hazards step hx hfault).bind fun r trail₁ d₁ htried => ?_
  obtain ⟨rfl, hr⟩ := htried
  refine (goes_decide _).bind fun isLast trail₂ d₂ hdecided => ?_
  obtain ⟨rfl, rfl⟩ := hdecided
  refine goes_disk.bind fun disk trail₃ d₃ hdisk => ?_
  obtain ⟨rfl, rfl, rfl⟩ := hdisk
  refine (goes_note (hfine r _ hr)).bind fun _ trail₄ d₄ hnoted => ?_
  obtain ⟨rfl, rfl⟩ := hnoted
  cases isLast with
  | true => exact goes_failure rfl _
  | false => exact goes_pure ⟨hr, _, rfl, rfl, rfl⟩

section Writing

/-! What holds of a disk and the bytes that were written to a file so far. -/

variable {h : Handle} {holds : List UInt8 → Disk → Prop}
  (hwrite : ∀ done bs d, holds done d → holds (done ++ bs) (d.write h bs))
  (hfine : ∀ done d, holds done d → isFine d)
include hwrite hfine

/-- All or nothing of one part is written. -/
theorem goes_writePart {part done : List UInt8} (hd : holds done d) :
    Goes isFine trail d (hazards.passing .write (Files.inMemory.write h part)) fun r _ d' =>
      (∃ e, r = .error e ∧ holds done d') ∨ r = .ok () ∧ holds (done ++ part) d' := by
  have hdoes : Workplace.Does d (Files.inMemory.write h part : Workplace σ (Except Fault Unit))
      fun r d' => (∃ e, r = .error e ∧ holds done d') ∨ r = .ok () ∧ holds (done ++ part) d' :=
    fun _ => .inr ⟨rfl, hwrite done part d hd⟩
  refine (goes_passing hazards .write hdoes (fun e => .inl ⟨e, rfl, hd⟩) fun r d' hr => ?_).mono
    fun r trail' d' hr => hr.1
  rcases hr with ⟨-, -, hd'⟩ | ⟨-, hd'⟩ <;> exact hfine _ _ hd'

/-- The parts are written one after the other: all of them, unless one fails. -/
theorem goes_writeParts (cuts : List Nat) {bs done : List UInt8} (hd : holds done d) :
    Goes isFine trail d (hazards.writeParts h cuts bs) fun r _ d' =>
      ∃ written, holds written d' ∧ (r = .ok () → written = done ++ bs) := by
  induction cuts generalizing bs done d trail with
  | nil =>
    refine (goes_writePart hazards hwrite hfine hd).mono fun r trail' d' hr => ?_
    rcases hr with ⟨e, rfl, hd'⟩ | ⟨-, hd'⟩
    · exact ⟨done, hd', nofun⟩
    · exact ⟨done ++ bs, hd', fun _ => rfl⟩
  | cons n cuts ih =>
    refine (goes_writePart hazards hwrite hfine hd).bind fun r trail' d' hr => ?_
    rcases hr with ⟨e, rfl, hd'⟩ | ⟨rfl, hd'⟩
    · exact goes_pure ⟨done, hd', nofun⟩
    · refine (ih hd').mono fun r trail'' d'' hrest => ?_
      rwa [List.append_assoc, List.take_append_drop] at hrest

/-- So is a text, which is made last after that. -/
theorem goes_writeText {done : List UInt8} (hd : holds done d) (text : String) :
    Goes isFine trail d (hazards.files.writeText h text) fun r _ d' =>
      ∃ written, holds written d' ∧ (r = .ok () → written = done ++ Text.bytes text) := by
  unfold Files.writeText
  have hparts : Goes isFine trail d (hazards.files.write h (Text.bytes text)) fun r _ d' =>
      ∃ written, holds written d' ∧ (r = .ok () → written = done ++ Text.bytes text) := by
    refine (goes_decide _).bind fun cuts trail' d' hdecided => ?_
    obtain ⟨rfl, rfl⟩ := hdecided
    exact goes_writeParts hazards hwrite hfine cuts hd
  refine hparts.bind fun r trail' d' hr => ?_
  obtain ⟨written, hd', hwritten⟩ := hr
  cases r with
  | error e => exact goes_pure ⟨written, hd', nofun⟩
  | ok _ =>
    have hsync : Workplace.Does d' (Files.inMemory.sync h : Workplace σ (Except Fault Unit))
        fun _ d'' => holds written d'' := fun _ => hd'
    exact (goes_passing hazards .sync hsync (fun _ => hd') fun _ _ => hfine written _).mono
      fun r trail'' d'' hr => ⟨written, hr.1, fun _ => hwritten rfl⟩

end Writing

/-- A handle is closed, or it is not. -/
theorem goes_close (h : Handle) (hopen : isFine d) (hclosed : isFine (d.closed h)) :
    Goes isFine trail d (hazards.files.close h) fun _ _ d' => d' = d ∨ d' = d.closed h := by
  have hdoes : Workplace.Does d (.ok <$> Files.inMemory.close h : Workplace σ (Except Fault Unit))
      fun _ d' => d' = d ∨ d' = d.closed h := fun _ => .inr rfl
  refine (goes_passing hazards .close hdoes (fun _ => .inl rfl) fun r d' hr => ?_).bind
    fun r trail' d' hr => goes_pure hr.1
  rcases hr with rfl | rfl
  · exact hopen
  · exact hclosed

end Exposed

end QuantitySurvey
