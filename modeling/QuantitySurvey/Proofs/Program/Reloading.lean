import QuantitySurvey.Proofs.Program.Working

/-! # Loading what commands saved

A project is saved, and then commands calculate in its file, one after the other, each on what the
one before left on the disk. `history` tells what each handed to be saved, and what is loaded from
the file once the command is done.

* `Worked.leaves`: what one command leaves on the disk.
* `history_reloads`: what was saved is loaded again if the traces in it are finite, and the file is
  refused if they are not.
-/

set_option autoImplicit false

namespace QuantitySurvey.Program

open Command (Trouble)
open Disk (Handle)
open Workplace

/-! ## One command -/

variable {σ : Type} {d : Disk} {path : String}

/-- What a command may write. -/
def IsWritten (saving? : Option Saving) (bs : List UInt8) : Prop :=
  bs = [] ∨ Lock.IsHolderPage bs ∨ ∃ saving ∈ saving?, bs = pageOf saving.project

/-- The project at a path, if there is one, can be stored. -/
def HoldsStorable (d : Disk) (path : String) : Prop :=
  ∀ p, Project.loaded d path = .ok p → p.IsStorable

/-- What a command leaves on the disk: if it saved a project, that is at the path, and whatever else
it wrote was empty or the text of a lock. -/
structure Leaves (path : String) (d : Disk) (saving? : Option Saving) (d' : Disk) : Prop where
  evolves : d.Evolves (IsWritten saving?) d'
  storable : ∀ saving ∈ saving?, saving.project.IsStorable
  saved : ∀ saving ∈ saving?, saving.result = .ok () → d'.read path = .ok (pageOf saving.project)

/-- The doubles in the document of a project are read back, as far as they are finite. -/
def IsFaithful (p : Project) : Prop := Json.AreFaithful (Document.ofProject p).numbers

instance (p : Project) : Decidable (IsFaithful p) :=
  inferInstanceAs (Decidable (Json.AreFaithful _))

/-- Nothing is loaded from what a command writes but the project that it saves. -/
theorem isStorable_of_written {saving? : Option Saving}
    (hsaving : ∀ saving ∈ saving?, saving.project.IsStorable ∧ IsFaithful saving.project)
    {text : String} (hwritten : IsWritten saving? (Text.bytes text)) {p : Project}
    (h : Project.ofText path text = .ok p) : p.IsStorable := by
  rcases hwritten with hempty | ⟨holder, hholder⟩ | ⟨saving, hs, hpage⟩
  · have htext : text = "" := bytes_inj hempty
    subst htext
    cases h
  · rw [bytes_inj hholder, Lock.ofText_ofHolder] at h
    cases h
  · obtain ⟨hstorable, hfaithful⟩ := hsaving saving hs
    rw [bytes_inj hpage, Document.ofText_page hstorable path hfaithful] at h
    split at h
    · cases h
      exact hstorable
    · cases h

theorem HoldsStorable.evolves {d' : Disk} {saving? : Option Saving} (h : HoldsStorable d path)
    (hevolves : d.Evolves (IsWritten saving?) d')
    (hsaving : ∀ saving ∈ saving?, saving.project.IsStorable ∧ IsFaithful saving.project) :
    HoldsStorable d' path := by
  intro p hp
  obtain ⟨text, hread, htext⟩ := Project.read_of_loaded hp
  rcases hevolves.read path _ hread with hold | hwritten
  · exact h p (by rw [Project.loaded_of_read hold, htext])
  · exact isStorable_of_written hsaving hwritten htext

/-- The disk stays as it is, and so does it that the project can be stored. -/
def KeepsStorable (change : Project → Workplace σ (Except Trouble String × Project)) : Prop :=
  ∀ (d : Disk) (p : Project), p.IsStorable →
    Does d (change p) fun r d' => d' = d ∧ r.2.IsStorable

section Work

variable {change : Project → Workplace σ (Except Trouble String × Project)} {edit : Edit}
  {d' : Disk} (hchange : KeepsStorable change)
include hchange

theorem Edited.leaves (h : HoldsStorable d path) (hedited : Edited path change d edit d') :
    Leaves path d edit.saving? d' := by
  cases hedited with
  | unread hloaded => exact ⟨Disk.evolves_refl _ d, nofun, nofun⟩
  | handed hloaded hchanged hsave =>
    obtain ⟨rfl, hstorable⟩ := (hchange d _ (h _ hloaded)).of_comes hchanged
    obtain ⟨hevolves, hread⟩ := (Project.does_save _ path).of_comes hsave
    refine ⟨hevolves.mono fun bs hbs => ?_, fun s hs => ?_, fun s hs => ?_⟩
    · exact hbs.imp_right fun hpage => .inr ⟨_, rfl, hpage⟩
    · cases hs
      exact hstorable
    · cases hs
      exact hread

theorem Worked.leaves {o : Outside σ} {user : String} (h : HoldsStorable d path)
    (hworked : Worked path change o user d edit d') : Leaves path d edit.saving? d' := by
  cases hworked with
  | refused hlock =>
    have hevolves := ((Lock.does_acquire_cases o.session path user).of_comes hlock).evolves
    exact ⟨hevolves.mono fun bs hbs => hbs.imp_right .inl, nofun, nofun⟩
  | edited hlock hedit hrelease =>
    have hacquired := (Lock.does_acquire_cases o.session path user).of_comes hlock
    have hwritten : d.Evolves (IsWritten none) _ :=
      hacquired.evolves.mono fun bs hbs => hbs.imp_right .inl
    have hholds := h.evolves hwritten nofun
    have hleaves := Edited.leaves hchange hholds hedit
    obtain ⟨hreleased, hsame⟩ := (does_release_apart hacquired.path_eq).of_comes hrelease
    refine ⟨?_, hleaves.storable, fun s hs hresult => ?_⟩
    · refine (Disk.Evolves.trans ?_ hleaves.evolves).trans (hreleased.mono fun _ hbs => hbs.elim)
      exact hacquired.evolves.mono fun bs hbs => hbs.imp_right .inl
    · exact (hsame _).2 (hleaves.saved s hs hresult)

end Work

variable (o : Outside σ)

theorem keepsStorable_change (hclock : o.surroundings.ShowStorable) (settings : Settings)
    (job : Job) : KeepsStorable (job.change o.host settings) := by
  intro d p hp
  refine does_change o settings job Project.IsStorable hp (fun e a actor he ha s => ?_)
    fun e actor he s => ?_
  · exact Project.calculate_isStorable settings hclock d s hp (hp.elements e he) a actor
  · exact Project.recalculate_isStorable settings hclock d s hp (hp.elements e he) actor

/-! ## Commands in turn -/

/-- Runs commands on a project file: what each handed to be saved, if it came to that, and what is
loaded from the file once the command is done. -/
def story (path : String) :
    List (Settings × Job) → Workplace σ (List (Saving × Except Failure Project))
  | [] => return []
  | (settings, job) :: rest => do
    let edit ← job.work o.host settings path
    let loaded ← Project.load o.host.files path
    let later ← story path rest
    return (edit.saving?.map fun saving => (saving, loaded)).toList ++ later

/-- What is loaded after a project was saved: that project, unless a step of its traces has a value
that is not finite. -/
def reloaded (path : String) (p : Project) : Except Failure Project :=
  if p.hasFiniteTraces then .ok p else .error (.document s!"Invalid JSON in {path}: no project")

theorem does_story (hclock : o.surroundings.ShowStorable) (jobs : List (Settings × Job))
    (h : HoldsStorable d path) :
    Does d (story o path jobs) fun r _ => (∀ seen ∈ r, IsFaithful seen.1.project) →
      ∀ seen ∈ r, seen.1.result = .ok () → seen.2 = reloaded path seen.1.project := by
  induction jobs generalizing d with
  | nil => exact does_pure fun _ seen hseen => by cases hseen
  | cons job jobs ih =>
    obtain ⟨settings, job⟩ := job
    refine (does_underLock path _ o _).bind fun edit d₁ hworked => ?_
    have hleaves := hworked.leaves (keepsStorable_change o hclock settings job) h
    refine (Project.does_load path).bind fun loaded d₂ hload => ?_
    obtain ⟨rfl, rfl⟩ := hload
    by_cases hfaithful : ∀ saving ∈ edit.saving?, IsFaithful saving.project
    · have hsaving : ∀ saving ∈ edit.saving?,
          saving.project.IsStorable ∧ IsFaithful saving.project :=
        fun saving hs => ⟨hleaves.storable saving hs, hfaithful saving hs⟩
      refine (ih (h.evolves hleaves.evolves hsaving)).bind fun later d₃ hlater => does_pure ?_
      intro hall seen hseen hresult
      rcases List.mem_append.1 hseen with hseen | hseen
      · obtain ⟨saving, hs, rfl⟩ :
            ∃ saving ∈ edit.saving?, (saving, Project.loaded d₂ path) = seen := by
          simpa using hseen
        have hstorable := hleaves.storable saving hs
        have hread := hleaves.saved saving hs hresult
        rw [Project.loaded_of_read hread,
          Document.ofText_page hstorable path (hfaithful saving hs), reloaded]
      · exact hlater (fun seen hs => hall seen (List.mem_append_right _ hs)) seen hseen hresult
    · -- a double that is not read back ends what can be said
      refine (does_true (story o path jobs)).bind fun later d₃ _ => does_pure fun hall => ?_
      refine absurd (fun saving hs => ?_) hfaithful
      exact hall (saving, Project.loaded d₂ path) (by simp [Option.mem_def.1 hs])

/-- Saves a project and runs commands on its file. -/
def history (path : String) (p : Project) (jobs : List (Settings × Job)) :
    Workplace σ (List (Saving × Except Failure Project)) := do
  match ← p.save o.host.files path with
  | .error _ => return []
  | .ok _ =>
    let loaded ← Project.load o.host.files path
    let later ← story o path jobs
    return (⟨p, .ok ()⟩, loaded) :: later

theorem does_history (hclock : o.surroundings.ShowStorable) {p : Project} (hp : p.IsStorable)
    (jobs : List (Settings × Job)) :
    Does d (history o path p jobs) fun r _ => (∀ seen ∈ r, IsFaithful seen.1.project) →
      ∀ seen ∈ r, seen.1.result = .ok () → seen.2 = reloaded path seen.1.project := by
  unfold history
  refine (Project.does_save p path).bind fun result d₁ hsaved => ?_
  obtain ⟨-, hread⟩ := hsaved
  cases result with
  | error e => exact does_pure fun _ seen hseen => by cases hseen
  | ok _ =>
    refine (Project.does_load path).bind fun loaded d₂ hload => ?_
    obtain ⟨rfl, rfl⟩ := hload
    by_cases hfaithful : IsFaithful p
    · have hloaded : Project.loaded d₂ path = reloaded path p := by
        rw [Project.loaded_of_read (hread rfl), Document.ofText_page hp path hfaithful, reloaded]
      have hholds : HoldsStorable d₂ path := by
        intro q hq
        rw [hloaded, reloaded] at hq
        split at hq
        · cases hq
          exact hp
        · cases hq
      refine (does_story o hclock jobs hholds).bind fun later d₃ hlater => does_pure ?_
      intro hall seen hseen hresult
      rcases List.mem_cons.1 hseen with rfl | hseen
      · exact hloaded
      · exact hlater (fun seen hs => hall seen (List.mem_cons_of_mem _ hs)) seen hseen hresult
    · refine (does_true (story o path jobs)).bind fun later d₃ _ => does_pure fun hall => ?_
      exact absurd (hall _ List.mem_cons_self) hfaithful

/-- Whatever commands saved in the file of a project is loaded again if every step of its traces has
a finite value, and refused if not. -/
theorem history_reloads (hclock : ∀ s, (o.surroundings.now.run s).1.IsCivil) {p : Project}
    (hp : p.IsBuilt) (path : String) (jobs : List (Settings × Job)) (d : Disk) (s : σ)
    (hfaithful : ∀ seen ∈ (((history o path p jobs).run d).run s).1.1,
      IsFaithful seen.1.project) :
    ∀ seen ∈ (((history o path p jobs).run d).run s).1.1, seen.1.result = .ok () →
      seen.2 = reloaded path seen.1.project :=
  does_history o (fun s => (hclock s).isStorable) hp.isStorable jobs s hfaithful

/-! ## A file that is refused -/

section Refusal

/-- A place where nothing changes but the disk. -/
def Outside.quiet : Outside Unit where
  session := ⟨pure "desk", pure 1, fun _ => pure true, pure ⟨0, 0⟩⟩
  surroundings := ⟨pure ⟨0, 0⟩, pure 0, pure (.ofNat 3)⟩
  turn := pure 0
  valueOf := fun _ => pure none
  print := fun _ => pure ()
  printError := fun _ => pure ()

/-- A slab and an assembly whose formula leaves the range of doubles on the way to its result. -/
def overflowing : Project :=
  let slab : Element :=
    { id := .ofNat 1, name := "Slab", parameters := SortedMap.empty.insert "x" (.number 1e200) }
  let cap : Assembly :=
    { id := .ofNat 2, code := "11.9", name := "Cap", formula := "min(abs(x * x), 5)",
      unit := .number }
  ((Project.new ⟨0, 0⟩ "" "" "").addElement ⟨0, 0⟩ slab).addAssembly ⟨0, 0⟩ cap

def overflowingJob : Job := .calculate "Slab" "11.9" none

theorem isCivil_quiet : ∀ s, (Outside.quiet.surroundings.now.run s).1.IsCivil :=
  fun _ => show Instant.IsCivil ⟨0, 0⟩ by decide

theorem isBuilt_overflowing : overflowing.IsBuilt := by
  refine ((Project.IsBuilt.new (by decide) "" "" "").addElement (by decide) ?_).addAssembly
    (by decide) ?_
  · intro v hv
    rcases SortedMap.mem_values_insert hv with rfl | hv
    · show Float.isFinite 1e200 = true
      decide +kernel
    · cases hv
  · intro s hs
    cases hs

def savedDisk (bs : List UInt8) : Disk where
  nodes := SortedMap.empty.insert "p.tko" (.file 0)
  contents := SortedMap.empty.insert 0 bs
  next := 2

def lockedDisk (bs holder : List UInt8) : Disk where
  nodes := (savedDisk bs).nodes.insert "p.tko.lock" (.file 2)
  contents := (savedDisk bs).contents.insert 2 holder
  locks := [(2, 3)]
  next := 4

theorem does_save_first (p : Project) :
    Does {} (p.save (files : Files (Workplace Unit) Handle) "p.tko") fun r d' =>
      r = .ok () ∧ d' = savedDisk (pageOf p) :=
  fun _ => ⟨rfl, rfl⟩

theorem read_lockedDisk (bs holder : List UInt8) : (lockedDisk bs holder).read "p.tko" = .ok bs :=
  rfl

def holderPage (user : String) : List UInt8 :=
  Text.bytes (Document.ofHolder ⟨user, "desk", 1, ⟨0, 0⟩⟩).page

theorem does_acquire_quiet (bs : List UInt8) (user : String) :
    Does (savedDisk bs) (Lock.acquire (files : Files (Workplace Unit) Handle)
      Outside.quiet.session.lift "p.tko" user) fun r d' =>
        (∃ lock, r = .ok lock) ∧ d' = lockedDisk bs (holderPage user) :=
  fun _ => ⟨⟨_, rfl⟩, rfl⟩

theorem does_save_quiet (bs holder : List UInt8) (p : Project) :
    Does (lockedDisk bs holder) (p.save (files : Files (Workplace Unit) Handle) "p.tko")
      fun r _ => r = .ok () := by
  have hsame : (lockedDisk [] []).SameDirectories (lockedDisk bs holder) := fun _ => Iff.rfl
  have hnodes : (lockedDisk bs holder).nodes = (lockedDisk [] []).nodes := rfl
  have htemporary : (lockedDisk [] []).key? (Disk.sibling "tmp" "p.tko") = some "p.tko.tmp" := by
    decide +kernel
  have hpath : (lockedDisk [] []).key? "p.tko" = some "p.tko" := by decide +kernel
  refine Project.does_save_ok p ((hsame.key? _).trans htemporary) ?_ ((hsame.key? _).trans hpath) ?_
  · rw [hnodes]
    decide +kernel
  · rw [hnodes]
    decide +kernel

theorem does_overflowing_change :
    Does (lockedDisk (pageOf overflowing) (holderPage (overflowingJob.user {})))
      (overflowingJob.change Outside.quiet.host {} overflowing) fun r _ =>
        r.2.hasFiniteTraces = false ∧ IsFaithful r.2 := by
  rintro ⟨⟩
  exact ⟨by decide +kernel, by decide +kernel⟩

theorem does_overflowingJob :
    Does (savedDisk (pageOf overflowing))
      (overflowingJob.work Outside.quiet.host {} "p.tko") fun edit _ =>
        ∃ p, edit.saving? = some ⟨p, .ok ()⟩ ∧ p.hasFiniteTraces = false ∧ IsFaithful p := by
  have hstorable := isBuilt_overflowing.isStorable
  refine (does_underLock _ _ _ _).mono fun edit d' hworked => ?_
  cases hworked with
  | refused hlock =>
    obtain ⟨⟨lock, hok⟩, -⟩ := (does_acquire_quiet _ _).of_comes hlock
    cases hok
  | edited hlock hedit hrelease =>
    obtain ⟨-, rfl⟩ := (does_acquire_quiet _ _).of_comes hlock
    have hloaded : Project.loaded (lockedDisk (pageOf overflowing)
        (holderPage (overflowingJob.user {}))) "p.tko" = .ok overflowing := by
      rw [pageOf, Project.loaded_of_read (read_lockedDisk _ _),
        Document.ofText_page hstorable _ (by decide +kernel), if_pos (by decide +kernel)]
    cases hedit with
    | unread hunread =>
      rw [hloaded] at hunread
      cases hunread
    | handed hread hchange hsave =>
      rw [hloaded] at hread
      cases hread
      have hclock : Outside.quiet.surroundings.ShowStorable := fun s => (isCivil_quiet s).isStorable
      have hkeeps := keepsStorable_change .quiet hclock {} overflowingJob
      obtain ⟨rfl, -⟩ := (hkeeps _ _ hstorable).of_comes hchange
      obtain rfl := (does_save_quiet _ _ _).of_comes hsave
      exact ⟨_, rfl, does_overflowing_change.of_comes hchange⟩

theorem does_overflowing_history :
    Does {} (history .quiet "p.tko" overflowing [({}, overflowingJob)]) fun r _ =>
      ∃ loaded p loaded', r = [(⟨overflowing, .ok ()⟩, loaded), (⟨p, .ok ()⟩, loaded')]
        ∧ p.hasFiniteTraces = false ∧ IsFaithful p := by
  unfold history
  refine (does_save_first overflowing).bind fun r d₁ hsaved => ?_
  obtain ⟨rfl, rfl⟩ := hsaved
  refine (Project.does_load "p.tko").bind fun loaded d₁ hload => ?_
  obtain ⟨-, rfl⟩ := hload
  have hstory : Does (savedDisk (pageOf overflowing))
      (story .quiet "p.tko" [({}, overflowingJob)]) fun r _ => ∃ p loaded,
        r = [(⟨p, .ok ()⟩, loaded)] ∧ p.hasFiniteTraces = false ∧ IsFaithful p := by
    unfold story
    refine does_overflowingJob.bind fun edit d₂ hjob => ?_
    obtain ⟨p, hsaving, hp⟩ := hjob
    refine (Project.does_load "p.tko").bind fun loaded' d₃ _ => ?_
    exact does_pure ⟨p, loaded', by rw [hsaving]; rfl, hp⟩
  refine hstory.bind fun later d₂ hlater => ?_
  obtain ⟨p, loaded', rfl, hp⟩ := hlater
  exact does_pure ⟨loaded, p, loaded', rfl, hp⟩

/-- The project is saved, and a calculation in it too, but what the calculation left is refused. -/
theorem overflowing_refused :
    ∃ seen ∈ (((history .quiet "p.tko" overflowing [({}, overflowingJob)]).run {}).run ()).1.1,
      seen.1.result = .ok ()
        ∧ seen.2 = .error (.document "Invalid JSON in p.tko: no project") := by
  obtain ⟨loaded, p, loaded', hrun, hinfinite, hfaithful⟩ := does_overflowing_history ()
  have hmem : ((⟨p, .ok ()⟩, loaded') : Saving × Except Failure Project)
      ∈ (((history .quiet "p.tko" overflowing [({}, overflowingJob)]).run {}).run ()).1.1 := by
    rw [hrun]
    simp
  refine ⟨_, hmem, rfl, ?_⟩
  have hreloaded := history_reloads .quiet isCivil_quiet isBuilt_overflowing "p.tko"
    [({}, overflowingJob)] {} () (fun seen hseen => ?_) _ hmem rfl
  · rw [hreloaded, reloaded, if_neg (by simp [hinfinite])]
    rfl
  · rw [hrun] at hseen
    rcases List.mem_cons.1 hseen with rfl | hseen
    · show IsFaithful overflowing
      decide +kernel
    · obtain rfl := List.mem_singleton.1 hseen
      exact hfaithful

end Refusal

end QuantitySurvey.Program
