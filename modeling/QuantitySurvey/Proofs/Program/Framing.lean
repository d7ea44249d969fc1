import QuantitySurvey.Proofs.Program.Reloading
import QuantitySurvey.Proofs.Project.Framing
import QuantitySurvey.Proofs.Project.Locking

/-! # What commands leave alone

A command that calculates in a project loads it, runs the engine, and saves what came of that.
Whatever it is asked for, it adds to the project at its ends: a record for each attempt, a quantity
to the list of one element. A project that cannot be loaded is not saved.

* `Job.IsFramed`: what is the same in the project that is saved, and what was added.
* `does_change_framed`: every change that a command makes is of that kind.
* `Job.Ends`: how a command may end, and what it leaves on the disk.
* `saved_project_framed`: every command ends like that.
* `execute_keepsOrderly`, `unloaded_file_kept`: on a disk where no file has two names.
-/

set_option autoImplicit false

namespace QuantitySurvey.Program

open Command (Trouble)
open Disk (Handle)
open Workplace

/-! ## Changes -/

namespace Job

variable (job : Job) (settings : Settings) (turn : Nat) (p q : Project)

/-- The element that a command works on, if it finds all that it asks for. -/
def element? : Job → Option Element
  | .calculate element assembly actor =>
    (Job.calculation settings p turn element assembly actor).toOption.map fun r => r.2.1
  | .recalculate element actor =>
    (Job.recalculation settings p turn element actor).toOption.map fun r => r.2

/-- How many attempts come of a command: one, or one for each assembly of a classification. -/
def attemptCount : Nat :=
  match job, job.element? settings turn p with
  | _, none => 0
  | .calculate _ _ _, some _ => 1
  | .recalculate _ _, some e =>
    e.classification.elim 0 fun k => (p.catalog.assembliesFor k).length

def isCalculation : Job → Bool
  | .calculate _ _ _ => true
  | .recalculate _ _ => false

/-- A project after a command: it has a record more for each attempt, and other quantities for at
most one element. A calculation adds at most one quantity, at the end. -/
structure IsFramed : Prop where
  framed : p.IsFramed q ((job.element? settings turn p).map Element.id) (job.attemptCount settings turn p)
  appended : job.isCalculation = true → ∀ x, ∃ new : Option Quantity,
    q.quantitiesFor x = p.quantitiesFor x ++ new.toList

variable {settings turn p job}

theorem isFramed_refl (h : job.element? settings turn p = none) : job.IsFramed settings turn p p where
  framed := by
    have hcount : job.attemptCount settings turn p = 0 := by
      unfold attemptCount
      rw [h]
    rw [h, hcount]
    exact Project.isFramed_refl p
  appended := fun _ _ => ⟨none, (List.append_nil _).symm⟩

theorem isFramed_of_calculated {element assembly : String} {actor : Option String} {e : Element}
    (h : (calculate element assembly actor).element? settings turn p = some e)
    (framed : p.IsFramed q (some e.id) 1) {new : Option Quantity}
    (hnew : q.quantitiesFor e.id = p.quantitiesFor e.id ++ new.toList) :
    (calculate element assembly actor).IsFramed settings turn p q where
  framed := by
    have hcount : (calculate element assembly actor).attemptCount settings turn p = 1 := by
      unfold attemptCount
      rw [h]
    rw [h, hcount]
    exact framed
  appended := by
    intro _ x
    by_cases hx : x = e.id
    · exact ⟨new, hx ▸ hnew⟩
    · refine ⟨none, ?_⟩
      rw [framed.others x fun h => hx (Option.some.inj h).symm]
      exact (List.append_nil _).symm

theorem isFramed_of_recalculated {element : String} {actor : Option String} {e : Element}
    (h : (recalculate element actor).element? settings turn p = some e)
    (framed : p.IsFramed q (some e.id)
      (e.classification.elim 0 fun k => (p.catalog.assembliesFor k).length)) :
    (recalculate element actor).IsFramed settings turn p q where
  framed := by
    have hcount : (recalculate element actor).attemptCount settings turn p
        = e.classification.elim 0 fun k => (p.catalog.assembliesFor k).length := by
      unfold attemptCount
      rw [h]
    rw [h, hcount]
    exact framed
  appended := fun h => by cases h

end Job

section Command

variable {σ : Type} {d d' : Disk} {path : String} (o : Outside σ) (settings : Settings)

theorem does_change_framed (job : Job) (p : Project) :
    Does d (job.change o.host settings p) fun r d' =>
      d' = d ∧ ∃ turn, o.Turns turn ∧ job.IsFramed settings turn p r.2 := by
  cases job with
  | calculate element assembly named =>
    unfold Job.change
    refine (does_turn o).bind fun turn d₁ hturn => ?_
    obtain ⟨hturn, rfl⟩ := hturn
    cases hfound : Job.calculation settings p turn element assembly named with
    | error t =>
      refine does_pure ⟨rfl, turn, hturn, Job.isFramed_refl ?_⟩
      rw [Job.element?, hfound]
      rfl
    | ok found =>
      obtain ⟨actor, e, a⟩ := found
      have helement : (Job.calculate element assembly named).element? settings turn p = some e := by
        rw [Job.element?, hfound]
        rfl
      have hcalculate : Does d₁ (p.calculate settings o.surroundings.lift e a actor)
          fun r d' => d' = d₁ ∧ p.IsFramed r.2 (some e.id) 1 ∧
            r.2.quantitiesFor e.id = p.quantitiesFor e.id ++ r.1.toOption.toList :=
        fun s => Project.calculate_framed settings o.surroundings p e actor d₁ s a
      refine hcalculate.bind fun r d' hr => does_pure ⟨hr.1, turn, hturn, ?_⟩
      exact Job.isFramed_of_calculated _ helement hr.2.1 hr.2.2
  | recalculate element named =>
    unfold Job.change
    refine (does_turn o).bind fun turn d₁ hturn => ?_
    obtain ⟨hturn, rfl⟩ := hturn
    cases hfound : Job.recalculation settings p turn element named with
    | error t =>
      refine does_pure ⟨rfl, turn, hturn, Job.isFramed_refl ?_⟩
      rw [Job.element?, hfound]
      rfl
    | ok found =>
      obtain ⟨actor, e⟩ := found
      have helement : (Job.recalculate element named).element? settings turn p = some e := by
        rw [Job.element?, hfound]
        rfl
      have hrecalculate : Does d₁ (p.recalculate settings o.surroundings.lift e actor)
          fun r d' => d' = d₁ ∧ p.IsFramed r.2 (some e.id)
            (e.classification.elim 0 fun k => (p.catalog.assembliesFor k).length) :=
        fun s => Project.recalculate_framed settings o.surroundings p e actor d₁ s
      refine hrecalculate.bind fun r d' hr => does_pure ⟨hr.1, turn, hturn, ?_⟩
      exact Job.isFramed_of_recalculated _ helement hr.2

/-! ## Files -/

/-- How a command may end: what it comes to, and the disk that it leaves. -/
inductive Job.Ends (job : Job) (path : String) (d : Disk) : Except Trouble Unit → Disk → Prop
  /-- The lock is not to be had, and nothing else is done. -/
  | refused {e : Failure} {d' : Disk}
      (hlock : Comes d (Lock.acquire files o.session.lift path (job.user settings)) (.error e) d') :
      Ends job path d (.error (.failure e)) d'
  /-- The project cannot be loaded, and its file is not written any more. It was written before only
  if the lock, which is text in a file itself, has that file under another name. -/
  | unread {lock : Lock Handle} {e : Failure} {d₁ d' : Disk}
      (hlock : Comes d (Lock.acquire files o.session.lift path (job.user settings)) (.ok lock) d₁)
      (hunloaded : Project.loaded d₁ path = .error e)
      (hafter : ∀ bs, d'.read path = .ok bs ↔ d₁.read path = .ok bs)
      (hbefore : (∀ bs, d₁.read path = .ok bs ↔ d.read path = .ok bs)
        ∨ d₁.LeadToOne path (Lock.pathFor path)) :
      Ends job path d (.error (.during s!"loading {path}" e)) d'
  /-- The project that was at the path is handed to be saved, framed. -/
  | handed {lock : Lock Handle} {turn : Nat} {p q : Project} {d₁ d₂ d' : Disk}
      {outcome : Except Trouble String} {result : Except Failure Unit}
      (hlock : Comes d (Lock.acquire files o.session.lift path (job.user settings)) (.ok lock) d₁)
      (hloaded : Project.loaded d path = .ok p)
      (hchange : Comes d₁ (job.change o.host settings p) (outcome, q) d₁)
      (hturn : o.Turns turn) (hframed : job.IsFramed settings turn p q)
      (hsave : Comes (σ := σ) d₁ (q.save files path) result d₂)
      (hsaved : result = .ok () → d'.read path = .ok (pageOf q)) :
      Ends job path d (told path outcome result) d'

variable {o settings} {job : Job} {edit : Edit}

theorem Worked.ends (h : Worked path (job.change o.host settings) o (job.user settings) d edit d') :
    job.Ends o settings path d edit.outcome d' := by
  cases h with
  | refused hlock => exact .refused hlock
  | edited hlock hedit hrelease =>
    have hacquired := (Lock.does_acquire_cases o.session path _).of_comes hlock
    obtain ⟨-, hsame⟩ := (does_release_apart hacquired.path_eq).of_comes hrelease
    cases hedit with
    | unread hunloaded =>
      refine .unread hlock hunloaded hsame (hacquired.reads_or fun k hk hpath => ?_)
      exact key?_pathFor_ne hpath hk
    | handed hloaded hchange hsave =>
      obtain ⟨rfl, turn, hturn, hframed⟩ := (does_change_framed o settings job _).of_comes hchange
      refine .handed hlock (loaded_of_evolves hacquired.evolves hloaded) hchange hturn hframed hsave
        fun hresult => (hsame _).2 ?_
      exact ((Project.does_save _ path).of_comes hsave).2 hresult

variable (o settings job)

theorem execute_keepsOrderly (path : String) :
    KeepsOrderly (execute o.host settings (job.command path)) := by
  refine fun d hd => does_execute o settings job fun edit d' hworked => ?_
  cases hworked with
  | refused hlock => exact ((Lock.does_acquire_cases o.session path _).of_comes hlock).isOrderly hd
  | edited hlock hedit hrelease =>
    have hd₁ := ((Lock.does_acquire_cases o.session path _).of_comes hlock).isOrderly hd
    refine (Lock.keepsOrderly_release _ _ ?_).of_comes hrelease
    cases hedit with
    | unread hunloaded => exact hd₁
    | handed hloaded hchange hsave =>
      obtain ⟨rfl, -⟩ := (does_change_framed o settings job _).of_comes hchange
      exact (Project.keepsOrderly_save _ path _ hd₁).of_comes hsave

/-- There the lock has no other file, so what cannot be loaded is as it was before the command. -/
theorem unloaded_file_kept (hd : d.IsOrderly) {e : Failure}
    (hunloaded : Project.loaded d path = .error e) :
    Does d (execute o.host settings (job.command path)) fun _ d' =>
      ∀ bs, d'.read path = .ok bs ↔ d.read path = .ok bs := by
  refine does_execute o settings job fun edit d' hworked bs => ?_
  have hpath : ∀ k, d.key? (Lock.pathFor path) = some k → d.key? path ≠ some k :=
    fun k hk hpath => key?_pathFor_ne hpath hk
  have hends := hworked.ends
  generalize edit.outcome = outcome at hends
  cases hends with
  | refused hlock =>
    exact ((Lock.does_acquire_cases o.session path _).of_comes hlock).reads hd hpath bs
  | unread hlock hunread hafter hbefore =>
    have hacquired := (Lock.does_acquire_cases o.session path _).of_comes hlock
    exact (hafter bs).trans (hacquired.reads hd hpath bs)
  | handed hlock hloaded hchange hturn hframed hsave hsaved =>
    rw [hunloaded] at hloaded
    cases hloaded

end Command

/-! ## The file with the overflowing formula -/

theorem read_savedDisk (bs : List UInt8) : (savedDisk bs).read "p.tko" = .ok bs := rfl

theorem loaded_overflowing {d : Disk} (hread : d.read "p.tko" = .ok (pageOf overflowing)) :
    Project.loaded d "p.tko" = .ok overflowing := by
  have hstorable := isBuilt_overflowing.isStorable
  rw [Project.loaded_of_read hread, Document.ofText_page hstorable _ (by decide +kernel),
    if_pos (by decide +kernel)]

theorem loaded_nil {d : Disk} (hread : d.read "p.tko" = .ok (Text.bytes "")) :
    ∃ e, Project.loaded d "p.tko" = .error e :=
  ⟨_, Project.loaded_of_read hread⟩

def overflowingRun (bs : List UInt8) : Except Trouble Unit × Disk :=
  (execute Outside.quiet.host {} (overflowingJob.command "p.tko")).comesTo (savedDisk bs) ()

end QuantitySurvey.Program
