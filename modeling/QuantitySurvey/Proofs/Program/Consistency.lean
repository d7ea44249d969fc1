import QuantitySurvey.Proofs.Program.Framing
import QuantitySurvey.Proofs.Project.Consistency

/-! # Commands in the life of a project

A command that calculates finds its element and its assembly in the project that it loaded, or it
leaves the project alone. So what it does to a project is an operation like any other, and where
there was a consistent project it saves a consistent one.

* `does_change_lives`: with a command the life of a project goes on.
* `saved_project_consistent`: commands keep project files consistent.
-/

set_option autoImplicit false

namespace QuantitySurvey.Program

open Command (Trouble)
open Disk (Handle)
open Workplace

variable {σ : Type} {d : Disk} (o : Outside σ) (settings : Settings)

/-! ## Changes -/

/-- A command leaves the project as it is, or calculates in it once. -/
theorem does_change_operated (job : Job) (p : Project) :
    Does d (job.change o.host settings p) fun r d' =>
      d' = d ∧ (r.2 = p ∨ Project.Operated Disk σ p r.2) := by
  refine does_change o settings job (fun q => q = p ∨ Project.Operated Disk σ p q) (.inl rfl)
    (fun e a actor he ha s => ?_) fun e actor he s => ?_
  · exact ⟨(Project.calculate_framed settings o.surroundings p e actor d s a).1,
      .inr (.calculate settings o.surroundings actor d s he ha)⟩
  · exact ⟨(Project.recalculate_framed settings o.surroundings p e actor d s).1,
      .inr (.recalculate settings o.surroundings actor d s he)⟩

/-- With a command the life of a project goes on, by the records that are new. -/
theorem does_change_lives (job : Job) {written : Nat} {p : Project}
    (h : Project.Lives Disk σ written p) :
    Does d (job.change o.host settings p) fun r _ =>
      Project.Lives Disk σ (written + p.newRecords r.2) r.2 := by
  refine (does_change_operated o settings job p).mono fun r d' hr => ?_
  rcases hr.2 with hsame | hoperated
  · have hnone : p.newRecords r.2 = 0 := by rw [hsame, Project.newRecords, Nat.sub_self]
    rw [hnone, hsame]
    exact h
  · exact h.operate hoperated

/-! ## Files -/

variable {o settings}

/-- Where there was a consistent project, a command that saves one saves a consistent one. -/
theorem Worked.isConsistent {job : Job} {path : String} {edit : Edit} {d' : Disk}
    (hworked : Worked path (job.change o.host settings) o (job.user settings) d edit d')
    {p : Project} (hloaded : Project.loaded d path = .ok p) (h : p.IsConsistent) :
    ∀ saving ∈ edit.saving?, saving.project.IsConsistent ∧
      (saving.result = .ok () → d'.read path = .ok (pageOf saving.project)) := by
  cases hworked with
  | refused hlock => exact nofun
  | edited hlock hedit hrelease =>
    have hacquired := (Lock.does_acquire_cases o.session path _).of_comes hlock
    obtain ⟨-, hsame⟩ := (does_release_apart hacquired.path_eq).of_comes hrelease
    cases hedit with
    | unread hunloaded => exact nofun
    | handed hread hchange hsave =>
      obtain rfl := Except.ok.inj (hloaded.symm.trans
        (loaded_of_evolves hacquired.evolves hread))
      obtain ⟨-, hchanged⟩ := (does_change_operated o settings job p).of_comes hchange
      intro saving hs
      cases hs
      refine ⟨?_, fun hresult => (hsame _).2 ?_⟩
      · rcases hchanged with hunchanged | hoperated
        · cases hunchanged
          exact h
        · exact h.operated hoperated
      · exact ((Project.does_save _ path).of_comes hsave).2 hresult

theorem saved_project_consistent (job : Job) (path : String) {p : Project}
    (hloaded : Project.loaded d path = .ok p) (h : p.IsConsistent) :
    Does d (job.work o.host settings path) fun edit d' => ∀ saving ∈ edit.saving?,
      saving.project.IsConsistent ∧
        (saving.result = .ok () → d'.read path = .ok (pageOf saving.project)) :=
  (does_underLock path _ o _).mono fun _ _ hworked => hworked.isConsistent hloaded h

end QuantitySurvey.Program
