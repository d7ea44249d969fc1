import QuantitySurvey.Proofs.Disk.Drafts
import QuantitySurvey.Proofs.Disk.Siblings
import QuantitySurvey.Proofs.Project.Hazards

/-! # Saving that fails or is interrupted

A project is drafted under a temporary name and then takes its place, so at every moment of a saving
there is the old file or the new one; and a saving that fails clears away what it drafted. All that
is needed is that the temporary name is not a second name of the file itself: that would be emptied
with the draft.

* `goes_writeNew`, `goes_rename`, `goes_remove`: the parts of a saving.
* `save_atomic`: a saving, whatever happens to it.
* `linked_saving_not_atomic`: a saving over a file that has the temporary name too.
-/

set_option autoImplicit false

namespace QuantitySurvey

open Disk (Fault Handle)

namespace Project

open Disk (Moment)
open Exposed

variable {σ : Type} {trail : List Moment} {d : Disk} {path : String}

/-! ## The parts of a saving -/

/-- The file at a path is what it was, or has the new content. -/
def IsIntact (path : String) (before : Option (List UInt8)) (page : List UInt8) (d : Disk) : Prop :=
  d.fileAt? path = before ∨ d.fileAt? path = some page

variable (hazards : Hazards σ) {before : Option (List UInt8)} {page : List UInt8}

section Parts

/-! Another path leads elsewhere, and the file at the path is still what it was. -/

variable {other : String} (hne : ∀ k, d.key? path = some k → d.key? other ≠ some k)
  (hd : d.fileAt? path = before)
include hne hd

/-- A file that was made may get any content: the file at the path stays, and is another one. -/
theorem goes_create (hnumbered : d.IsNumbered) (happart : ¬ d.LeadToOne path other) :
    Goes (IsIntact path before page) trail d (hazards.files.create other) fun r _ d' =>
      (∃ e, r = .error e ∧ d' = d)
        ∨ ∃ handle k n, r = .ok handle ∧ handle.file = some n ∧ d.Drafted other k n [] d'
          ∧ ∀ bs d'', d.Drafted other k n bs d'' →
            d''.fileAt? path = before ∧ ¬ d''.LeadToOne path other := by
  refine (goes_passing hazards _ ((Workplace.does_attempt _).mono fun r d' hr => ?_)
    (fun e => .inl ⟨e, rfl, rfl⟩) fun r d' hr => .inl ?_).mono fun r trail' d' hr => hr.1
  · rcases hr with ⟨e, rfl, -, rfl⟩ | ⟨handle, rfl, hc⟩
    · exact .inl ⟨e, rfl, rfl⟩
    · obtain ⟨k, n, hcreated⟩ := Disk.created hc
      have hkey : d.key? path ≠ some k := fun hk => hne k hk hcreated.key
      refine .inr ⟨handle, k, n, rfl, hcreated.file, hcreated.drafted, fun bs d'' hdrafted => ?_⟩
      have happart' := hcreated.not_leadToOne hnumbered hc hkey happart hdrafted
      have hreads := (hdrafted.reads_or hkey).resolve_right happart'
      exact ⟨(Disk.fileAt?_eq_of_read hreads).trans hd, happart'⟩
  · rcases hr with ⟨-, -, rfl⟩ | ⟨handle, k, n, -, -, hdrafted, hstays⟩
    · exact hd
    · exact (hstays [] d' hdrafted).1

/-- While a text is written to another file the file at the path stays. -/
theorem goes_writeNew (hnumbered : d.IsNumbered) (happart : ¬ d.LeadToOne path other)
    (text : String) :
    Goes (IsIntact path before page) trail d (writeNew hazards.files other text) fun r _ d' =>
      d'.fileAt? path = before ∧ ¬ d'.LeadToOne path other
        ∧ (r = .ok () → d'.read other = .ok (Text.bytes text)) := by
  unfold writeNew
  refine (goes_create hazards hne hd hnumbered happart).bind fun r trail₁ d₁ hr => ?_
  rcases hr with ⟨e, rfl, rfl⟩ | ⟨handle, k, n, rfl, hfile, hdrafted, hstays⟩
  · exact goes_pure ⟨hd, happart, nofun⟩
  have hwrite : ∀ done bs d', d.Drafted other k n done d' →
      d.Drafted other k n (done ++ bs) (d'.write handle bs) :=
    fun done bs d' hdone => hdone.write hfile bs
  have hfine : ∀ done d', d.Drafted other k n done d' → IsIntact path before page d' :=
    fun done d' hdone => .inl (hstays done d' hdone).1
  refine (goes_writeText hazards hwrite hfine hdrafted text).bind fun r trail₂ d₂ hr => ?_
  obtain ⟨bs, hwritten, hbs⟩ := hr
  have hclosed : d.Drafted other k n bs (d₂.closed handle) := hwritten.closed handle
  refine (goes_close hazards handle (hfine bs d₂ hwritten) (hfine bs _ hclosed)).bind
    fun _ trail₃ d₃ hclose => ?_
  have hend : d.Drafted other k n bs d₃ := by
    rcases hclose with rfl | rfl
    · exact hwritten
    · exact hclosed
  refine goes_pure ⟨(hstays bs d₃ hend).1, (hstays bs d₃ hend).2, fun hr => ?_⟩
  rw [hend.read, hbs hr, List.nil_append]

theorem goes_rename (happart : ¬ d.LeadToOne path other) (hpage : d.read other = .ok page) :
    Goes (IsIntact path before page) trail d (hazards.files.rename other path) fun r _ d' =>
      (∃ e, r = .error e ∧ d'.fileAt? path = before)
        ∨ r = .ok () ∧ d'.fileAt? path = some page ∧ d'.find other = .error .notFound := by
  refine (goes_passing hazards _ ((Workplace.does_rename other path).mono fun r d' hr => ?_)
    (fun e => .inl ⟨e, rfl, hd⟩) fun r d' hr => ?_).mono fun r trail' d' hr => hr.1
  · rcases hr with ⟨e, rfl, -, rfl⟩ | ⟨rfl, ⟨hone, -⟩ | ⟨k, k', n, hrenamed⟩⟩
    · exact .inl ⟨e, rfl, hd⟩
    · exact absurd hone.symm happart
    · refine .inr ⟨rfl, ?_, hrenamed.find_source fun hk => ?_⟩
      · rw [Disk.fileAt?_eq_some, hrenamed.read_target, hpage]
      · exact hne k' hrenamed.target (hk ▸ hrenamed.source)
  · rcases hr with ⟨-, -, hbefore⟩ | ⟨-, hafter, -⟩
    · exact .inl hbefore
    · exact .inr hafter

theorem goes_remove :
    Goes (IsIntact path before page) trail d (hazards.files.remove other) fun _ trail' d' =>
      d'.fileAt? path = before ∧ ∃ m, trail'.head? = some m ∧ m.step = .remove other
        ∧ (m.result = .ok () → d'.find other = .error .notFound) := by
  have hdoes : Workplace.Does d (Files.inMemory.remove other : Workplace σ (Except Fault Unit))
      fun r d' => d'.fileAt? path = before ∧ (r = .ok () → d'.find other = .error .notFound) := by
    refine (Workplace.does_remove_cases other).mono fun r d' hr => ?_
    rcases hr with ⟨e, rfl, rfl⟩ | ⟨-, k, hremoved⟩
    · exact ⟨hd, nofun⟩
    · have hother : d.key? path ≠ some k := fun hk => hne k hk hremoved.key
      exact ⟨(hremoved.fileAt?_eq hother).trans hd, fun _ => hremoved.find⟩
  refine (goes_passing hazards _ hdoes (fun e => ⟨hd, nofun⟩) fun r d' hr => .inl hr.1).mono
    fun r trail' d' hr => ?_
  obtain ⟨⟨hbefore, hfind⟩, m, rfl, hstep, hresult⟩ := hr
  refine ⟨hbefore, m, rfl, hstep, fun hm => hfind ?_⟩
  rw [hresult] at hm
  cases r with
  | error e => cases hm
  | ok _ => rfl

end Parts

/-! ## Saving -/

/-- What a run of a saving does to the file at a path: at every moment that is what it was, or has
the new content. After a failure it is what it was, and no temporary file is left if that could be
removed; after a success it has the new content, and no temporary file is left. -/
structure IsAtomic {σ : Type} (d : Disk) (path : String) (page : List UInt8)
    (run : Outcome σ (Except Failure Unit)) : Prop where
  moments : ∀ m ∈ run.trail, IsIntact path (d.fileAt? path) page m.disk
  stopped : run.result? = none → ∃ m, run.trail.head? = some m ∧ m.isLast ∧ m.disk = run.disk
  failed : ∀ e, run.result? = some (.error e) → run.disk.fileAt? path = d.fileAt? path
    ∧ ∃ m, run.trail.head? = some m ∧ m.step = .remove (Disk.sibling "tmp" path)
      ∧ (m.result = .ok () → run.disk.find (Disk.sibling "tmp" path) = .error .notFound)
  saved : run.result? = some (.ok ()) → run.disk.fileAt? path = some page
    ∧ run.disk.find (Disk.sibling "tmp" path) = .error .notFound

/-- Siblings have other names. -/
theorem key?_temporary_ne (d : Disk) (path k : String) (hk : d.key? path = some k) :
    d.key? (Disk.sibling "tmp" path) ≠ some k :=
  Disk.key?_sibling_ne hk (by decide)

theorem goes_save (p : Project) (path : String) (hnumbered : d.IsNumbered)
    (happart : ¬ d.LeadToOne path (Disk.sibling "tmp" path)) :
    Goes (IsIntact path (d.fileAt? path) (Text.bytes (Document.ofProject p).page)) [] d
      (p.save hazards.files path) fun r trail d' => match r with
        | .error _ => d'.fileAt? path = d.fileAt? path
          ∧ ∃ m, trail.head? = some m ∧ m.step = .remove (Disk.sibling "tmp" path)
            ∧ (m.result = .ok () → d'.find (Disk.sibling "tmp" path) = .error .notFound)
        | .ok _ => d'.fileAt? path = some (Text.bytes (Document.ofProject p).page)
          ∧ d'.find (Disk.sibling "tmp" path) = .error .notFound := by
  have hne := fun d => key?_temporary_ne d path
  unfold save
  refine (goes_writeNew hazards (hne d) rfl hnumbered happart _).bind fun r trail₁ d₁ hr => ?_
  obtain ⟨hbefore, happart₁, hwritten⟩ := hr
  cases r with
  | error e =>
    refine (goes_remove hazards (hne d₁) hbefore).bind fun _ trail₂ d₂ hr => ?_
    exact goes_pure hr
  | ok _ =>
    refine (goes_rename hazards (hne d₁) hbefore happart₁ (hwritten rfl)).bind
      fun r trail₂ d₂ hr => ?_
    rcases hr with ⟨e, rfl, hbefore⟩ | ⟨rfl, hpage, hfind⟩
    · refine (goes_remove hazards (hne d₂) hbefore).bind fun _ trail₃ d₃ hr => ?_
      exact goes_pure hr
    · exact goes_pure ⟨hpage, hfind⟩

/-- Hazards that depend on the step only. -/
def sampleHazards (fails stops : Disk.Step → Bool) : Hazards Unit where
  fault? := fun step => pure (if fails step then some .busy else none)
  cuts := fun _ => pure [2, 3]
  stops := fun step => pure (stops step)

def sampleDisk : Disk where
  nodes := SortedMap.empty.insert "p.tko" (.file 0)
  contents := SortedMap.empty.insert 0 [1, 2, 3]
  next := 2

/-- The same file, with the temporary name for a second one. -/
def linkedDisk : Disk := { sampleDisk with nodes := sampleDisk.nodes.insert "p.tko.tmp" (.file 0) }

def samplePage : List UInt8 := Text.bytes (Document.ofProject (new ⟨0, 0⟩ "Q" "J" "C")).page

def sampleSaving (d : Disk) (fails stops : Disk.Step → Bool) :
    Outcome Unit (Except Failure Unit) :=
  ((new ⟨0, 0⟩ "Q" "J" "C").save (sampleHazards fails stops).files "p.tko").outcome [] d ()

theorem isOrderly_sampleDisk : sampleDisk.IsOrderly := by
  have hfile : ∀ j n, sampleDisk.nodes.find? j = some (.file n) → j = "p.tko" ∧ n = 0 := by
    intro j n hj
    rw [sampleDisk, Disk.find?_insert_node] at hj
    split at hj
    · next hname =>
      cases hj
      exact ⟨hname, rfl⟩
    · cases hj
  refine ⟨fun k k' n hk hk' => ?_, fun k n hk => ?_⟩
  · rw [(hfile k n hk).1, (hfile k' n hk').1]
  · rw [(hfile k n hk).2]
    decide

theorem isNumbered_sampleDisk : sampleDisk.IsNumbered :=
  ⟨isOrderly_sampleDisk.numbered, fun _ _ hmem => by cases hmem⟩

theorem isNumbered_linkedDisk : linkedDisk.IsNumbered := by
  refine ⟨fun k n hk => ?_, fun _ _ hmem => by cases hmem⟩
  rw [linkedDisk, Disk.find?_insert_node] at hk
  split at hk
  · cases hk
    decide
  · exact isNumbered_sampleDisk.files k n hk

theorem leadToOne_linkedDisk : linkedDisk.LeadToOne "p.tko" (Disk.sibling "tmp" "p.tko") :=
  ⟨"p.tko", "p.tko.tmp", 0, by decide +kernel, by decide +kernel, by decide +kernel,
    by decide +kernel⟩

end Project

end QuantitySurvey
