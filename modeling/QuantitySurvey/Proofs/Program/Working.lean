import QuantitySurvey.Program
import QuantitySurvey.Proofs.Disk.Siblings
import QuantitySurvey.Proofs.Lock.Acquisition
import QuantitySurvey.Proofs.Project.Calculating

/-! # Work on a project file

A command that calculates asks for the lock of its file, edits the file and gives the lock back. It
may be refused the lock, fail to load the project, or hand what it made of the project to be saved;
there is no other way. Whatever is known of commands is read off these ways.

* `execute_command`: such a command does a job.
* `does_edited`, `does_underLock`: the ways in which work ends, for any change of the project.
* `does_execute`: so do the commands.
* `does_change`: the change that a job makes is a calculation in the project, if it makes any.
-/

set_option autoImplicit false

namespace QuantitySurvey.Program

open Calculation (Surroundings)
open Command (Trouble)
open Disk (Handle)
open Workplace

/-! ## Hosts with a disk in memory -/

variable {σ : Type} {d d' : Disk} {path : String}

/-- What is decided outside of the disk. -/
structure Outside (σ : Type) where
  session : Lock.Session (StateM σ)
  surroundings : Surroundings (StateM σ)
  turn : StateM σ Nat
  valueOf : String → StateM σ (Option String)
  print : String → StateM σ Unit
  printError : String → StateM σ Unit

/-- A host with its files on a disk in memory. -/
def Outside.host (o : Outside σ) : Host (Workplace σ) Handle where
  files := files
  session := o.session.lift
  surroundings := o.surroundings.lift
  turn := StateT.lift o.turn
  valueOf := fun name => StateT.lift (o.valueOf name)
  print := fun text => StateT.lift (o.print text)
  printError := fun text => StateT.lift (o.printError text)

/-- Elements of one name may be come upon in this turn. -/
def Outside.Turns (o : Outside σ) (turn : Nat) : Prop := ∃ s, (o.turn.run s).1 = turn

theorem does_turn (o : Outside σ) :
    Does d o.host.turn fun turn d' => o.Turns turn ∧ d' = d :=
  fun s => ⟨⟨s, rfl⟩, rfl⟩

def Job.command (path : String) : Job → Command
  | .calculate element assembly actor => .calculate path element assembly actor
  | .recalculate element actor => .recalculate path element actor

/-- A command that calculates does its job in the project of its file. -/
theorem execute_command {m : Type → Type} {H : Type} [Monad m] (host : Host m H)
    (settings : Settings) (job : Job) (path : String) :
    execute host settings (job.command path)
      = do return (← job.work host settings path).outcome := by
  cases job <;> rfl

/-! ## The ways in which work ends -/

section Ways

variable (path : String) (change : Project → Workplace σ (Except Trouble String × Project))

/-- What comes of editing a file. -/
inductive Edited (d : Disk) : Edit → Disk → Prop
  /-- The project cannot be loaded, so nothing is saved. -/
  | unread {e : Failure} (hloaded : Project.loaded d path = .error e) :
      Edited d ⟨.error (.during s!"loading {path}" e), none⟩ d
  /-- What the change made of the project is handed to be saved. -/
  | handed {p q : Project} {outcome : Except Trouble String} {d₁ d₂ : Disk}
      {result : Except Failure Unit} (hloaded : Project.loaded d path = .ok p)
      (hchange : Comes d (change p) (outcome, q) d₁)
      (hsave : Comes (σ := σ) d₁ (q.save files path) result d₂) :
      Edited d ⟨told path outcome result, some ⟨q, result⟩⟩ d₂

variable (o : Outside σ) (user : String)

/-- What comes of editing a file under its lock. -/
inductive Worked (d : Disk) : Edit → Disk → Prop
  | refused {e : Failure} {d' : Disk}
      (hlock : Comes d (Lock.acquire files o.session.lift path user) (.error e) d') :
      Worked d ⟨.error (.failure e), none⟩ d'
  | edited {lock : Lock Handle} {edit : Edit} {d₁ d₂ d' : Disk}
      (hlock : Comes d (Lock.acquire files o.session.lift path user) (.ok lock) d₁)
      (hedit : Edited path change d₁ edit d₂)
      (hrelease : Comes (σ := σ) d₂ (lock.release files) () d') :
      Worked d edit d'

theorem does_edited : Does d (edited o.host path change) (Edited path change d) := by
  unfold edited
  refine (Project.does_load path).bind fun r d₁ hload => ?_
  obtain ⟨rfl, rfl⟩ := hload
  cases hloaded : Project.loaded d₁ path with
  | error e => exact does_pure (.unread hloaded)
  | ok p =>
    refine (does_comes (change p)).bind fun r d₂ hchange => ?_
    obtain ⟨outcome, q⟩ := r
    have hsaved : Does d₂ (do
        let result ← q.save o.host.files path
        return (⟨told path outcome result, some ⟨q, result⟩⟩ : Edit))
        (Edited path change d₁) :=
      (does_comes _).bind fun result d₃ hsave => does_pure (.handed hloaded hchange hsave)
    cases outcome with
    | error t => exact hsaved
    | ok text =>
      refine (does_lift (o.print text)).bind fun _ d₃ hd₃ => ?_
      subst hd₃
      exact hsaved

theorem does_underLock :
    Does d (underLock o.host path user change) (Worked path change o user d) := by
  unfold underLock
  refine (does_comes _).bind fun r d₁ hlock => ?_
  cases r with
  | error e => exact does_pure (.refused hlock)
  | ok lock =>
    refine (does_edited path change o).bind fun edit d₂ hedit => ?_
    refine (does_comes (lock.release files)).bind fun _ d₃ hrelease => ?_
    exact does_pure (.edited hlock hedit hrelease)

end Ways

/-- What is known of the work is known of the command. -/
theorem does_execute (o : Outside σ) (settings : Settings) (job : Job)
    {Q : Except Trouble Unit → Disk → Prop}
    (h : ∀ edit d', Worked path (job.change o.host settings) o (job.user settings) d edit d' →
      Q edit.outcome d') :
    Does d (execute o.host settings (job.command path)) Q := by
  rw [execute_command]
  exact (does_underLock path _ o _).bind fun edit d' hworked => does_pure (h edit d' hworked)

/-! ## Before and after the work -/

def pageOf (p : Project) : List UInt8 := Text.bytes (Document.ofProject p).page

theorem bytes_inj {s t : String} (h : Text.bytes s = Text.bytes t) : s = t :=
  Option.some.inj ((Text.ofBytes?_bytes s).symm.trans
    ((congrArg Text.ofBytes? h).trans (Text.ofBytes?_bytes t)))

theorem key?_pathFor_ne {k : String} (h : d.key? path = some k) :
    d.key? (Lock.pathFor path) ≠ some k :=
  Disk.key?_sibling_ne h (by decide)

/-- Nothing that is written for a lock is loaded as a project. -/
theorem loaded_of_evolves (h : d.Evolves (fun bs => bs = [] ∨ Lock.IsHolderPage bs) d')
    {p : Project} (hp : Project.loaded d' path = .ok p) : Project.loaded d path = .ok p := by
  obtain ⟨text, hread, htext⟩ := Project.read_of_loaded hp
  rcases h.read path _ hread with hold | hempty | ⟨holder, hholder⟩
  · rw [Project.loaded_of_read hold, htext]
  · rw [show text = "" from bytes_inj hempty] at htext
    cases htext
  · rw [bytes_inj hholder, Lock.ofText_ofHolder] at htext
    cases htext

/-- Giving back the lock of a project leaves the file of the project alone. -/
theorem does_release_apart {lock : Lock Handle} (hlock : lock.path = Lock.pathFor path) :
    Does d (lock.release (files : Files (Workplace σ) Handle)) fun _ d' =>
      d.Evolves (fun _ => False) d' ∧ ∀ bs, d'.read path = .ok bs ↔ d.read path = .ok bs := by
  refine (Lock.does_release lock).mono fun _ d' hr => ⟨hr.1, fun bs => ?_⟩
  cases hkey : d.key? path with
  | none =>
    -- nothing can be read there, before or after
    have hnone : ∀ {d₁ : Disk}, d₁.key? path = none → d₁.read path ≠ .ok bs := by
      intro d₁ hnone hread
      obtain ⟨k, -, hk, -⟩ := Disk.read_eq_ok_iff.1 hread
      rw [hnone] at hk
      cases hk
    exact iff_of_false (hnone ((hr.1.directories.key? path).trans hkey)) (hnone hkey)
  | some k =>
    refine hr.2 path ?_ bs
    rw [hkey, hlock]
    exact (key?_pathFor_ne hkey).symm

/-! ## Calculations -/

theorem mem_of_elementFor {p : Project} {turn : Nat} {key : String} {e : Element}
    (h : elementFor p turn key = .ok e) : e ∈ p.elements.values := by
  unfold elementFor at h
  split at h
  · next e' hfound =>
    cases h
    rcases Option.or_eq_some_iff.1 hfound with hid | ⟨-, hname⟩
    · obtain ⟨id, -, hfind⟩ := Option.bind_eq_some_iff.1 hid
      exact SortedMap.mem_values_of_find? hfind
    · exact List.mem_of_mem_filter (List.mem_of_getElem? hname)
  · cases h

theorem mem_of_assemblyFor {p : Project} {key : String} {a : Assembly}
    (h : assemblyFor p key = .ok a) : a ∈ p.catalog.assemblies := by
  unfold assemblyFor at h
  split at h
  · next a' hfound =>
    cases h
    rcases Option.or_eq_some_iff.1 hfound with hid | ⟨-, hcode⟩
    · obtain ⟨id, -, hfind⟩ := Option.bind_eq_some_iff.1 hid
      exact List.mem_of_find?_eq_some hfind
    · exact List.mem_of_find?_eq_some hcode
  · cases h

/-- A calculation is for an element of the project, by an assembly of its catalog. -/
theorem Job.mem_of_calculation {settings : Settings} {p : Project} {turn : Nat}
    {element assembly : String} {named : Option String} {actor : Actor} {e : Element} {a : Assembly}
    (h : Job.calculation settings p turn element assembly named = .ok (actor, e, a)) :
    e ∈ p.elements.values ∧ a ∈ p.catalog.assemblies := by
  obtain ⟨_, -, hrest⟩ := bind_eq_ok.1 h
  obtain ⟨_, helement, hrest⟩ := bind_eq_ok.1 hrest
  obtain ⟨_, hassembly, hrest⟩ := bind_eq_ok.1 hrest
  cases hrest
  exact ⟨mem_of_elementFor helement, mem_of_assemblyFor hassembly⟩

theorem Job.mem_of_recalculation {settings : Settings} {p : Project} {turn : Nat}
    {element : String} {named : Option String} {actor : Actor} {e : Element}
    (h : Job.recalculation settings p turn element named = .ok (actor, e)) :
    e ∈ p.elements.values := by
  obtain ⟨_, -, hrest⟩ := bind_eq_ok.1 h
  obtain ⟨_, helement, hrest⟩ := bind_eq_ok.1 hrest
  cases hrest
  exact mem_of_elementFor helement

/-- A job leaves the project as it is, if something that it asks for is not found, or calculates in
it for an element and the assemblies of the project. -/
theorem does_change (o : Outside σ) {p : Project} (settings : Settings) (job : Job)
    (post : Project → Prop) (unfound : post p)
    (calculated : ∀ e a actor, e ∈ p.elements.values → a ∈ p.catalog.assemblies →
      Does d (p.calculate settings o.surroundings.lift e a actor) fun r d' => d' = d ∧ post r.2)
    (recalculated : ∀ e actor, e ∈ p.elements.values →
      Does d (p.recalculate settings o.surroundings.lift e actor) fun r d' => d' = d ∧ post r.2) :
    Does d (job.change o.host settings p) fun r d' => d' = d ∧ post r.2 := by
  cases job with
  | calculate element assembly named =>
    unfold Job.change
    refine (does_turn o).bind fun turn d₁ hturn => ?_
    obtain ⟨-, rfl⟩ := hturn
    cases hfound : Job.calculation settings p turn element assembly named with
    | error t => exact does_pure ⟨rfl, unfound⟩
    | ok found =>
      obtain ⟨actor, e, a⟩ := found
      obtain ⟨he, ha⟩ := Job.mem_of_calculation hfound
      exact (calculated e a actor he ha).bind fun r d' hr => does_pure hr
  | recalculate element named =>
    unfold Job.change
    refine (does_turn o).bind fun turn d₁ hturn => ?_
    obtain ⟨-, rfl⟩ := hturn
    cases hfound : Job.recalculation settings p turn element named with
    | error t => exact does_pure ⟨rfl, unfound⟩
    | ok found =>
      obtain ⟨actor, e⟩ := found
      have he := Job.mem_of_recalculation hfound
      exact (recalculated e actor he).bind fun r d' hr => does_pure hr

end QuantitySurvey.Program
