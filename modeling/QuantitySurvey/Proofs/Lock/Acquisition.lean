import QuantitySurvey.Lock
import QuantitySurvey.Proofs.Disk.Orderly
import QuantitySurvey.Proofs.Project.Saving

/-! # Taking locks and giving them back

What a request for a lock comes to is read off the text of the lock file, what the session finds
about the holder that it names, and the locks on the file itself. Whatever it comes to, nothing is
written but the text of a lock, which no project can be read from.

* `finds_eq`: when a session finds a lock to be left over.
* `does_holder?_cases`: who has the lock of a project.
* `does_acquire_cases`: the outcomes of a request.
* `Acquisition.evolves`, `does_release`: what can be read after a lock was taken or given back.
-/

set_option autoImplicit false

namespace QuantitySurvey

open Disk (Handle)

/-! ## Texts of lock files -/

namespace Document

/-- A holder is read back if documents can have its process and its time. -/
theorem holder?_asRead {h : Lock.Holder} (hprocess : h.processId < UInt32.size)
    (hsince : h.since.IsStorable) : holder? (ofHolder h).asRead = some h := by
  have hnatural := natBelow?_asRead hprocess (by decide)
  simp only [holder?, ofHolder, Json.asRead_object, Json.record?_object, List.map_cons,
    List.map_nil, List.mapM_cons, List.mapM_nil]
  simp [Json.member?, hnatural, instant?_asRead hsince]

end Document

open Workplace

namespace Lock

/-- The text of a lock file. -/
def IsHolderPage (bs : List UInt8) : Prop :=
  ∃ holder, bs = Text.bytes (Document.ofHolder holder).page

/-- No project can be read from the text of a lock file, which tells of no head. -/
theorem project?_ofHolder (holder : Holder) :
    Document.project? (Document.ofHolder holder).asRead = none := by
  simp [Document.project?, Document.ofHolder, Json.member?, Json.required?]

theorem read?_ofHolder (holder : Holder) :
    Json.read? (Document.ofHolder holder).page = some (Document.ofHolder holder).asRead := by
  have hheight : (Document.ofHolder holder).height ≤ Json.Reader.maxDepth := by
    simp [Document.ofHolder, Document.ofInstant, Json.height, Json.membersHeight]
    decide
  have hnumbers : Json.AreFaithful (Document.ofHolder holder).numbers := by
    simp [Document.ofHolder, Document.ofInstant, Json.numbers, Json.membersNumbers,
      Json.AreFaithful]
  exact Json.read?_page _ hheight hnumbers

theorem ofText_ofHolder (path : String) (holder : Holder) :
    Project.ofText path (Document.ofHolder holder).page
      = .error (.document s!"Invalid JSON in {path}: no project") := by
  rw [Project.ofText, read?_ofHolder, Option.bind_some, project?_ofHolder]

variable {σ : Type} {d : Disk}

/-! ## What sessions find -/

/-- A session on a machine with more than processes. -/
def Session.lift {m : Type → Type} [Monad m] {τ : Type} (session : Session m) :
    Session (StateT τ m) where
  hostName := StateT.lift session.hostName
  processId := StateT.lift session.processId
  isAlive := fun pid => StateT.lift (session.isAlive pid)
  now := StateT.lift session.now

/-- A session may come to this about a lock: that it is left over, or that it is not. -/
def Session.Finds (session : Session (StateM σ)) (h : Holder) (isStale : Bool) : Prop :=
  ∃ s, ((h.isStale session).run s).1 = isStale

/-- A session may present itself under a name as this holder. -/
def Session.Presents (session : Session (StateM σ)) (user : String) (h : Holder) : Prop :=
  ∃ s, ((Holder.ofSession session user).run s).1 = h

/-- A session in which nothing moves. -/
def Session.still {m : Type → Type} [Monad m] (host : Option String) (processId : Nat)
    (isAlive : Nat → Bool) (now : Instant) : Session m where
  hostName := pure host
  processId := pure processId
  isAlive := fun process => pure (isAlive process)
  now := pure now

variable (session : Session (StateM σ))

theorem run_state_bind {α β : Type} (x : StateM σ α) (f : α → StateM σ β) (s : σ) :
    (x >>= f).run s = (f (x.run s).1).run (x.run s).2 := rfl

/-- What is found about a lock depends on its age, unless its process is one of this machine that
may be gone. -/
theorem finds_eq {h : Holder} {isLate isStale : Bool}
    (hhere : ∀ s, (session.hostName.run s).1 = some h.machine →
      ∀ s, ((session.isAlive h.processId).run s).1 = true)
    (hage : ∀ s, isOverdue h.since (session.now.run s).1 = isLate)
    (hfinds : session.Finds h isStale) : isStale = isLate := by
  obtain ⟨s, rfl⟩ := hfinds
  unfold Holder.isStale
  rw [run_state_bind]
  by_cases hname : (session.hostName.run s).1 = some h.machine
  · have halive := hhere s hname (session.hostName.run s).2
    rw [if_pos (by simpa using hname), map_eq_pure_bind, bind_assoc, run_state_bind, halive]
    exact hage _
  · rw [if_neg (by simpa using hname)]
    exact hage _

theorem parts_of_presents {user : String} {h : Holder} (hself : session.Presents user h) :
    h.user = user ∧ (∃ s, h.processId = (session.processId.run s).1)
      ∧ ∃ s, h.since = (session.now.run s).1 := by
  obtain ⟨s, rfl⟩ := hself
  exact ⟨rfl, ⟨_, rfl⟩, ⟨_, rfl⟩⟩

theorem isStale_lift (h : Holder) :
    h.isStale session.lift = (StateT.lift (h.isStale session) : Workplace σ Bool) := by
  apply StateT.ext
  intro d
  simp only [Holder.isStale, StateT.run_bind, Session.lift, StateT.run_lift, bind_assoc, pure_bind]
  congr 1
  funext name
  split
  · simp only [map_eq_pure_bind, StateT.run_bind, StateT.run_lift, bind_assoc, pure_bind]
    congr 1
    funext isAlive
    cases isAlive <;> simp
  · simp

theorem does_isStale_finds (h : Holder) :
    Does d (h.isStale session.lift) fun isStale d' => session.Finds h isStale ∧ d' = d := by
  rw [isStale_lift]
  exact fun s => ⟨⟨s, rfl⟩, rfl⟩

theorem does_ofSession (user : String) :
    Does d (Holder.ofSession session.lift user : Workplace σ Holder) fun h d' =>
      session.Presents user h ∧ d' = d :=
  fun s => ⟨⟨s, rfl⟩, rfl⟩

/-! ## Who has a lock -/

/-- The holder that the lock file of a project names. -/
def recorded? (d : Disk) (project : String) : Option Holder :=
  match textAt d (pathFor project) with
  | .error _ => none
  | .ok text => (Json.read? text).bind Document.holder?

theorem recorded?_of_read {project : String} {h : Holder} (hprocess : h.processId < UInt32.size)
    (hsince : h.since.IsStorable)
    (hread : d.read (pathFor project) = .ok (Text.bytes (Document.ofHolder h).page)) :
    recorded? d project = some h := by
  unfold recorded?
  rw [textAt_of_read hread]
  simp only [read?_ofHolder, Option.bind_some, Document.holder?_asRead hprocess hsince]

theorem exists_read_of_recorded? {project : String} {h : Holder}
    (hrecorded : recorded? d project = some h) : ∃ bs, d.read (pathFor project) = .ok bs := by
  unfold recorded? at hrecorded
  cases htext : textAt d (pathFor project) with
  | error e =>
    rw [htext] at hrecorded
    cases hrecorded
  | ok text => exact ⟨_, read_of_textAt htext⟩

/-- The session finds whatever holder a lock file names to be gone. -/
def IsFree (d : Disk) (project : String) : Prop :=
  ∀ h, recorded? d project = some h → session.Finds h true

theorem does_holder?_cases (project : String) :
    Does d (holder? (files : Files (Workplace σ) Handle) session.lift project) fun r d' =>
      d' = d ∧ ((r = none ∧ IsFree session d project)
        ∨ ∃ h, r = some h ∧ recorded? d project = some h ∧ session.Finds h false) := by
  unfold holder?
  have hnamed : Does d (named? (files : Files (Workplace σ) Handle) (pathFor project))
      fun r d' => r = recorded? d project ∧ d' = d := by
    unfold named? recorded?
    refine (does_readText _).bind fun r d₁ hr => ?_
    obtain ⟨rfl, rfl⟩ := hr
    cases textAt d₁ (pathFor project) with
    | error e => exact does_pure ⟨rfl, rfl⟩
    | ok text => exact does_pure ⟨rfl, rfl⟩
  refine hnamed.bind fun r d₁ hr => ?_
  obtain ⟨rfl, rfl⟩ := hr
  cases hrecorded : recorded? d₁ project with
  | none => exact does_pure ⟨rfl, .inl ⟨rfl, fun h hh => by rw [hrecorded] at hh; cases hh⟩⟩
  | some h =>
    refine (does_isStale_finds session h).bind fun isStale d₂ hstale => ?_
    obtain ⟨hfinds, rfl⟩ := hstale
    cases isStale with
    | false => exact does_pure ⟨rfl, .inr ⟨h, rfl, rfl, hfinds⟩⟩
    | true =>
      refine does_pure ⟨rfl, .inl ⟨rfl, fun h' hh => ?_⟩⟩
      rw [hrecorded] at hh
      exact Option.some.inj hh ▸ hfinds

/-! ## Requests -/

/-- What a request for a lock comes to, and the disk after it. -/
inductive Acquisition (d : Disk) (project user : String) :
    Except Failure (Lock Handle) → Disk → Prop
  /-- Somebody is found to have the lock. -/
  | held (h : Holder) (hrecorded : recorded? d project = some h)
      (hfinds : session.Finds h false) :
      Acquisition d project user (.error (heldBy project h)) d
  /-- The lock file cannot be opened. -/
  | failed (e : Disk.Fault) (hfree : IsFree session d project)
      (hcreate : d.create (pathFor project) = .error e) :
      Acquisition d project user (.error (.file "create lock" (pathFor project) e.text)) d
  /-- The file is locked itself, which is seen only after its content was taken away. -/
  | busy (handle : Handle) (d' : Disk) (hfree : IsFree session d project)
      (hcreate : d.create (pathFor project) = .ok (handle, d'))
      (hlocked : d'.isLockedByOthers handle = true) :
      Acquisition d project user (.error (.locked project "another process" "unknown"))
        (d'.closed handle)
  | taken (handle : Handle) (d' : Disk) (holder : Holder) (hfree : IsFree session d project)
      (hcreate : d.create (pathFor project) = .ok (handle, d'))
      (hunlocked : d'.isLockedByOthers handle = false) (hself : session.Presents user holder) :
      Acquisition d project user (.ok ⟨project, pathFor project, handle, holder⟩)
        ((d'.locked handle).write handle (Text.bytes (Document.ofHolder holder).page))

theorem does_acquire_cases (project user : String) :
    Does d (acquire (files : Files (Workplace σ) Handle) session.lift project user)
      (Acquisition session d project user) := by
  unfold acquire
  refine (does_ofSession session user).bind fun holder d₁ hr => ?_
  obtain ⟨hself, rfl⟩ := hr
  refine (does_holder?_cases session project).bind fun other d₂ hr => ?_
  obtain ⟨rfl, ⟨rfl, hfree⟩ | ⟨h, rfl, hrecorded, hfinds⟩⟩ := hr
  · refine (does_attempt fun d => d.create (pathFor project)).bind fun r d₃ hr => ?_
    rcases hr with ⟨e, rfl, hcreate, rfl⟩ | ⟨handle, rfl, hcreate⟩
    · exact does_pure (.failed e hfree hcreate)
    · refine (does_tryLock handle).bind fun taken d₄ hr => ?_
      rcases hr with ⟨rfl, hlocked, rfl⟩ | ⟨rfl, hunlocked, rfl⟩
      · refine (does_close handle).bind fun _ d₅ hclose => ?_
        subst hclose
        exact does_pure (.busy handle d₄ hfree hcreate hlocked)
      · refine (does_writeText handle _).bind fun r d₅ hwrite => ?_
        obtain ⟨rfl, rfl⟩ := hwrite
        exact does_pure (.taken handle d₃ holder hfree hcreate hunlocked hself)
  · exact does_pure (.held h hrecorded hfinds)

section Parts

variable {session} {project user : String} {d' : Disk}

/-- Whoever asks for a lock writes nothing but its file. -/
theorem Acquisition.evolves {r : Except Failure (Lock Handle)}
    (h : Acquisition session d project user r d') :
    d.Evolves (fun bs => bs = [] ∨ IsHolderPage bs) d' := by
  cases h with
  | held h hrecorded hfinds => exact Disk.evolves_refl _ d
  | failed e hfree hcreate => exact Disk.evolves_refl _ d
  | busy handle d₁ hfree hcreate hlocked =>
    obtain ⟨k, n, c⟩ := Disk.created hcreate
    exact (c.evolves.mono fun bs hbs => .inl hbs).trans (Disk.evolves_closed _ handle)
  | taken handle d₁ holder hfree hcreate hunlocked hself =>
    obtain ⟨k, n, c⟩ := Disk.created hcreate
    exact ((c.locked handle).evolves_write _).mono fun bs hbs =>
      hbs.imp_right fun hbs => ⟨holder, hbs⟩

theorem Acquisition.path_eq {lock : Lock Handle}
    (h : Acquisition session d project user (.ok lock) d') : lock.path = pathFor project := by
  cases h
  rfl

end Parts

/-- Giving a lock back removes its file and no other. -/
theorem does_release (lock : Lock Handle) :
    Does d (lock.release (files : Files (Workplace σ) Handle)) fun _ d' =>
      d.Evolves (fun _ => False) d' ∧ ∀ path, d.key? path ≠ d.key? lock.path →
        ∀ bs, d'.read path = .ok bs ↔ d.read path = .ok bs := by
  unfold release
  refine (does_remove _).bind fun _ d₁ hremove => ?_
  refine (does_close _).mono fun _ d₂ hclose => ?_
  subst hclose
  rcases hremove with rfl | ⟨k, hremoved⟩
  · exact ⟨Disk.evolves_closed _ _, fun path _ bs => Disk.read_closed _ path bs⟩
  · have hevolves := hremoved.evolves fun _ => False
    refine ⟨hevolves.trans (Disk.evolves_closed _ _), fun path hne bs => ?_⟩
    rw [hremoved.key] at hne
    rw [Disk.read_closed]
    exact ⟨fun hread => (hevolves.read path bs hread).resolve_right id, hremoved.read_of_ne hne⟩

/-! ### Locks that somebody has, and locks that are free -/

section Live

variable {session} {project : String} {h : Holder} (hrecorded : recorded? d project = some h)
  (hlive : ¬ session.Finds h true)
include hrecorded hlive

theorem does_holder?_of_live :
    Does d (holder? (files : Files (Workplace σ) Handle) session.lift project) fun r d' =>
      r = some h ∧ d' = d := by
  refine (does_holder?_cases session project).mono fun r d' hr => ?_
  obtain ⟨rfl, ⟨-, hfree⟩ | ⟨h', rfl, hrecorded', -⟩⟩ := hr
  · exact absurd (hfree h hrecorded) hlive
  · exact ⟨hrecorded'.symm.trans hrecorded, rfl⟩

/-- The lock of a holder who is not gone is refused, and nothing changes. -/
theorem does_acquire_of_live (user : String) :
    Does d (acquire (files : Files (Workplace σ) Handle) session.lift project user) fun r d' =>
      r = .error (heldBy project h) ∧ d' = d := by
  refine (does_acquire_cases session project user).mono fun r d' hr => ?_
  cases hr with
  | held h' hrecorded' hfinds =>
    obtain rfl := Option.some.inj (hrecorded'.symm.trans hrecorded)
    exact ⟨rfl, rfl⟩
  | failed e hfree hcreate => exact absurd (hfree h hrecorded) hlive
  | busy handle d' hfree hcreate hlocked => exact absurd (hfree h hrecorded) hlive
  | taken handle d' holder hfree hcreate hunlocked hself => exact absurd (hfree h hrecorded) hlive

end Live

section Free

variable {session} {project : String}
  (hfree : ∀ h, recorded? d project = some h → ¬ session.Finds h false)
include hfree

theorem does_holder?_of_free :
    Does d (holder? (files : Files (Workplace σ) Handle) session.lift project) fun r d' =>
      r = none ∧ d' = d := by
  refine (does_holder?_cases session project).mono fun r d' hr => ?_
  obtain ⟨rfl, ⟨rfl, -⟩ | ⟨h, -, hrecorded, hfinds⟩⟩ := hr
  · exact ⟨rfl, rfl⟩
  · exact absurd hfinds (hfree h hrecorded)

/-- A lock that nobody has is taken if its file can be made and nobody has locked it. -/
theorem does_acquire_of_free {k : String} (hkey : d.key? (pathFor project) = some k)
    (hbefore : d.nodes.find? k ≠ some .directory)
    (hunlocked : ∀ handle d', d.create (pathFor project) = .ok (handle, d') →
      d'.isLockedByOthers handle = false) (user : String) :
    Does d (acquire (files : Files (Workplace σ) Handle) session.lift project user) fun r d' =>
      ∃ handle d₁ holder, r = .ok ⟨project, pathFor project, handle, holder⟩
        ∧ session.Presents user holder ∧ d.create (pathFor project) = .ok (handle, d₁)
        ∧ d' = (d₁.locked handle).write handle (Text.bytes (Document.ofHolder holder).page) := by
  refine (does_acquire_cases session project user).mono fun r d' hr => ?_
  cases hr with
  | held h hrecorded hfinds => exact absurd hfinds (hfree h hrecorded)
  | failed e _ hcreate =>
    obtain ⟨handle, d₁, hok⟩ := Disk.exists_create hkey hbefore
    rw [hok] at hcreate
    cases hcreate
  | busy handle d' _ hcreate hlocked =>
    rw [hunlocked handle d' hcreate] at hlocked
    cases hlocked
  | taken handle d₁ holder _ hcreate _ hself =>
    exact ⟨handle, d₁, holder, rfl, hself, hcreate, rfl⟩

end Free

end Lock

end QuantitySurvey
