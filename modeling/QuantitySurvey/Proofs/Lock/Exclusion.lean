import Mathlib.Logic.Relation
import QuantitySurvey.Proofs.Disk.Drafts
import QuantitySurvey.Proofs.Lock.Takeover

/-! # Locks that exclude each other

One process takes locks, drops them and looks for them, in any order and for any projects, while
nobody else touches the lock files. Every lock file is then that of a lock which is alive, or is not
there: `Scene.IsSound`, which every step keeps.

* `Step`: what the process does with locks, and what happens besides.
* `IsSound.acquire`, `IsSound.drop`: scenes stay sound.
* `locks_exclude_each_other`: what the process is told at any time.
-/

set_option autoImplicit false

namespace QuantitySurvey

open Disk (Handle)

namespace Disk

/-! ## Changes at one name -/

/-- Paths lead where they led, and what is read under other names than this one is the same. -/
structure ChangesOnly (d : Disk) (k : String) (d' : Disk) : Prop where
  key : ∀ path, d'.key? path = d.key? path
  read : ∀ path j, d.key? path = some j → j ≠ k → d'.read path = d.read path
  numbered : d'.IsNumbered

variable {d d' : Disk} {path k : String} {n : Nat} {handle : Handle}

/-- A new file that is locked and written to. -/
theorem changesOnly_taken (hd : d.IsNumbered) (hread : d.read path = .error .notFound)
    (hc : d.create path = .ok (handle, d')) (c : Created d path handle d' k n) (bs : List UInt8) :
    d.ChangesOnly k ((d'.locked handle).write handle bs) := by
  have hdraft := (c.locked handle).drafted.write c.file bs
  have hdirectories := sameDirectories_of_file hdraft.nodes hdraft.before
  have hnew : n = d.next := by
    rcases c.origin hc with hfile | ⟨-, hnew⟩
    · rw [read_eq_ok_iff.2 ⟨k, n, c.key, hfile, rfl⟩] at hread
      cases hread
    · exact hnew
  refine ⟨hdirectories.key?, fun path j hj hne => ?_, ?_⟩
  · refine read_congr ((hdirectories.key? path).trans hj) hj ?_ fun m hm => ?_
    · rw [hdraft.nodes, if_neg hne]
    · have hlt := hd.files j m hm
      rw [hdraft.contents, if_neg (by omega)]
  · have hnamed : d'.nodes.find? k = some (.file n) := by rw [c.nodes, if_pos rfl]
    exact ((isNumbered_create hd hc).locked c.file hnamed).write handle bs

/-- A file that is removed, and a handle that is closed. -/
theorem changesOnly_released (hd : d.IsNumbered) (hr : d.remove path = .ok d')
    (r : Removed d path d' k) (handle : Handle) : d.ChangesOnly k (d'.closed handle) := by
  have hdirectories := r.sameDirectories.trans (evolves_closed (fun _ => False) handle).directories
  refine ⟨hdirectories.key?, fun path j hj hne => ?_, ?_⟩
  · refine read_congr ((hdirectories.key? path).trans hj) hj ?_ fun m _ => r.contents m
    exact (r.nodes j).trans (if_neg hne)
  · exact (isNumbered_remove hd hr).closed handle

end Disk

open Workplace

namespace Lock

variable {σ : Type}

/-! ## Sessions -/

/-- A session of a process that lives all the time, and of less than a day. -/
structure Session.IsSteady (session : Session (StateM σ)) : Prop where
  process : ∀ s, (session.processId.run s).1 < UInt32.size
  alive : ∀ s t, ((session.isAlive (session.processId.run s).1).run t).1 = true
  civil : ∀ s, (session.now.run s).1.IsCivil
  day : ∀ s t, (session.now.run s).1.elapsed (session.now.run t).1 < 24 * nanosecondsPerHour

section Steady

variable {session : Session (StateM σ)} (hsession : session.IsSteady) {user : String} {h : Holder}
  (hself : session.Presents user h)
include hsession hself

/-- A steady session never finds one of its own locks to be left over. -/
theorem not_finds_of_presents : ¬ session.Finds h true := by
  obtain ⟨-, ⟨s, hprocess⟩, ⟨t, hsince⟩⟩ := parts_of_presents session hself
  intro hstale
  have hfresh : true = false := by
    refine finds_eq session (fun _ _ u => ?_) (fun u => ?_) hstale
    · rw [hprocess]
      exact hsession.alive s u
    · have hday := hsession.day t u
      have hhour : 0 < nanosecondsPerHour := by decide
      rw [hsince, Bool.eq_false_iff, ne_eq, isOverdue_iff]
      omega
  cases hfresh

theorem recorded?_of_presents {d : Disk} {project : String}
    (hread : d.read (pathFor project) = .ok (Text.bytes (Document.ofHolder h).page)) :
    recorded? d project = some h := by
  obtain ⟨-, ⟨s, hprocess⟩, ⟨t, hsince⟩⟩ := parts_of_presents session hself
  exact recorded?_of_read (hprocess ▸ hsession.process s) (hsince ▸ (hsession.civil t).isStorable)
    hread

end Steady

/-! ## Steps -/

/-- A disk, and the locks of a process that are alive. -/
structure Scene where
  disk : Disk
  alive : List (Lock Handle)

/-- The file of a lock is the lock file of a project, by this path or another one. -/
def Scene.IsLockOf (c : Scene) (lock : Lock Handle) (project : String) : Prop :=
  c.disk.key? lock.path = c.disk.key? (pathFor project)

/-- What happens, and what the process is told. -/
inductive Event where
  | acquired (project user : String) (result : Except Failure (Lock Handle))
  | dropped (lock : Lock Handle)
  | checked (project : String) (result : Option Holder)
  | elsewhere

/-- Work that leaves the lock files of projects alone. -/
structure SparesLocks (projects : String → Prop) (d d' : Disk) : Prop where
  key : ∀ project, projects project → d'.key? (pathFor project) = d.key? (pathFor project)
  read : ∀ project, projects project → d'.read (pathFor project) = d.read (pathFor project)
  numbered : d'.IsNumbered

/-- One step of a process that works on some projects. What is outside of the disk, such as the
clock, may be in any state each time. -/
inductive Step (session : Session (StateM σ)) (projects : String → Prop) :
    Scene → Event → Scene → Prop
  | acquire {d d' : Disk} {alive : List (Lock Handle)} {project user : String}
      {r : Except Failure (Lock Handle)} (s : σ) (hproject : projects project)
      (hrun : comesTo (acquire files session.lift project user) d s = (r, d')) :
      Step session projects ⟨d, alive⟩ (.acquired project user r) ⟨d', r.toOption.toList ++ alive⟩
  | drop {d d' : Disk} {before after : List (Lock Handle)} {lock : Lock Handle} (s : σ)
      (hrun : comesTo (lock.release files) d s = ((), d')) :
      Step session projects ⟨d, before ++ lock :: after⟩ (.dropped lock) ⟨d', before ++ after⟩
  | check {d d' : Disk} {alive : List (Lock Handle)} {project : String} {r : Option Holder} (s : σ)
      (hproject : projects project)
      (hrun : comesTo (holder? files session.lift project) d s = (r, d')) :
      Step session projects ⟨d, alive⟩ (.checked project r) ⟨d', alive⟩
  | elsewhere {d d' : Disk} {alive : List (Lock Handle)} (hspares : SparesLocks projects d d') :
      Step session projects ⟨d, alive⟩ .elsewhere ⟨d', alive⟩

/-- A lock is taken exactly if none is alive for the project; otherwise the request names the
holder and changes nothing. An inquiry tells who has the lock that is alive. -/
def Event.Fits (c c' : Scene) : Event → Prop
  | .acquired project user (.ok lock) => (∀ l ∈ c.alive, ¬ c.IsLockOf l project)
      ∧ lock.path = pathFor project ∧ lock.holder.user = user
  | .acquired project _ (.error e) => ∃ l ∈ c.alive, c.IsLockOf l project
      ∧ e = .locked project (l.holder.user ++ " (" ++ l.holder.machine ++ ")") l.holder.since.text
      ∧ c'.disk = c.disk
  | .dropped lock => c'.disk.read lock.path = .error .notFound
  | .checked project (some h) => ∃ l ∈ c.alive, c.IsLockOf l project ∧ l.holder = h
  | .checked project none => ∀ l ∈ c.alive, ¬ c.IsLockOf l project
  | .elsewhere => True

/-! ## Sound scenes -/

structure Scene.IsSound (session : Session (StateM σ)) (projects : String → Prop) (c : Scene) :
    Prop where
  numbered : c.disk.IsNumbered
  named : ∀ project, projects project → ∃ k, c.disk.key? (pathFor project) = some k
  /-- Every lock that is alive stands in its file. -/
  alive : ∀ l ∈ c.alive, (∃ project, projects project ∧ l.path = pathFor project)
    ∧ (∃ user, session.Presents user l.holder)
    ∧ c.disk.read l.path = .ok (Text.bytes (Document.ofHolder l.holder).page)
  exclusive : c.alive.Pairwise fun l l' => c.disk.key? l.path ≠ c.disk.key? l'.path
  /-- There are no lock files but those of locks that are alive. -/
  free : ∀ project, projects project → (∀ l ∈ c.alive, ¬ c.IsLockOf l project) →
    c.disk.read (pathFor project) = .error .notFound

namespace Scene.IsSound

variable {session : Session (StateM σ)} {projects : String → Prop}

section Asking

variable {c : Scene} (h : c.IsSound session projects) (hsession : session.IsSteady)
  {project : String}
include h hsession

/-- The lock file of a project names the holder of its lock, who is not found to be gone. -/
theorem recorded?_eq_some {l : Lock Handle} (hl : l ∈ c.alive) (hlock : c.IsLockOf l project) :
    Lock.recorded? c.disk project = some l.holder ∧ ¬ session.Finds l.holder true := by
  obtain ⟨-, ⟨user, hself⟩, hread⟩ := h.alive l hl
  exact ⟨recorded?_of_presents hsession hself ((Disk.read_iff_of_key? hlock _).1 hread),
    not_finds_of_presents hsession hself⟩

omit hsession in
/-- The lock file of a project names nobody if its lock is not alive. -/
theorem recorded?_ne_some (hproject : projects project)
    (hnone : ∀ l ∈ c.alive, ¬ c.IsLockOf l project) (holder : Holder) :
    Lock.recorded? c.disk project ≠ some holder := by
  intro hrecorded
  obtain ⟨bs, hread⟩ := exists_read_of_recorded? hrecorded
  rw [h.free project hproject hnone] at hread
  cases hread

theorem does_holder? (hproject : projects project) :
    Does c.disk (holder? (files : Files (Workplace σ) Handle) session.lift project) fun r d' =>
      d' = c.disk ∧ ((∃ l ∈ c.alive, c.IsLockOf l project ∧ r = some l.holder)
        ∨ (∀ l ∈ c.alive, ¬ c.IsLockOf l project) ∧ r = none) := by
  by_cases hlock : ∃ l ∈ c.alive, c.IsLockOf l project
  · obtain ⟨l, hl, hlock⟩ := hlock
    obtain ⟨hrecorded, hlive⟩ := h.recorded?_eq_some hsession hl hlock
    exact (does_holder?_of_live hrecorded hlive).mono fun r d' hr =>
      ⟨hr.2, .inl ⟨l, hl, hlock, hr.1⟩⟩
  · have hnone : ∀ l ∈ c.alive, ¬ c.IsLockOf l project := fun l hl hl' => hlock ⟨l, hl, hl'⟩
    have hrecorded := h.recorded?_ne_some hproject hnone
    exact (does_holder?_of_free fun holder hholder => absurd hholder (hrecorded holder)).mono
      fun r d' hr => ⟨hr.2, .inr ⟨hnone, hr.1⟩⟩

/-- A lock that is alive is refused; another one is taken, and its file made. -/
theorem does_acquire (hproject : projects project) (user : String) :
    Does c.disk (acquire (files : Files (Workplace σ) Handle) session.lift project user)
      fun r d' =>
        (∃ l ∈ c.alive, c.IsLockOf l project ∧ r = .error (heldBy project l.holder) ∧ d' = c.disk)
        ∨ (∀ l ∈ c.alive, ¬ c.IsLockOf l project) ∧ ∃ lock k, r = .ok lock
          ∧ lock.path = pathFor project ∧ session.Presents user lock.holder
          ∧ c.disk.key? (pathFor project) = some k ∧ c.disk.ChangesOnly k d'
          ∧ d'.read (pathFor project)
            = .ok (Text.bytes (Document.ofHolder lock.holder).page) := by
  by_cases hlock : ∃ l ∈ c.alive, c.IsLockOf l project
  · obtain ⟨l, hl, hlock⟩ := hlock
    obtain ⟨hrecorded, hlive⟩ := h.recorded?_eq_some hsession hl hlock
    exact (does_acquire_of_live hrecorded hlive user).mono fun r d' hr => .inl ⟨l, hl, hlock, hr⟩
  · have hnone : ∀ l ∈ c.alive, ¬ c.IsLockOf l project := fun l hl hl' => hlock ⟨l, hl, hl'⟩
    have hrecorded := h.recorded?_ne_some hproject hnone
    have hread := h.free project hproject hnone
    obtain ⟨k, hkey⟩ := h.named project hproject
    have hbefore : c.disk.nodes.find? k ≠ some .directory := by
      rw [(Disk.read_eq_notFound_iff hkey).1 hread]
      nofun
    have hunlocked : ∀ handle d', c.disk.create (pathFor project) = .ok (handle, d') →
        d'.isLockedByOthers handle = false :=
      fun _ _ hcreate => h.numbered.isLockedByOthers_of_new hread hcreate
    refine (does_acquire_of_free (fun holder hholder => absurd hholder (hrecorded holder)) hkey
      hbefore hunlocked user).mono ?_
    rintro r d' ⟨handle, d₁, holder, rfl, hself, hcreate, rfl⟩
    obtain ⟨k', n, created⟩ := Disk.created hcreate
    exact .inr ⟨hnone, _, k', rfl, rfl, hself, created.key,
      Disk.changesOnly_taken h.numbered hread hcreate created _,
      (created.locked handle).read_write _⟩

end Asking

/-- A lock that is dropped was in its file, which goes. -/
theorem does_release {d : Disk} {before after : List (Lock Handle)} {lock : Lock Handle}
    (h : IsSound session projects ⟨d, before ++ lock :: after⟩) :
    Does d (lock.release (files : Files (Workplace σ) Handle)) fun _ d' =>
      ∃ k, d.key? lock.path = some k ∧ d.ChangesOnly k d'
        ∧ d'.read lock.path = .error .notFound := by
  obtain ⟨-, -, hread⟩ := h.alive lock (by simp)
  obtain ⟨k, n, hkey, hfile, -⟩ := Disk.read_eq_ok_iff.1 hread
  unfold release
  refine (does_attempt fun d => (d.remove lock.path).map fun d => ((), d)).bind fun r d₁ hr => ?_
  rcases hr with ⟨e, -, herror, -⟩ | ⟨u, -, hremove⟩
  · obtain ⟨d₂, hok⟩ := Disk.exists_remove hkey hfile
    rw [hok] at herror
    cases herror
  · have hremove := map_unit_ok hremove
    obtain ⟨k', r⟩ := Disk.removed hremove
    obtain rfl : k' = k := Option.some.inj (r.key.symm.trans hkey)
    refine (does_close lock.handle).mono fun _ d₂ hclose => ?_
    subst hclose
    have hchange := Disk.changesOnly_released h.numbered hremove r lock.handle
    refine ⟨k', hkey, hchange, (Disk.read_eq_notFound_iff ((hchange.key _).trans hkey)).2 ?_⟩
    exact (r.nodes k').trans (if_pos rfl)

/-! ### Steps keep scenes sound -/

section Keeping

variable {d d' : Disk} {k : String} (hchange : d.ChangesOnly k d')
include hchange

/-- A lock whose file is elsewhere stays in it. -/
theorem read_eq {alive : List (Lock Handle)} (h : IsSound session projects ⟨d, alive⟩)
    {l : Lock Handle} (hl : l ∈ alive) (hne : d.key? l.path ≠ some k) :
    d'.read l.path = d.read l.path := by
  obtain ⟨⟨project, hproject, hpath⟩, -⟩ := h.alive l hl
  obtain ⟨j, hj⟩ := h.named project hproject
  rw [← hpath] at hj
  exact hchange.read l.path j hj fun hjk => hne (hjk ▸ hj)

theorem acquire {alive : List (Lock Handle)} (h : IsSound session projects ⟨d, alive⟩)
    {lock : Lock Handle} {project user : String} (hproject : projects project)
    (hnone : ∀ l ∈ alive, ¬ Scene.IsLockOf ⟨d, alive⟩ l project)
    (hpath : lock.path = pathFor project) (hself : session.Presents user lock.holder)
    (hkey : d.key? (pathFor project) = some k)
    (hread : d'.read (pathFor project) = .ok (Text.bytes (Document.ofHolder lock.holder).page)) :
    IsSound session projects ⟨d', lock :: alive⟩ where
  numbered := hchange.numbered
  named := fun project hproject => by
    obtain ⟨j, hj⟩ := h.named project hproject
    exact ⟨j, (hchange.key _).trans hj⟩
  alive := by
    intro l hl
    rcases List.mem_cons.1 hl with rfl | hl
    · exact ⟨⟨project, hproject, hpath⟩, ⟨user, hself⟩, hpath ▸ hread⟩
    · obtain ⟨hproject', hself', hread'⟩ := h.alive l hl
      have hne : d.key? l.path ≠ some k := fun hl' => hnone l hl (hl'.trans hkey.symm)
      exact ⟨hproject', hself', (read_eq hchange h hl hne).trans hread'⟩
  exclusive := by
    refine List.pairwise_cons.2 ⟨fun l hl heq => hnone l hl ?_, h.exclusive.imp fun hne heq => ?_⟩
    · rw [hchange.key, hchange.key, hpath] at heq
      exact heq.symm
    · rw [hchange.key, hchange.key] at heq
      exact hne heq
  free := by
    intro other hother hnone'
    have hne : d.key? (pathFor other) ≠ some k := by
      intro hk
      refine hnone' lock List.mem_cons_self ?_
      rw [IsLockOf, hchange.key, hchange.key, hpath, hkey, hk]
    obtain ⟨j, hj⟩ := h.named other hother
    refine (hchange.read _ j hj fun hjk => hne (hjk ▸ hj)).trans (h.free other hother ?_)
    intro l hl hlock
    refine hnone' l (List.mem_cons_of_mem _ hl) ?_
    rw [IsLockOf, hchange.key, hchange.key]
    exact hlock

theorem drop {before after : List (Lock Handle)} {lock : Lock Handle}
    (h : IsSound session projects ⟨d, before ++ lock :: after⟩)
    (hkey : d.key? lock.path = some k) (hread : d'.read lock.path = .error .notFound) :
    IsSound session projects ⟨d', before ++ after⟩ := by
  obtain ⟨hothers, hrest⟩ := List.pairwise_cons.1
    ((List.pairwise_middle fun hne => hne.symm).1 h.exclusive)
  have hmem : ∀ l ∈ before ++ after, l ∈ before ++ lock :: after :=
    fun l hl => ((List.sublist_cons_self _ _).append_left _).mem hl
  refine ⟨hchange.numbered, fun project hproject => ?_, fun l hl => ?_, ?_, ?_⟩
  · obtain ⟨j, hj⟩ := h.named project hproject
    exact ⟨j, (hchange.key _).trans hj⟩
  · obtain ⟨hproject, hself, hread'⟩ := h.alive l (hmem l hl)
    have hne : d.key? l.path ≠ some k := fun hl' => hothers l hl (hkey.trans hl'.symm)
    exact ⟨hproject, hself, (read_eq hchange h (hmem l hl) hne).trans hread'⟩
  · refine hrest.imp fun hne heq => hne ?_
    rwa [hchange.key, hchange.key] at heq
  · intro project hproject hnone
    obtain ⟨j, hj⟩ := h.named project hproject
    by_cases hjk : j = k
    · -- the file was that of the lock, by this path or another one
      have hgone := (Disk.read_eq_notFound_iff ((hchange.key _).trans hkey)).1 hread
      exact (Disk.read_eq_notFound_iff ((hchange.key _).trans (hjk ▸ hj))).2 hgone
    · refine (hchange.read _ j hj hjk).trans (h.free project hproject fun l hl hlock => ?_)
      have hne : l ≠ lock := by
        rintro rfl
        exact hjk (Option.some.inj ((hlock.trans hj).symm.trans hkey))
      have hl' : l ∈ before ++ after := by
        simpa [hne] using hl
      refine hnone l hl' ?_
      rw [IsLockOf, hchange.key, hchange.key]
      exact hlock

end Keeping

theorem elsewhere {d d' : Disk} {alive : List (Lock Handle)}
    (h : IsSound session projects ⟨d, alive⟩) (hspares : SparesLocks projects d d') :
    IsSound session projects ⟨d', alive⟩ := by
  have hkey : ∀ l ∈ alive, d'.key? l.path = d.key? l.path := by
    intro l hl
    obtain ⟨⟨project, hproject, hpath⟩, -⟩ := h.alive l hl
    rw [hpath, hspares.key project hproject]
  refine ⟨hspares.numbered, fun project hproject => ?_, fun l hl => ?_, ?_, ?_⟩
  · obtain ⟨k, hk⟩ := h.named project hproject
    exact ⟨k, (hspares.key project hproject).trans hk⟩
  · obtain ⟨⟨project, hproject, hpath⟩, hself, hread⟩ := h.alive l hl
    refine ⟨⟨project, hproject, hpath⟩, hself, Eq.trans ?_ hread⟩
    rw [hpath]
    exact hspares.read project hproject
  · refine h.exclusive.imp_of_mem fun hl hl' hne heq => hne ?_
    rwa [hkey _ hl, hkey _ hl'] at heq
  · intro project hproject hnone
    refine (hspares.read project hproject).trans (h.free project hproject fun l hl hlock => ?_)
    refine hnone l hl ?_
    rw [IsLockOf, hkey l hl, hspares.key project hproject]
    exact hlock

/-- A step tells the process what fits, and leads to a sound scene. -/
theorem step {c c' : Scene} {e : Event} (h : c.IsSound session projects)
    (hsession : session.IsSteady) (hstep : Step session projects c e c') :
    e.Fits c c' ∧ c'.IsSound session projects := by
  cases hstep with
  | @acquire d d' alive project user r s hproject hrun =>
    have hdoes := (h.does_acquire hsession hproject user).comesTo s
    rw [hrun] at hdoes
    rcases hdoes with ⟨l, hl, hlock, rfl, rfl⟩
      | ⟨hnone, lock, k, rfl, hpath, hself, hkey, hchange, hread⟩
    · exact ⟨⟨l, hl, hlock, rfl, rfl⟩, h⟩
    · exact ⟨⟨hnone, hpath, (parts_of_presents session hself).1⟩,
        acquire hchange h hproject hnone hpath hself hkey hread⟩
  | @drop d d' before after lock s hrun =>
    have hdoes := h.does_release.comesTo s
    rw [hrun] at hdoes
    obtain ⟨k, hkey, hchange, hread⟩ := hdoes
    exact ⟨hread, drop hchange h hkey hread⟩
  | @check d d' alive project r s hproject hrun =>
    have hdoes := (h.does_holder? hsession hproject).comesTo s
    rw [hrun] at hdoes
    obtain ⟨rfl, ⟨l, hl, hlock, rfl⟩ | ⟨hnone, rfl⟩⟩ := hdoes
    · exact ⟨⟨l, hl, hlock, rfl⟩, h⟩
    · exact ⟨hnone, h⟩
  | elsewhere hspares => exact ⟨trivial, h.elsewhere hspares⟩

end Scene.IsSound

/-! ## Runs -/

/-- At any time the locks that are alive are locks of different files, and every step tells the
process what fits. -/
theorem locks_exclude_each_other {session : Session (StateM σ)} {projects : String → Prop}
    (hsession : session.IsSteady) {d : Disk} (hd : d.IsNumbered)
    (hprojects : ∀ project, projects project → (∃ k, d.key? (pathFor project) = some k)
      ∧ d.read (pathFor project) = .error .notFound)
    {c : Scene} (hrun : Relation.ReflTransGen (fun c c' => ∃ e, Step session projects c e c')
      ⟨d, []⟩ c) :
    (c.alive.Pairwise fun l l' => c.disk.key? l.path ≠ c.disk.key? l'.path)
      ∧ ∀ e c', Step session projects c e c' → e.Fits c c' := by
  have hsound : c.IsSound session projects := by
    induction hrun with
    | refl =>
      exact ⟨hd, fun project hproject => (hprojects project hproject).1, nofun, .nil,
        fun project hproject _ => (hprojects project hproject).2⟩
    | tail _ hstep ih =>
      obtain ⟨e, hstep⟩ := hstep
      exact (ih.step hsession hstep).2
  exact ⟨hsound.exclusive, fun e c' hstep => (hsound.step hsession hstep).1⟩

def sampleTime : Instant := ⟨1735718400, 0⟩

def sampleSession : Session (StateM Unit) :=
  .still (some "annes-desk") 7 (fun _ => true) sampleTime

theorem isSteady_sampleSession : sampleSession.IsSteady where
  process := fun _ => (by decide : 7 < UInt32.size)
  alive := fun _ _ => rfl
  civil := fun _ => (by decide : sampleTime.IsCivil)
  day := fun _ _ => (by decide : sampleTime.elapsed sampleTime < 24 * nanosecondsPerHour)

def sampleAsking (d : Disk) (project user : String) : Except Failure (Lock Handle) × Disk :=
  comesTo (acquire (files : Files (Workplace Unit) Handle) sampleSession.lift project user) d ()

/-- Whoever asks for a project by another path is told who works on it. -/
theorem sample_locks_exclude :
    let first := sampleAsking {} "p.tko" "ann"
    let second := sampleAsking first.2 "./p.tko" "ben"
    sampleSession.IsSteady ∧ (∃ lock, first.1 = .ok lock)
      ∧ second.1 = .error (.locked "./p.tko" "ann (annes-desk)" "2025-01-01T08:00:00+00:00")
      ∧ second.2 = first.2 := by
  have herror : (sampleAsking (sampleAsking {} "p.tko" "ann").2 "./p.tko" "ben").1.map (fun _ => ())
      = .error (.locked "./p.tko" "ann (annes-desk)" "2025-01-01T08:00:00+00:00") := by
    decide +kernel
  let projects : String → Prop := fun project => project = "p.tko" ∨ project = "./p.tko"
  have hprojects : ∀ project, projects project →
      (∃ k, ({} : Disk).key? (pathFor project) = some k)
        ∧ ({} : Disk).read (pathFor project) = .error .notFound := by
    have hfree : ∀ project, ({} : Disk).key? (pathFor project) = some "p.tko.lock" →
        (∃ k, ({} : Disk).key? (pathFor project) = some k)
          ∧ ({} : Disk).read (pathFor project) = .error .notFound :=
      fun project hkey => ⟨⟨_, hkey⟩, (Disk.read_eq_notFound_iff hkey).2 rfl⟩
    rintro project (rfl | rfl)
    · exact hfree "p.tko" (by decide +kernel)
    · exact hfree "./p.tko" (by decide +kernel)
  have hstep : ∀ d alive {project} user, projects project →
      Step sampleSession projects ⟨d, alive⟩
        (.acquired project user (sampleAsking d project user).1)
        ⟨(sampleAsking d project user).2,
          (sampleAsking d project user).1.toOption.toList ++ alive⟩ := by
    intro d alive project user hproject
    unfold sampleAsking
    exact .acquire () hproject (Prod.eta _).symm
  have hfirst := hstep {} [] "ann" (.inl rfl)
  generalize sampleAsking {} "p.tko" "ann" = first at herror hfirst ⊢
  obtain ⟨r, d⟩ := first
  dsimp only at herror hfirst ⊢
  have hsecond := hstep d (r.toOption.toList ++ []) "ben" (.inr rfl)
  have hfits := (locks_exclude_each_other isSteady_sampleSession Disk.isNumbered_empty hprojects
    .refl).2 _ _ hfirst
  have hfits' := (locks_exclude_each_other isSteady_sampleSession Disk.isNumbered_empty hprojects
    (.tail .refl ⟨_, hfirst⟩)).2 _ _ hsecond
  generalize sampleAsking d "./p.tko" "ben" = second at herror hfits' ⊢
  obtain ⟨r', d'⟩ := second
  cases r' with
  | ok lock => cases herror
  | error e =>
    obtain rfl := Except.error.inj herror
    obtain ⟨-, -, -, -, hsame⟩ := hfits'
    cases r with
    | ok lock => exact ⟨isSteady_sampleSession, ⟨lock, rfl⟩, rfl, hsame⟩
    | error e =>
      obtain ⟨l, hl, -⟩ := hfits
      cases hl

end Lock

end QuantitySurvey
