import QuantitySurvey.Proofs.Lock.Acquisition

/-! # Refusals and takeovers

A request that is refused for a holder leaves the lock file as it was; one that is refused for the
lock on the file itself leaves it empty. A lock of which nothing is known but its age is taken over
once it is twenty-five hours old: only whole hours count, and more than twenty-four of them are
needed.

* `refused_request`: what a refusal leaves of the lock file.
* `isOverdue_iff`: the age at which a lock is left over.
* `old_lock_taken_over`: requests and inquiries before that age and after it.
-/

set_option autoImplicit false

namespace QuantitySurvey

open Disk (Handle)
open Workplace

namespace Lock

variable {σ : Type} {d : Disk}

/-! ## Refusals -/

/-- A request that is refused for a holder changes nothing. One that is refused for the lock on the
file comes too late to leave the file as it was: it is empty. -/
theorem refused_request (session : Session (StateM σ)) (hd : d.IsNumbered) (project user : String) :
    Does d (acquire (files : Files (Workplace σ) Handle) session.lift project user) fun r d' =>
      ∀ path owner since, r = .error (.locked path owner since) →
        ∃ before after, d.read (pathFor project) = .ok before
          ∧ d'.read (pathFor project) = .ok after
          ∧ ((∃ h, recorded? d project = some h ∧ session.Finds h false
                ∧ r = .error (heldBy project h) ∧ d' = d ∧ after = before)
            ∨ (IsFree session d project ∧ d.IsLockedAt (pathFor project)
                ∧ r = .error (.locked project "another process" "unknown") ∧ after = [])) := by
  refine (does_acquire_cases session project user).mono fun r d' hr path owner since heq => ?_
  cases hr with
  | held h hrecorded hfinds =>
    obtain ⟨before, hread⟩ := exists_read_of_recorded? hrecorded
    exact ⟨before, before, hread, hread, .inl ⟨h, hrecorded, hfinds, rfl, rfl, rfl⟩⟩
  | failed e hfree hcreate => cases heq
  | busy handle d' hfree hcreate hlocked =>
    obtain ⟨k, n, c⟩ := Disk.created hcreate
    obtain ⟨other, hmem⟩ := c.exists_lock hcreate hlocked
    have hfile : d.nodes.find? k = some (.file n) := by
      rcases c.origin hcreate with hfile | ⟨-, rfl⟩
      · exact hfile
      · exact absurd (hd.locks _ _ hmem) (Nat.lt_irrefl _)
    refine ⟨d.contentOf n, [], ?_, ?_,
      .inr ⟨hfree, ⟨k, n, other, c.key, hfile, hmem⟩, rfl, rfl⟩⟩
    · exact Disk.read_eq_ok_iff.2 ⟨k, n, c.key, hfile, rfl⟩
    · refine (Disk.read_closed handle _ _).2 (Disk.read_eq_ok_iff.2 ⟨k, n, ?_, ?_, ?_⟩)
      · rw [c.sameDirectories.key?, c.key]
      · rw [c.nodes, if_pos rfl]
      · rw [c.contents, if_pos rfl]
  | taken handle d' holder hfree hcreate hunlocked hself => cases heq

/-- The two refusals are told apart by the owner that they name. -/
theorem heldBy_ne (project : String) (h : Holder) (path since : String) :
    heldBy project h ≠ .locked path "another process" since := by
  intro heq
  obtain ⟨-, howner, -⟩ := Failure.locked.inj heq
  have hlast : (h.user ++ " (" ++ h.machine ++ ")").toList.getLast? = some ')' := by
    rw [String.toList_append]
    exact List.getLast?_concat
  rw [howner] at hlast
  exact absurd hlast (by decide)

def sampleHolder : Holder := ⟨"ann", "annes-desk", 1, ⟨1735718400, 0⟩⟩

/-- A disk on which the file of a lock is locked. -/
def sampleDisk : Disk where
  nodes := SortedMap.empty.insert "p.tko.lock" (.file 0)
  contents := SortedMap.empty.insert 0 (Text.bytes (Document.ofHolder sampleHolder).page)
  locks := [(0, 1)]
  next := 2

theorem isNumbered_sampleDisk : sampleDisk.IsNumbered where
  files := by
    intro k n hk
    rw [sampleDisk, Disk.find?_insert_node] at hk
    split at hk
    · cases hk
      decide
    · cases hk
  locks := by
    intro n handle hmem
    cases List.mem_singleton.1 hmem
    decide

def sampleRequest (now : Instant) : Except Failure (Lock Handle) × Disk :=
  comesTo (acquire (files : Files (Workplace Unit) Handle)
    (Session.still (some "bens-desk") 7 (fun _ => true) now : Session (StateM Unit)).lift
    "p.tko" "ben") sampleDisk ()

/-- The lock of somebody who has worked for two days is not taken from them, but it loses their
name. -/
theorem sample_refusal_empties :
    let request := sampleRequest ⟨1735891200, 0⟩
    sampleDisk.IsNumbered
      ∧ request.1 = .error (.locked "p.tko" "another process" "unknown")
      ∧ sampleDisk.read (pathFor "p.tko")
        = .ok (Text.bytes (Document.ofHolder sampleHolder).page)
      ∧ request.2.read (pathFor "p.tko") = .ok [] := by
  have herror : (sampleRequest ⟨1735891200, 0⟩).1.map (fun _ => ())
      = .error (.locked "p.tko" "another process" "unknown") := by decide +kernel
  have hdoes := (refused_request (Session.still (some "bens-desk") 7 (fun _ => true)
    ⟨1735891200, 0⟩ : Session (StateM Unit)) isNumbered_sampleDisk "p.tko" "ben").comesTo ()
  have hread : sampleDisk.read (pathFor "p.tko")
      = .ok (Text.bytes (Document.ofHolder sampleHolder).page) := by decide +kernel
  rw [← sampleRequest] at hdoes
  generalize sampleRequest ⟨1735891200, 0⟩ = request at herror hdoes ⊢
  obtain ⟨r, d'⟩ := request
  cases r with
  | ok lock => cases herror
  | error e =>
    obtain rfl := Except.error.inj herror
    obtain ⟨before, after, -, hafter, hcases⟩ := hdoes _ _ _ rfl
    refine ⟨isNumbered_sampleDisk, rfl, hread, ?_⟩
    rcases hcases with ⟨h, -, -, hheld, -⟩ | ⟨-, -, -, rfl⟩
    · exact absurd (Except.error.inj hheld).symm (heldBy_ne _ _ _ _)
    · exact hafter

/-! ## Ages -/

/-- Whole hours exceed a number of hours when the next one is complete. -/
theorem lt_tdiv_iff {hours hour t : Int} (hhours : 0 ≤ hours) (hhour : 0 < hour) :
    hours < t.tdiv hour ↔ (hours + 1) * hour ≤ t := by
  rcases Int.le_total 0 t with ht | ht
  · rw [Int.tdiv_eq_ediv_of_nonneg ht, Int.lt_iff_add_one_le, Int.le_ediv_iff_mul_le hhour]
  · have hquotient : t.tdiv hour ≤ 0 := by
      have := Int.tdiv_nonneg (a := -t) (b := hour) (by omega) (by omega)
      rw [Int.neg_tdiv] at this
      omega
    have hproduct : 0 < (hours + 1) * hour := Int.mul_pos (by omega) hhour
    omega

def nanosecondsPerHour : Int := 3600 * Instant.nanosecondsPerSecond

theorem isOverdue_iff {since now : Instant} :
    isOverdue since now = true ↔ 25 * nanosecondsPerHour ≤ since.elapsed now := by
  unfold isOverdue
  rw [decide_eq_true_iff]
  exact lt_tdiv_iff (by decide) (by decide)

example : isOverdue ⟨0, 0⟩ ⟨89999, 999999999⟩ = false := by decide
example : isOverdue ⟨0, 0⟩ ⟨90000, 0⟩ = true := by decide

theorem finds_still {host : Option String} {processId : Nat} {isAlive : Nat → Bool}
    {now : Instant} {h : Holder} (hhere : host = some h.machine → isAlive h.processId = true)
    {isStale : Bool}
    (hfinds : Session.Finds (.still host processId isAlive now : Session (StateM σ)) h isStale) :
    isStale = isOverdue h.since now := by
  let session : Session (StateM σ) := .still host processId isAlive now
  have hnow : ∀ s, (session.now.run s).1 = now := fun _ => rfl
  refine finds_eq session (fun s hname t => hhere hname) (fun s => ?_) hfinds
  rw [hnow]

/-! ## Taking over -/

/-- A lock whose process is not known to be gone, and whose file nobody has locked, is taken over
exactly if it is twenty-five hours old or older. -/
theorem old_lock_taken_over {project : String} {h : Holder}
    (hrecorded : recorded? d project = some h) (hunlocked : ¬ d.IsLockedAt (pathFor project))
    (host : Option String) (isAlive : Nat → Bool)
    (hhere : host = some h.machine → isAlive h.processId = true)
    (user : String) (processId : Nat) (now : Instant) :
    let session : Session (StateM σ) := .still host processId isAlive now
    let self : Holder := ⟨user, host.getD "unknown", processId, now⟩
    (25 * nanosecondsPerHour ≤ h.since.elapsed now →
      Does d (acquire (files : Files (Workplace σ) Handle) session.lift project user) (fun r d' =>
          (∃ handle, r = .ok ⟨project, pathFor project, handle, self⟩)
            ∧ d'.read (pathFor project) = .ok (Text.bytes (Document.ofHolder self).page))
        ∧ Does d (holder? (files : Files (Workplace σ) Handle) session.lift project) fun r d' =>
          r = none ∧ d' = d)
    ∧ (h.since.elapsed now < 25 * nanosecondsPerHour →
      Does d (acquire (files : Files (Workplace σ) Handle) session.lift project user) (fun r d' =>
          r = .error (heldBy project h) ∧ d' = d)
        ∧ Does d (holder? (files : Files (Workplace σ) Handle) session.lift project) fun r d' =>
          r = some h ∧ d' = d) := by
  intro session self
  have hfinds : ∀ {isStale}, session.Finds h isStale → isStale = isOverdue h.since now :=
    fun hfinds => finds_still hhere hfinds
  constructor
  · intro hold
    have hfree : ∀ h', recorded? d project = some h' → ¬ session.Finds h' false := by
      intro h' hrecorded' hlive
      obtain rfl := Option.some.inj (hrecorded'.symm.trans hrecorded)
      rw [isOverdue_iff.2 hold] at hfinds
      cases hfinds hlive
    obtain ⟨bs, hread⟩ := exists_read_of_recorded? hrecorded
    obtain ⟨k, n, hkey, hfile, -⟩ := Disk.read_eq_ok_iff.1 hread
    refine ⟨(does_acquire_of_free hfree hkey (by rw [hfile]; simp) ?_ user).mono ?_,
      does_holder?_of_free hfree⟩
    · exact fun handle d' hcreate => Disk.isLockedByOthers_of_read hread hunlocked hcreate
    · rintro r d' ⟨handle, d₁, holder, rfl, ⟨s, rfl⟩, hcreate, rfl⟩
      obtain ⟨k', n', c⟩ := Disk.created hcreate
      exact ⟨⟨handle, rfl⟩, (c.locked handle).read_write _⟩
  · intro hyoung
    have hlive : ¬ session.Finds h true := by
      intro hstale
      have := isOverdue_iff.1 (hfinds hstale).symm
      omega
    exact ⟨does_acquire_of_live hrecorded hlive user, does_holder?_of_live hrecorded hlive⟩

def unlockedSample : Disk := { sampleDisk with locks := [] }

/-- After twenty-four hours and a half a lock is still refused; after twenty-five it is taken. -/
theorem sample_old_lock_taken_over :
    let session : Instant → Session (StateM Unit) := .still (some "bens-desk") 7 fun _ => true
    recorded? unlockedSample "p.tko" = some sampleHolder
      ∧ ¬ unlockedSample.IsLockedAt (pathFor "p.tko")
      ∧ Does unlockedSample (acquire (files : Files (Workplace Unit) Handle)
          (session ⟨1735806600, 0⟩).lift "p.tko" "ben")
        (fun r d' => r = .error (heldBy "p.tko" sampleHolder) ∧ d' = unlockedSample)
      ∧ Does unlockedSample (acquire (files : Files (Workplace Unit) Handle)
          (session ⟨1735808400, 0⟩).lift "p.tko" "ben")
        (fun r _ => ∃ handle, r = .ok
          ⟨"p.tko", pathFor "p.tko", handle, "ben", "bens-desk", 7, ⟨1735808400, 0⟩⟩) := by
  intro session
  have hread : unlockedSample.read (pathFor "p.tko")
      = .ok (Text.bytes (Document.ofHolder sampleHolder).page) := by decide +kernel
  have hrecorded : recorded? unlockedSample "p.tko" = some sampleHolder :=
    recorded?_of_read (by decide) (Instant.IsCivil.isStorable (by decide)) hread
  have hunlocked : ¬ unlockedSample.IsLockedAt (pathFor "p.tko") := by
    rintro ⟨k, n, handle, -, -, hmem⟩
    cases hmem
  have htake := fun now => old_lock_taken_over (σ := Unit) hrecorded hunlocked (some "bens-desk")
    (fun _ => true) (fun _ => rfl) "ben" 7 now
  have hhalf := ((htake ⟨1735806600, 0⟩).2 (by decide)).1
  have hwhole := ((htake ⟨1735808400, 0⟩).1 (by decide)).1
  exact ⟨hrecorded, hunlocked, hhalf, hwhole.mono fun r _ hr => hr.1⟩

end Lock

end QuantitySurvey
