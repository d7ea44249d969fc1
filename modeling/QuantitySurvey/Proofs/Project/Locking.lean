import QuantitySurvey.Proofs.Disk.Drafts
import QuantitySurvey.Proofs.Lock.Acquisition

/-! # Work on orderly disks

Taking a lock, giving it back and saving a project keep a disk orderly. What is read at another path
is the same before and after a lock was asked for, unless the lock file is the one at that path by
another name, which it is not on an orderly disk.

* `Lock.Acquisition.isOrderly`, `keepsOrderly_release`, `keepsOrderly_save`: disks stay orderly.
* `Lock.Acquisition.reads_or`, `Lock.Acquisition.reads`: what is read while a lock is taken.
-/

set_option autoImplicit false

namespace QuantitySurvey

open Disk (Handle)

namespace Workplace

variable {σ α β : Type}

/-! ## Disks that stay orderly -/

def KeepsOrderly (x : Workplace σ α) : Prop :=
  ∀ d : Disk, d.IsOrderly → Does d x fun _ d' => d'.IsOrderly

theorem keepsOrderly_pure (a : α) : KeepsOrderly (pure a : Workplace σ α) :=
  fun _ h => does_pure h

theorem KeepsOrderly.bind {x : Workplace σ α} {f : α → Workplace σ β} (hx : KeepsOrderly x)
    (hf : ∀ a, KeepsOrderly (f a)) : KeepsOrderly (x >>= f) :=
  fun d h => (hx d h).bind fun a d' h' => hf a d' h'

theorem keepsOrderly_attempt {operation : Disk → Except Disk.Fault (α × Disk)}
    (h : ∀ d a d', d.IsOrderly → operation d = .ok (a, d') → d'.IsOrderly) :
    KeepsOrderly (Files.attempt operation : Workplace σ (Except Disk.Fault α)) := by
  intro d hd
  refine (does_attempt operation).mono fun r d' hr => ?_
  rcases hr with ⟨-, -, -, rfl⟩ | ⟨a, -, hok⟩
  · exact hd
  · exact h d a d' hd hok

theorem keepsOrderly_create (path : String) :
    KeepsOrderly ((files : Files (Workplace σ) Handle).create path) :=
  keepsOrderly_attempt fun _ _ _ hd hok => Disk.isOrderly_create hd hok

theorem keepsOrderly_rename (source target : String) :
    KeepsOrderly ((files : Files (Workplace σ) Handle).rename source target) :=
  keepsOrderly_attempt fun _ _ _ hd hok => Disk.isOrderly_rename hd (map_unit_ok hok)

theorem keepsOrderly_remove (path : String) :
    KeepsOrderly ((files : Files (Workplace σ) Handle).remove path) :=
  keepsOrderly_attempt fun _ _ _ hd hok => Disk.isOrderly_remove hd (map_unit_ok hok)

theorem keepsOrderly_writeText (h : Handle) (text : String) :
    KeepsOrderly ((files : Files (Workplace σ) Handle).writeText h text) :=
  fun _ hd => (does_writeText h text).mono fun _ _ hr => hr.2 ▸ hd.write h _

theorem keepsOrderly_close (h : Handle) :
    KeepsOrderly ((files : Files (Workplace σ) Handle).close h) :=
  fun _ hd => (does_close h).mono fun _ _ hr => hr ▸ hd.closed h

end Workplace

open Workplace

variable {σ : Type}

theorem Project.keepsOrderly_save (p : Project) (path : String) :
    KeepsOrderly (p.save (files : Files (Workplace σ) Handle) path) := by
  unfold Project.save
  have hwrite : KeepsOrderly (Project.writeNew (files : Files (Workplace σ) Handle)
      (Disk.sibling "tmp" path) (Document.ofProject p).page) := by
    refine (keepsOrderly_create _).bind fun r => ?_
    cases r with
    | error e => exact keepsOrderly_pure _
    | ok h =>
      exact (keepsOrderly_writeText h _).bind fun _ =>
        (keepsOrderly_close h).bind fun _ => keepsOrderly_pure _
  refine hwrite.bind fun r => ?_
  cases r with
  | error e => exact (keepsOrderly_remove _).bind fun _ => keepsOrderly_pure _
  | ok _ =>
    refine (keepsOrderly_rename _ path).bind fun r => ?_
    cases r with
    | error e => exact (keepsOrderly_remove _).bind fun _ => keepsOrderly_pure _
    | ok _ => exact keepsOrderly_pure _

namespace Lock

variable {session : Session (StateM σ)} {d d' : Disk} {project user path : String}
  {r : Except Failure (Lock Handle)}

theorem Acquisition.isOrderly (h : Acquisition session d project user r d') (hd : d.IsOrderly) :
    d'.IsOrderly := by
  cases h with
  | held h hrecorded hfinds => exact hd
  | failed e hfree hcreate => exact hd
  | busy handle d₁ hfree hcreate hlocked => exact (Disk.isOrderly_create hd hcreate).closed handle
  | taken handle d₁ holder hfree hcreate hunlocked hself =>
    exact ((Disk.isOrderly_create hd hcreate).locked handle).write handle _

theorem keepsOrderly_release (lock : Lock Handle) :
    KeepsOrderly (lock.release (files : Files (Workplace σ) Handle)) :=
  (keepsOrderly_remove _).bind fun _ => keepsOrderly_close _

/-! ## Files that are read meanwhile -/

/-- Whoever asks for a lock makes the lock file anew, or leaves the disk as it is. -/
theorem Acquisition.drafted_or (h : Acquisition session d project user r d') :
    d' = d ∨ ∃ k n bs, d.Drafted (pathFor project) k n bs d' := by
  cases h with
  | held other hrecorded hfinds => exact .inl rfl
  | failed e hfree hcreate => exact .inl rfl
  | busy handle d₁ hfree hcreate hlocked =>
    obtain ⟨k, n, c⟩ := Disk.created hcreate
    exact .inr ⟨k, n, _, c.drafted.closed handle⟩
  | taken handle d₁ holder hfree hcreate hunlocked hself =>
    obtain ⟨k, n, c⟩ := Disk.created hcreate
    exact .inr ⟨k, n, _, (c.locked handle).drafted.write c.file _⟩

/-- What is read at a path that does not lead to the lock is the same after the lock was asked for,
unless the lock file is the one at the path, by another name. -/
theorem Acquisition.reads_or (h : Acquisition session d project user r d')
    (hpath : ∀ k, d.key? (pathFor project) = some k → d.key? path ≠ some k) :
    (∀ bs, d'.read path = .ok bs ↔ d.read path = .ok bs)
      ∨ d'.LeadToOne path (pathFor project) := by
  rcases h.drafted_or with rfl | ⟨k, n, bs, hdrafted⟩
  · exact .inl fun _ => Iff.rfl
  · exact hdrafted.reads_or (hpath k hdrafted.key)

/-- On an orderly disk the lock file is no other file. -/
theorem Acquisition.reads (h : Acquisition session d project user r d') (hd : d.IsOrderly)
    (hpath : ∀ k, d.key? (pathFor project) = some k → d.key? path ≠ some k) (bs : List UInt8) :
    d'.read path = .ok bs ↔ d.read path = .ok bs := by
  have hsame : d.SameDirectories d' := by
    rcases h.drafted_or with rfl | ⟨k, n, bs, hdrafted⟩
    · exact fun _ => Iff.rfl
    · exact hdrafted.sameDirectories
  refine (h.reads_or hpath).resolve_right ((h.isOrderly hd).not_leadToOne fun k hk hlock => ?_) bs
  rw [hsame.key?] at hk hlock
  exact hpath k hlock hk

end Lock

end QuantitySurvey
