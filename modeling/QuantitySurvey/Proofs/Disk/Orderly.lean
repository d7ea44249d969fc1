import QuantitySurvey.Proofs.Disk.Reading

/-! # Orderly disks

On an orderly disk no two names are those of one file, and the numbers of files to come are free.
There it is safe to write to a file: what other names lead to stays what it was. No operation makes
a disk disorderly.

* `isOrderly_create`, `isOrderly_rename`, `isOrderly_remove`: the operations keep a disk orderly.
* `Created.origin`: which file is made.
* `IsNumbered`: the numbers of files to come are free, and operations keep it so.
-/

set_option autoImplicit false

namespace QuantitySurvey.Disk

structure IsOrderly (d : Disk) : Prop where
  /-- No file has two names. -/
  apart : ∀ k k' n, d.nodes.find? k = some (.file n) → d.nodes.find? k' = some (.file n) → k = k'
  numbered : ∀ k n, d.nodes.find? k = some (.file n) → n < d.next

variable {d d' : Disk}

/-! ## Operations -/

/-- Names that go leave a disk orderly. -/
theorem IsOrderly.of_find? (h : d.IsOrderly) (hnext : d.next ≤ d'.next)
    (hnodes : ∀ k n, d'.nodes.find? k = some (.file n) → d.nodes.find? k = some (.file n)) :
    d'.IsOrderly where
  apart := fun k k' n hk hk' => h.apart k k' n (hnodes k n hk) (hnodes k' n hk')
  numbered := fun k n hk => Nat.lt_of_lt_of_le (h.numbered k n (hnodes k n hk)) hnext

theorem IsOrderly.write (h : d.IsOrderly) (handle : Handle) (bs : List UInt8) :
    (d.write handle bs).IsOrderly := by
  refine h.of_find? ?_ fun k n hk => by rwa [nodes_write] at hk
  unfold Disk.write
  split <;> exact Nat.le_refl _

theorem IsOrderly.locked (h : d.IsOrderly) (handle : Handle) : (d.locked handle).IsOrderly := by
  refine h.of_find? ?_ fun k n hk => by rwa [nodes_locked] at hk
  unfold Disk.locked
  split <;> exact Nat.le_refl _

theorem IsOrderly.closed (h : d.IsOrderly) (handle : Handle) : (d.closed handle).IsOrderly :=
  h.of_find? (Nat.le_refl _) fun _ _ hk => hk

/-- A file takes a name, which no other file has then. -/
theorem IsOrderly.named (h : d.IsOrderly) {k : String} {n : Nat} (hnext : n < d'.next)
    (hle : d.next ≤ d'.next) (hfree : ∀ j, d'.nodes.find? j = some (.file n) → j = k)
    (hothers : ∀ j m, m ≠ n → d'.nodes.find? j = some (.file m) →
      d.nodes.find? j = some (.file m)) : d'.IsOrderly where
  apart := by
    intro j j' m hj hj'
    by_cases hm : m = n
    · subst hm
      rw [hfree j hj, hfree j' hj']
    · exact h.apart j j' m (hothers j m hm hj) (hothers j' m hm hj')
  numbered := by
    intro j m hj
    by_cases hm : m = n
    · rwa [hm]
    · exact Nat.lt_of_lt_of_le (h.numbered j m (hothers j m hm hj)) hle

theorem isOrderly_openForWriting (h : d.IsOrderly) {path : String} {handle : Handle}
    (ho : d.openForWriting path = .ok (handle, d')) : d'.IsOrderly := by
  obtain ⟨k, -, ⟨n, hfind, rfl, rfl⟩ | ⟨hfind, rfl, rfl⟩⟩ := openForWriting_cases ho
  · exact h.of_find? (Nat.le_succ _) fun _ _ hk => hk
  · have hnode := fun j => find?_insert_node d.nodes k j (.file d.next)
    refine h.named (k := k) (n := d.next) (Nat.lt_succ_of_lt (Nat.lt_succ_self _))
      (Nat.le_add_right _ 2) (fun j hj => ?_) fun j m hm hj => ?_
    · rw [hnode] at hj
      split at hj
      · next hjk => exact hjk
      · exact absurd (h.numbered j _ hj) (Nat.lt_irrefl _)
    · rw [hnode] at hj
      split at hj
      · cases hj
        exact absurd rfl hm
      · exact hj

/-- A file is created by opening it and taking its content away. -/
theorem create_cases {path : String} {handle : Handle} (hc : d.create path = .ok (handle, d')) :
    ∃ d₁, d.openForWriting path = .ok (handle, d₁) ∧ d'.nodes = d₁.nodes ∧ d'.next = d₁.next := by
  unfold create at hc
  cases hopen : d.openForWriting path with
  | error e =>
    rw [hopen] at hc
    cases hc
  | ok r =>
    obtain ⟨h₁, d₁⟩ := r
    rw [hopen] at hc
    simp only [bind, Except.bind, pure, Except.pure] at hc
    split at hc <;> cases hc <;> exact ⟨_, rfl, rfl, rfl⟩

theorem isOrderly_create (h : d.IsOrderly) {path : String} {handle : Handle}
    (hc : d.create path = .ok (handle, d')) : d'.IsOrderly := by
  obtain ⟨d₁, hopen, hnodes, hnext⟩ := create_cases hc
  exact (isOrderly_openForWriting h hopen).of_find? (Nat.le_of_eq hnext.symm)
    fun k n hk => by rwa [hnodes] at hk

theorem next_rename {source target : String} (hr : d.rename source target = .ok d') :
    d'.next = d.next := by
  simp only [rename, bind, Except.bind, pure, Except.pure, throw, throwThe,
    MonadExceptOf.throw] at hr
  -- the disks that come out of the branches differ in their names only
  repeat' split at hr
  all_goals cases hr <;> rfl

theorem next_remove {path : String} (hr : d.remove path = .ok d') : d'.next = d.next := by
  simp only [remove, bind, Except.bind, pure, Except.pure, throw, throwThe,
    MonadExceptOf.throw] at hr
  repeat' split at hr
  all_goals cases hr <;> rfl

theorem isOrderly_rename (h : d.IsOrderly) {source target : String}
    (hr : d.rename source target = .ok d') : d'.IsOrderly := by
  have hnext := next_rename hr
  obtain ⟨-, rfl⟩ | ⟨k, k', n, r⟩ := renamed hr
  · exact h
  refine h.named (k := k') (n := n) (hnext ▸ h.numbered k n r.file) (Nat.le_of_eq hnext.symm)
    (fun j hj => ?_) fun j m hm hj => ?_
  · -- the old name is gone, and the file had no other
    rw [r.nodes] at hj
    split at hj
    · next hjk => exact hjk
    · split at hj
      · cases hj
      · next hne => exact absurd (h.apart j k n hj r.file) hne
  · rw [r.nodes] at hj
    split at hj
    · cases hj
      exact absurd rfl hm
    · split at hj
      · cases hj
      · exact hj

theorem isOrderly_remove (h : d.IsOrderly) {path : String} (hr : d.remove path = .ok d') :
    d'.IsOrderly := by
  obtain ⟨k, r⟩ := removed hr
  refine h.of_find? (Nat.le_of_eq (next_remove hr).symm) fun j n hj => ?_
  rw [r.nodes] at hj
  split at hj
  · cases hj
  · exact hj

/-! ## Files that are made -/

/-- A file that is made is the one that was there, or a new one with the next number. -/
theorem Created.origin {path : String} {handle : Handle} {k : String} {n : Nat}
    (c : Created d path handle d' k n) (hc : d.create path = .ok (handle, d')) :
    d.nodes.find? k = some (.file n) ∨ d.nodes.find? k = none ∧ n = d.next := by
  obtain ⟨d₁, hopen, -, -⟩ := create_cases hc
  obtain ⟨k₁, hkey, hcases⟩ := openForWriting_cases hopen
  obtain rfl : k₁ = k := Option.some.inj (hkey.symm.trans c.key)
  have hfile := c.file
  obtain ⟨n, hfind, rfl, -⟩ | ⟨hfind, rfl, -⟩ := hcases
  · obtain rfl := Option.some.inj hfile
    exact .inl hfind
  · exact .inr ⟨hfind, (Option.some.inj hfile).symm⟩

theorem Created.number_cases {path : String} {handle : Handle} {k : String} {n : Nat}
    (c : Created d path handle d' k n) (hc : d.create path = .ok (handle, d')) :
    d.nodes.find? k = some (.file n) ∨ n = d.next :=
  (c.origin hc).imp_right And.right

/-! ## Locks -/

/-- A handle has the lock of the file at a path. -/
def IsLockedAt (d : Disk) (path : String) : Prop :=
  ∃ k n handle, d.key? path = some k ∧ d.nodes.find? k = some (.file n) ∧ (n, handle) ∈ d.locks

theorem locks_create {path : String} {handle : Handle} (hc : d.create path = .ok (handle, d')) :
    d'.locks = d.locks := by
  unfold create at hc
  cases hopen : d.openForWriting path with
  | error e =>
    rw [hopen] at hc
    cases hc
  | ok r =>
    obtain ⟨h₁, d₁⟩ := r
    have hlocks : d₁.locks = d.locks := by
      obtain ⟨k, -, ⟨n, -, -, rfl⟩ | ⟨-, -, rfl⟩⟩ := openForWriting_cases hopen <;> rfl
    rw [hopen] at hc
    simp only [bind, Except.bind, pure, Except.pure] at hc
    split at hc <;> cases hc <;> exact hlocks

theorem locks_remove {path : String} (hr : d.remove path = .ok d') : d'.locks = d.locks := by
  simp only [remove, bind, Except.bind, pure, Except.pure, throw, throwThe,
    MonadExceptOf.throw] at hr
  repeat' split at hr
  all_goals cases hr <;> rfl

/-- A file that is locked by others right after it was made had a lock before. -/
theorem Created.exists_lock {path : String} {handle : Handle} {k : String} {n : Nat}
    (c : Created d path handle d' k n) (hc : d.create path = .ok (handle, d'))
    (hlocked : d'.isLockedByOthers handle = true) : ∃ other, (n, other) ∈ d.locks := by
  unfold isLockedByOthers at hlocked
  rw [locks_create hc, c.file] at hlocked
  obtain ⟨⟨file, other⟩, hmem, htest⟩ := List.any_eq_true.1 hlocked
  obtain ⟨heq, -⟩ := Bool.and_eq_true_iff.1 htest
  obtain rfl : n = file := by simpa using heq
  exact ⟨other, hmem⟩

/-- Nobody else has locked a file that was there and had no lock before it was opened. -/
theorem isLockedByOthers_of_read {path : String} {bs : List UInt8} (hread : d.read path = .ok bs)
    (hunlocked : ¬ d.IsLockedAt path) {handle : Handle} (hc : d.create path = .ok (handle, d')) :
    d'.isLockedByOthers handle = false := by
  obtain ⟨k, n, c⟩ := created hc
  refine Bool.eq_false_iff.2 fun hlocked => ?_
  obtain ⟨other, hmem⟩ := c.exists_lock hc hlocked
  rcases c.origin hc with hfile | ⟨hnone, -⟩
  · exact hunlocked ⟨k, n, other, c.key, hfile, hmem⟩
  · rw [(read_eq_notFound_iff c.key).2 hnone] at hread
    cases hread

/-! ## Numbers -/

/-- The numbers of files to come are free: no name stands for them, and no lock is on them. -/
structure IsNumbered (d : Disk) : Prop where
  files : ∀ k n, d.nodes.find? k = some (.file n) → n < d.next
  locks : ∀ n h, (n, h) ∈ d.locks → n < d.next

theorem isNumbered_empty : IsNumbered {} := by
  refine ⟨fun k n h => ?_, fun n h hmem => ?_⟩
  · cases h
  · cases hmem

/-- Names and locks may go. -/
theorem IsNumbered.mono (h : d.IsNumbered) (hnext : d.next ≤ d'.next)
    (hnodes : ∀ k n, d'.nodes.find? k = some (.file n) → d.nodes.find? k = some (.file n))
    (hlocks : ∀ l ∈ d'.locks, l ∈ d.locks) : d'.IsNumbered where
  files := fun k n hk => Nat.lt_of_lt_of_le (h.files k n (hnodes k n hk)) hnext
  locks := fun n l hl => Nat.lt_of_lt_of_le (h.locks n l (hlocks _ hl)) hnext

theorem IsNumbered.write (h : d.IsNumbered) (handle : Handle) (bs : List UInt8) :
    (d.write handle bs).IsNumbered := by
  unfold Disk.write
  split
  · exact h
  · exact ⟨h.files, h.locks⟩

theorem IsNumbered.closed (h : d.IsNumbered) (handle : Handle) : (d.closed handle).IsNumbered :=
  h.mono (Nat.le_refl _) (fun _ _ hk => hk) fun _ hl => (List.mem_filter.1 hl).1

/-- A file that is there may be locked. -/
theorem IsNumbered.locked (h : d.IsNumbered) {handle : Handle} {k : String} {n : Nat}
    (hfile : handle.file = some n) (hk : d.nodes.find? k = some (.file n)) :
    (d.locked handle).IsNumbered := by
  unfold Disk.locked
  rw [hfile]
  refine ⟨h.files, fun m l hl => ?_⟩
  rcases List.mem_cons.1 hl with heq | hl
  · obtain ⟨rfl, -⟩ := Prod.mk.inj heq
    exact h.files k m hk
  · exact h.locks m l hl

theorem isNumbered_remove (h : d.IsNumbered) {path : String} (hr : d.remove path = .ok d') :
    d'.IsNumbered := by
  obtain ⟨k, r⟩ := removed hr
  refine h.mono (Nat.le_of_eq (next_remove hr).symm) (fun j n hj => ?_) fun l hl => ?_
  · rw [r.nodes] at hj
    split at hj
    · cases hj
    · exact hj
  · rwa [locks_remove hr] at hl

theorem isNumbered_create (h : d.IsNumbered) {path : String} {handle : Handle}
    (hc : d.create path = .ok (handle, d')) : d'.IsNumbered := by
  have hlocks := locks_create hc
  obtain ⟨d₁, hopen, hnodes, hnext⟩ := create_cases hc
  obtain ⟨k, -, ⟨n, -, -, rfl⟩ | ⟨-, -, rfl⟩⟩ := openForWriting_cases hopen
  · have hlater : d'.next = d.next + 1 := hnext
    refine h.mono (by omega) (fun j m hj => ?_) fun l hl => ?_
    · rwa [hnodes] at hj
    · rwa [hlocks] at hl
  · have hlater : d'.next = d.next + 2 := hnext
    refine ⟨fun j m hj => ?_, fun m l hl => ?_⟩
    · rw [hnodes, find?_insert_node] at hj
      split at hj
      · cases hj
        omega
      · have := h.files j m hj
        omega
    · rw [hlocks] at hl
      have := h.locks m l hl
      omega

/-- Nobody has locked a new file. -/
theorem IsNumbered.isLockedByOthers_of_new (h : d.IsNumbered) {path : String}
    (hread : d.read path = .error .notFound) {handle : Handle}
    (hc : d.create path = .ok (handle, d')) : d'.isLockedByOthers handle = false := by
  obtain ⟨k, n, c⟩ := created hc
  refine Bool.eq_false_iff.2 fun hlocked => ?_
  obtain ⟨other, hmem⟩ := c.exists_lock hc hlocked
  rcases c.origin hc with hfile | ⟨-, rfl⟩
  · rw [read_eq_ok_iff.2 ⟨k, n, c.key, hfile, rfl⟩] at hread
    cases hread
  · exact Nat.lt_irrefl _ (h.locks _ _ hmem)

end QuantitySurvey.Disk
