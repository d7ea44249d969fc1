import QuantitySurvey.Disk.Memory

/-! # What is read after an operation

A path leads to the same name as long as the directories stay the same, and every operation on files
leaves the directories as they are. So what is read at a path after an operation is what was read
there before, nothing, or what the operation wrote.

* `SameDirectories.key?`: where paths lead.
* `read_eq_ok_iff`: what is read, in terms of names and numbers.
* `Evolves`: what may be read on a later disk.
* `opened`, `created`, `renamed`, `removed`: what an operation that succeeded did.
-/

set_option autoImplicit false

namespace QuantitySurvey.Disk

variable {d d' : Disk}

/-! ## Where paths lead -/

/-- The name that a path leads to, if a file may have it. -/
def key? (d : Disk) (path : String) : Option String :=
  match d.place path with
  | .ok (.name names false) => some (key names)
  | _ => none

/-- The same ways lead to directories. -/
def SameDirectories (d d' : Disk) : Prop :=
  ∀ names, d.node? names = some .directory ↔ d'.node? names = some .directory

theorem SameDirectories.symm (h : d.SameDirectories d') : d'.SameDirectories d :=
  fun names => (h names).symm

theorem SameDirectories.trans {d'' : Disk} (h : d.SameDirectories d')
    (h' : d'.SameDirectories d'') : d.SameDirectories d'' :=
  fun names => (h names).trans (h' names)

theorem SameDirectories.descend (h : d.SameDirectories d') {steps directory r : List String}
    (hd : d.descend steps directory = .ok r) : d'.descend steps directory = .ok r := by
  induction steps generalizing directory with
  | nil => exact hd
  | cons step steps ih =>
    rw [Disk.descend] at hd ⊢
    split at hd
    · next hstay =>
      rw [if_pos hstay]
      exact ih hd
    · next hstay =>
      rw [if_neg hstay]
      split at hd
      · next hup =>
        rw [if_pos hup]
        exact ih hd
      · next hup =>
        rw [if_neg hup]
        split at hd
        · cases hd
        · next hlong =>
          rw [if_neg hlong]
          split at hd
          · next hnode =>
            rw [(h _).1 hnode]
            exact ih hd
          · cases hd
          · cases hd

theorem SameDirectories.place (h : d.SameDirectories d') {path : String} {x : Place}
    (hd : d.place path = .ok x) : d'.place path = .ok x := by
  unfold Disk.place at hd ⊢
  split at hd
  · cases hd
  · next hempty =>
    rw [if_neg hempty]
    split at hd
    · cases hd
    · next hzero =>
      rw [if_neg hzero]
      split at hd
      · cases hd
      · next hlong =>
        rw [if_neg hlong]
        dsimp only at hd ⊢
        split at hd
        · exact hd
        · next last before hsplit =>
          cases hdescend : d.descend before.reverse [] with
          | error e =>
            rw [hdescend] at hd
            cases hd
          | ok directory =>
            rw [hdescend] at hd
            rw [h.descend hdescend]
            exact hd

theorem SameDirectories.key? (h : d.SameDirectories d') (path : String) :
    d'.key? path = d.key? path := by
  unfold Disk.key?
  cases hd : d.place path with
  | ok x => rw [h.place hd]
  | error e =>
    cases hd' : d'.place path with
    | ok x =>
      rw [h.symm.place hd'] at hd
      cases hd
    | error e' => rfl

/-- Every way that a path leads to has a last name. -/
theorem ne_nil_of_place {path : String} {names : List String} {slash : Bool}
    (h : d.place path = .ok (.name names slash)) : names ≠ [] := by
  unfold Disk.place at h
  split at h
  · cases h
  · split at h
    · cases h
    · split at h
      · cases h
      · dsimp only at h
        split at h
        · cases h
        · next last before hsplit =>
          cases hdescend : d.descend before.reverse [] with
          | error e =>
            rw [hdescend] at h
            cases h
          | ok directory =>
            rw [hdescend] at h
            simp only [bind, Except.bind, pure, Except.pure] at h
            split at h
            · cases h
            · split at h
              · cases h
              · cases h
                simp

/-! ## Names and contents -/

theorem node?_of_ne_nil {names : List String} (h : names ≠ []) :
    d.node? names = d.nodes.find? (key names) := by
  unfold node?
  rw [if_neg (by simpa using h)]

theorem place_of_key? {path k : String} (h : d.key? path = some k) :
    ∃ names, d.place path = .ok (.name names false) ∧ d.node? names = d.nodes.find? k := by
  unfold Disk.key? at h
  split at h
  · next names hplace =>
    cases h
    exact ⟨names, hplace, node?_of_ne_nil (ne_nil_of_place hplace)⟩
  · cases h

/-- What is found at a path is what has the name that the path leads to. -/
theorem find_of_key? {path k : String} (h : d.key? path = some k) :
    d.find path = match d.nodes.find? k with
      | none => .error .notFound
      | some node => .ok node := by
  obtain ⟨names, hplace, hnode⟩ := place_of_key? h
  unfold find
  simp only [hplace, bind, Except.bind, hnode]
  cases d.nodes.find? k with
  | none => rfl
  | some node => cases node <;> rfl

/-- What is read at a path is the content of the file whose name the path leads to. -/
theorem read_eq_ok_iff {path : String} {bs : List UInt8} :
    d.read path = .ok bs ↔ ∃ k n, d.key? path = some k ∧ d.nodes.find? k = some (.file n)
      ∧ d.contentOf n = bs := by
  unfold read find Disk.key?
  cases hplace : d.place path with
  | error e => simp [bind, Except.bind]
  | ok x =>
    cases x with
    | directory => simp [bind, Except.bind, pure, Except.pure, throw, throwThe, MonadExceptOf.throw]
    | name names slash =>
      have hnode := node?_of_ne_nil (d := d) (ne_nil_of_place hplace)
      simp only [bind, Except.bind, pure, Except.pure, throw, throwThe, MonadExceptOf.throw, hnode]
      cases hfind : d.nodes.find? (key names) with
      | none => cases slash <;> simp [hfind]
      | some node => cases node <;> cases slash <;> simp [hfind]

/-- What is read at a path is what its name stands for. -/
theorem read_of_key? {path k : String} (h : d.key? path = some k) :
    d.read path = match d.nodes.find? k with
      | none => .error .notFound
      | some .directory => .error .isDirectory
      | some (.file n) => .ok (d.contentOf n) := by
  unfold read
  rw [find_of_key? h]
  cases d.nodes.find? k with
  | none => rfl
  | some node => cases node <;> rfl

/-- A path is read in the same way as long as its name stands for the same file with the same
content. -/
theorem read_congr {path k : String} (h' : d'.key? path = some k) (h : d.key? path = some k)
    (hnode : d'.nodes.find? k = d.nodes.find? k)
    (hcontent : ∀ n, d.nodes.find? k = some (.file n) → d'.contentOf n = d.contentOf n) :
    d'.read path = d.read path := by
  rw [read_of_key? h', read_of_key? h, hnode]
  cases hfind : d.nodes.find? k with
  | none => rfl
  | some node =>
    cases node with
    | directory => rfl
    | file n => exact congrArg _ (hcontent n hfind)

theorem read_eq_notFound_iff {path k : String} (h : d.key? path = some k) :
    d.read path = .error .notFound ↔ d.nodes.find? k = none := by
  rw [read_of_key? h]
  cases d.nodes.find? k with
  | none => simp
  | some node => cases node <;> simp

theorem read_iff_of_key? {path other : String} (h : d.key? path = d.key? other)
    (bs : List UInt8) : d.read path = .ok bs ↔ d.read other = .ok bs := by
  rw [read_eq_ok_iff, read_eq_ok_iff, h]

/-- Two paths lead to one file, which has two names unless the paths lead to the same. -/
def LeadToOne (d : Disk) (path other : String) : Prop :=
  ∃ k k' n, d.key? path = some k ∧ d.key? other = some k' ∧ d.nodes.find? k = some (.file n)
    ∧ d.nodes.find? k' = some (.file n)

theorem LeadToOne.symm {path other : String} (h : d.LeadToOne path other) :
    d.LeadToOne other path := by
  obtain ⟨k, k', n, hk, hk', hn, hn'⟩ := h
  exact ⟨k', k, n, hk', hk, hn', hn⟩

theorem LeadToOne.read_eq {path other : String} (h : d.LeadToOne path other) :
    d.read path = d.read other := by
  obtain ⟨k, k', n, hk, hk', hn, hn'⟩ := h
  rw [read_of_key? hk, read_of_key? hk', hn, hn']

theorem find?_insert_content (contents : SortedMap Nat (List UInt8)) (n m : Nat)
    (bs : List UInt8) :
    ((contents.insert n bs).find? m).getD []
      = if m = n then bs else (contents.find? m).getD [] := by
  by_cases h : m = n
  · subst h
    rw [SortedMap.find?_insert_self, if_pos rfl]
    rfl
  · have hne : compare m n ≠ .eq := fun hc => h (Std.LawfulEqCmp.compare_eq_iff_eq.1 hc)
    rw [SortedMap.find?_insert_of_ne _ _ hne, if_neg h]

/-- Names of directories are not touched if other names come or go. -/
theorem sameDirectories_of_find? (h : ∀ k, d'.nodes.find? k = d.nodes.find? k
    ∨ (d.nodes.find? k ≠ some .directory ∧ d'.nodes.find? k ≠ some .directory)) :
    d.SameDirectories d' := by
  intro names
  unfold node?
  split
  · exact Iff.rfl
  · rcases h (key names) with hsame | ⟨hd, hd'⟩
    · rw [hsame]
    · exact ⟨fun hdir => absurd hdir hd, fun hdir => absurd hdir hd'⟩

theorem find?_insert_node (nodes : SortedMap String Node) (k j : String) (x : Node) :
    (nodes.insert k x).find? j = if j = k then some x else nodes.find? j := by
  by_cases h : j = k
  · subst h
    rw [SortedMap.find?_insert_self, if_pos rfl]
  · have hne : compare j k ≠ .eq := fun hc => h (Std.LawfulEqCmp.compare_eq_iff_eq.1 hc)
    rw [SortedMap.find?_insert_of_ne _ _ hne, if_neg h]

theorem find?_erase_node (nodes : SortedMap String Node) (k j : String) :
    (nodes.erase k).find? j = if j = k then none else nodes.find? j := by
  by_cases h : j = k
  · subst h
    rw [SortedMap.find?_erase_self, if_pos rfl]
  · have hne : compare j k ≠ .eq := fun hc => h (Std.LawfulEqCmp.compare_eq_iff_eq.1 hc)
    rw [SortedMap.find?_erase_of_ne _ hne, if_neg h]

/-! ## Disks that evolve -/

/-- What can be read on a later disk was there before, or is one of the texts that were written. -/
structure Evolves (isWritten : List UInt8 → Prop) (d d' : Disk) : Prop where
  directories : d.SameDirectories d'
  read : ∀ path bs, d'.read path = .ok bs → d.read path = .ok bs ∨ isWritten bs

theorem evolves_refl (isWritten : List UInt8 → Prop) (d : Disk) : Evolves isWritten d d :=
  ⟨fun _ => Iff.rfl, fun _ _ h => .inl h⟩

theorem Evolves.trans {isWritten : List UInt8 → Prop} {d'' : Disk} (h : Evolves isWritten d d')
    (h' : Evolves isWritten d' d'') : Evolves isWritten d d'' where
  directories := h.directories.trans h'.directories
  read := by
    intro path bs hread
    rcases h'.read path bs hread with hread | hwritten
    · exact h.read path bs hread
    · exact .inr hwritten

theorem Evolves.mono {isWritten isWritten' : List UInt8 → Prop} (h : Evolves isWritten d d')
    (hmono : ∀ bs, isWritten bs → isWritten' bs) : Evolves isWritten' d d' :=
  ⟨h.directories, fun path bs hread => (h.read path bs hread).imp_right (hmono bs)⟩

/-- Disks with the same names and contents are read in the same way. -/
theorem read_iff_of_agrees (hnodes : d'.nodes = d.nodes)
    (hcontents : ∀ m, d'.contentOf m = d.contentOf m) (path : String) (bs : List UInt8) :
    d'.read path = .ok bs ↔ d.read path = .ok bs := by
  have hsame : d.SameDirectories d' := sameDirectories_of_find? fun k => .inl (by rw [hnodes])
  simp only [read_eq_ok_iff, hsame.key?, hnodes, hcontents]

theorem read_closed (h : Handle) (path : String) (bs : List UInt8) :
    (d.closed h).read path = .ok bs ↔ d.read path = .ok bs := by
  have hnodes : (d.closed h).nodes = d.nodes := rfl
  exact read_iff_of_agrees hnodes (fun _ => rfl) path bs

theorem evolves_closed (isWritten : List UInt8 → Prop) (h : Handle) :
    Evolves isWritten d (d.closed h) where
  directories := fun _ => Iff.rfl
  read := fun path bs hread => .inl ((read_closed h path bs).1 hread)

theorem nodes_locked (h : Handle) : (d.locked h).nodes = d.nodes := by
  unfold locked
  split <;> rfl

theorem contentOf_locked (h : Handle) (m : Nat) : (d.locked h).contentOf m = d.contentOf m := by
  unfold locked
  split <;> rfl

/-! ## Opening -/

/-- The content of the file with a name; none if there is no file. -/
def contentAt (d : Disk) (k : String) : List UInt8 :=
  match d.nodes.find? k with
  | some (.file n) => d.contentOf n
  | _ => []

theorem contentAt_of_none {k : String} (h : d.nodes.find? k = none) : d.contentAt k = [] := by
  unfold contentAt
  rw [h]

theorem contentAt_of_file {k : String} {n : Nat} (h : d.nodes.find? k = some (.file n)) :
    d.contentAt k = d.contentOf n := by
  unfold contentAt
  rw [h]

/-- What the opening of a file for writing does: the name leads to a file, which is new only if
there was none. -/
structure Opened (d : Disk) (path : String) (h : Handle) (d' : Disk) (k : String) (n : Nat) :
    Prop where
  key : d.key? path = some k
  file : h.file = some n
  nodes : ∀ j, d'.nodes.find? j = if j = k then some (.file n) else d.nodes.find? j
  before : d.nodes.find? k ≠ some .directory
  content : d'.contentOf n = d.contentAt k
  others : ∀ m, m ≠ n → d'.contentOf m = d.contentOf m

/-- A file is opened under a name that leads to it, or made if the name leads to nothing. -/
theorem openForWriting_cases {path : String} {h : Handle}
    (ho : d.openForWriting path = .ok (h, d')) : ∃ k, d.key? path = some k ∧
      ((∃ n, d.nodes.find? k = some (.file n) ∧ h = ⟨d.next, some n⟩
          ∧ d' = { d with next := d.next + 1 })
        ∨ (d.nodes.find? k = none ∧ h = ⟨d.next + 1, some d.next⟩
          ∧ d' = { d with
            nodes := d.nodes.insert k (.file d.next)
            contents := d.contents.insert d.next []
            next := d.next + 2 })) := by
  unfold openForWriting at ho
  cases hplace : d.place path with
  | error e =>
    rw [hplace] at ho
    cases ho
  | ok x =>
    rw [hplace] at ho
    cases x with
    | directory => cases ho
    | name names slash =>
      cases slash with
      | true => cases ho
      | false =>
        have hkey : d.key? path = some (Disk.key names) := by
          unfold Disk.key?
          rw [hplace]
        refine ⟨_, hkey, ?_⟩
        simp only [bind, Except.bind, pure, Except.pure, throw, throwThe, MonadExceptOf.throw,
          node?_of_ne_nil (ne_nil_of_place hplace)] at ho
        cases hfind : d.nodes.find? (Disk.key names) with
        | none =>
          rw [hfind] at ho
          cases ho
          exact .inr ⟨rfl, rfl, rfl⟩
        | some node =>
          rw [hfind] at ho
          cases node with
          | directory => cases ho
          | file n =>
            cases ho
            exact .inl ⟨n, rfl, rfl, rfl⟩

theorem opened {path : String} {h : Handle} (ho : d.openForWriting path = .ok (h, d')) :
    ∃ k n, Opened d path h d' k n := by
  obtain ⟨k, hkey, ⟨n, hfind, rfl, rfl⟩ | ⟨hfind, rfl, rfl⟩⟩ := openForWriting_cases ho
  · refine ⟨k, n, hkey, rfl, fun j => ?_, by simp [hfind], ?_, fun m _ => rfl⟩
    · split
      · next hj => rw [hj, hfind]
      · rfl
    · rw [contentAt_of_file hfind]
      rfl
  · refine ⟨k, d.next, hkey, rfl, fun j => find?_insert_node _ _ _ _, by simp [hfind], ?_,
      fun m hm => ?_⟩
    · unfold contentOf
      rw [find?_insert_content, if_pos rfl, contentAt_of_none hfind]
    · unfold contentOf
      rw [find?_insert_content, if_neg hm]

/-- A file can be opened wherever a path leads to a name that is not that of a directory. -/
theorem exists_openForWriting {path k : String} (hkey : d.key? path = some k)
    (hbefore : d.nodes.find? k ≠ some .directory) :
    ∃ h d', d.openForWriting path = .ok (h, d') := by
  obtain ⟨names, hplace, hnode⟩ := place_of_key? hkey
  unfold openForWriting
  simp only [hplace, bind, Except.bind, pure, Except.pure, hnode]
  cases hfind : d.nodes.find? k with
  | none => exact ⟨_, _, rfl⟩
  | some node =>
    cases node with
    | directory => exact absurd hfind hbefore
    | file n => exact ⟨_, _, rfl⟩

/-- A name that is not that of a directory may become that of a file. -/
theorem sameDirectories_of_file {k : String} {n : Nat}
    (hnodes : ∀ j, d'.nodes.find? j = if j = k then some (.file n) else d.nodes.find? j)
    (hbefore : d.nodes.find? k ≠ some .directory) : d.SameDirectories d' := by
  refine sameDirectories_of_find? fun j => ?_
  rw [hnodes]
  split
  · next hj => exact .inr ⟨hj ▸ hbefore, by simp⟩
  · exact .inl rfl

theorem Opened.sameDirectories {path : String} {h : Handle} {k : String} {n : Nat}
    (o : Opened d path h d' k n) : d.SameDirectories d' :=
  sameDirectories_of_file o.nodes o.before

/-! ## Creating -/

/-- What the creation of a file does: the name leads to a file without content, which may be one
that was there. -/
structure Created (d : Disk) (path : String) (h : Handle) (d' : Disk) (k : String) (n : Nat) :
    Prop where
  key : d.key? path = some k
  file : h.file = some n
  nodes : ∀ j, d'.nodes.find? j = if j = k then some (.file n) else d.nodes.find? j
  before : d.nodes.find? k ≠ some .directory
  contents : ∀ m, d'.contentOf m = if m = n then [] else d.contentOf m

theorem created {path : String} {h : Handle} (hc : d.create path = .ok (h, d')) :
    ∃ k n, Created d path h d' k n := by
  unfold create at hc
  cases hopen : d.openForWriting path with
  | error e =>
    rw [hopen] at hc
    cases hc
  | ok r =>
    obtain ⟨h₁, d₁⟩ := r
    obtain ⟨k, n, o⟩ := opened hopen
    rw [hopen] at hc
    simp only [bind, Except.bind, pure, Except.pure, o.file] at hc
    cases hc
    refine ⟨k, n, o.key, o.file, o.nodes, o.before, fun m => ?_⟩
    unfold contentOf
    rw [find?_insert_content]
    split
    · rfl
    · next hm => exact o.others m hm

/-- A file can be made wherever a path leads to a name that is not that of a directory. -/
theorem exists_create {path k : String} (hkey : d.key? path = some k)
    (hbefore : d.nodes.find? k ≠ some .directory) : ∃ h d', d.create path = .ok (h, d') := by
  obtain ⟨h, d', hopen⟩ := exists_openForWriting hkey hbefore
  obtain ⟨k', n, o⟩ := opened hopen
  unfold create
  simp only [hopen, bind, Except.bind, pure, Except.pure, o.file]
  exact ⟨_, _, rfl⟩

theorem Created.sameDirectories {path : String} {h : Handle} {k : String} {n : Nat}
    (c : Created d path h d' k n) : d.SameDirectories d' :=
  sameDirectories_of_file c.nodes c.before

/-- A file without content may be read wherever another one was. -/
theorem Created.evolves {path : String} {h : Handle} {k : String} {n : Nat}
    (c : Created d path h d' k n) : Evolves (· = []) d d' := by
  refine ⟨c.sameDirectories, fun other bs hread => ?_⟩
  obtain ⟨j, m, hkey, hnode, hcontent⟩ := read_eq_ok_iff.1 hread
  rw [c.sameDirectories.key?] at hkey
  rw [c.nodes] at hnode
  rw [c.contents] at hcontent
  split at hcontent
  · exact .inr hcontent.symm
  · next hm =>
    split at hnode
    · cases hnode
      exact absurd rfl hm
    · exact .inl (read_eq_ok_iff.2 ⟨j, m, hkey, hnode, hcontent⟩)

/-! ## Writing -/

section Writing

variable {h : Handle} {n : Nat} (hfile : h.file = some n) (bs : List UInt8)
include hfile

theorem contentOf_write (m : Nat) :
    (d.write h bs).contentOf m = if m = n then d.contentOf n ++ bs else d.contentOf m := by
  unfold write contentOf
  rw [hfile]
  exact find?_insert_content _ n m _

omit hfile in
theorem nodes_write : (d.write h bs).nodes = d.nodes := by
  unfold write
  split <;> rfl

omit hfile in
theorem sameDirectories_write : d.SameDirectories (d.write h bs) :=
  sameDirectories_of_find? fun k => .inl (by rw [nodes_write])

/-- What is read may have the written bytes at its end. -/
theorem evolves_write : Evolves (· = d.contentOf n ++ bs) d (d.write h bs) := by
  refine ⟨sameDirectories_write bs, fun path cs hread => ?_⟩
  obtain ⟨k, m, hkey, hnode, hcontent⟩ := read_eq_ok_iff.1 hread
  rw [(sameDirectories_write bs).key?] at hkey
  rw [nodes_write] at hnode
  rw [contentOf_write hfile] at hcontent
  split at hcontent
  · exact .inr hcontent.symm
  · exact .inl (read_eq_ok_iff.2 ⟨k, m, hkey, hnode, hcontent⟩)

end Writing

section Created

variable {path : String} {h : Handle} {k : String} {n : Nat} (c : Created d path h d' k n)
include c

/-- A lock does not change what was created. -/
theorem Created.locked (h' : Handle) : Created d path h (d'.locked h') k n :=
  { c with
    nodes := fun j => by rw [nodes_locked, c.nodes]
    contents := fun m => by rw [contentOf_locked, c.contents] }

/-- What is written first to a new file is its whole content. -/
theorem Created.evolves_write (bs : List UInt8) :
    Evolves (fun cs => cs = [] ∨ cs = bs) d (d'.write h bs) := by
  have hempty : d'.contentOf n = [] := by rw [c.contents, if_pos rfl]
  refine (c.evolves.mono fun cs hcs => .inl hcs).trans
    ((Disk.evolves_write c.file bs).mono fun cs hcs => .inr ?_)
  rw [hcs, hempty, List.nil_append]

theorem Created.read_write (bs : List UInt8) : (d'.write h bs).read path = .ok bs := by
  refine read_eq_ok_iff.2 ⟨k, n, ?_, ?_, ?_⟩
  · rw [(sameDirectories_write bs).key?, c.sameDirectories.key?, c.key]
  · rw [nodes_write, c.nodes, if_pos rfl]
  · rw [contentOf_write c.file, if_pos rfl, c.contents, if_pos rfl, List.nil_append]

end Created

/-! ## Renaming -/

/-- What a new name for a file does, which it did not have: the old name is free, and what had the
new one is gone. -/
structure Renamed (d : Disk) (source target : String) (d' : Disk) (k k' : String) (n : Nat) :
    Prop where
  source : d.key? source = some k
  target : d.key? target = some k'
  file : d.nodes.find? k = some (.file n)
  before : d.nodes.find? k' ≠ some .directory
  nodes : ∀ j, d'.nodes.find? j
    = if j = k' then some (.file n) else if j = k then none else d.nodes.find? j
  contents : ∀ m, d'.contentOf m = d.contentOf m

theorem renamed {source target : String} (hr : d.rename source target = .ok d') :
    (d.LeadToOne source target ∧ d' = d) ∨ ∃ k k' n, Renamed d source target d' k k' n := by
  unfold rename at hr
  cases hold : d.place source with
  | error e =>
    rw [hold] at hr
    cases hr
  | ok x =>
    cases hnew : d.place target with
    | error e =>
      rw [hold, hnew] at hr
      cases x <;> cases hr
    | ok y =>
      rw [hold, hnew] at hr
      cases x with
      | directory => cases hr
      | name old slash =>
        cases y with
        | directory => cases hr
        | name new newSlash =>
          simp only [bind, Except.bind, pure, Except.pure, throw, throwThe, MonadExceptOf.throw,
            node?_of_ne_nil (ne_nil_of_place hold), node?_of_ne_nil (ne_nil_of_place hnew)] at hr
          cases hfind : d.nodes.find? (Disk.key old) with
          | none =>
            rw [hfind] at hr
            cases hr
          | some node =>
            rw [hfind] at hr
            cases node with
            | directory => cases hr
            | file n =>
              simp only at hr
              split at hr
              · cases hr
              next hslash =>
              have hslashes : slash = false ∧ newSlash = false := by
                simpa using hslash
              have hsource : d.key? source = some (Disk.key old) := by
                unfold Disk.key?
                rw [hold, hslashes.1]
              have htarget : d.key? target = some (Disk.key new) := by
                unfold Disk.key?
                rw [hnew, hslashes.2]
              split at hr
              · cases hr
              next hthere =>
              split at hr
              · next hsame =>
                cases hr
                exact .inl ⟨⟨_, _, n, hsource, htarget, hfind, hsame⟩, rfl⟩
              · cases hr
                refine .inr ⟨_, _, n, hsource, htarget, hfind, hthere, fun j => ?_, fun m => rfl⟩
                rw [find?_insert_node, find?_erase_node]

/-- A file can take any name that is not that of a directory. -/
theorem exists_rename {source target k k' : String} {n : Nat} (hsource : d.key? source = some k)
    (htarget : d.key? target = some k') (hfile : d.nodes.find? k = some (.file n))
    (hbefore : d.nodes.find? k' ≠ some .directory) : ∃ d', d.rename source target = .ok d' := by
  obtain ⟨old, hold, hfind⟩ := place_of_key? hsource
  obtain ⟨new, hnew, hthere⟩ := place_of_key? htarget
  unfold rename
  simp only [hold, hnew, bind, Except.bind, pure, Except.pure, hfind, hfile, hthere]
  rw [if_neg (by decide), if_neg hbefore]
  split <;> exact ⟨_, rfl⟩

section Renaming

variable {source target : String} {k k' : String} {n : Nat} (r : Renamed d source target d' k k' n)
include r

theorem Renamed.sameDirectories : d.SameDirectories d' := by
  refine sameDirectories_of_find? fun j => ?_
  rw [r.nodes]
  split
  · next hj => exact .inr ⟨hj ▸ r.before, by simp⟩
  · split
    · next hj => exact .inr ⟨by rw [hj, r.file]; simp, by simp⟩
    · exact .inl rfl

theorem Renamed.evolves : Evolves (fun bs => d.read source = .ok bs) d d' := by
  refine ⟨r.sameDirectories, fun path bs hread => ?_⟩
  obtain ⟨j, m, hkey, hnode, hcontent⟩ := read_eq_ok_iff.1 hread
  rw [r.sameDirectories.key?] at hkey
  rw [r.nodes] at hnode
  rw [r.contents] at hcontent
  split at hnode
  · cases hnode
    exact .inr (read_eq_ok_iff.2 ⟨k, n, r.source, r.file, hcontent⟩)
  · split at hnode
    · cases hnode
    · exact .inl (read_eq_ok_iff.2 ⟨j, m, hkey, hnode, hcontent⟩)

theorem Renamed.read_target : d'.read target = d.read source := by
  have hsource : d.read source = .ok (d.contentOf n) :=
    read_eq_ok_iff.2 ⟨k, n, r.source, r.file, rfl⟩
  rw [hsource]
  refine read_eq_ok_iff.2 ⟨k', n, ?_, ?_, r.contents n⟩
  · rw [r.sameDirectories.key?, r.target]
  · rw [r.nodes, if_pos rfl]

end Renaming

/-! ## Removing -/

/-- What the removal of a file does: its name is free. -/
structure Removed (d : Disk) (path : String) (d' : Disk) (k : String) : Prop where
  key : d.key? path = some k
  file : ∃ n, d.nodes.find? k = some (.file n)
  nodes : ∀ j, d'.nodes.find? j = if j = k then none else d.nodes.find? j
  contents : ∀ m, d'.contentOf m = d.contentOf m

theorem removed {path : String} (hr : d.remove path = .ok d') : ∃ k, Removed d path d' k := by
  unfold remove at hr
  cases hplace : d.place path with
  | error e =>
    rw [hplace] at hr
    cases hr
  | ok x =>
    rw [hplace] at hr
    cases x with
    | directory => cases hr
    | name names slash =>
      simp only [bind, Except.bind, pure, Except.pure, throw, throwThe, MonadExceptOf.throw,
        node?_of_ne_nil (ne_nil_of_place hplace)] at hr
      cases hfind : d.nodes.find? (Disk.key names) with
      | none =>
        rw [hfind] at hr
        cases hr
      | some node =>
        rw [hfind] at hr
        cases node with
        | directory => cases hr
        | file n =>
          cases slash with
          | true => cases hr
          | false =>
            cases hr
            refine ⟨_, ?_, ⟨n, hfind⟩, fun j => find?_erase_node _ _ j, fun m => rfl⟩
            unfold Disk.key?
            rw [hplace]

/-- Every file can be removed. -/
theorem exists_remove {path k : String} {n : Nat} (hkey : d.key? path = some k)
    (hfile : d.nodes.find? k = some (.file n)) : ∃ d', d.remove path = .ok d' := by
  obtain ⟨names, hplace, hnode⟩ := place_of_key? hkey
  unfold remove
  simp only [hplace, bind, Except.bind, pure, Except.pure, hnode, hfile]
  rw [if_neg (by decide)]
  exact ⟨_, rfl⟩

section Removing

variable {path : String} {k : String} (r : Removed d path d' k)
include r

theorem Removed.sameDirectories : d.SameDirectories d' := by
  refine sameDirectories_of_find? fun j => ?_
  rw [r.nodes]
  split
  · next hj =>
    obtain ⟨n, hfile⟩ := r.file
    exact .inr ⟨by rw [hj, hfile]; simp, by simp⟩
  · exact .inl rfl

theorem Removed.evolves (isWritten : List UInt8 → Prop) : Evolves isWritten d d' := by
  refine ⟨r.sameDirectories, fun other bs hread => .inl ?_⟩
  obtain ⟨j, m, hkey, hnode, hcontent⟩ := read_eq_ok_iff.1 hread
  rw [r.sameDirectories.key?] at hkey
  rw [r.nodes] at hnode
  rw [r.contents] at hcontent
  split at hnode
  · cases hnode
  · exact read_eq_ok_iff.2 ⟨j, m, hkey, hnode, hcontent⟩

/-- Files with other names stay. -/
theorem Removed.read_of_ne {other : String} (hne : d.key? other ≠ some k) {bs : List UInt8}
    (hread : d.read other = .ok bs) : d'.read other = .ok bs := by
  obtain ⟨j, m, hkey, hnode, hcontent⟩ := read_eq_ok_iff.1 hread
  have hj : j ≠ k := fun h => hne (h ▸ hkey)
  refine read_eq_ok_iff.2 ⟨j, m, ?_, ?_, ?_⟩
  · rw [r.sameDirectories.key?, hkey]
  · rw [r.nodes, if_neg hj, hnode]
  · rw [r.contents, hcontent]

end Removing

end QuantitySurvey.Disk
