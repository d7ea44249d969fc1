import QuantitySurvey.Failure
import QuantitySurvey.Proofs.Disk.Orderly

/-! # Drafts

A file that is made and written to is read under every name that it has. Another path that leads to
the same file loses what it led to; every other path is read as before.

* `LeadToOne`: two paths, one file.
* `Drafted`: a disk on which a file was made and has so much in it.
* `Drafted.reads_or`: what becomes of another path.
* `Created.not_leadToOne`: a file that is made is no other file, if it was none before.
-/

set_option autoImplicit false

namespace QuantitySurvey.Disk

variable {d d' : Disk} {path other : String}

/-! ## Files at a path -/

/-- The content of the file at a path; none if there is no file. -/
def fileAt? (d : Disk) (path : String) : Option (List UInt8) :=
  (d.read path).toOption

theorem fileAt?_eq_some {bs : List UInt8} : d.fileAt? path = some bs ↔ d.read path = .ok bs :=
  toOption_eq_some

theorem fileAt?_eq_of_read (h : ∀ bs, d'.read path = .ok bs ↔ d.read path = .ok bs) :
    d'.fileAt? path = d.fileAt? path :=
  Option.ext fun bs => by rw [fileAt?_eq_some, fileAt?_eq_some, h]

/-- On an orderly disk different names are those of different files. -/
theorem IsOrderly.not_leadToOne (h : d.IsOrderly)
    (hne : ∀ k, d.key? path = some k → d.key? other ≠ some k) : ¬ d.LeadToOne path other := by
  rintro ⟨k, k', n, hk, hk', hn, hn'⟩
  obtain rfl := h.apart k k' n hn hn'
  exact hne k hk hk'

/-! ## Drafts -/

/-- A file that was made at a path and has so much in it, and nothing else, is new. -/
structure Drafted (d : Disk) (path : String) (k : String) (n : Nat) (bs : List UInt8) (d' : Disk) :
    Prop where
  key : d.key? path = some k
  nodes : ∀ j, d'.nodes.find? j = if j = k then some (.file n) else d.nodes.find? j
  before : d.nodes.find? k ≠ some .directory
  contents : ∀ m, d'.contentOf m = if m = n then bs else d.contentOf m

variable {k : String} {n : Nat} {bs : List UInt8} {h : Handle}

theorem Created.drafted (c : Created d path h d' k n) : d.Drafted path k n [] d' :=
  ⟨c.key, c.nodes, c.before, c.contents⟩

theorem Drafted.write (hd : d.Drafted path k n bs d') (hfile : h.file = some n)
    (cs : List UInt8) : d.Drafted path k n (bs ++ cs) (d'.write h cs) where
  key := hd.key
  nodes := fun j => by rw [nodes_write, hd.nodes]
  before := hd.before
  contents := by
    intro m
    rw [contentOf_write hfile, hd.contents, hd.contents, if_pos rfl]
    split <;> rfl

theorem Drafted.closed (hd : d.Drafted path k n bs d') (h : Handle) :
    d.Drafted path k n bs (d'.closed h) :=
  ⟨hd.key, hd.nodes, hd.before, hd.contents⟩

theorem Drafted.sameDirectories (hd : d.Drafted path k n bs d') : d.SameDirectories d' :=
  sameDirectories_of_file hd.nodes hd.before

theorem Drafted.read (hd : d.Drafted path k n bs d') : d'.read path = .ok bs := by
  refine read_eq_ok_iff.2 ⟨k, n, ?_, ?_, ?_⟩
  · rw [hd.sameDirectories.key?, hd.key]
  · rw [hd.nodes, if_pos rfl]
  · rw [hd.contents, if_pos rfl]

/-- A draft leaves what is read at another path alone, unless that is the draft by another name. -/
theorem Drafted.reads_or (hd : d.Drafted other k n bs d') (hne : d.key? path ≠ some k) :
    (∀ cs, d'.read path = .ok cs ↔ d.read path = .ok cs) ∨ d'.LeadToOne path other := by
  have hkey := hd.sameDirectories.key?
  by_cases hshared : ∃ j, d.key? path = some j ∧ d.nodes.find? j = some (.file n)
  · obtain ⟨j, hj, hn⟩ := hshared
    have hjk : j ≠ k := fun h => hne (h ▸ hj)
    refine .inr ⟨j, k, n, (hkey path).trans hj, (hkey other).trans hd.key, ?_, ?_⟩
    · rw [hd.nodes, if_neg hjk, hn]
    · rw [hd.nodes, if_pos rfl]
  · refine .inl fun cs => ?_
    rw [read_eq_ok_iff, read_eq_ok_iff]
    refine exists_congr fun j => exists_congr fun m => ?_
    rw [hkey]
    refine and_congr_right fun hj => ?_
    have hjk : j ≠ k := fun h => hne (h ▸ hj)
    rw [hd.nodes, if_neg hjk]
    refine and_congr_right fun hm => ?_
    have hmn : m ≠ n := fun h => hshared ⟨j, hj, h ▸ hm⟩
    rw [hd.contents, if_neg hmn]

/-- A file that is made gets a name for itself, if the numbers of files to come are free and its
name was not a second name of the file at the other path. -/
theorem Created.not_leadToOne (hnumbered : d.IsNumbered) (c : Created d other h d' k n)
    (hc : d.create other = .ok (h, d')) (hne : d.key? path ≠ some k)
    (happart : ¬ d.LeadToOne path other) {d'' : Disk} (hd : d.Drafted other k n bs d'') :
    ¬ d''.LeadToOne path other := by
  have hkey := hd.sameDirectories.key?
  rintro ⟨j, k', m, hj, hk', hm, hm'⟩
  rw [hkey] at hj hk'
  obtain rfl : k' = k := Option.some.inj (hk'.symm.trans hd.key)
  have hjk : j ≠ k' := fun h => hne (h ▸ hj)
  rw [hd.nodes, if_pos rfl] at hm'
  obtain rfl : n = m := by simpa using hm'
  rw [hd.nodes, if_neg hjk] at hm
  rcases c.number_cases hc with hk | rfl
  · exact happart ⟨j, k', n, hj, hk', hm, hk⟩
  · exact Nat.lt_irrefl _ (hnumbered.files j _ hm)

/-! ## Names that come and go -/

theorem find_eq_notFound (hkey : d.key? path = some k) (hfree : d.nodes.find? k = none) :
    d.find path = .error .notFound := by
  rw [find_of_key? hkey, hfree]

theorem Removed.find (r : Removed d path d' k) : d'.find path = .error .notFound := by
  refine find_eq_notFound (k := k) ?_ ?_
  · rw [r.sameDirectories.key?, r.key]
  · rw [r.nodes, if_pos rfl]

theorem Removed.fileAt?_eq (r : Removed d path d' k) (hne : d.key? other ≠ some k) :
    d'.fileAt? other = d.fileAt? other := by
  refine fileAt?_eq_of_read fun cs => ⟨fun hread => ?_, r.read_of_ne hne⟩
  exact ((r.evolves fun _ => False).read other cs hread).resolve_right id

theorem Renamed.find_source {k' : String} (r : Renamed d path other d' k k' n) (hne : k ≠ k') :
    d'.find path = .error .notFound := by
  refine find_eq_notFound (k := k) ?_ ?_
  · rw [r.sameDirectories.key?, r.source]
  · rw [r.nodes, if_neg hne, if_pos rfl]

end QuantitySurvey.Disk
