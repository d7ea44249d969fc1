import QuantitySurvey.Project.File
import QuantitySurvey.Proofs.Disk.Reading
import QuantitySurvey.Proofs.Document.Projects

/-! # Project files on a disk in memory

What saving and loading do to the files that can be read. After a project was saved its file holds
its text; every other reading is an old one or nothing.
-/

set_option autoImplicit false

namespace QuantitySurvey

open Disk (Handle)

/-- A disk in memory, and a state for everything outside of it. -/
abbrev Workplace (σ : Type) := StateT Disk (StateM σ)

namespace Workplace

variable {σ α β : Type} {d : Disk}

/-- What a computation comes to, and the disk after it, have a property. -/
def Does (d : Disk) (x : Workplace σ α) (Q : α → Disk → Prop) : Prop :=
  ∀ s, Q ((x.run d).run s).1.1 ((x.run d).run s).1.2

theorem does_pure {a : α} {Q : α → Disk → Prop} (h : Q a d) :
    Does d (pure a : Workplace σ α) Q :=
  fun _ => h

theorem Does.bind {x : Workplace σ α} {f : α → Workplace σ β} {P : α → Disk → Prop}
    {Q : β → Disk → Prop} (hx : Does d x P) (hf : ∀ a d', P a d' → Does d' (f a) Q) :
    Does d (x >>= f) Q :=
  fun s => hf _ _ (hx s) _

theorem Does.mono {x : Workplace σ α} {P Q : α → Disk → Prop} (hx : Does d x P)
    (h : ∀ a d', P a d' → Q a d') : Does d x Q :=
  fun s => h _ _ (hx s)

/-- What a computation comes to, and the disk after it. -/
def comesTo (x : Workplace σ α) (d : Disk) (s : σ) : α × Disk := ((x.run d).run s).1

theorem Does.comesTo {x : Workplace σ α} {Q : α → Disk → Prop} (hx : Does d x Q) (s : σ) :
    Q (x.comesTo d s).1 (x.comesTo d s).2 :=
  hx s

/-- A computation may come to this, and leave this disk. -/
def Comes (d : Disk) (x : Workplace σ α) (a : α) (d' : Disk) : Prop :=
  ∃ s, x.comesTo d s = (a, d')

theorem does_comes (x : Workplace σ α) : Does d x (Comes d x) := fun s => ⟨s, rfl⟩

theorem Does.of_comes {x : Workplace σ α} {Q : α → Disk → Prop} (hx : Does d x Q) {a : α}
    {d' : Disk} (h : Comes d x a d') : Q a d' := by
  obtain ⟨s, hrun⟩ := h
  have hs := hx.comesTo s
  rwa [hrun] at hs

theorem does_true (x : Workplace σ α) : Does d x fun _ _ => True := fun _ => trivial

/-- What is decided outside leaves the disk alone. -/
theorem does_lift (x : StateM σ α) :
    Does d (StateT.lift x : Workplace σ α) fun _ d' => d' = d :=
  fun _ => rfl

/-! ## Operations -/

abbrev files : Files (Workplace σ) Handle := Files.inMemory

theorem does_attempt (operation : Disk → Except Disk.Fault (α × Disk)) :
    Does d (Files.attempt operation : Workplace σ (Except Disk.Fault α)) fun r d' =>
      (∃ e, r = .error e ∧ operation d = .error e ∧ d' = d)
        ∨ ∃ a, r = .ok a ∧ operation d = .ok (a, d') := by
  intro s
  unfold Files.attempt
  rw [StateT.run_modifyGet]
  cases h : operation d with
  | error e => exact .inl ⟨e, rfl, rfl, rfl⟩
  | ok r => exact .inr ⟨r.1, rfl, rfl⟩

theorem does_create (path : String) :
    Does d ((files : Files (Workplace σ) Handle).create path) fun r d' =>
      (∃ e, r = .error e ∧ d.create path = .error e ∧ d' = d)
        ∨ ∃ h k n, r = .ok h ∧ Disk.Created d path h d' k n := by
  refine (does_attempt _).mono fun r d' hrun => hrun.imp_right ?_
  rintro ⟨h, hr, hcreate⟩
  obtain ⟨k, n, hcreated⟩ := Disk.created hcreate
  exact ⟨h, k, n, hr, hcreated⟩

theorem does_writeText (h : Handle) (text : String) :
    Does d ((files : Files (Workplace σ) Handle).writeText h text) fun r d' =>
      r = .ok () ∧ d' = d.write h (Text.bytes text) :=
  fun _ => ⟨rfl, rfl⟩

theorem does_tryLock (h : Handle) :
    Does d ((files : Files (Workplace σ) Handle).tryLock h) fun r d' =>
      (r = false ∧ d.isLockedByOthers h = true ∧ d' = d)
        ∨ r = true ∧ d.isLockedByOthers h = false ∧ d' = d.locked h := by
  intro s
  have hrun : ((files.tryLock h : Workplace σ Bool).run d).run s
      = (if d.isLockedByOthers h then (false, d) else (true, d.locked h), s) := rfl
  rw [hrun]
  cases d.isLockedByOthers h with
  | true => exact .inl ⟨rfl, rfl, rfl⟩
  | false => exact .inr ⟨rfl, rfl, rfl⟩

theorem does_close (h : Handle) :
    Does d ((files : Files (Workplace σ) Handle).close h) fun _ d' => d' = d.closed h :=
  fun _ => rfl

theorem map_unit_ok {x : Except Disk.Fault Disk} {u : Unit}
    (h : x.map (fun d => ((), d)) = .ok (u, d)) : x = .ok d := by
  cases x with
  | error e => cases h
  | ok d₁ =>
    cases h
    rfl

theorem map_unit_error {x : Except Disk.Fault Disk} {e : Disk.Fault}
    (h : x.map (fun d => ((), d)) = .error e) : x = .error e := by
  cases x with
  | error e₁ =>
    cases h
    rfl
  | ok d₁ => cases h

theorem does_rename (source target : String) :
    Does d ((files : Files (Workplace σ) Handle).rename source target) fun r d' =>
      (∃ e, r = .error e ∧ d.rename source target = .error e ∧ d' = d)
        ∨ r = .ok () ∧ ((d.LeadToOne source target ∧ d' = d)
          ∨ ∃ k k' n, Disk.Renamed d source target d' k k' n) := by
  refine (does_attempt _).mono fun r d' hrun => hrun.imp ?_ ?_
  · rintro ⟨e, hr, hrename, hd⟩
    exact ⟨e, hr, map_unit_error hrename, hd⟩
  · rintro ⟨u, hr, hrename⟩
    exact ⟨hr, Disk.renamed (map_unit_ok hrename)⟩

theorem does_remove_cases (path : String) :
    Does d ((files : Files (Workplace σ) Handle).remove path) fun r d' =>
      (∃ e, r = .error e ∧ d' = d) ∨ r = .ok () ∧ ∃ k, Disk.Removed d path d' k := by
  refine (does_attempt _).mono fun r d' hrun => hrun.imp ?_ ?_
  · rintro ⟨e, hr, -, hd⟩
    exact ⟨e, hr, hd⟩
  · rintro ⟨u, hr, hremove⟩
    exact ⟨hr, Disk.removed (map_unit_ok hremove)⟩

theorem does_remove (path : String) :
    Does d ((files : Files (Workplace σ) Handle).remove path) fun _ d' =>
      d' = d ∨ ∃ k, Disk.Removed d path d' k :=
  (does_remove_cases path).mono fun _ _ hrun => hrun.imp (fun ⟨_, _, hd⟩ => hd) And.right

def textAt (d : Disk) (path : String) : Except Disk.Fault String :=
  match d.read path with
  | .error e => .error e
  | .ok bs =>
    match Text.ofBytes? bs with
    | some s => .ok s
    | none => .error .notText

theorem does_readText (path : String) :
    Does d ((files : Files (Workplace σ) Handle).readText path) fun r d' =>
      r = textAt d path ∧ d' = d := by
  have hread : Does d ((files : Files (Workplace σ) Handle).read path) fun r d' =>
      r = d.read path ∧ d' = d := fun _ => ⟨rfl, rfl⟩
  refine hread.bind fun r d' hr => ?_
  obtain ⟨rfl, rfl⟩ := hr
  unfold textAt
  cases d'.read path with
  | error e => exact does_pure ⟨rfl, rfl⟩
  | ok bs => cases Text.ofBytes? bs <;> exact does_pure ⟨rfl, rfl⟩

theorem textAt_of_read {path : String} {s : String} (h : d.read path = .ok (Text.bytes s)) :
    textAt d path = .ok s := by
  unfold textAt
  rw [h]
  simp only [Text.ofBytes?_bytes]

theorem read_of_textAt {path : String} {s : String} (h : textAt d path = .ok s) :
    d.read path = .ok (Text.bytes s) := by
  unfold textAt at h
  cases hread : d.read path with
  | error e =>
    rw [hread] at h
    cases h
  | ok bs =>
    rw [hread] at h
    simp only at h
    cases htext : Text.ofBytes? bs with
    | none =>
      rw [htext] at h
      cases h
    | some s' =>
      rw [htext] at h
      cases h
      rw [Text.bytes_of_ofBytes? htext]

end Workplace

open Workplace

variable {σ : Type} {d : Disk}

namespace Project

/-! ## Saving -/

theorem does_writeNew (path text : String) :
    Does d (writeNew (files : Files (Workplace σ) Handle) path text) fun r d' =>
      d.Evolves (fun bs => bs = [] ∨ bs = Text.bytes text) d'
        ∧ (r = .ok () → d'.read path = .ok (Text.bytes text)) := by
  unfold writeNew
  refine (does_create path).bind fun r d₁ hcreate => ?_
  rcases hcreate with ⟨e, rfl, -, rfl⟩ | ⟨h, k, n, rfl, hcreated⟩
  · exact does_pure ⟨Disk.evolves_refl _ d₁, fun hr => by cases hr⟩
  · refine (does_writeText h text).bind fun r d₂ hwrite => ?_
    obtain ⟨rfl, rfl⟩ := hwrite
    refine (does_close h).bind fun _ d₃ hclose => ?_
    subst hclose
    exact does_pure ⟨(hcreated.evolves_write _).trans (Disk.evolves_closed _ h),
      fun _ => (Disk.read_closed h path _).2 (hcreated.read_write _)⟩

/-- After a project was saved its file holds its text. -/
theorem does_save (p : Project) (path : String) :
    Does d (p.save (files : Files (Workplace σ) Handle) path) fun r d' =>
      d.Evolves (fun bs => bs = [] ∨ bs = Text.bytes (Document.ofProject p).page) d'
        ∧ (r = .ok () → d'.read path = .ok (Text.bytes (Document.ofProject p).page)) := by
  unfold save
  refine (does_writeNew _ _).bind fun r d₁ hwrite => ?_
  obtain ⟨hevolves, hwritten⟩ := hwrite
  have hremove : ∀ {d₂ : Disk}, (d₂ = d₁ ∨ ∃ k, Disk.Removed d₁ (Disk.sibling "tmp" path) d₂ k) →
      d.Evolves (fun bs => bs = [] ∨ bs = Text.bytes (Document.ofProject p).page) d₂ := by
    intro d₂ h
    rcases h with rfl | ⟨k, hremoved⟩
    · exact hevolves
    · exact hevolves.trans (hremoved.evolves _)
  cases r with
  | error e =>
    refine (does_remove _).bind fun _ d₂ h => ?_
    exact does_pure ⟨hremove h, fun hr => by cases hr⟩
  | ok _ =>
    refine (does_rename _ path).bind fun r d₂ hrename => ?_
    rcases hrename with ⟨e, rfl, -, rfl⟩ | ⟨rfl, ⟨hone, rfl⟩ | ⟨k, k', n, hrenamed⟩⟩
    · refine (does_remove _).bind fun _ d₃ h => ?_
      exact does_pure ⟨hremove h, fun hr => by cases hr⟩
    · exact does_pure ⟨hevolves, fun _ => hone.read_eq ▸ hwritten rfl⟩
    · have hsource := hwritten rfl
      refine does_pure ⟨hevolves.trans (hrenamed.evolves.mono fun bs hbs => .inr ?_), fun _ => ?_⟩
      · rw [hsource] at hbs
        exact (Except.ok.inj hbs).symm
      · rw [hrenamed.read_target, hsource]

/-- A project is saved wherever its path and the temporary one lead to names that are not those of
directories. -/
theorem does_save_ok (p : Project) {path k k' : String}
    (htemporary : d.key? (Disk.sibling "tmp" path) = some k)
    (hfree : d.nodes.find? k ≠ some .directory) (hpath : d.key? path = some k')
    (hbefore : d.nodes.find? k' ≠ some .directory) :
    Does d (p.save (files : Files (Workplace σ) Handle) path) fun r _ => r = .ok () := by
  unfold save
  have hwrite : Does d (writeNew (files : Files (Workplace σ) Handle) (Disk.sibling "tmp" path)
      (Document.ofProject p).page) fun r d' => r = .ok () ∧ ∃ h n d₁,
        Disk.Created d (Disk.sibling "tmp" path) h d₁ k n ∧ d'.nodes = d₁.nodes := by
    unfold writeNew
    refine (does_create _).bind fun r d₁ hcreate => ?_
    rcases hcreate with ⟨e, -, herror, -⟩ | ⟨h, k₁, n, rfl, hcreated⟩
    · obtain ⟨h, d₂, hok⟩ := Disk.exists_create htemporary hfree
      rw [hok] at herror
      cases herror
    · obtain rfl : k₁ = k := Option.some.inj (hcreated.key.symm.trans htemporary)
      refine (does_writeText h _).bind fun r d₂ hwrite => ?_
      obtain ⟨rfl, rfl⟩ := hwrite
      refine (does_close h).bind fun _ d₃ hclose => ?_
      subst hclose
      exact does_pure ⟨rfl, h, n, d₁, hcreated, Disk.nodes_write _⟩
  refine hwrite.bind fun r d' hwritten => ?_
  obtain ⟨rfl, h, n, d₁, hcreated, hnodes⟩ := hwritten
  have hsame : d₁.SameDirectories d' := Disk.sameDirectories_of_find? fun j => .inl (by rw [hnodes])
  refine (does_rename _ path).bind fun r d₂ hrename => ?_
  rcases hrename with ⟨e, -, herror, -⟩ | ⟨rfl, -⟩
  · have hfile : d'.nodes.find? k = some (.file n) := by rw [hnodes, hcreated.nodes, if_pos rfl]
    have hthere : d'.nodes.find? k' ≠ some .directory := by
      rw [hnodes, hcreated.nodes]
      split
      · simp
      · exact hbefore
    have hkeys := fun path => (hsame.key? path).trans (hcreated.sameDirectories.key? path)
    obtain ⟨d₃, hok⟩ := Disk.exists_rename ((hkeys _).trans htemporary) ((hkeys _).trans hpath)
      hfile hthere
    rw [hok] at herror
    cases herror
  · exact does_pure rfl

/-! ## Loading -/

def loaded (d : Disk) (path : String) : Except Failure Project :=
  match textAt d path with
  | .error e => .error (.file "read" path e.text)
  | .ok text => ofText path text

theorem does_load (path : String) :
    Does d (load (files : Files (Workplace σ) Handle) path) fun r d' =>
      r = loaded d path ∧ d' = d := by
  unfold load loaded
  refine (does_readText path).bind fun r d' hr => ?_
  obtain ⟨rfl, rfl⟩ := hr
  cases textAt d' path with
  | error e => exact does_pure ⟨rfl, rfl⟩
  | ok text => exact does_pure ⟨rfl, rfl⟩

theorem loaded_of_read {path text : String} (h : d.read path = .ok (Text.bytes text)) :
    loaded d path = ofText path text := by
  unfold loaded
  rw [textAt_of_read h]

/-- What is loaded was read. -/
theorem read_of_loaded {path : String} {p : Project} (h : loaded d path = .ok p) :
    ∃ text, d.read path = .ok (Text.bytes text) ∧ ofText path text = .ok p := by
  unfold loaded at h
  cases htext : textAt d path with
  | error e =>
    rw [htext] at h
    cases h
  | ok text =>
    rw [htext] at h
    exact ⟨text, read_of_textAt htext, h⟩

end Project

end QuantitySurvey
