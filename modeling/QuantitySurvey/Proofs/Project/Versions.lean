import QuantitySurvey.Proofs.Project.Saving

/-! # Projects of other versions

The version of a project is looked at once the whole document has been decoded. So a document that
states a version which this library does not read is refused for its version if the rest of it is
a project in the present format, and as no project at all otherwise.

* `check_eq_error_iff`: the versions that are not read.
* `version_of_project?`: a decoded project has the version that its document states.
* `foreign_version_refused`: how such a document is refused.
-/

set_option autoImplicit false

namespace QuantitySurvey.Project

open Disk (Handle)
open Workplace

/-! ## Versions -/

namespace Version

/-- A text that is no version, or one with another first number, or, as long as the first number is
zero, with a second number that is newer. -/
def IsForeign (text : String) : Prop :=
  ∀ v, read? (Text.trimmed text) = some v →
    v.major ≠ current.major ∨ (current.major = 0 ∧ current.minor < v.minor)

theorem isCompatible_eq_false_iff {v : Version} : isCompatible v = false ↔
    v.major ≠ current.major ∨ (current.major = 0 ∧ current.minor < v.minor) := by
  unfold isCompatible
  by_cases h : v.major = current.major <;> simp [h]

theorem check_eq_error_iff {text : String} :
    check text = .error (.version text formatVersion) ↔ IsForeign text := by
  unfold check IsForeign
  simp only [← isCompatible_eq_false_iff]
  cases read? (Text.trimmed text) with
  | none => simp
  | some v => cases h : isCompatible v <;> simp [h]

end Version

/-! ## Documents that state a version -/

/-- An object with a member `meta`, in which a member `version` is a text. -/
def StatesVersion (j : Json) (version : String) : Prop :=
  ∃ members info, j = .object members ∧ ("meta", .object info) ∈ members ∧
    ("version", .string version) ∈ info

theorem version_of_meta? {info : List (String × Json)} {m : Meta} {version : String}
    (h : Document.meta? (.object info) = some m) (hversion : ("version", .string version) ∈ info) :
    m.version = version := by
  unfold Document.meta? at h
  obtain ⟨given, hgiven, h⟩ := Option.bind_eq_some_iff.1 h
  obtain ⟨-, others, rfl⟩ := Json.exists_of_record? hversion hgiven
  split at h
  · next heq =>
    cases heq
    obtain ⟨text, htext, h⟩ := Option.bind_eq_some_iff.1 h
    iterate 5 obtain ⟨_, -, h⟩ := Option.bind_eq_some_iff.1 h
    cases h
    cases htext
    rfl
  · cases h

/-- A decoded project has the version that its document states. -/
theorem version_of_project? {j : Json} {p : Project} {version : String}
    (h : Document.project? j = some p) (hstates : StatesVersion j version) :
    p.info.version = version := by
  obtain ⟨members, info, rfl, hmeta, hversion⟩ := hstates
  unfold Document.project? at h
  obtain ⟨given, hgiven, h⟩ := Option.bind_eq_some_iff.1 h
  obtain ⟨-, others, rfl⟩ := Json.exists_of_record? hmeta hgiven
  split at h
  · next heq =>
    cases heq
    obtain ⟨m, hm, h⟩ := Option.bind_eq_some_iff.1 h
    iterate 5 obtain ⟨_, -, h⟩ := Option.bind_eq_some_iff.1 h
    cases h
    exact version_of_meta? hm hversion
  · cases h

/-- What is written of a project states its version. -/
theorem statesVersion_ofProject (p : Project) :
    StatesVersion (Document.ofProject p).asRead p.info.version := by
  rw [Document.ofProject, Json.asRead_object, Document.ofMeta]
  simp only [List.map_cons, Json.asRead_object]
  exact ⟨_, _, rfl, List.mem_cons_self, List.mem_cons_self⟩

/-! ## Loading -/

/-- A document that states a version which is not read is refused for its version if all of it is a
project, and as no project otherwise. -/
theorem foreign_version_refused {σ : Type} {d : Disk} {path text : String} {j : Json}
    {version : String} (htext : textAt d path = .ok text) (hread : Json.read? text = some j)
    (hstates : StatesVersion j version) (hforeign : Version.IsForeign version) :
    Does d (load (files : Files (Workplace σ) Handle) path) fun r d' => d' = d ∧
      ((∃ p, Document.project? j = some p) → r = .error (.version version formatVersion)) ∧
      (Document.project? j = none →
        r = .error (.document s!"Invalid JSON in {path}: no project")) := by
  refine (does_load path).mono fun r d' ⟨hr, hd⟩ => ⟨hd, ?_, ?_⟩
  · rintro ⟨p, hp⟩
    have hversion := version_of_project? hp hstates
    rw [hr, loaded, htext]
    simp only [ofText, hread, Option.bind_some, hp, hversion, Version.check_eq_error_iff.2 hforeign,
      Except.map]
  · intro hnone
    rw [hr, loaded, htext]
    simp only [ofText, hread, Option.bind_some, hnone]

def fileOf (text : String) : Disk where
  nodes := SortedMap.empty.insert "p.tko" (.file 0)
  contents := SortedMap.empty.insert 0 (Text.bytes text)
  next := 1

theorem textAt_fileOf (text : String) : textAt (fileOf text) "p.tko" = .ok text :=
  textAt_of_read rfl

theorem load_fileOf {text : String} {Q : Except Failure Project → Disk → Prop}
    (h : Does (fileOf text) (load (files : Files (Workplace Unit) Handle) "p.tko") Q) :
    Q (loaded (fileOf text) "p.tko") (fileOf text) := by
  have hload := does_load (d := fileOf text) (σ := Unit) "p.tko" ()
  have hrun := h ()
  rwa [hload.1, hload.2] at hrun

/-- A project in the present format but for its version. -/
def newer : Project where
  info := { version := "1.0.0", estimator := "", jobId := "", client := "", created := ⟨0, 0⟩,
            modified := ⟨0, 0⟩ }

/-- A document of which nothing is known but the version. -/
def onlyVersion : Json := .object [("meta", .object [("version", .string "2.0.0")])]

/-- Two documents of versions that are not read. One is refused for its version, the other is not. -/
theorem sample_foreign_version :
    loaded (fileOf (Document.ofProject newer).page) "p.tko" = .error (.version "1.0.0" "0.1.0") ∧
      loaded (fileOf onlyVersion.page) "p.tko" =
        .error (.document "Invalid JSON in p.tko: no project") := by
  have hforeign : ∀ version ∈ ["1.0.0", "2.0.0"], Version.IsForeign version := by
    intro version h
    rw [← Version.check_eq_error_iff]
    revert version
    decide +kernel
  constructor
  · have hread : Json.read? (Document.ofProject newer).page = some (Document.ofProject newer).asRead :=
      Json.read?_page _ (by decide +kernel) (by decide +kernel)
    have hproject : Document.project? (Document.ofProject newer).asRead = some newer := by
      rw [Document.project?_asRead (by decide +kernel), if_pos (by decide +kernel)]
    have hrun := load_fileOf (foreign_version_refused (textAt_fileOf _) hread
      (statesVersion_ofProject newer) (hforeign "1.0.0" (by simp)))
    exact hrun.2.1 ⟨newer, hproject⟩
  · have hread : Json.read? onlyVersion.page = some onlyVersion.asRead :=
      Json.read?_page _ (by decide) (by decide)
    have hstates : StatesVersion onlyVersion.asRead "2.0.0" :=
      ⟨_, _, rfl, List.mem_singleton_self _, List.mem_singleton_self _⟩
    have hrun := load_fileOf (foreign_version_refused (textAt_fileOf _) hread hstates
      (hforeign "2.0.0" (by simp)))
    exact hrun.2.2 rfl

end QuantitySurvey.Project
