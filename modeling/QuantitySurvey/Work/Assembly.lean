import QuantitySurvey.Identifier
import QuantitySurvey.Parameter.Schema

/-! # Assemblies and catalogs

An assembly is a template for quantities: a formula, the unit of its results, and the schema of
the parameters that it needs. A catalog keeps assemblies in the order in which they came; an
assembly with a known identifier takes the place of the earlier one. -/

set_option autoImplicit false

namespace QuantitySurvey

structure Assembly where
  id : Identifier
  code : String
  name : String
  formula : String
  unit : Measure.Unit
  /-- The unit that the formula results in, if it is another one. -/
  formulaUnit : Option Measure.Unit := none
  schema : Parameter.Schema := {}
  classification : Option String := none
deriving DecidableEq

namespace Assembly

/-- The unit that the formula results in. -/
def sourceUnit (a : Assembly) : Measure.Unit := a.formulaUnit.getD a.unit

def appliesTo (a : Assembly) (classification : String) : Bool :=
  a.classification == some classification

end Assembly

/-- Assemblies in the order in which they came. -/
structure Catalog where
  assemblies : List Assembly := []
deriving DecidableEq, Inhabited

namespace Catalog

/-- A list of assemblies with one put in the place of the first with its identifier, or at the
end. -/
def put (a : Assembly) : List Assembly → List Assembly
  | [] => [a]
  | b :: rest => if b.id = a.id then a :: rest else b :: put a rest

def insert (c : Catalog) (a : Assembly) : Catalog := ⟨put a c.assemblies⟩

/-- The catalog of a list, whose assemblies come one by one. -/
def ofList (assemblies : List Assembly) : Catalog :=
  assemblies.foldl insert {}

def get? (c : Catalog) (id : Identifier) : Option Assembly :=
  c.assemblies.find? (·.id == id)

def byCode? (c : Catalog) (code : String) : Option Assembly :=
  c.assemblies.find? (·.code == code)

def remove (c : Catalog) (id : Identifier) : Catalog :=
  ⟨c.assemblies.eraseP (·.id == id)⟩

/-- The assemblies for a classification, in catalog order. -/
def assembliesFor (c : Catalog) (classification : String) : List Assembly :=
  c.assemblies.filter (·.appliesTo classification)

theorem mem_put {a b : Assembly} {assemblies : List Assembly} (h : b ∈ put a assemblies) :
    b = a ∨ b ∈ assemblies := by
  induction assemblies with
  | nil => exact .inl (List.mem_singleton.1 h)
  | cons c rest ih =>
    rw [put] at h
    split at h
    · exact (List.mem_cons.1 h).imp_right (List.mem_cons_of_mem c)
    · rcases List.mem_cons.1 h with rfl | h
      · exact .inr List.mem_cons_self
      · exact (ih h).imp_right (List.mem_cons_of_mem c)

theorem mem_assembliesFor {c : Catalog} {k : String} {a : Assembly} :
    a ∈ c.assembliesFor k ↔ a ∈ c.assemblies ∧ a.classification = some k := by
  simp [assembliesFor, Assembly.appliesTo]

end Catalog

end QuantitySurvey
