import QuantitySurvey.Audit.Record
import QuantitySurvey.Work.Assembly
import QuantitySurvey.Work.Element

/-! # Projects

A project holds what is known about a job: who estimates it for whom, its elements by identifier,
the catalog of assemblies, the quantities calculated so far and the audit trail. Quantities and
records refer to elements by identifier. -/

set_option autoImplicit false

namespace QuantitySurvey

namespace Project

def formatVersion : String := "0.1.0"

structure Meta where
  /-- The version of the format that the project is written in. -/
  version : String
  estimator : String
  jobId : String
  client : String
  created : Instant
  modified : Instant
deriving DecidableEq

/-- What holds for the whole project. -/
structure Preferences where
  /-- The classification that the codes of the catalog refer to. -/
  classificationSystem : String := "NRM2"
  /-- Who calculates unless someone is named. -/
  defaultActor : Option String := none
deriving DecidableEq

end Project

structure Project where
  info : Project.Meta
  preferences : Project.Preferences := {}
  catalog : Catalog := {}
  elements : SortedMap Identifier Element := .empty
  quantities : List Quantity := []
  /-- Records are added by every run of the engine, and none is changed. -/
  auditTrail : List Audit.Record := []
deriving DecidableEq

namespace Project

/-- A project without contents, made at a given time. -/
def new (now : Instant) (estimator jobId client : String) : Project where
  info := {
    version := formatVersion
    estimator := estimator
    jobId := jobId
    client := client
    created := now
    modified := now }

variable (p : Project) (now : Instant)

def touch : Project :=
  { p with info := { p.info with modified := now } }

/-- Adds an element, or replaces the one with its identifier. -/
def addElement (e : Element) : Project :=
  Project.touch { p with elements := p.elements.insert e.id e } now

/-- Removes an element with its quantities and records, if it is there. -/
def removeElement (id : Identifier) : Option (Element × Project) :=
  (p.elements.find? id).map fun e =>
    (e, Project.touch
      { p with
        elements := p.elements.erase id
        quantities := p.quantities.filter (·.elementId != id)
        auditTrail := p.auditTrail.filter (·.elementId != some id) } now)

def addAssembly (a : Assembly) : Project :=
  Project.touch { p with catalog := p.catalog.insert a } now

def element? (id : Identifier) : Option Element := p.elements.find? id

/-- The element of a name. Elements do not come in an order: if several have the name, the turn
decides among them. -/
def elementNamed? (turn : Nat) (name : String) : Option Element :=
  let namesakes := p.elements.values.filter (·.name == name)
  namesakes[turn % namesakes.length]?

def quantitiesFor (id : Identifier) : List Quantity :=
  p.quantities.filter (·.elementId == id)

end Project

end QuantitySurvey
