import QuantitySurvey.Command.Printed
import QuantitySurvey.Command.Sample
import QuantitySurvey.Command.Trouble
import QuantitySurvey.Program.Host
import QuantitySurvey.Project.Calculation
import QuantitySurvey.Project.Guarded

/-! # Working on projects

The commands that work on a project file. One that changes it holds its lock from loading to
saving, and saves even if the calculation failed, because the audit trail has grown. -/

set_option autoImplicit false

namespace QuantitySurvey.Program

open Command (Trouble orTrouble)

/-! ## Files of projects -/

section Files

variable {m : Type → Type} {H : Type} [Monad m] (host : Host m H)

def init (path estimator job client : String) (sample force : Bool) :
    m (Except Trouble Unit) := do
  if (← host.files.isPresent path) && !force then return .error (.alreadyThere path)
  else
    let p := Project.new (← host.surroundings.now) estimator job client
    let p ← if sample then Command.withSample host.surroundings p else pure p
    match ← p.save host.files path with
    | .error e => return .error (.failure e)
    | .ok _ =>
      let assemblies := p.catalog.assemblies.length
      let elements := p.elements.size
      host.print s!"Created {path} ({assemblies} assemblies, {elements} elements)\n"
      return .ok ()

/-- What was handed to be saved, and what came of that. -/
structure Saving where
  project : Project
  result : Except Failure Unit

/-- What came of work on a project file. -/
structure Edit where
  outcome : Except Trouble Unit
  /-- None if nothing was handed to be saved. -/
  saving? : Option Saving

/-- What is told of a change after its project was handed to be saved. -/
def told (path : String) (outcome : Except Trouble String) (result : Except Failure Unit) :
    Except Trouble Unit :=
  match result with
  | .error e => .error (.during s!"saving {path}" e)
  | .ok _ => outcome.map fun _ => ()

/-- Loads, changes and saves a project. The change may print; what it came to is known only
after the project was saved. -/
def edited (path : String) (change : Project → m (Except Trouble String × Project)) : m Edit := do
  match ← Project.load host.files path with
  | .error e => return ⟨.error (.during s!"loading {path}" e), none⟩
  | .ok p =>
    let (outcome, p) ← change p
    match outcome with
    | .ok text => host.print text
    | .error _ => pure ()
    let result ← p.save host.files path
    return ⟨told path outcome result, some ⟨p, result⟩⟩

def underLock (path user : String) (change : Project → m (Except Trouble String × Project)) :
    m Edit := do
  match ← Lock.acquire host.files host.session path user with
  | .error e => return ⟨.error (.failure e), none⟩
  | .ok lock =>
    let edit ← edited host path change
    Lock.release host.files lock
    return edit

end Files

/-! ## What commands speak of -/

/-- Who calculates: the one who is named, or the default of the project, or that of the
settings. -/
def actorFor (settings : Settings) (p : Project) (named : Option String) :
    Except Trouble Actor :=
  orTrouble (match named.or p.preferences.defaultActor with
    | some text => Actor.parse text
    | none => settings.actor)

def elementFor (p : Project) (turn : Nat) (key : String) : Except Trouble Element :=
  match ((Identifier.read? key).bind p.element?).or (p.elementNamed? turn key) with
  | some e => .ok e
  | none => .error (.unknownElement key)

def assemblyFor (p : Project) (key : String) : Except Trouble Assembly :=
  match ((Identifier.read? key).bind p.catalog.get?).or (p.catalog.byCode? key) with
  | some a => .ok a
  | none => .error (.unknownAssembly key)

/-! ## Calculations -/

/-- What is to be calculated in a project: one quantity, or all those of an element. -/
inductive Job where
  | calculate (element assembly : String) (actor : Option String)
  | recalculate (element : String) (actor : Option String)

namespace Job

def actor : Job → Option String
  | .calculate _ _ actor => actor
  | .recalculate _ actor => actor

/-- Who is asked for the lock: the named actor, or the default one. -/
def user (settings : Settings) (job : Job) : String := job.actor.getD settings.defaultActor

variable (settings : Settings) (p : Project) (turn : Nat)

/-- Who calculates what for which element, if all of them are found. -/
def calculation (element assembly : String) (actor : Option String) :
    Except Trouble (Actor × Element × Assembly) := do
  return (← actorFor settings p actor, ← elementFor p turn element, ← assemblyFor p assembly)

def recalculation (element : String) (actor : Option String) :
    Except Trouble (Actor × Element) := do
  return (← actorFor settings p actor, ← elementFor p turn element)

end Job

section Calculations

variable {m : Type → Type} {H : Type} [Monad m] (host : Host m H) (settings : Settings)

/-- What a job does to a project, and the text that it prints. -/
def Job.change (p : Project) : Job → m (Except Trouble String × Project)
  | .calculate element assembly actor => do
    match Job.calculation settings p (← host.turn) element assembly actor with
    | .error t => return (.error t, p)
    | .ok (actor, e, a) =>
      let (result, p) ← p.calculate settings host.surroundings e a actor
      return ((orTrouble result).map (Command.quantityText e.name a.code), p)
  | .recalculate element actor => do
    match Job.recalculation settings p (← host.turn) element actor with
    | .error t => return (.error t, p)
    | .ok (actor, e) =>
      let (result, p) ← p.recalculate settings host.surroundings e actor
      return ((orTrouble result).map (Command.reportText e.name p.catalog), p)

/-- Does a job in the project of a file. -/
def Job.work (path : String) (job : Job) : m Edit :=
  underLock host path (job.user settings) fun p => job.change host settings p

/-- The records of a project that are asked for. -/
def recordsFor (p : Project) (turn : Nat) (element : Option String) (onlyFailures : Bool) :
    Except Trouble (List Audit.Record) := do
  let records ← match element with
    | none => pure p.auditTrail
    | some key => (elementFor p turn key).map fun e => Audit.aboutElement p.auditTrail e.id
  return (if onlyFailures then Audit.withStatus records .failure else records)

def audit (path : String) (element : Option String) (onlyFailures asJson : Bool) :
    m (Except Trouble Unit) := do
  match ← Project.load host.files path with
  | .error e => return .error (.during s!"loading {path}" e)
  | .ok p =>
    match recordsFor p (← host.turn) element onlyFailures with
    | .error t => return .error t
    | .ok records =>
      host.print (if asJson then (Document.ofList Document.ofRecord records).page ++ "\n"
        else Command.recordsText records)
      return .ok ()

end Calculations

end QuantitySurvey.Program
