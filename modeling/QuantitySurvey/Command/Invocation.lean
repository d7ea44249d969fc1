import QuantitySurvey.Command.Arguments
import QuantitySurvey.Decimal.Reading

/-! # Invocations

What the arguments of the program ask for. Every command has arguments of its own; the verbose
flag and the settings file may be given before the command or after it, and the settings file may
come from the environment. -/

set_option autoImplicit false

namespace QuantitySurvey

/-! ## Commands -/

inductive Command where
  /-- Evaluates a formula and prints its trace. -/
  | evaluate (formula : String) (parameters : List String) (asJson : Bool)
  | convert (value : Float) (source target : String)
  /-- Prints the function reference. -/
  | reference
  /-- Makes a project file. -/
  | init (path estimator job client : String) (withSample force : Bool)
  /-- Calculates one quantity and stores it in the project. -/
  | calculate (project element assembly : String) (actor : Option String)
  /-- Recalculates an element for all assemblies of its classification. -/
  | recalculate (project element : String) (actor : Option String)
  /-- Prints the audit trail. -/
  | audit (project : String) (element : Option String) (onlyFailures asJson : Bool)

namespace Command

structure Invocation where
  command : Command
  settings : Option String

/-! ## Rules -/

def isPath (s : String) : Bool := !s.isEmpty

def isNumber (s : String) : Bool := (Decimal.read? s.toList).isSome

def anyText (_ : String) : Bool := true

/-- The variable that names the settings file. -/
def settingsVariable : String := "TAKEOFF_CONFIG"

/-- Options before a command or after it. -/
def commonOptions : List OptionRule :=
  [{ name := "verbose", short := some 'v', use := .flag },
   { name := "config", short := some 'c', use := .once, accepts := isPath }]

def helpRequest : Request := ⟨"help", 'h', .help⟩

def elementOption : OptionRule := { name := "element", short := some 'e', use := .once }

def commandRules : List (String × List OptionRule × List (String → Bool)) :=
  [("eval",
     [{ name := "param", short := some 'p', use := .often }, { name := "json", use := .flag }],
     [anyText]),
   ("convert", [], [isNumber, anyText, anyText]),
   ("functions", [], []),
   ("init",
     [{ name := "estimator", use := .once }, { name := "job", use := .once },
      { name := "client", use := .once }, { name := "sample", use := .flag },
      { name := "force", use := .flag }],
     [isPath]),
   ("calculate",
     [elementOption, { name := "assembly", short := some 'a', use := .once },
      { name := "actor", use := .once }],
     [isPath]),
   ("recalculate", [elementOption, { name := "actor", use := .once }], [isPath]),
   ("audit",
     [elementOption, { name := "failures", use := .flag }, { name := "json", use := .flag }],
     [isPath])]

def outerRules : Rules where
  options := commonOptions
  requests := [helpRequest, ⟨"version", 'V', .version⟩]
  commands := "help" :: commandRules.map Prod.fst

def innerRules (options : List OptionRule) (operands : List (String → Bool)) : Rules where
  options := options ++ commonOptions
  requests := [helpRequest]
  operands := operands

/-! ## Reading -/

def command? (name : String) (g : Given) : Option Command :=
  match name, g.operands with
  | "eval", [formula] => some (.evaluate formula (g.values "param") (g.has "json"))
  | "convert", [value, source, target] =>
    (Decimal.read? value.toList).map fun x => .convert x source target
  | "functions", [] => some .reference
  | "init", [path] =>
    let text := fun name => (g.value? name).getD ""
    some (.init path (text "estimator") (text "job") (text "client") (g.has "sample")
      (g.has "force"))
  | "calculate", [project] =>
    match g.value? "element", g.value? "assembly" with
    | some element, some assembly =>
      some (.calculate project element assembly (g.value? "actor"))
    | _, _ => none
  | "recalculate", [project] =>
    (g.value? "element").map fun element => .recalculate project element (g.value? "actor")
  | "audit", [project] =>
    some (.audit project (g.value? "element") (g.has "failures") (g.has "json"))
  | _, _ => none

/-- What comes of asking for help on commands. -/
def helpOn (arguments : List String) : Halt :=
  match arguments with
  | [] => .help
  | [name] => if name ∈ outerRules.commands then .help else .misuse
  | _ => .misuse

/-- The settings file among what is given. The environment counts where none is given, and must
not name an empty path then. -/
def settingsFile (fromEnvironment : Option String) (outer inner : Given) :
    Except Halt (Option String) :=
  let isMissing := (outer.value? "config").isNone || (inner.value? "config").isNone
  if isMissing && fromEnvironment == some "" then .error .misuse
  else .ok (((inner.value? "config").or (outer.value? "config")).or fromEnvironment)

/-- What the arguments of the program ask for, given the settings file that the environment
names. -/
def Invocation.read (fromEnvironment : Option String) (arguments : List String) :
    Except Halt Invocation := do
  let (outer, some (name, rest)) ← Command.read outerRules {} arguments | throw .misuse
  if name = "help" then throw (helpOn rest)
  let some (_, options, operands) := commandRules.find? (·.1 == name) | throw .misuse
  let (inner, _) ← Command.read (innerRules options operands) {} rest
  let settings ← settingsFile fromEnvironment outer inner
  let some command := command? name inner | throw .misuse
  return ⟨command, settings⟩

end Command

end QuantitySurvey
