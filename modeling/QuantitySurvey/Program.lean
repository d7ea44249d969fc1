import QuantitySurvey.Command.Invocation
import QuantitySurvey.Formula.Reference
import QuantitySurvey.Program.Formulas
import QuantitySurvey.Program.Projects
import QuantitySurvey.Settings.Loading

/-! # The program

`Program.run` carries out what the arguments ask for, on a host, and tells the number that the
program ends with: zero, one for trouble, or two for arguments that make no sense. One text of help
serves all commands. -/

set_option autoImplicit false

namespace QuantitySurvey.Program

open Command (Halt Invocation Trouble)

/-! ## Commands -/

section Commands

variable {m : Type → Type} {H : Type} [Monad m] (host : Host m H) (settings : Settings)

def printing (text : Except Trouble String) : m (Except Trouble Unit) := do
  match text with
  | .error t => return .error t
  | .ok text =>
    host.print text
    return .ok ()

def execute : Command → m (Except Trouble Unit)
  | .evaluate formula parameters asJson =>
    printing host (evaluate settings formula parameters asJson)
  | .convert value source target => printing host (convert value source target)
  | .reference => printing host (.ok Formula.reference)
  | .init path estimator job client sample force =>
    init host path estimator job client sample force
  | .calculate path element assembly actor => do
    return (← (Job.calculate element assembly actor).work host settings path).outcome
  | .recalculate path element actor => do
    return (← (Job.recalculate element actor).work host settings path).outcome
  | .audit path element onlyFailures asJson => audit host path element onlyFailures asJson

end Commands

def usage : String :=
  "Takeoff: quantity calculation engine\n\n"
    ++ "Usage: takeoff [OPTIONS] <COMMAND>\n\n"
    ++ "Commands:\n"
    ++ "  eval <FORMULA> [-p NAME=VALUE]... [--json]\n"
    ++ "  convert <VALUE> <FROM> <TO>\n"
    ++ "  functions\n"
    ++ "  init <PATH> [--estimator TEXT] [--job TEXT] [--client TEXT] [--sample] [--force]\n"
    ++ "  calculate <PROJECT> -e <ELEMENT> -a <ASSEMBLY> [--actor ACTOR]\n"
    ++ "  recalculate <PROJECT> -e <ELEMENT> [--actor ACTOR]\n"
    ++ "  audit <PROJECT> [-e ELEMENT] [--failures] [--json]\n\n"
    ++ "Options:\n"
    ++ "  -v, --verbose\n"
    ++ "  -c, --config <FILE>\n"
    ++ "  -h, --help\n"
    ++ "  -V, --version\n"

def versionText : String := "takeoff 0.1.0\n"

variable {m : Type → Type} {H : Type} [Monad m] (host : Host m H)

def perform (invocation : Invocation) : m (Except Trouble Unit) := do
  let version ← host.valueOf Settings.versionVariable
  let length ← host.valueOf Settings.lengthVariable
  let valueOf := fun name =>
    if name = Settings.versionVariable then version
    else if name = Settings.lengthVariable then length
    else none
  match ← Settings.load host.files invocation.settings valueOf with
  | .error e => return .error (.failure e)
  | .ok settings => execute host settings invocation.command

/-- Runs the program: the number that it ends with. -/
def run (arguments : List String) : m Nat := do
  match Invocation.read (← host.valueOf Command.settingsVariable) arguments with
  | .error .help => do
    host.print usage
    return 0
  | .error .version => do
    host.print versionText
    return 0
  | .error .misuse => do
    host.printError usage
    return 2
  | .ok invocation =>
    match ← perform host invocation with
    | .ok _ => return 0
    | .error t => do
      host.printError t.report
      return 1

/-! ## The reference as a file -/

def referencePath : String := "takeoff_core/FUNCTIONS.md"

/-- Writes the function reference to a file: the number that the program ends with. -/
def writeReference (arguments : List String) : m Nat := do
  let path := arguments.head?.getD referencePath
  match ← written path with
  | .error e =>
    let reason := e.text
    host.printError s!"Error writing {path}: {reason}\n"
    return 1
  | .ok _ =>
    let size := Formula.reference.utf8ByteSize
    host.print s!"Wrote {size} bytes to {path}\n"
    return 0
where
  written (path : String) : m (Except Disk.Fault Unit) := do
    match ← host.files.create path with
    | .error e => return .error e
    | .ok h =>
      let result ← host.files.write h (Text.bytes Formula.reference)
      host.files.close h
      return result

end QuantitySurvey.Program
