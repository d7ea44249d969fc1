/-! # Arguments

Arguments are options, operands and, at one place at most, the name of a command with arguments
of its own. Options have a long name and may have a short one; a value follows as the next
argument, after an equals sign, or right after the short name. Short names may share a hyphen.
After `--` there are operands only. Arguments are read from left to right, and the first that
does not fit decides. -/

set_option autoImplicit false

namespace QuantitySurvey.Command

/-! ## Rules -/

inductive Use where
  /-- Without a value, once. -/
  | flag
  /-- With a value, once. -/
  | once
  /-- With a value, any number of times. -/
  | often
deriving DecidableEq

structure OptionRule where
  name : String
  short : Option Char := none
  use : Use
  /-- Whether a text may be the value. -/
  accepts : String → Bool := fun _ => true

inductive Halt where
  | help
  | version
  | misuse
deriving DecidableEq

/-- An argument that asks for something else than a command. -/
structure Request where
  name : String
  short : Char
  halt : Halt

/-- What arguments may be. -/
structure Rules where
  options : List OptionRule
  requests : List Request
  /-- Which texts may be the operands, one after the other. -/
  operands : List (String → Bool) := []
  commands : List String := []

/-! ## What is given -/

structure Given where
  options : List (String × String) := []
  operands : List String := []

namespace Given

/-- The value of an option that is used once. -/
def value? (g : Given) (name : String) : Option String := List.lookup name g.options

def values (g : Given) (name : String) : List String :=
  g.options.filterMap fun (n, v) => if n = name then some v else none

def has (g : Given) (name : String) : Bool := (g.value? name).isSome

/-- Takes an option with its value. -/
def withOption (g : Given) (rule : OptionRule) (value : String) : Except Halt Given :=
  if rule.use ≠ .often && g.has rule.name then .error .misuse
  else if !rule.accepts value then .error .misuse
  else .ok { g with options := g.options ++ [(rule.name, value)] }

def withOperand (g : Given) (rules : Rules) (value : String) : Except Halt Given :=
  match rules.operands[g.operands.length]? with
  | none => .error .misuse
  | some accepts =>
    if accepts value then .ok { g with operands := g.operands ++ [value] } else .error .misuse

end Given

/-! ## Options -/

/-- What is given, and the option that waits for the next argument as its value. -/
abbrev Taken := Given × Option OptionRule

def takeLong (rules : Rules) (g : Given) (name : String) (value : Option String) :
    Except Halt Taken :=
  match rules.options.find? (·.name == name), value with
  | some rule, value =>
    match rule.use, value with
    | .flag, none => return (← g.withOption rule "", none)
    | .flag, some _ => .error .misuse
    | _, some value => return (← g.withOption rule value, none)
    | _, none => return (g, some rule)
  | none, some _ => .error .misuse
  | none, none => .error (((rules.requests.find? (·.name == name)).map (·.halt)).getD .misuse)

def takeShort (rules : Rules) (g : Given) : List Char → Except Halt Taken
  | [] => .ok (g, none)
  | c :: rest =>
    match rules.options.find? (·.short == some c) with
    | none => .error (((rules.requests.find? (·.short == c)).map (·.halt)).getD .misuse)
    | some rule =>
      match rule.use, rest with
      | .flag, _ =>
        match g.withOption rule "" with
        | .error e => .error e
        | .ok g => takeShort rules g rest
      | _, [] => .ok (g, some rule)
      | _, '=' :: value => return (← g.withOption rule (String.ofList value), none)
      | _, value => return (← g.withOption rule (String.ofList value), none)

/-- Takes an argument that starts with a hyphen and goes on. -/
def takeOption (rules : Rules) (g : Given) : List Char → Except Halt Taken
  | '-' :: cs =>
    let name := String.ofList (cs.takeWhile (· != '='))
    let value := match cs.dropWhile (· != '=') with
      | [] => none
      | _ :: value => some (String.ofList value)
    takeLong rules g name value
  | cs => takeShort rules g cs

/-- What follows the hyphen of an option. A hyphen alone is no option. -/
def afterHyphen? (argument : String) : Option (List Char) :=
  match argument.toList with
  | '-' :: c :: cs => some (c :: cs)
  | _ => none

/-! ## Arguments -/

/-- Reads arguments up to the name of a command: what is given, and the command with its
arguments. -/
def read (rules : Rules) : Given → List String → Except Halt (Given × Option (String × List String))
  | g, [] => .ok (g, none)
  | g, argument :: rest =>
    if argument ∈ rules.commands then .ok (g, some (argument, rest))
    else if argument = "--" then do
      return (← rest.foldlM (fun g value => g.withOperand rules value) g, none)
    else match afterHyphen? argument with
      | none =>
        match g.withOperand rules argument with
        | .error e => .error e
        | .ok g => read rules g rest
      | some cs =>
        match takeOption rules g cs with
        | .error e => .error e
        | .ok (g, none) => read rules g rest
        | .ok (g, some rule) =>
          match rest with
          | [] => .error .misuse
          | value :: rest =>
            if (afterHyphen? value).isSome then .error .misuse
            else match g.withOption rule value with
              | .error e => .error e
              | .ok g => read rules g rest

end QuantitySurvey.Command
