import QuantitySurvey.Json.Value
import QuantitySurvey.SortedMap

/-! # Decoding JSON

What it means to read a datum from a JSON value. A record is an object whose members are found
by name, in any order and among others; most records may also be an array that gives them by
position. A word of a fixed list is a string. A variant is a record with one member that says
which it is. -/

set_option autoImplicit false

namespace QuantitySurvey.Json

/-! ## Leaves -/

/-- Any number. -/
def float? : Json → Option Float
  | integer n => some (Float.ofInt n)
  | number x => some x
  | _ => none

/-- A whole number below a bound. -/
def natBelow? (bound : Nat) : Json → Option Nat
  | integer n => if 0 ≤ n && n < bound then some n.toNat else none
  | _ => none

/-- A count: a 64-bit word. -/
def count? (j : Json) : Option Nat := j.natBelow? UInt64.size

def string? : Json → Option String
  | string s => some s
  | _ => none

def boolean? : Json → Option Bool
  | boolean b => some b
  | _ => none

/-! ## Containers -/

/-- An array of data of one type. -/
def list? {α : Type} (decode : Json → Option α) : Json → Option (List α)
  | array elements => elements.mapM decode
  | _ => none

/-- An object that binds keys to data of one type. Of several members with one key the last
counts. -/
def map? {κ α : Type} [Ord κ] [Std.TransOrd κ] (key : String → Option κ)
    (decode : Json → Option α) : Json → Option (SortedMap κ α)
  | object members => do
    return SortedMap.ofList (← members.mapM fun (k, j) => do return (← key k, ← decode j))
  | _ => none

/-- A datum or `null`. -/
def nullable? {α : Type} (decode : Json → Option α) : Json → Option (Option α)
  | null => some none
  | j => (decode j).map some

/-! ## Records -/

/-- The values of the members with a key. -/
def allOf (key : String) (members : List (String × Json)) : List Json :=
  members.filterMap fun (k, j) => if k = key then some j else none

/-- The members of a record that gives them by name, in the order of the names, as far as they
are given. No member may be given twice. -/
def namedRecord? (names : List String) : Json → Option (List (Option Json))
  | object members => names.mapM fun name =>
    match allOf name members with
    | [] => some none
    | [j] => some (some j)
    | _ => none
  | _ => none

/-- The members of a record that gives them by name or by position. No array may be longer than
the names. -/
def record? (names : List String) : Json → Option (List (Option Json))
  | array elements =>
    if elements.length ≤ names.length then
      some (elements.map some ++ List.replicate (names.length - elements.length) none)
    else none
  | j => j.namedRecord? names

/-- A member that has to be given. -/
def required? {α : Type} (decode : Json → Option α) (j : Option Json) : Option α :=
  j.bind decode

/-- A member that has a default. -/
def orElse? {α : Type} (default : α) (decode : Json → Option α) : Option Json → Option α
  | none => some default
  | some j => decode j

/-- A member that may be left out or `null`. -/
def optional? {α : Type} (decode : Json → Option α) (j : Option Json) : Option (Option α) :=
  orElse? none (nullable? decode) j

/-! ## Words and variants -/

/-- The payload of a word that is written as the only key of an object. A value that was set
aside before its meaning was known may have an empty object there. -/
def isNoPayload (setAside : Bool) : Json → Bool
  | null => true
  | object [] => setAside
  | _ => false

/-- A word of a list. -/
def word? {α : Type} (setAside : Bool) (all : List α) (name : α → String) : Json → Option α
  | string s => all.find? fun a => name a == s
  | object [(k, payload)] =>
    if isNoPayload setAside payload then all.find? fun a => name a == k else none
  | _ => none

/-- A variant as the value that says which it is and the record of the rest. The rest is set
aside until the variant is known, so all of it has to be readable. -/
def variant? (tag : String) : Json → Option (Json × Json)
  | object members =>
    match allOf tag members with
    | [kind] =>
      let rest := members.filter fun (k, _) => k != tag
      if membersReadable rest then some (kind, object rest) else none
    | _ => none
  | array (kind :: rest) => if areReadable rest then some (kind, array rest) else none
  | _ => none

/-- A variant without a record: an object with any further members, or an array without further
elements. -/
def isBare : Json → Bool
  | object _ => true
  | array elements => elements.isEmpty
  | _ => false

end QuantitySurvey.Json
