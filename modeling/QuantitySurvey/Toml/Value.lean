/-! # TOML documents

A TOML document is a table. Tables come about in three ways: by a header, by a header below them,
and by a dotted key. What may be added to a table depends on how it came about; `Table.assign` and
`Document.enter` hold these rules. Dates and times have no further use here and keep no value. -/

set_option autoImplicit false

namespace QuantitySurvey.Toml

/-! ## Values -/

inductive Value where
  | string (s : String)
  | integer (n : Int)
  | float
  | boolean (b : Bool)
  | moment
  | array (elements : List Value)
  /-- A table in braces, which nothing outside them adds to. -/
  | inlineTable (entries : List (String × Value))
  /-- A table. It is implicit until a header defines it, and dotted if a dotted key made it. -/
  | table (implicit dotted : Bool) (entries : List (String × Value))
  /-- An array whose tables have headers of their own; the newest comes first. -/
  | tables (newestFirst : List Value)

instance : Inhabited Value := ⟨.boolean false⟩

/-- The entries of a table, in the order in which they came. -/
abbrev Entries := List (String × Value)

namespace Entries

def get? (es : Entries) (key : String) : Option Value := List.lookup key es

/-- The entries with a value in the place of an earlier one for its key, or at the end. -/
def put (key : String) (v : Value) : Entries → Entries
  | [] => [(key, v)]
  | (k, w) :: rest => if k = key then (k, v) :: rest else (k, w) :: put key v rest

end Entries

structure Table where
  implicit : Bool := false
  dotted : Bool := false
  entries : Entries := []

def Table.value (t : Table) : Value := .table t.implicit t.dotted t.entries

/-! ## Assignments -/

/-- Changes the table at the end of a path. Tables on the way are made if they are not there. A
dotted key goes through implicit tables only; a header goes through any table, and through the
newest table of an array of tables. -/
def Table.within (byDottedKey : Bool) (change : Table → Option Table) :
    List String → Table → Option Table
  | [], t => change t
  | key :: path, t =>
    let store := fun (v : Value) => { t with entries := t.entries.put key v }
    match Entries.get? t.entries key with
    | none => do
      let made ← within byDottedKey change path { implicit := true, dotted := byDottedKey }
      return store made.value
    | some (.table implicit dotted entries) =>
      if byDottedKey && !implicit then none
      else do
        let changed ← within byDottedKey change path ⟨implicit, dotted, entries⟩
        return store changed.value
    | some (.tables (.table implicit dotted entries :: older)) => do
      let changed ← within byDottedKey change path ⟨implicit, dotted, entries⟩
      return store (.tables (changed.value :: older))
    | some _ => none

/-- Gives a value to a key, which is dotted if the path before it is not empty. No key is given a
value twice, and a table made by dotted keys is added to by dotted keys only. -/
def Table.assign (path : List String) (key : String) (v : Value) (t : Table) : Option Table :=
  Table.within true (fun target =>
    if target.dotted == path.isEmpty then none
    else match Entries.get? target.entries key with
      | none => some { target with entries := target.entries ++ [(key, v)] }
      | some _ => none) path t

/-! ## Headers -/

/-- A document while it is read: all that is finished, and the table that the last header began.
The entries before the first header belong to the root. -/
structure Document where
  root : Table := {}
  path : List String := []
  ofArray : Bool := false
  current : Table := {}

namespace Document

/-- Puts the current table in its place. -/
def finish (d : Document) : Option Table :=
  match d.path.getLast? with
  | none => some d.current
  | some key =>
    Table.within false (fun parent =>
      if d.ofArray then
        match Entries.get? parent.entries key with
        | some (.tables ts) =>
          some { parent with entries := parent.entries.put key (.tables (d.current.value :: ts)) }
        | _ => none
      else some { parent with entries := parent.entries.put key d.current.value })
      d.path.dropLast d.root

/-- Begins the table of a header. A table may be begun once, and not if a dotted key made it. -/
def enter (d : Document) (path : List String) (key : String) : Option Document := do
  let root ← Table.within false some path (← d.finish)
  match lookup root path key with
  | none => return { root := root, path := path ++ [key], current := {} }
  | some (.table true false entries) =>
    return { root := root, path := path ++ [key], current := { entries := entries } }
  | some _ => none
where
  /-- The value at the end of a path through tables. -/
  lookup (t : Table) : List String → String → Option Value
    | [], key => Entries.get? t.entries key
    | k :: path, key =>
      match Entries.get? t.entries k with
      | some (.table i d es) => lookup ⟨i, d, es⟩ path key
      | some (.tables (.table i d es :: _)) => lookup ⟨i, d, es⟩ path key
      | _ => none

/-- Begins a further table of an array of tables. -/
def enterArray (d : Document) (path : List String) (key : String) : Option Document := do
  let root ← d.finish
  let root ← Table.within false (fun parent =>
    match Entries.get? parent.entries key with
    | none => some { parent with entries := parent.entries ++ [(key, .tables [])] }
    | some (.tables _) => some parent
    | some _ => none) path root
  return { root := root, path := path ++ [key], ofArray := true, current := {} }

def assign (d : Document) (path : List String) (key : String) (v : Value) : Option Document := do
  return { d with current := ← d.current.assign path key v }

end Document

end QuantitySurvey.Toml
