/-! # Paths

A path is a text of names with slashes between them. `Disk.sibling` gives the path of the file
that accompanies another one. -/

set_option autoImplicit false

namespace QuantitySurvey.Disk

/-! ## The name of a file -/

/-- A path, written backwards, without the slashes and dots that lead nowhere further. -/
def trimmedBackwards : List Char → List Char
  | '/' :: rest => trimmedBackwards rest
  | '.' :: '/' :: rest => trimmedBackwards rest
  | cs => cs

/-- The last name of a path, if that is the name of a file or directory and not a step. -/
def fileName? (path : String) : Option String :=
  let name := ((trimmedBackwards path.toList.reverse).takeWhile (· != '/')).reverse
  if name = [] || name = ['.'] || name = ['.', '.'] then none else some (String.ofList name)

/-! ## Accompanying files -/

/-- The path next to another one whose name has a further part. A path without a file name is its
own sibling. -/
def sibling (part path : String) : String :=
  match fileName? path with
  | none => path
  | some _ =>
    String.ofList (trimmedBackwards path.toList.reverse).reverse ++ "." ++ part

example : sibling "lock" "p.tko" = "p.tko.lock" := by decide +kernel
example : sibling "lock" "a/.hidden" = "a/.hidden.lock" := by decide +kernel
example : sibling "lock" "a/b/./" = "a/b.lock" := by decide +kernel
example : sibling "lock" "a/.." = "a/.." := by decide +kernel
example : sibling "lock" "." = "." := by decide +kernel

end QuantitySurvey.Disk
