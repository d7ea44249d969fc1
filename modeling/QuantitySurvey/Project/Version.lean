import QuantitySurvey.Decimal.Reading
import QuantitySurvey.Failure
import QuantitySurvey.Project
import QuantitySurvey.Text.Blank

/-! # Versions of the project format

A version is three numbers, of which the first two decide whether a project can be read. Labels
of a preliminary version and of a build may follow; they do not count. -/

set_option autoImplicit false

namespace QuantitySurvey.Project

structure Version where
  major : Nat
  minor : Nat
  patch : Nat
deriving DecidableEq, Repr

namespace Version

/-! ## Reading -/

/-- A number in the range of 64-bit words without a leading zero. -/
def number? (cs : List Char) : Option Nat :=
  if cs.isEmpty || !cs.all Char.isDigit then none
  else if cs.length ≠ 1 && cs.head? = some '0' then none
  else (some (Decimal.natural cs)).filter (· < UInt64.size)

def isLabelChar (c : Char) : Bool := c.isAlphanum || c == '-'

/-- The label of a build: letters, digits and hyphens. -/
def isBuildLabel (cs : List Char) : Bool :=
  !cs.isEmpty && cs.all isLabelChar

/-- The label of a preliminary version. One of digits alone has no leading zero. -/
def isPreliminaryLabel (cs : List Char) : Bool :=
  isBuildLabel cs && !(cs.all Char.isDigit && cs.length != 1 && cs.head? == some '0')

/-- Whether a text is empty, or a mark and labels with points between them. -/
def areLabels (mark : Char) (isLabel : List Char → Bool) (cs : List Char) : Bool :=
  match cs with
  | [] => true
  | c :: rest => c == mark && (rest.splitOn '.').all isLabel

/-- The version that a text stands for. -/
def read? (s : String) : Option Version :=
  let cs := s.toList
  let beforeBuild := cs.takeWhile (· != '+')
  let numbers := beforeBuild.takeWhile (· != '-')
  if areLabels '+' isBuildLabel (cs.dropWhile (· != '+'))
      && areLabels '-' isPreliminaryLabel (beforeBuild.dropWhile (· != '-')) then
    match numbers.splitOn '.' with
    | [major, minor, patch] => do
      return ⟨← number? major, ← number? minor, ← number? patch⟩
    | _ => none
  else none

example : read? "0.1.0-rc.1+build.007" = some ⟨0, 1, 0⟩ := by decide +kernel
example : read? "01.1.0" = none := by decide +kernel
example : read? "0.1" = none := by decide +kernel
example : read? "0.1.0-" = none := by decide +kernel

/-! ## Compatibility -/

def current : Version := ⟨0, 1, 0⟩

example : read? formatVersion = some current := by decide +kernel

/-- Whether a project of some version can be read: the first number is the same, and as long as
that is zero the second is not newer. -/
def isCompatible (v : Version) : Bool :=
  v.major == current.major && !(current.major == 0 && current.minor < v.minor)

def check (text : String) : Except Failure Unit :=
  if (read? (Text.trimmed text)).any isCompatible then .ok ()
  else .error (.version text formatVersion)

end Version

end QuantitySurvey.Project
