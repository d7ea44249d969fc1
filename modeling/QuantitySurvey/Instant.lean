import QuantitySurvey.Text.Blank
import QuantitySurvey.Decimal.Reading
import QuantitySurvey.Decimal.Written

/-! # Points in time

An instant is a second of UTC and nanoseconds within it; during a leap second the nanoseconds go
past `10 ^ 9`. `Instant.read?` accepts date, time and offset from UTC in a relaxed form: blanks
around the parts, one-digit months, days, hours, minutes and seconds, and any number of digits
of a second, of which nine count. `Instant.documentText` is the form of stored documents,
`Instant.text` that of reports. -/

set_option autoImplicit false

namespace QuantitySurvey

structure Instant where
  /-- Seconds since the start of 1970, UTC, leap seconds not counted. -/
  second : Int
  /-- Nanoseconds within the second, `10 ^ 9` and more during a leap second. -/
  nanosecond : Nat
deriving DecidableEq, Repr, Inhabited

namespace Instant

def nanosecondsPerSecond : Nat := 1000000000

/-! ## The calendar -/

/-- Days from the first of January 1970 to a date of the Gregorian calendar. Years are counted
from March, so that a leap day ends its year. -/
def dayNumber (year : Int) (month day : Nat) : Int :=
  let y := if month ≤ 2 then year - 1 else year
  let era := y / 400
  let yearOfEra := y - era * 400
  let monthFromMarch : Int := (month + 9) % 12
  let dayOfYear := (153 * monthFromMarch + 2) / 5 + day - 1
  era * 146097 + yearOfEra * 365 + yearOfEra / 4 - yearOfEra / 100 + dayOfYear - 719468

def date (dayNumber : Int) : Int × Nat × Nat :=
  let z := dayNumber + 719468
  let era := z / 146097
  let dayOfEra := z - era * 146097
  let yearOfEra := (dayOfEra - dayOfEra / 1460 + dayOfEra / 36524 - dayOfEra / 146096) / 365
  let dayOfYear := dayOfEra - (365 * yearOfEra + yearOfEra / 4 - yearOfEra / 100)
  let monthFromMarch := (5 * dayOfYear + 2) / 153
  let day := dayOfYear - (153 * monthFromMarch + 2) / 5 + 1
  let month := if monthFromMarch < 10 then monthFromMarch + 3 else monthFromMarch - 9
  let year := yearOfEra + era * 400
  (if month ≤ 2 then year + 1 else year, month.toNat, day.toNat)

def isLeapYear (year : Int) : Bool :=
  year % 4 == 0 && (year % 100 != 0 || year % 400 == 0)

def daysInMonth (year : Int) (month : Nat) : Nat :=
  if month = 2 then (if isLeapYear year then 29 else 28)
  else if month = 4 || month = 6 || month = 9 || month = 11 then 30 else 31

example : dayNumber 2025 1 1 = 20089 := by decide
example : date 20089 = (2025, 1, 1) := by decide
example : date (dayNumber 2024 2 29) = (2024, 2, 29) := by decide
example : date (dayNumber (-1) 12 31) = (-1, 12, 31) := by decide

/-! ## Differences -/

/-- Nanoseconds from one point in time to another one. A leap second counts if the time in it is
the one that is earlier in the day. -/
def elapsed (since now : Instant) : Int :=
  let leapSecond : Int :=
    if since.second % 86400 < now.second % 86400 && nanosecondsPerSecond ≤ since.nanosecond then 1
    else if now.second % 86400 < since.second % 86400 && nanosecondsPerSecond ≤ now.nanosecond then
      -1
    else 0
  (now.second - since.second + leapSecond) * nanosecondsPerSecond
    + ((now.nanosecond : Int) - since.nanosecond)

/-! ## Writing -/

/-- A number with zeros in front up to a width. -/
def padded (width n : Nat) : List Char :=
  let ds := Decimal.digits n
  List.replicate (width - ds.length) '0' ++ ds

/-- Four digits, and a sign too outside the years 0 to 9999. -/
def yearText (year : Int) : List Char :=
  if 0 ≤ year && year ≤ 9999 then padded 4 year.toNat
  else (if year < 0 then '-' else '+') :: padded 4 year.natAbs

/-- No digits for a whole second, else three, six or nine. -/
def fractionText (nanosecond : Nat) : List Char :=
  let n := nanosecond % nanosecondsPerSecond
  if n = 0 then []
  else if n % 1000000 = 0 then '.' :: padded 3 (n / 1000000)
  else if n % 1000 = 0 then '.' :: padded 6 (n / 1000)
  else '.' :: padded 9 n

/-- Date and time, without an offset. -/
def clockText (t : Instant) : List Char :=
  let (year, month, day) := date (t.second / 86400)
  let s := (t.second % 86400).toNat
  yearText year ++ '-' :: padded 2 month ++ '-' :: padded 2 day
    ++ 'T' :: padded 2 (s / 3600) ++ ':' :: padded 2 (s / 60 % 60)
    ++ ':' :: padded 2 (s % 60 + t.nanosecond / nanosecondsPerSecond) ++ fractionText t.nanosecond

def documentText (t : Instant) : String :=
  String.ofList (t.clockText ++ ['Z'])

def text (t : Instant) : String :=
  String.ofList (t.clockText ++ "+00:00".toList)

/-! ## Reading -/

def skipBlanks (cs : List Char) : List Char :=
  Text.trimStart Text.isBlank cs

/-- A number of one up to `most` digits, after blanks. -/
def numberUpTo? (most : Nat) (cs : List Char) : Option (Nat × List Char) :=
  let cs := skipBlanks cs
  let ds := (cs.take most).takeWhile Char.isDigit
  if ds.isEmpty then none else some (Decimal.natural ds, cs.drop ds.length)

/-- A year: up to four digits, or a sign and any number of digits. -/
def year? (cs : List Char) : Option (Int × List Char) :=
  let signed := fun (sign : Int) (cs : List Char) =>
    let ds := cs.takeWhile Char.isDigit
    if ds.isEmpty then none else some (sign * Decimal.natural ds, cs.drop ds.length)
  match skipBlanks cs with
  | '-' :: cs => signed (-1) cs
  | '+' :: cs => signed 1 cs
  | cs => (numberUpTo? 4 cs).map fun (n, rest) => ((n : Int), rest)

/-- A given character after blanks. -/
def mark? (c : Char) (cs : List Char) : Option (List Char) :=
  match skipBlanks cs with
  | d :: rest => if d = c then some rest else none
  | [] => none

/-- The nanoseconds of a fraction, if there is one. -/
def fraction? (cs : List Char) : Option (Nat × List Char) :=
  match cs with
  | '.' :: rest =>
    let ds := rest.takeWhile Char.isDigit
    if ds.isEmpty then none
    else
      let counted := ds.take 9 ++ List.replicate (9 - ds.length) '0'
      some (Decimal.natural counted, rest.drop ds.length)
  | cs => some (0, cs)

def twoDigits? : List Char → Option (Nat × List Char)
  | a :: b :: rest =>
    if a.isDigit && b.isDigit then some (Decimal.natural [a, b], rest) else none
  | _ => none

/-- An offset from UTC in seconds: `UTC`, `Z`, or a sign, hours and minutes. Colons and blanks
may stand between hours and minutes. -/
def offset? (cs : List Char) : Option (Int × List Char) :=
  if Text.lowered (cs.take 3) = ['u', 't', 'c'] then some (0, cs.drop 3)
  else match cs with
    | [] => none
    | sign :: rest =>
      if sign = 'Z' || sign = 'z' then some (0, rest)
      else if sign = '+' || sign = '-' || sign = '\u2212' then do
        let (hours, rest) ← twoDigits? rest
        let (minutes, rest) ← twoDigits? (Text.trimStart (fun c => c = ':' || Text.isBlank c) rest)
        if minutes < 60 && hours < 24 then
          let seconds : Int := hours * 3600 + minutes * 60
          some (if sign = '+' then seconds else -seconds, rest)
        else none
      else none

/-- The instant that a text stands for. Second 60 is a leap second. -/
def read? (s : String) : Option Instant := do
  let (year, cs) ← year? s.toList
  let (month, cs) ← numberUpTo? 2 (← mark? '-' cs)
  let (day, cs) ← numberUpTo? 2 (← mark? '-' cs)
  let separator ← cs.head?
  if !(separator = 'T' || separator = 't' || separator = ' ') then none
  let (hour, cs) ← numberUpTo? 2 (cs.drop 1)
  let (minute, cs) ← numberUpTo? 2 (← mark? ':' cs)
  let (second, cs) ← numberUpTo? 2 (← mark? ':' cs)
  let (nanosecond, cs) ← fraction? cs
  let (offset, cs) ← offset? (skipBlanks cs)
  if !(cs.all Text.isBlank) then none
  if !(-262143 ≤ year && year ≤ 262142 && 1 ≤ month && month ≤ 12 && 1 ≤ day
      && day ≤ daysInMonth year month && hour < 24 && minute < 60 && second ≤ 60) then none
  let s : Int := dayNumber year month day * 86400 + hour * 3600 + minute * 60 + min second 59
  some ⟨s - offset, if second = 60 then nanosecond + nanosecondsPerSecond else nanosecond⟩

example : (read? "2025-01-01T00:00:00Z").map documentText = some "2025-01-01T00:00:00Z" := by
  decide +kernel
example : (read? "2024-2-29 1:2:3.5 +01:00").map text = some "2024-02-29T00:02:03.500+00:00" := by
  decide +kernel
example : read? "2023-02-29T00:00:00Z" = none := by decide +kernel

end Instant

end QuantitySurvey
