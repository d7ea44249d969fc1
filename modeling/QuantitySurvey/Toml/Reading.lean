import QuantitySurvey.Decimal.Reading
import QuantitySurvey.Instant
import QuantitySurvey.Text.Hex
import QuantitySurvey.Toml.Value

/-! # Reading TOML

The reader follows version 1.0 of the format. Every parser takes the remaining characters and
gives back those after its value; nothing is the answer to a text that is not well formed. -/

set_option autoImplicit false

namespace QuantitySurvey.Toml.Reader

abbrev Parser (α : Type) := List Char → Option (α × List Char)

/-! ## Blanks, comments and line ends -/

def isSpace (c : Char) : Bool := c == ' ' || c == '\t'

def skipSpace (cs : List Char) : List Char := cs.dropWhile isSpace

/-- A character of comments and literal strings: no control character but the tab. -/
def isPlain (c : Char) : Bool := c == '\t' || (' ' ≤ c && c != '\x7f')

/-- The text after a comment, if it starts with one. -/
def skipComment : List Char → List Char
  | '#' :: cs => cs.dropWhile isPlain
  | cs => cs

/-- The text after a line end. -/
def lineEnd? : List Char → Option (List Char)
  | '\n' :: cs => some cs
  | '\r' :: '\n' :: cs => some cs
  | _ => none

theorem length_skipSpace_le (cs : List Char) : (skipSpace cs).length ≤ cs.length :=
  (List.dropWhile_sublist _).length_le

theorem length_skipComment_le (cs : List Char) : (skipComment cs).length ≤ cs.length := by
  unfold skipComment
  split
  · exact Nat.le_succ_of_le (List.dropWhile_sublist _).length_le
  · exact Nat.le_refl _

theorem length_lt_of_lineEnd? {cs rest : List Char} (h : lineEnd? cs = some rest) :
    rest.length < cs.length := by
  unfold lineEnd? at h
  split at h
  · cases h; exact Nat.lt_succ_self _
  · cases h; simp only [List.length_cons]; omega
  · cases h

/-- The text after blanks, comments and line ends. -/
def skipFiller (cs : List Char) : List Char :=
  match _h : lineEnd? (skipComment (skipSpace cs)) with
  | some rest => skipFiller rest
  | none => skipComment (skipSpace cs)
termination_by cs.length
decreasing_by
  have := length_lt_of_lineEnd? _h
  have := length_skipComment_le (skipSpace cs)
  have := length_skipSpace_le cs
  omega

/-- The text after blanks and line ends, where no comment may stand. -/
def skipBlankLines (cs : List Char) : List Char :=
  match _h : lineEnd? (skipSpace cs) with
  | some rest => skipBlankLines rest
  | none => skipSpace cs
termination_by cs.length
decreasing_by
  have := length_lt_of_lineEnd? _h
  have := length_skipSpace_le cs
  omega

/-- The text after the end of a line, where only a comment may stand. -/
def endOfLine? (cs : List Char) : Option (List Char) :=
  match skipComment (skipSpace cs) with
  | [] => some []
  | cs => lineEnd? cs

/-! ## Strings -/

/-- The character of an escape. -/
def escape? : Parser Char
  | [] => none
  | c :: cs =>
    let code := fun (width : Nat) => do
      let n ← Text.hexNumber? (cs.take width)
      if (cs.take width).length = width && n.isValidChar then
        some (Char.ofNat n, cs.drop width)
      else none
    if c = 'b' then some ('\x08', cs)
    else if c = 't' then some ('\t', cs)
    else if c = 'n' then some ('\n', cs)
    else if c = 'f' then some ('\x0c', cs)
    else if c = 'r' then some ('\r', cs)
    else if c = '"' then some ('"', cs)
    else if c = '\\' then some ('\\', cs)
    else if c = 'u' then code 4
    else if c = 'U' then code 8
    else none

/-- The rest of a basic string. -/
def basicFrom : Nat → List Char → List Char → Option (String × List Char)
  | 0, _, _ => none
  | _ + 1, [], _ => none
  | steps + 1, c :: cs, found =>
    if c = '"' then some (String.ofList found.reverse, cs)
    else if c = '\\' then
      match escape? cs with
      | some (e, rest) => basicFrom steps rest (e :: found)
      | none => none
    else if isPlain c then basicFrom steps cs (c :: found)
    else none

def literal? (cs : List Char) : Option (String × List Char) :=
  match cs.dropWhile (fun c => c != '\'' && isPlain c) with
  | '\'' :: rest =>
    some (String.ofList (cs.takeWhile (fun c => c != '\'' && isPlain c)), rest)
  | _ => none

/-- A line end inside a string of several lines. -/
def innerLineEnd? : Parser (List Char)
  | '\n' :: cs => some (['\n'], cs)
  | '\r' :: '\n' :: cs => some (['\n'], cs)
  | _ => none

/-- The text after a backslash that joins lines: blanks and at least one line end. -/
def joined? (cs : List Char) : Option (List Char) :=
  (lineEnd? (skipSpace cs)).map skipBlankLines

/-- The rest of a string of several lines with a given quote. Up to two quotes may stand before
the closing three. -/
def linesFrom (quote : Char) : Nat → List Char → List Char → Option (String × List Char)
  | 0, _, _ => none
  | steps + 1, cs, found =>
    let quotes := (cs.take 5).takeWhile (· == quote)
    if 3 ≤ quotes.length then
      some (String.ofList ((quotes.drop 3) ++ found).reverse, cs.drop quotes.length)
    else match cs with
      | [] => none
      | c :: rest =>
        match innerLineEnd? cs with
        | some (e, rest) => linesFrom quote steps rest (e ++ found)
        | none =>
          if c = '\\' && quote = '"' then
            match escape? rest, joined? rest with
            | some (e, rest), _ => linesFrom quote steps rest (e :: found)
            | none, some rest => linesFrom quote steps rest found
            | none, none => none
          else if isPlain c then linesFrom quote steps rest (c :: found)
          else none

/-- A string of several lines after its opening quotes. A line end right after them does not
count. -/
def lines? (quote : Char) (cs : List Char) : Option (String × List Char) :=
  linesFrom quote (cs.length + 1) ((lineEnd? cs).getD cs) []

def string? : Parser String
  | '"' :: '"' :: '"' :: cs => lines? '"' cs
  | '\'' :: '\'' :: '\'' :: cs => lines? '\'' cs
  | '"' :: cs => basicFrom (cs.length + 1) cs []
  | '\'' :: cs => literal? cs
  | _ => none

/-! ## Keys -/

def isKeyChar (c : Char) : Bool := c.isAlphanum || c == '_' || c == '-'

def simpleKey? (cs : List Char) : Option (String × List Char) :=
  match cs with
  | '"' :: rest => basicFrom (rest.length + 1) rest []
  | '\'' :: rest => literal? rest
  | cs =>
    let name := cs.takeWhile isKeyChar
    if name.isEmpty then none else some (String.ofList name, cs.dropWhile isKeyChar)

/-- The parts of a key, the last one apart. -/
def keyFrom : Nat → List String → List Char → Option ((List String × String) × List Char)
  | 0, _, _ => none
  | steps + 1, found, cs => do
    let (part, rest) ← simpleKey? (skipSpace cs)
    match skipSpace rest with
    | '.' :: rest => keyFrom steps (part :: found) rest
    | rest => some ((found.reverse, part), rest)

/-- The number of parts that a key may have, and of arrays and inline tables that may be open
at once. -/
def depthLimit : Nat := 79

def key? : Parser (List String × String) := keyFrom depthLimit []

/-! ## Numbers and times -/

def isDigitIn (base : Nat) (c : Char) : Bool :=
  (Text.hexValue? c).any (· < base)

/-- Digits with single underscores between them, without the underscores. -/
def digitRun? (base : Nat) (cs : List Char) : Option (List Char) :=
  let parts := cs.splitOn '_'
  if parts.all (fun p => !p.isEmpty && p.all (isDigitIn base)) then some parts.flatten else none

def natural? (base : Nat) (cs : List Char) : Option Nat :=
  (digitRun? base cs).map fun ds =>
    ds.foldl (fun n c => base * n + (Text.hexValue? c).getD 0) 0

/-- Decimal digits without a leading zero. -/
def wholePart? (cs : List Char) : Option (List Char) :=
  (digitRun? 10 cs).filter fun ds => ds.length == 1 || ds.head? != some '0'

def integer? (cs : List Char) : Option Value :=
  let value := match cs with
    | '0' :: 'x' :: ds => (natural? 16 ds).map Int.ofNat
    | '0' :: 'o' :: ds => (natural? 8 ds).map Int.ofNat
    | '0' :: 'b' :: ds => (natural? 2 ds).map Int.ofNat
    | cs =>
      let (isNegative, ds) := Decimal.signed cs
      (wholePart? ds).map fun ds =>
        if isNegative then -(Decimal.natural ds : Int) else Decimal.natural ds
  (value.filter fun n => Int64.minValue.toInt ≤ n && n ≤ Int64.maxValue.toInt).map .integer

/-- One of the words for fractions without digits. -/
def isFloatWord (cs : List Char) : Bool :=
  let word := (Decimal.signed cs).2
  word = "inf".toList || word = "nan".toList

/-- Digits with a point, an exponent or both. -/
def isFraction (cs : List Char) : Bool :=
  let size := (Decimal.signed cs).2
  let isMantissa := fun c => c != 'e' && c != 'E'
  let mantissa := size.takeWhile isMantissa
  let exponent := size.dropWhile isMantissa
  let whole := mantissa.takeWhile (· != '.')
  let fraction := mantissa.dropWhile (· != '.')
  (wholePart? whole).isSome
    && (fraction.isEmpty || (digitRun? 10 (fraction.drop 1)).isSome)
    && (exponent.isEmpty || (digitRun? 10 (Decimal.signed (exponent.drop 1)).2).isSome)
    && !(fraction.isEmpty && exponent.isEmpty)

/-- Whether the nearest double to a fraction is positive infinity. -/
def isTooLarge (cs : List Char) : Bool :=
  (Decimal.read? (cs.filter (· != '_'))).any fun x => x.isInf && 0 < x

/-- A fraction. Digits above every double are refused; those below every double are not. -/
def isFloat (cs : List Char) : Bool :=
  isFloatWord cs || (isFraction cs && !isTooLarge cs)

example : isFloat "1_0.5e3_07".toList = true := by decide +kernel
example : isFloat "1_0.5e3_08".toList = false := by decide +kernel
example : isFloat "-1e400".toList = true := by decide +kernel

/-- The number that a text of digits stands for, if it has the right length and range. -/
def field? (width low high : Nat) (cs : List Char) : Bool :=
  cs.length == width && cs.all Char.isDigit
    && low ≤ Decimal.natural cs && Decimal.natural cs ≤ high

def isDate (cs : List Char) : Bool :=
  let year := Decimal.natural (cs.take 4)
  let month := Decimal.natural ((cs.drop 5).take 2)
  cs.length == 10 && field? 4 0 9999 (cs.take 4) && cs[4]? == some '-'
    && field? 2 1 12 ((cs.drop 5).take 2) && cs[7]? == some '-'
    && field? 2 1 (Instant.daysInMonth year month) (cs.drop 8)

def isTime (cs : List Char) : Bool :=
  let fraction := cs.drop 8
  field? 2 0 23 (cs.take 2) && cs[2]? == some ':' && field? 2 0 59 ((cs.drop 3).take 2)
    && cs[5]? == some ':' && field? 2 0 60 ((cs.drop 6).take 2)
    && (fraction.isEmpty
      || (fraction.head? == some '.' && 2 ≤ fraction.length
        && (fraction.drop 1).all Char.isDigit))

/-- An offset from UTC, or none. -/
def isOffset (cs : List Char) : Bool :=
  match cs with
  | [] => true
  | [c] => c == 'Z' || c == 'z'
  | c :: cs =>
    (c == '+' || c == '-') && cs.length == 5 && field? 2 0 23 (cs.take 2)
      && cs[2]? == some ':' && field? 2 0 59 (cs.drop 3)

def isOffsetTime (cs : List Char) : Bool :=
  let isClock := fun c => c.isDigit || c == ':' || c == '.'
  isTime (cs.takeWhile isClock) && isOffset (cs.dropWhile isClock)

/-- A date, a time, or a date and a time. -/
def isMoment (cs : List Char) : Bool :=
  isDate cs || isTime cs
    || (isDate (cs.take 10)
      && (cs[10]? == some 'T' || cs[10]? == some 't' || cs[10]? == some ' ')
      && isOffsetTime (cs.drop 11))

/-- A character of numbers, times and words. -/
def isScalarChar (c : Char) : Bool :=
  c.isAlphanum || c == '+' || c == '-' || c == '_' || c == '.' || c == ':'

/-- The text of a scalar. A blank may stand between a date and a time. -/
def splitScalar (cs : List Char) : List Char × List Char :=
  let run := cs.takeWhile isScalarChar
  let rest := cs.dropWhile isScalarChar
  match rest with
  | ' ' :: d :: more =>
    if isDate run && d.isDigit then
      (run ++ ' ' :: (d :: more).takeWhile isScalarChar, (d :: more).dropWhile isScalarChar)
    else (run, rest)
  | _ => (run, rest)

def scalar? (cs : List Char) : Option (Value × List Char) :=
  let (run, rest) := splitScalar cs
  let value :=
    if run = "true".toList then some (.boolean true)
    else if run = "false".toList then some (.boolean false)
    else if isMoment run then some .moment
    else if isFloat run then some .float
    else integer? run
  value.map fun v => (v, rest)

/-! ## Values -/

mutual

/-- A value in which at most a given number of arrays and inline tables are open at once. -/
def value? : (steps depth : Nat) → List Char → Option (Value × List Char)
  | 0, _, _ => none
  | steps + 1, depth, cs =>
    match depth, cs with
    | _, '"' :: _ | _, '\'' :: _ => (string? cs).map fun (s, rest) => (.string s, rest)
    | 0, '[' :: _ | 0, '\x7b' :: _ => none
    | depth + 1, '[' :: rest => elements? steps depth rest []
    | depth + 1, '\x7b' :: rest =>
      match skipSpace rest with
      | '\x7d' :: rest => some (.inlineTable [], rest)
      | rest => pairs? steps depth rest {}
    | _, cs => scalar? cs

def elements? : (steps depth : Nat) → List Char → List Value → Option (Value × List Char)
  | 0, _, _, _ => none
  | steps + 1, depth, cs, found =>
    match skipFiller cs with
    | ']' :: rest => some (.array found.reverse, rest)
    | cs =>
      match value? steps depth cs with
      | none => none
      | some (v, rest) =>
        match skipFiller rest with
        | ',' :: rest => elements? steps depth rest (v :: found)
        | ']' :: rest => some (.array (v :: found).reverse, rest)
        | _ => none

def pairs? : (steps depth : Nat) → List Char → Table → Option (Value × List Char)
  | 0, _, _, _ => none
  | steps + 1, depth, cs, t =>
    match key? cs with
    | some ((path, key), '=' :: rest) =>
      match value? steps depth (skipSpace rest) with
      | none => none
      | some (v, rest) =>
        match t.assign path key v, skipSpace rest with
        | some t, ',' :: rest => pairs? steps depth rest t
        | some t, '\x7d' :: rest => some (.inlineTable t.entries, rest)
        | _, _ => none
    | _ => none

end

/-! ## Lines -/

/-- A header after its opening brackets, up to the closing ones. -/
def header? (closing : List Char) (cs : List Char) :
    Option ((List String × String) × List Char) := do
  let (key, rest) ← key? cs
  if rest.take closing.length = closing then some (key, rest.drop closing.length) else none

/-- One line: a header or an assignment. -/
def line? (d : Document) (cs : List Char) : Option (Document × List Char) :=
  match cs with
  | '[' :: '[' :: rest => do
    let ((path, key), rest) ← header? [']', ']'] rest
    return (← d.enterArray path key, ← endOfLine? rest)
  | '[' :: rest => do
    let ((path, key), rest) ← header? [']'] rest
    return (← d.enter path key, ← endOfLine? rest)
  | cs => do
    let ((path, key), rest) ← key? cs
    match rest with
    | '=' :: rest =>
      let (v, rest) ← value? (2 * rest.length + 2) depthLimit (skipSpace rest)
      return (← d.assign path key v, ← endOfLine? rest)
    | _ => none

def linesOf : Nat → Document → List Char → Option Document
  | 0, _, _ => none
  | steps + 1, d, cs =>
    match skipFiller cs with
    | [] => some d
    | cs =>
      match line? d cs with
      | some (d, rest) => linesOf steps d rest
      | none => none

end QuantitySurvey.Toml.Reader

namespace QuantitySurvey.Toml

open Reader in
/-- The entries of a document. A byte order mark in front does not count. -/
def read? (s : String) : Option Entries :=
  let cs := match s.toList with
    | '\ufeff' :: cs => cs
    | cs => cs
  ((linesOf (cs.length + 1) {} cs).bind Document.finish).map Table.entries

end QuantitySurvey.Toml
