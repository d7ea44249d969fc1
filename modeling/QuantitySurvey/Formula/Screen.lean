import QuantitySurvey.Formula.Token

/-! # Screens

Two looks at the text of a formula before it is cut into tokens: no word of it may be forbidden,
and only the characters of the language may occur. Words are runs of name characters of the raw
text, so that a forbidden word is reported as such among any characters. -/

set_option autoImplicit false

namespace QuantitySurvey.Formula

/-! ## Forbidden words -/

/-- Names of facilities for execution, reflection and input in scripting languages. None can mean
anything in a formula. -/
def forbiddenWords : List String :=
  ["eval", "exec", "system", "spawn", "fork", "syscall", "popen", "require", "require_relative",
   "load", "import", "send", "public_send", "instance_eval", "instance_exec", "class_eval",
   "module_eval", "instance_variable_get", "instance_variable_set", "const_get", "const_set",
   "define_method", "binding", "kernel", "process", "open", "exit", "abort", "constructor",
   "prototype", "globalthis", "window", "document"]

/-- Whether a word is forbidden: it is listed, in any case, or starts with two underscores. -/
def isForbidden (word : List Char) : Bool :=
  word.take 2 == ['_', '_'] || forbiddenWords.contains (String.ofList (Text.lowered word))

/-- The longest runs of name characters. -/
def words (cs : List Char) : List (List Char) :=
  (cs.splitOnP (fun c => !isNameChar c)).filter (fun w => !w.isEmpty)

/-- Refuses a text with a forbidden word, naming the first. -/
def checkWords (source : String) : Except Failure Unit :=
  match (words source.toList).find? isForbidden with
  | none => .ok ()
  | some word => .error ((Fault.forbiddenName (String.ofList word)).of source)

/-! ## Characters -/

def isAllowed (c : Char) : Bool :=
  isNameChar c || Text.isAsciiBlank c || ['+', '-', '*', '/', '(', ')', '.', ','].contains c

/-- The first character outside a class, with its offset in bytes. -/
def firstOutside? (allowed : Char → Bool) : Nat → List Char → Option (Char × Nat)
  | _, [] => none
  | offset, c :: cs =>
    if allowed c then firstOutside? allowed (offset + c.utf8Size) cs else some (c, offset)

/-- Refuses a text with a character outside the language, naming the first. -/
def checkCharacters (source : String) : Except Failure Unit :=
  match firstOutside? isAllowed 0 source.toList with
  | none => .ok ()
  | some (c, offset) => .error ((Fault.invalidCharacter c offset).of source)

theorem firstOutside?_eq_none_iff {allowed : Char → Bool} {offset : Nat} {cs : List Char} :
    firstOutside? allowed offset cs = none ↔ ∀ c ∈ cs, allowed c = true := by
  induction cs generalizing offset with
  | nil => simp [firstOutside?]
  | cons c cs ih => by_cases h : allowed c = true <;> simp [firstOutside?, h, ih]

end QuantitySurvey.Formula
