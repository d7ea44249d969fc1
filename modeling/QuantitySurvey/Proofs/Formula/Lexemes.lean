import QuantitySurvey.Proofs.Formula.Spelling

/-! # Lexemes

The pieces that a text is cut into: symbols, names and numbers. A lexeme ends where it cannot go on,
so the rest of the text decides how far it goes. An `e` after a number belongs to it exactly if digits
follow the `e`, after a sign or without one.

* `Lexeme.EndsBefore`: how far a lexeme goes.
* `first?_eq_some_iff`: the scanner cuts off such a lexeme.
* `token?_eq_none_iff`: the lexemes that are no tokens are numbers without a digit or with more than one
  point.
-/

set_option autoImplicit false

namespace QuantitySurvey.Formula

/-! ## Definitions -/

/-- An exponent: its mark, a sign or none, and digits. -/
def IsExponent (cs : List Char) : Prop :=
  ∃ mark sign digits, cs = mark :: (sign ++ digits) ∧ (mark = 'e' ∨ mark = 'E') ∧
    sign ∈ [[], ['+'], ['-']] ∧ digits ≠ [] ∧ ∀ c ∈ digits, c.isDigit = true

inductive Lexeme where
  | symbol (c : Char)
  | name (run : List Char)
  /-- Digits and points, and an exponent or nothing after them. -/
  | number (mantissa exponent : List Char)
deriving DecidableEq

namespace Lexeme

def chars : Lexeme → List Char
  | symbol c => [c]
  | name run => run
  | number mantissa exponent => mantissa ++ exponent

def token? : Lexeme → Option Token
  | symbol c => Token.ofSymbol? c
  | name run => some (.name (String.ofList run))
  | number mantissa exponent => (Decimal.read? (mantissa ++ exponent)).map .number

/-- A number without a digit, or with more than one point. -/
def isInvalid : Lexeme → Bool
  | number mantissa _ => !mantissa.any Char.isDigit || decide (1 < mantissa.count '.')
  | symbol _ | name _ => false

/-- A lexeme goes as far as it can in a text that goes on with the rest. -/
inductive EndsBefore : Lexeme → List Char → Prop
  | symbol {c : Char} {rest : List Char} (listed : (Token.ofSymbol? c).isSome = true) :
      EndsBefore (.symbol c) rest
  | name {run rest : List Char} (named : IsName run)
      (ends : ∀ c ∈ rest.head?, isNameChar c = false) : EndsBefore (.name run) rest
  | number {mantissa rest : List Char} (nonempty : mantissa ≠ [])
      (chars : ∀ c ∈ mantissa, isNumberChar c = true)
      (ends : ∀ c ∈ rest.head?, isNumberChar c = false)
      (plain : ∀ exponent after, IsExponent exponent → rest ≠ exponent ++ after) :
      EndsBefore (.number mantissa []) rest
  | scientific {mantissa exponent rest : List Char} (nonempty : mantissa ≠ [])
      (chars : ∀ c ∈ mantissa, isNumberChar c = true) (scale : IsExponent exponent)
      (ends : ∀ c ∈ rest.head?, c.isDigit = false) :
      EndsBefore (.number mantissa exponent) rest

/-- The first lexeme of a text that starts with one, and the rest of the text. -/
def first? : List Char → Option (Lexeme × List Char)
  | [] => none
  | c :: cs =>
    if (Token.ofSymbol? c).isSome then some (.symbol c, cs)
    else if isNumberChar c then
      let (exponent, rest) := splitExponent ((c :: cs).dropWhile isNumberChar)
      some (.number ((c :: cs).takeWhile isNumberChar) exponent, rest)
    else if isNameStart c then
      some (.name ((c :: cs).takeWhile isNameChar), (c :: cs).dropWhile isNameChar)
    else none

end Lexeme

/-! ## Exponents -/

theorem not_isNumberChar_mark {c : Char} (h : c = 'e' ∨ c = 'E') : isNumberChar c = false := by
  rcases h with rfl | rfl <;> decide

/-- An exponent starts with its mark, where no mantissa goes on. -/
theorem IsExponent.head {cs : List Char} (h : IsExponent cs) (rest : List Char) :
    ∀ c ∈ (cs ++ rest).head?, isNumberChar c = false := by
  obtain ⟨mark, sign, digits, rfl, hmark, -⟩ := h
  intro c hc
  cases hc
  exact not_isNumberChar_mark hmark

theorem take_signLength (cs : List Char) : cs.take (signLength cs) ∈ [[], ['+'], ['-']] := by
  cases cs with
  | nil => simp
  | cons c cs =>
    by_cases hplus : c = '+'
    · simp [signLength, hplus]
    · by_cases hminus : c = '-'
      · simp [signLength, hminus]
      · simp [signLength, hplus, hminus]

theorem signLength_append {sign digits : List Char} (hsign : sign ∈ [[], ['+'], ['-']])
    (hne : digits ≠ []) (hdigits : ∀ c ∈ digits, c.isDigit = true) (rest : List Char) :
    signLength (sign ++ (digits ++ rest)) = sign.length := by
  obtain ⟨d, ds, rfl⟩ := List.exists_cons_of_ne_nil hne
  have hd : d.isDigit = true := hdigits d List.mem_cons_self
  have hplus : d ≠ '+' := by
    rintro rfl
    cases hd
  have hminus : d ≠ '-' := by
    rintro rfl
    cases hd
  simp only [List.mem_cons, List.not_mem_nil, or_false] at hsign
  rcases hsign with rfl | rfl | rfl
  · simp [signLength, hplus, hminus]
  · rfl
  · rfl

theorem splitExponent_of_isExponent {exponent rest : List Char} (h : IsExponent exponent)
    (ends : ∀ c ∈ rest.head?, c.isDigit = false) :
    splitExponent (exponent ++ rest) = (exponent, rest) := by
  obtain ⟨mark, sign, digits, rfl, hmark, hsign, hne, hdigits⟩ := h
  have hlength := signLength_append hsign hne hdigits rest
  rw [List.cons_append, List.append_assoc, splitExponent, hlength, List.drop_left, List.take_left,
    takeWhile_run hdigits ends, dropWhile_run hdigits ends]
  simp [hmark, hne]

/-- What starts with an exponent starts with one that goes as far as it can. -/
theorem exists_longest_exponent {exponent after : List Char} (h : IsExponent exponent) :
    ∃ longest rest, IsExponent longest ∧ exponent ++ after = longest ++ rest ∧
      ∀ c ∈ rest.head?, c.isDigit = false := by
  obtain ⟨mark, sign, digits, rfl, hmark, hsign, hne, hdigits⟩ := h
  refine ⟨mark :: (sign ++ (digits ++ after.takeWhile Char.isDigit)), after.dropWhile Char.isDigit,
    ⟨mark, sign, _, rfl, hmark, hsign, by simp [hne], ?_⟩, ?_, ?_⟩
  · intro c hc
    rcases List.mem_append.1 hc with hc | hc
    · exact hdigits c hc
    · exact List.all_eq_true.1 List.all_takeWhile c hc
  · simp [List.append_assoc, List.takeWhile_append_dropWhile]
  · exact head_dropWhile Char.isDigit after

theorem splitExponent_cases (cs : List Char) :
    (splitExponent cs = ([], cs) ∧ ∀ exponent after, IsExponent exponent → cs ≠ exponent ++ after) ∨
    ∃ exponent rest, splitExponent cs = (exponent, rest) ∧ IsExponent exponent ∧
      cs = exponent ++ rest ∧ ∀ c ∈ rest.head?, c.isDigit = false := by
  by_cases hstarts : ∃ exponent after, IsExponent exponent ∧ cs = exponent ++ after
  · -- The exponent found may stop among digits, so the longest one takes its place.
    obtain ⟨exponent, after, hexponent, rfl⟩ := hstarts
    obtain ⟨longest, rest, hlongest, hcs, hends⟩ := exists_longest_exponent hexponent
    exact .inr ⟨longest, rest, hcs ▸ splitExponent_of_isExponent hlongest hends, hlongest, hcs, hends⟩
  · refine .inl ⟨?_, fun exponent after h hcs => hstarts ⟨exponent, after, h, hcs⟩⟩
    cases cs with
    | nil => rfl
    | cons mark cs =>
      rw [splitExponent]
      refine if_neg fun hcondition => hstarts ?_
      simp only [Bool.and_eq_true, Bool.or_eq_true, decide_eq_true_eq, Bool.not_eq_true',
        List.isEmpty_eq_false_iff] at hcondition
      obtain ⟨hmark, hne⟩ := hcondition
      refine ⟨_, (cs.drop (signLength cs)).dropWhile Char.isDigit,
        ⟨mark, _, _, rfl, hmark, take_signLength cs, hne,
          fun c hc => List.all_eq_true.1 List.all_takeWhile c hc⟩, ?_⟩
      simp [List.append_assoc, List.takeWhile_append_dropWhile]

/-! ## Cutting off a lexeme -/

theorem IsName.exists_cons {run : List Char} (h : IsName run) :
    ∃ c cs, run = c :: cs ∧ isNameStart c = true := by
  obtain ⟨c, hc, hstarts⟩ := h.starts
  obtain ⟨cs, rfl⟩ := List.head?_eq_some_iff.1 hc
  exact ⟨c, cs, rfl, hstarts⟩

namespace Lexeme

theorem first?_number {mantissa exponent rest : List Char} (nonempty : mantissa ≠ [])
    (chars : ∀ c ∈ mantissa, isNumberChar c = true)
    (ends : ∀ c ∈ (exponent ++ rest).head?, isNumberChar c = false)
    (split : splitExponent (exponent ++ rest) = (exponent, rest)) :
    first? (mantissa ++ (exponent ++ rest)) = some (.number mantissa exponent, rest) := by
  obtain ⟨c, cs, rfl⟩ := List.exists_cons_of_ne_nil nonempty
  have hc : isNumberChar c = true := chars c List.mem_cons_self
  have htake := takeWhile_run chars ends
  have hdrop := dropWhile_run chars ends
  rw [List.cons_append] at htake hdrop ⊢
  rw [first?, ofSymbol?_of_isNumberChar hc, if_neg (by simp), if_pos hc, htake, hdrop, split]

theorem first?_of_endsBefore {l : Lexeme} {rest : List Char} (h : l.EndsBefore rest) :
    first? (l.chars ++ rest) = some (l, rest) := by
  cases h with
  | symbol listed => exact if_pos listed
  | @name run rest named ends =>
    obtain ⟨c, cs, rfl, hstarts⟩ := named.exists_cons
    have htake := takeWhile_run named.chars ends
    have hdrop := dropWhile_run named.chars ends
    show first? ((c :: cs) ++ rest) = _
    rw [List.cons_append] at htake hdrop ⊢
    rw [first?, ofSymbol?_of_isNameChar (isNameChar_of_isNameStart hstarts), if_neg (by simp),
      isNumberChar_of_isNameStart hstarts, if_neg Bool.false_ne_true, if_pos hstarts, htake, hdrop]
  | @number mantissa rest nonempty chars ends plain =>
    have hsplit : splitExponent rest = ([], rest) := by
      rcases splitExponent_cases rest with ⟨hsplit, -⟩ | ⟨exponent, after, -, hexponent, hrest, -⟩
      · exact hsplit
      · exact absurd hrest (plain exponent after hexponent)
    show first? (mantissa ++ [] ++ rest) = _
    rw [List.append_assoc]
    exact first?_number nonempty chars ends hsplit
  | scientific nonempty chars scale ends =>
    show first? (_ ++ _ ++ rest) = _
    rw [List.append_assoc]
    exact first?_number nonempty chars (scale.head rest) (splitExponent_of_isExponent scale ends)

theorem endsBefore_of_first? {cs : List Char} {l : Lexeme} {rest : List Char}
    (h : first? cs = some (l, rest)) : cs = l.chars ++ rest ∧ l.EndsBefore rest := by
  cases cs with
  | nil => cases h
  | cons c cs =>
    rw [first?] at h
    split at h
    · next listed =>
      cases h
      exact ⟨rfl, .symbol listed⟩
    · split at h
      · next hnumber =>
        have hall : (c :: cs).takeWhile isNumberChar ++ (c :: cs).dropWhile isNumberChar = c :: cs :=
          List.takeWhile_append_dropWhile
        have hnonempty : (c :: cs).takeWhile isNumberChar ≠ [] := by simp [hnumber]
        have hchars : ∀ d ∈ (c :: cs).takeWhile isNumberChar, isNumberChar d = true :=
          fun d hd => List.all_eq_true.1 List.all_takeWhile d hd
        rcases splitExponent_cases ((c :: cs).dropWhile isNumberChar) with
          ⟨hsplit, hplain⟩ | ⟨exponent, after, hsplit, hexponent, hcut, hends⟩
        · rw [hsplit] at h
          cases h
          exact ⟨by simp [chars, hall],
            .number hnonempty hchars (head_dropWhile isNumberChar (c :: cs)) hplain⟩
        · rw [hsplit] at h
          cases h
          refine ⟨?_, .scientific hnonempty hchars hexponent hends⟩
          rw [chars, List.append_assoc, ← hcut, hall]
      · split at h
        · next hname =>
          cases h
          exact ⟨List.takeWhile_append_dropWhile.symm,
            .name (isName_takeWhile hname cs) (head_dropWhile isNameChar (c :: cs))⟩
        · cases h

/-- What is cut off is the lexeme that goes as far as it can. So there is at most one. -/
theorem first?_eq_some_iff {cs : List Char} {l : Lexeme} {rest : List Char} :
    first? cs = some (l, rest) ↔ cs = l.chars ++ rest ∧ l.EndsBefore rest := by
  refine ⟨endsBefore_of_first?, ?_⟩
  rintro ⟨rfl, h⟩
  exact first?_of_endsBefore h

theorem first?_of_isAsciiBlank {c : Char} (h : Text.isAsciiBlank c = true) (cs : List Char) :
    first? (c :: cs) = none := by
  have hname : isNameStart c = false := by
    cases hname : isNameStart c with
    | false => rfl
    | true =>
      have hchar := isNameChar_of_isNameStart hname
      rw [not_isNameChar_of_isAsciiBlank h] at hchar
      cases hchar
  have hnumber : isNumberChar c = false := by
    cases hnumber : isNumberChar c with
    | false => rfl
    | true =>
      have hblank := isAsciiBlank_of_isNumberChar hnumber
      rw [h] at hblank
      cases hblank
  rw [first?, ofSymbol?_of_isAsciiBlank h, hnumber, hname]
  rfl

/-- Only blanks and characters outside the language start no lexeme. -/
theorem isAllowed_of_first?_eq_none {c : Char} {cs : List Char} (h : first? (c :: cs) = none)
    (hblank : Text.isAsciiBlank c = false) : isAllowed c = false := by
  have hstarts : Token.ofSymbol? c = none ∧ isNumberChar c = false ∧ isNameStart c = false := by
    rw [first?] at h
    split at h
    · cases h
    · next hsymbol =>
      split at h
      · cases h
      · next hnumber =>
        split at h
        · cases h
        · next hname => exact ⟨by simpa using hsymbol, by simpa using hnumber, by simpa using hname⟩
  obtain ⟨hsymbol, hnumber, hname⟩ := hstarts
  have hchar : isNameChar c = false := by
    simp only [isNumberChar, isNameStart, Bool.or_eq_false_iff] at hnumber hname
    simp [isNameChar, Char.isAlphanum, hnumber.1, hname.1, hname.2]
  have hlisted : ['+', '-', '*', '/', '(', ')', '.', ','].contains c = false := by
    have hall : ['+', '-', '*', '/', '(', ')', '.', ','].all
        (fun d => (Token.ofSymbol? d).isSome || isNumberChar d) = true := by decide
    rw [← Bool.not_eq_true, List.contains_iff_mem]
    intro hc
    have hstart := List.all_eq_true.1 hall c hc
    rw [hsymbol, hnumber] at hstart
    cases hstart
  rw [isAllowed, hchar, hblank, hlisted]
  rfl

end Lexeme

/-! ## Numbers that are read -/

section Reading

variable {whole rest : List Char} (digits : ∀ c ∈ whole, c.isDigit = true)
  (ends : ∀ c ∈ rest.head?, c.isDigit = false)
include digits ends

/-- A text that starts with a digit or a point has no sign and is none of the words. -/
theorem read?_of_isNumberChar (starts : ∃ c ∈ (whole ++ rest).head?, isNumberChar c = true) :
    Decimal.read? (whole ++ rest) =
      let p := match rest with
        | '.' :: ds => (ds.takeWhile Char.isDigit, ds.dropWhile Char.isDigit)
        | rest => ([], rest)
      if whole.isEmpty && p.1.isEmpty then none
      else (Decimal.exponentPart? p.2).map (Decimal.ofDigits whole p.1) := by
  obtain ⟨c, hc, hnumber⟩ := starts
  obtain ⟨cs, hcs⟩ := List.head?_eq_some_iff.1 hc
  have hsigned : Decimal.signed (whole ++ rest) = (false, whole ++ rest) := by
    rw [hcs]
    exact signed_of_isNumberChar hnumber cs
  have hlower : ((whole ++ rest).map Char.toLower).head? = some c := by
    rw [hcs]
    rcases isNumberChar_cases hnumber with ⟨-, hdigit⟩ | rfl
    · exact congrArg some (toLower_of_isDigit hdigit)
    · rfl
  have hword : ∀ word : List Char, word.head?.any isNumberChar = false →
      (whole ++ rest).map Char.toLower ≠ word := by
    rintro word hword rfl
    rw [hlower, Option.any_some, hnumber] at hword
    cases hword
  have hinf := hword "inf".toList (by decide)
  have hinfinity := hword "infinity".toList (by decide)
  have hnan := hword "nan".toList (by decide)
  unfold Decimal.read? Decimal.unsigned?
  rw [hsigned]
  dsimp only
  rw [decide_eq_false hinf, decide_eq_false hinfinity, Bool.or_false, if_neg Bool.false_ne_true,
    if_neg hnan, takeWhile_run digits ends, dropWhile_run digits ends]
  exact Option.map_id'

end Reading

theorem exponentPart?_isSome {exponent : List Char} (h : exponent = [] ∨ IsExponent exponent) :
    (Decimal.exponentPart? exponent).isSome = true := by
  rcases h with rfl | ⟨mark, sign, digits, rfl, hmark, hsign, hne, hdigits⟩
  · rfl
  · have hsigned : (Decimal.signed (sign ++ digits)).2 = digits := by
      obtain ⟨d, ds, rfl⟩ := List.exists_cons_of_ne_nil hne
      have hd : isNumberChar d = true := isNumberChar_of_isDigit (hdigits d List.mem_cons_self)
      simp only [List.mem_cons, List.not_mem_nil, or_false] at hsign
      rcases hsign with rfl | rfl | rfl
      · exact congrArg Prod.snd (signed_of_isNumberChar hd ds)
      · rfl
      · rfl
    have hall : (!digits.isEmpty && digits.all Char.isDigit) = true := by
      simpa [hne] using hdigits
    have hmarked : (mark == 'e' || mark == 'E') = true := by simpa using hmark
    simp only [Decimal.exponentPart?, hmarked, if_true, hsigned, hall]
    rfl

section Mantissa

variable {exponent : List Char} (hexponent : exponent = [] ∨ IsExponent exponent)
include hexponent

theorem head_exponent : ∀ c ∈ exponent.head?, c.isDigit = false ∧ c ≠ '.' := by
  intro c hc
  rcases hexponent with rfl | h
  · cases hc
  · have hnot := h.head [] c (by simpa using hc)
    simpa [isNumberChar] using hnot

/-- Digits without a point are a number. -/
theorem read?_digits {whole : List Char} (hne : whole ≠ [])
    (digits : ∀ c ∈ whole, c.isDigit = true) :
    (Decimal.read? (whole ++ exponent)).isSome = true := by
  have hends := head_exponent hexponent
  obtain ⟨d, ds, hcons⟩ := List.exists_cons_of_ne_nil hne
  have hstarts : ∃ c ∈ (whole ++ exponent).head?, isNumberChar c = true :=
    ⟨d, by rw [hcons]; rfl, isNumberChar_of_isDigit (digits d (by simp [hcons]))⟩
  rw [read?_of_isNumberChar digits (fun c hc => (hends c hc).1) hstarts]
  dsimp only
  split
  · exact absurd rfl (hends '.' rfl).2
  · simpa [hne] using exponentPart?_isSome hexponent

/-- Digits with a point among them are a number, if there is a digit and no second point. -/
theorem read?_point {whole fraction : List Char} (digits : ∀ c ∈ whole, c.isDigit = true)
    (chars : ∀ c ∈ fraction, isNumberChar c = true) :
    (Decimal.read? (whole ++ '.' :: (fraction ++ exponent))).isSome = true ↔
      '.' ∉ fraction ∧ ¬ (whole = [] ∧ fraction = []) := by
  have hends : ∀ c ∈ ('.' :: (fraction ++ exponent)).head?, c.isDigit = false := by
    rintro c ⟨⟩
    decide
  have hstarts : ∃ c ∈ (whole ++ '.' :: (fraction ++ exponent)).head?, isNumberChar c = true := by
    cases whole with
    | nil => exact ⟨'.', rfl, rfl⟩
    | cons d ds => exact ⟨d, rfl, isNumberChar_of_isDigit (digits d List.mem_cons_self)⟩
  rw [read?_of_isNumberChar digits hends hstarts]
  by_cases hpoint : '.' ∈ fraction
  · -- The second point stands where only an exponent may.
    obtain ⟨first, more, rfl, hfirst⟩ := List.eq_append_cons_of_mem hpoint
    have hdigits : ∀ c ∈ first, c.isDigit = true :=
      isDigit_of_not_mem (fun c hc => chars c (List.mem_append_left _ hc)) hfirst
    have hnext : ∀ c ∈ ('.' :: (more ++ exponent)).head?, c.isDigit = false := by
      rintro c ⟨⟩
      decide
    have hpart : Decimal.exponentPart? ('.' :: (more ++ exponent)) = none := rfl
    rw [List.append_assoc, List.cons_append]
    simp only [takeWhile_run hdigits hnext, dropWhile_run hdigits hnext, hpart]
    simp
  · have hdigits : ∀ c ∈ fraction, c.isDigit = true := isDigit_of_not_mem chars hpoint
    have hnext : ∀ c ∈ exponent.head?, c.isDigit = false :=
      fun c hc => (head_exponent hexponent c hc).1
    have hpart := exponentPart?_isSome hexponent
    simp only [takeWhile_run hdigits hnext, dropWhile_run hdigits hnext]
    by_cases hempty : whole = [] ∧ fraction = []
    · simp [hempty]
    · have hcondition : (whole.isEmpty && fraction.isEmpty) = false := by
        simpa using hempty
      simp [hcondition, hpart, hempty, hpoint]

/-- A number is read exactly if its mantissa has a digit and no more than one point. -/
theorem read?_isSome_iff {mantissa : List Char} (nonempty : mantissa ≠ [])
    (chars : ∀ c ∈ mantissa, isNumberChar c = true) :
    (Decimal.read? (mantissa ++ exponent)).isSome = true ↔
      mantissa.any Char.isDigit = true ∧ mantissa.count '.' ≤ 1 := by
  by_cases hpoint : '.' ∈ mantissa
  · obtain ⟨whole, fraction, rfl, hwhole⟩ := List.eq_append_cons_of_mem hpoint
    have hdigits : ∀ c ∈ whole, c.isDigit = true :=
      isDigit_of_not_mem (fun c hc => chars c (List.mem_append_left _ hc)) hwhole
    have hfraction : ∀ c ∈ fraction, isNumberChar c = true := fun c hc =>
      chars c (List.mem_append_right _ (List.mem_cons_of_mem _ hc))
    have hcount : (whole ++ '.' :: fraction).count '.' ≤ 1 ↔ '.' ∉ fraction := by
      rw [List.count_append, List.count_cons_self, List.count_eq_zero_of_not_mem hwhole,
        ← List.count_eq_zero]
      omega
    rw [List.append_assoc, List.cons_append, read?_point hexponent hdigits hfraction, hcount,
      and_comm]
    refine and_congr_left fun hsingle => ⟨fun hsome => ?_, ?_⟩
    · have hne : whole ++ fraction ≠ [] := by simpa using hsome
      obtain ⟨d, hd⟩ := List.exists_mem_of_ne_nil _ hne
      refine List.any_eq_true.2 ⟨d, ?_, ?_⟩
      · simp only [List.mem_append, List.mem_cons] at hd ⊢
        tauto
      · rcases List.mem_append.1 hd with hd | hd
        · exact hdigits d hd
        · exact isDigit_of_not_mem hfraction hsingle d hd
    · rintro hany ⟨rfl, rfl⟩
      exact absurd hany (by decide)
  · have hdigits : ∀ c ∈ mantissa, c.isDigit = true := isDigit_of_not_mem chars hpoint
    have hcount : mantissa.count '.' = 0 := List.count_eq_zero_of_not_mem hpoint
    obtain ⟨d, hd⟩ := List.exists_mem_of_ne_nil mantissa nonempty
    have hany : mantissa.any Char.isDigit = true := List.any_eq_true.2 ⟨d, hd, hdigits d hd⟩
    simp [read?_digits hexponent nonempty hdigits, hany, hcount]

end Mantissa

namespace Lexeme

variable {l : Lexeme} {rest : List Char}

/-- Of the lexemes of a text only numbers without a digit or with more than one point are no
tokens. -/
theorem token?_eq_none_iff (h : l.EndsBefore rest) : l.token? = none ↔ l.isInvalid = true := by
  have hnumber : ∀ mantissa exponent : List Char, mantissa ≠ [] →
      (∀ c ∈ mantissa, isNumberChar c = true) → (exponent = [] ∨ IsExponent exponent) →
      ((number mantissa exponent).token? = none ↔ (number mantissa exponent).isInvalid = true) := by
    intro mantissa exponent nonempty chars hexponent
    have hread := read?_isSome_iff hexponent nonempty chars
    rw [token?, isInvalid, Option.map_eq_none_iff, ← Option.not_isSome_iff_eq_none, hread,
      Bool.or_eq_true, decide_eq_true_eq, not_and_or, Nat.not_le, Bool.not_eq_true,
      Bool.not_eq_true']
  cases h with
  | symbol listed =>
    obtain ⟨t, ht⟩ := Option.isSome_iff_exists.1 listed
    simp [token?, isInvalid, ht]
  | name named ends => simp [token?, isInvalid]
  | number nonempty chars ends plain => exact hnumber _ _ nonempty chars (.inl rfl)
  | scientific nonempty chars scale ends => exact hnumber _ _ nonempty chars (.inr scale)

theorem EndsBefore.chars_ne_nil (h : l.EndsBefore rest) : l.chars ≠ [] := by
  cases h with
  | symbol listed => exact List.cons_ne_nil _ _
  | name named ends =>
    obtain ⟨c, cs, rfl, -⟩ := named.exists_cons
    exact List.cons_ne_nil _ _
  | number nonempty chars ends plain => simpa [Lexeme.chars] using nonempty
  | scientific nonempty chars scale ends => simp [Lexeme.chars, nonempty]

theorem length_lt_of_first? {cs : List Char} (h : first? cs = some (l, rest)) :
    rest.length < cs.length := by
  obtain ⟨rfl, hends⟩ := first?_eq_some_iff.1 h
  have hpositive := List.length_pos_of_ne_nil hends.chars_ne_nil
  rw [List.length_append]
  omega

theorem mem_of_first? {cs : List Char} (h : first? cs = some (l, rest)) {c : Char} (hc : c ∈ rest) :
    c ∈ cs := by
  obtain ⟨rfl, -⟩ := first?_eq_some_iff.1 h
  exact List.mem_append_right _ hc

/-- A lexeme may also stand before a blank or at the end of the text. -/
theorem EndsBefore.of_blank {after : List Char} (h : l.EndsBefore rest)
    (blank : ∀ c ∈ after.head?, c = ' ') : l.EndsBefore after := by
  cases h with
  | symbol listed => exact .symbol listed
  | name named ends =>
    refine .name named fun c hc => ?_
    rw [blank c hc]
    decide
  | number nonempty chars ends plain =>
    refine .number nonempty chars (fun c hc => ?_) ?_
    · rw [blank c hc]
      decide
    · rintro exponent more ⟨mark, sign, digits, rfl, hmark, -⟩ rfl
      obtain rfl := blank mark rfl
      rcases hmark with h | h <;> cases h
  | scientific nonempty chars scale ends =>
    refine .scientific nonempty chars scale fun c hc => ?_
    rw [blank c hc]
    decide

end Lexeme

/-! ## Bytes -/

theorem IsExponent.isAllowed {cs : List Char} (h : IsExponent cs) :
    ∀ c ∈ cs, isAllowed c = true := by
  obtain ⟨mark, sign, digits, rfl, hmark, hsign, -, hdigits⟩ := h
  intro c hc
  rcases List.mem_cons.1 hc with rfl | hc
  · rcases hmark with rfl | rfl <;> decide
  · rcases List.mem_append.1 hc with hc | hc
    · have hall : [[], ['+'], ['-']].all (fun sign => sign.all Formula.isAllowed) = true := by decide
      exact List.all_eq_true.1 (List.all_eq_true.1 hall sign hsign) c hc
    · exact isAllowed_of_isNumberChar (isNumberChar_of_isDigit (hdigits c hc))

/-- Lexemes are made of characters of the language. -/
theorem Lexeme.EndsBefore.isAllowed {l : Lexeme} {rest : List Char} (h : l.EndsBefore rest) :
    ∀ c ∈ l.chars, isAllowed c = true := by
  intro c hc
  cases h with
  | symbol listed =>
    obtain ⟨t, ht⟩ := Option.isSome_iff_exists.1 listed
    obtain rfl := List.mem_singleton.1 hc
    exact isAllowed_of_ofSymbol? ht
  | name named ends => simp [Formula.isAllowed, named.chars c hc]
  | number nonempty chars ends plain =>
    exact isAllowed_of_isNumberChar (chars c (by simpa [Lexeme.chars] using hc))
  | scientific nonempty chars scale ends =>
    rcases List.mem_append.1 hc with hc | hc
    · exact isAllowed_of_isNumberChar (chars c hc)
    · exact scale.isAllowed c hc

/-- The characters of the language take one byte each. -/
theorem utf8Size_of_isAllowed {c : Char} (h : isAllowed c = true) : c.utf8Size = 1 := by
  let others := ['_', ' ', '\t', '\n', '\x0c', '\r', '+', '-', '*', '/', '(', ')', '.', ',']
  have hcases : c.isAlphanum = true ∨ c ∈ others := by
    simp only [isAllowed, isNameChar, Text.isAsciiBlank, Bool.or_eq_true, beq_iff_eq,
      List.contains_iff_mem, List.mem_cons, others] at h ⊢
    tauto
  rw [Char.utf8Size_eq_one_iff, UInt32.le_iff_toNat_le]
  rcases hcases with h | h
  · simp only [Char.isAlphanum, Char.isAlpha, Char.isUpper, Char.isLower, Char.isDigit,
      Bool.or_eq_true, Bool.and_eq_true, decide_eq_true_eq, UInt32.le_iff_toNat_le] at h
    have hZ : ('Z' : Char).val.toNat = 90 := rfl
    have hz : ('z' : Char).val.toNat = 122 := rfl
    have h9 : ('9' : Char).val.toNat = 57 := rfl
    have h127 : (127 : UInt32).toNat = 127 := rfl
    omega
  · have hall : others.all (fun d => decide (d.val.toNat ≤ 127)) = true := by decide
    exact of_decide_eq_true (List.all_eq_true.1 hall c h)

theorem utf8Len_of_isAllowed {cs : List Char} (h : ∀ c ∈ cs, isAllowed c = true) :
    String.utf8Len cs = cs.length := by
  induction cs with
  | nil => rfl
  | cons c cs ih =>
    rw [String.utf8Len_cons, ih fun d hd => h d (List.mem_cons_of_mem c hd),
      utf8Size_of_isAllowed (h c List.mem_cons_self), List.length_cons]

theorem Lexeme.EndsBefore.utf8ByteSize {l : Lexeme} {rest : List Char} (h : l.EndsBefore rest) :
    (String.ofList l.chars).utf8ByteSize = l.chars.length := by
  rw [String.utf8ByteSize_ofList, utf8Len_of_isAllowed h.isAllowed]

end QuantitySurvey.Formula
