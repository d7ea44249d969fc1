import Mathlib
import QuantitySurvey.Json.Reading
import QuantitySurvey.Json.Writing

/-! # Strings and numbers of JSON texts

The leaves of a document read back: every string as itself, every whole number as the value of its
digits. For doubles this is not so without exception, so `IsFaithful` says it of one double; a
double that is not finite is written as `null`.

* `stringFrom_flatMap`: a string is read up to its closing quote.
* `number?_append`: a number is read in the same way whatever text comes after it.
* `number?_writtenInteger`: the digits of a whole number.
-/

set_option autoImplicit false

namespace QuantitySurvey

/-! ## Hexadecimal digits -/

namespace Text

theorem hexValue?_digitChar {d : Nat} (h : d < 16) : hexValue? (Nat.digitChar d) = some d := by
  have hall : ∀ d < 16, hexValue? (Nat.digitChar d) = some d := by decide
  exact hall d h

theorem hexNumber?_append_singleton (cs : List Char) (c : Char) :
    hexNumber? (cs ++ [c])
      = (hexNumber? cs).bind fun n => (hexValue? c).map fun d => 16 * n + d := by
  unfold hexNumber?
  rw [List.foldl_append]
  generalize List.foldl _ _ cs = n
  cases n with
  | none => rfl
  | some n => cases hd : hexValue? c <;> simp [hd]

/-- The last digits of a number stand for its remainder. -/
theorem hexNumber?_hexDigits (width n : Nat) :
    hexNumber? (hexDigits width n) = some (n % 16 ^ width) := by
  induction width generalizing n with
  | zero => simp [hexDigits, hexNumber?, Nat.mod_one]
  | succ width ih =>
    rw [hexDigits, hexNumber?_append_singleton, ih, hexValue?_digitChar (Nat.mod_lt _ (by decide))]
    simp only [Option.bind_some, Option.map_some, Option.some.injEq]
    rw [Nat.pow_succ, Nat.mul_comm (16 ^ width) 16, Nat.mod_mul]
    omega

theorem length_hexDigits (width n : Nat) : (hexDigits width n).length = width := by
  induction width generalizing n with
  | zero => rfl
  | succ width ih => simp [hexDigits, ih]

end Text

namespace Json

namespace Reader

/-! ## Strings -/

theorem hexUnit?_hexDigits {n : Nat} (h : n < 65536) (rest : List Char) :
    hexUnit? (Text.hexDigits 4 n ++ rest) = some (n, rest) := by
  have htake : (Text.hexDigits 4 n ++ rest).take 4 = Text.hexDigits 4 n := by
    rw [List.take_append_of_le_length (Nat.le_of_eq (Text.length_hexDigits 4 n).symm)]
    exact List.take_of_length_le (Nat.le_of_eq (Text.length_hexDigits 4 n))
  have hdrop : (Text.hexDigits 4 n ++ rest).drop 4 = rest :=
    List.drop_left' (Text.length_hexDigits 4 n)
  have hmod : n % 16 ^ 4 = n := Nat.mod_eq_of_lt h
  unfold hexUnit?
  rw [htake, hdrop, Text.length_hexDigits, Text.hexNumber?_hexDigits, hmod]
  rfl

/-- A character is read back from its form inside a string. -/
theorem stringFrom_escapedChar (c : Char) (steps : Nat) (rest : List Char)
    (found : Option (List Char)) :
    stringFrom (steps + 1) (escapedChar c ++ rest) found
      = stringFrom steps rest (found.map (c :: ·)) := by
  unfold escapedChar
  by_cases hquote : c = '"'
  · subst hquote
    rfl
  by_cases hback : c = '\\'
  · subst hback
    rfl
  by_cases h8 : c = '\x08'
  · subst h8
    rfl
  by_cases hc : c = '\x0c'
  · subst hc
    rfl
  by_cases hn : c = '\n'
  · subst hn
    rfl
  by_cases hr : c = '\r'
  · subst hr
    rfl
  by_cases ht : c = '\t'
  · subst ht
    rfl
  simp only [hquote, hback, h8, hc, hn, hr, ht, if_false]
  by_cases hcontrol : c < ' '
  · -- a control character is below the halves of surrogate pairs
    have hsmall : c.toNat < 32 := hcontrol
    have hunit := hexUnit?_hexDigits (show c.toNat < 65536 by omega) rest
    have hlow : (decide (c.toNat < 0xD800) || decide (0xDFFF < c.toNat)) = true := by
      simp only [Bool.or_eq_true, decide_eq_true_eq]
      omega
    have hchar : Char.ofNat c.toNat = c := Char.ofNat_toNat c
    rw [if_pos hcontrol]
    have hback : ¬ ('\\' < ' ') := by decide
    simp only [List.cons_append, stringFrom, hunit, hlow, hchar, hback, if_true, if_false,
      ne_eq, not_true_eq_false, Char.reduceEq]
  · rw [if_neg hcontrol]
    simp only [List.cons_append, List.nil_append, stringFrom, hquote, hback, hcontrol, ne_eq,
      not_false_eq_true, if_true, if_false]

theorem length_escapedChar_pos (c : Char) : 0 < (escapedChar c).length := by
  unfold escapedChar
  repeat' split
  all_goals simp

/-- A string is read up to its closing quote. -/
theorem stringFrom_flatMap (cs : List Char) (steps : Nat) (rest found : List Char)
    (hsteps : (cs.flatMap escapedChar).length < steps) :
    stringFrom steps (cs.flatMap escapedChar ++ '"' :: rest) (some found)
      = some (some (String.ofList (found.reverse ++ cs)), rest) := by
  induction cs generalizing steps found with
  | nil =>
    obtain ⟨steps, rfl⟩ : ∃ n, steps = n + 1 := ⟨steps - 1, by simp at hsteps; omega⟩
    simp [stringFrom]
  | cons c cs ih =>
    obtain ⟨steps, rfl⟩ : ∃ n, steps = n + 1 := ⟨steps - 1, by omega⟩
    have hpos := length_escapedChar_pos c
    rw [List.flatMap_cons, List.length_append] at hsteps
    rw [List.flatMap_cons, List.append_assoc, stringFrom_escapedChar, Option.map_some,
      ih steps (c :: found) (by omega)]
    simp

theorem string?_quoted (s : String) (rest : List Char) :
    string? (s.toList.flatMap escapedChar ++ '"' :: rest) = some (some s, rest) := by
  unfold string?
  rw [stringFrom_flatMap _ _ _ _ (by simp only [List.length_append, List.length_cons]; omega)]
  simp

/-! ## Numbers -/

/-- A text that no number goes on with. -/
def EndsNumber (rest : List Char) : Prop :=
  ∀ c ∈ rest.head?, c.isDigit = false ∧ c ≠ '.' ∧ c ≠ 'e' ∧ c ≠ 'E'

theorem endsNumber_nil : EndsNumber [] := by
  intro c hc
  cases hc

theorem EndsNumber.takeWhile_append {rest : List Char} (h : EndsNumber rest) (cs : List Char) :
    (cs ++ rest).takeWhile Char.isDigit = cs.takeWhile Char.isDigit := by
  induction cs with
  | nil =>
    cases rest with
    | nil => rfl
    | cons c rest => simp [(h c (by simp)).1]
  | cons c cs ih => cases hc : c.isDigit <;> simp [hc, ih]

theorem EndsNumber.dropWhile_append {rest : List Char} (h : EndsNumber rest) (cs : List Char) :
    (cs ++ rest).dropWhile Char.isDigit = cs.dropWhile Char.isDigit ++ rest := by
  induction cs with
  | nil =>
    cases rest with
    | nil => rfl
    | cons c rest => simp [(h c (by simp)).1]
  | cons c cs ih => cases hc : c.isDigit <;> simp [hc, ih]

section Append

variable {cs : List Char} {rest : List Char} (hrest : EndsNumber rest)
include hrest

theorem digits?_append {ds after : List Char} (h : digits? cs = some (ds, after)) :
    digits? (cs ++ rest) = some (ds, after ++ rest) := by
  unfold digits? at h ⊢
  rw [hrest.takeWhile_append, hrest.dropWhile_append]
  dsimp only at h ⊢
  split at h
  · cases h
  · next hne =>
    cases h
    rw [if_neg hne]

theorem whole?_append {ds after : List Char} (h : whole? cs = some (ds, after)) :
    whole? (cs ++ rest) = some (ds, after ++ rest) := by
  unfold whole? at h ⊢
  obtain ⟨hdigits, hzero⟩ := Option.filter_eq_some_iff.1 h
  rw [digits?_append hrest hdigits]
  exact Option.filter_eq_some_iff.2 ⟨rfl, hzero⟩

theorem fraction?_append {ds : Option (List Char)} {after : List Char}
    (h : fraction? cs = some (ds, after)) :
    fraction? (cs ++ rest) = some (ds, after ++ rest) := by
  cases cs with
  | nil =>
    cases h
    cases rest with
    | nil => rfl
    | cons c rest =>
      have hdot := (hrest c (by simp)).2.1
      simp [fraction?, hdot]
  | cons c cs =>
    by_cases hdot : c = '.'
    · subst hdot
      simp only [fraction?, Option.map_eq_some_iff] at h
      obtain ⟨⟨ds', after'⟩, hdigits, heq⟩ := h
      cases heq
      simp [fraction?, digits?_append hrest hdigits]
    · have hsame : ∀ cs', fraction? (c :: cs') = some (none, c :: cs') := by
        intro cs'
        simp [fraction?, hdot]
      rw [hsame] at h
      cases h
      exact hsame _

theorem exponent?_append {ds : Option (Bool × List Char)} {after : List Char}
    (h : exponent? cs = some (ds, after)) :
    exponent? (cs ++ rest) = some (ds, after ++ rest) := by
  cases cs with
  | nil =>
    cases h
    cases rest with
    | nil => rfl
    | cons c rest =>
      obtain ⟨-, -, he, hE⟩ := hrest c (by simp)
      simp [exponent?, he, hE]
  | cons c cs =>
    by_cases hmark : c = 'e' || c = 'E'
    · simp only [exponent?, hmark, if_true, Option.map_eq_some_iff] at h
      obtain ⟨⟨ds', after'⟩, hdigits, heq⟩ := h
      cases heq
      have hsigned : Decimal.signed (cs ++ rest)
          = ((Decimal.signed cs).1, (Decimal.signed cs).2 ++ rest) := by
        cases cs with
        | nil => simp [Decimal.signed, digits?] at hdigits
        | cons d cs =>
          by_cases hminus : d = '-'
          · subst hminus
            rfl
          · by_cases hplus : d = '+'
            · subst hplus
              rfl
            · simp [Decimal.signed, hminus, hplus]
      simp [exponent?, hmark, hsigned, digits?_append hrest hdigits]
    · simp only [exponent?, hmark] at h
      cases h
      simp [exponent?, hmark]

/-- A number is read in the same way whatever comes after it. -/
theorem number?_append {j : Json} {after : List Char} (h : number? cs = some (j, after)) :
    number? (cs ++ rest) = some (j, after ++ rest) := by
  cases cs with
  | nil => cases h
  | cons c cs =>
    simp only [number?, Option.bind_eq_bind, Option.bind_eq_some_iff] at h
    obtain ⟨⟨ds, cs₁⟩, hwhole, ⟨fraction, cs₂⟩, hfraction, ⟨exponent, cs₃⟩, hexponent, heq⟩ := h
    cases heq
    have hdrop : (if (c :: cs ++ rest).head? == some '-' then (c :: cs ++ rest).drop 1
        else c :: cs ++ rest)
          = (if (c :: cs).head? == some '-' then (c :: cs).drop 1 else c :: cs) ++ rest := by
      by_cases hminus : c = '-'
      · subst hminus
        rfl
      · simp [hminus]
    simp only [number?, hdrop, whole?_append hrest hwhole, fraction?_append hrest hfraction,
      exponent?_append hrest hexponent, Option.bind_eq_bind, Option.bind_some]
    rfl

end Append

end Reader

/-! ## Whole numbers -/

theorem isDigit_of_mem_digits {n : Nat} {c : Char} (h : c ∈ Decimal.digits n) :
    c.isDigit = true :=
  Nat.isDigit_of_mem_toDigits (by decide) (by decide) h

theorem natural_digits (n : Nat) : Decimal.natural (Decimal.digits n) = n :=
  Nat.ofDigitChars_ten_toDigits

theorem eq_zero_of_head_digits {n : Nat} (h : (Decimal.digits n).head? = some '0') : n = 0 := by
  induction n using Nat.strongRecOn with
  | ind n ih =>
    by_cases hn : n < 10
    · rw [Decimal.digits, Nat.toDigits_of_lt_base hn] at h
      have hall : ∀ n < 10, [Nat.digitChar n].head? = some '0' → n = 0 := by decide
      exact hall n hn h
    · have hge : 10 ≤ n := by omega
      rw [Decimal.digits, Nat.toDigits_of_base_le (by decide) hge, List.head?_append] at h
      have hhead : (Nat.toDigits 10 (n / 10)).head? = some '0' := by
        cases hds : Nat.toDigits 10 (n / 10) with
        | nil => exact absurd hds Nat.toDigits_ne_nil
        | cons d ds => simpa [hds] using h
      have hzero := ih (n / 10) (by omega) hhead
      omega

namespace Reader

theorem whole?_digits (n : Nat) :
    whole? (Decimal.digits n) = some (Decimal.digits n, []) := by
  have htake : (Decimal.digits n).takeWhile Char.isDigit = Decimal.digits n :=
    List.takeWhile_eq_self_iff.2 fun c hc => isDigit_of_mem_digits hc
  have hdrop : (Decimal.digits n).dropWhile Char.isDigit = [] :=
    List.dropWhile_eq_nil_iff.2 fun c hc => isDigit_of_mem_digits hc
  have hne : Decimal.digits n ≠ [] := Nat.toDigits_ne_nil
  have hdigits : digits? (Decimal.digits n) = some (Decimal.digits n, []) := by
    simp [digits?, htake, hdrop, hne]
  unfold whole?
  rw [hdigits]
  refine Option.filter_eq_some_iff.2 ⟨rfl, ?_⟩
  by_cases hzero : (Decimal.digits n).head? = some '0'
  · obtain rfl := eq_zero_of_head_digits hzero
    rfl
  · simp [hzero]

/-- A whole number is read digit by digit. -/
theorem number?_writtenInteger (n : Int) :
    number? (writtenInteger n)
      = some (Numeral.value ⟨decide (n < 0), Decimal.digits n.natAbs, none, none⟩, []) := by
  by_cases hneg : n < 0
  · have hminus : writtenInteger n = '-' :: Decimal.digits n.natAbs := if_pos hneg
    rw [hminus, number?]
    simp [whole?_digits, fraction?, exponent?, hneg]
  · have hplain : writtenInteger n = Decimal.digits n.natAbs := if_neg hneg
    have hhead : ((Decimal.digits n.natAbs).head? == some '-') = false := by
      rw [beq_eq_false_iff_ne]
      intro h
      have hdigit := isDigit_of_mem_digits (List.mem_of_mem_head? h)
      exact absurd hdigit (by decide)
    rw [hplain, number?, hhead]
    simp [whole?_digits, fraction?, exponent?, hneg]

end Reader

/-- A count in the range of 64-bit words is read as itself. -/
theorem value_natural {n : Nat} (h : n < UInt64.size) :
    Numeral.value ⟨false, Decimal.digits n, none, none⟩ = .integer n := by
  have hmax : n ≤ maxWord := by
    have hsize : UInt64.size = maxWord + 1 := rfl
    omega
  simp [Numeral.value, natural_digits, hmax]

/-! ## Doubles -/

/-- The text of a double is read back as that double. -/
def IsFaithful (x : Float) : Prop :=
  Reader.number? (Decimal.document.finite x) = some (.number x, [])

/-- Whether a double is what its text is read as. -/
def readsBack (x : Float) : Bool :=
  match Reader.number? (Decimal.document.finite x) with
  | some (.number y, []) => y = x
  | _ => false

theorem readsBack_iff {x : Float} : readsBack x = true ↔ IsFaithful x := by
  unfold readsBack IsFaithful
  constructor
  · intro h
    split at h
    · next y hy =>
      rw [hy, of_decide_eq_true h]
    · cases h
  · intro h
    rw [h]
    exact decide_eq_true rfl

instance (x : Float) : Decidable (IsFaithful x) :=
  decidable_of_iff _ readsBack_iff

end Json

end QuantitySurvey
