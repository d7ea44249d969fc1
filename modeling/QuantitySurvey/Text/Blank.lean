/-! # Blank characters

Two classes of blank characters are in use. Free text (parameter values, unit names, stored
lines) is trimmed of the `White_Space` characters of Unicode; formulas and the tail of a line
file know the five ASCII blanks only. `trim_eq_nil_iff` says that trimming leaves nothing of a
text exactly when all of it is blank. -/

set_option autoImplicit false

namespace QuantitySurvey.Text

/-! ## The two classes -/

/-- The Unicode property `White_Space`: 25 characters. -/
def isBlank (c : Char) : Bool :=
  let n := c.toNat
  (0x09 ≤ n && n ≤ 0x0D) || n == 0x20 || n == 0x85 || n == 0xA0 || n == 0x1680
    || (0x2000 ≤ n && n ≤ 0x200A) || n == 0x2028 || n == 0x2029 || n == 0x202F
    || n == 0x205F || n == 0x3000

/-- Space, tab, line feed, form feed and carriage return. -/
def isAsciiBlank (c : Char) : Bool :=
  c == ' ' || c == '\t' || c == '\n' || c == '\x0c' || c == '\r'

theorem isBlank_of_isAsciiBlank {c : Char} (h : isAsciiBlank c = true) : isBlank c = true := by
  simp only [isAsciiBlank, Bool.or_eq_true, beq_iff_eq] at h
  rcases h with (((h | h) | h) | h) | h <;> subst h <;> decide

/-! ## Trimming -/

/-- The text from its first character outside the class on. -/
def trimStart (blank : Char → Bool) (cs : List Char) : List Char :=
  cs.dropWhile blank

/-- The text up to its last character outside the class. -/
def trimEnd (blank : Char → Bool) (cs : List Char) : List Char :=
  (cs.reverse.dropWhile blank).reverse

def trim (cs : List Char) : List Char :=
  trimEnd isBlank (trimStart isBlank cs)

def trimmed (s : String) : String :=
  String.ofList (trim s.toList)

def allBlank (s : String) : Bool :=
  s.toList.all isBlank

theorem trimStart_eq_nil_iff (blank : Char → Bool) (cs : List Char) :
    trimStart blank cs = [] ↔ ∀ c ∈ cs, blank c = true := by
  unfold trimStart
  induction cs with
  | nil => simp
  | cons c cs ih => by_cases hc : blank c = true <;> simp [hc, ih]

theorem trimEnd_eq_nil_iff (blank : Char → Bool) (cs : List Char) :
    trimEnd blank cs = [] ↔ ∀ c ∈ cs, blank c = true := by
  have h := trimStart_eq_nil_iff blank cs.reverse
  simp only [trimStart, List.mem_reverse] at h
  simpa only [trimEnd, List.reverse_eq_nil_iff] using h

theorem mem_of_mem_trimStart {blank : Char → Bool} {cs : List Char} {c : Char}
    (h : c ∈ trimStart blank cs) : c ∈ cs :=
  (List.dropWhile_sublist _).mem h

theorem trim_eq_nil_iff (cs : List Char) : trim cs = [] ↔ ∀ c ∈ cs, isBlank c = true := by
  rw [trim, trimEnd_eq_nil_iff]
  constructor
  · intro h
    refine (trimStart_eq_nil_iff isBlank cs).1 ?_
    cases hcs : trimStart isBlank cs with
    | nil => rfl
    | cons c rest =>
      have hc : isBlank c = false := by
        have := List.head?_dropWhile_not isBlank cs
        unfold trimStart at hcs
        rw [hcs] at this
        simpa using this
      have := h c (by rw [hcs]; exact List.mem_cons_self)
      rw [hc] at this
      cases this
  · exact fun h c hc => h c (mem_of_mem_trimStart hc)

/-! ## Lower case -/

/-- The text with `A` to `Z` in lower case. -/
def lowered (cs : List Char) : List Char :=
  cs.map Char.toLower

end QuantitySurvey.Text
