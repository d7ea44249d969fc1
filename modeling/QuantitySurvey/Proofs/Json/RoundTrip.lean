import QuantitySurvey.Proofs.Json.Leaves

/-! # Reading what was written

The compact and the indented form of a value are two layouts of one text, which differ in blanks
only. The reader skips the blanks, so both are read as `asRead` of the value: the value itself, but
for doubles that are not finite, which became `null`.

* `compact_eq_laid`, `indented_eq_laid`: both forms are layouts.
* `value?_laid`: a layout is read up to its end.
* `read?_page`, `read?_text`: a document is read as `asRead` of its value.
-/

set_option autoImplicit false

namespace QuantitySurvey.Json

open Reader

/-! ## Layouts -/

/-- The blanks of a text. -/
structure Layout where
  /-- What stands before an element or member, and before the bracket after the last. -/
  line : Nat → List Char
  colon : List Char
  line_blank : ∀ level, (line level).all isSpace
  colon_blank : colon.all isSpace

/-- No blanks. -/
def Layout.compact : Layout where
  line := fun _ => []
  colon := []
  line_blank := fun _ => rfl
  colon_blank := rfl

/-- A line for each element and member. -/
def Layout.indented : Layout where
  line := newLine
  colon := [' ']
  line_blank := by
    intro level
    rw [newLine, List.all_cons, List.all_replicate]
    simp [isSpace]
  colon_blank := rfl

mutual

/-- The text of a value in a layout. -/
def laid (l : Layout) (level : Nat) : Json → List Char
  | null | unreadable => "null".toList
  | boolean b => if b then "true".toList else "false".toList
  | integer n => writtenInteger n
  | number x => writtenNumber x
  | string s => quoted s
  | array [] => ['[', ']']
  | array (j :: rest) =>
    '[' :: (l.line (level + 1) ++ (laid l (level + 1) j ++ laidElements l level rest))
  | object [] => ['\x7b', '\x7d']
  | object ((k, j) :: rest) =>
    '\x7b' :: (l.line (level + 1) ++ (quoted k ++ ':' :: (l.colon ++ (laid l (level + 1) j
      ++ laidMembers l level rest))))

def laidElements (l : Layout) (level : Nat) : List Json → List Char
  | [] => l.line level ++ [']']
  | j :: rest =>
    ',' :: (l.line (level + 1) ++ (laid l (level + 1) j ++ laidElements l level rest))

def laidMembers (l : Layout) (level : Nat) : List (String × Json) → List Char
  | [] => l.line level ++ ['\x7d']
  | (k, j) :: rest =>
    ',' :: (l.line (level + 1) ++ (quoted k ++ ':' :: (l.colon ++ (laid l (level + 1) j
      ++ laidMembers l level rest))))

end

mutual

theorem compact_eq_laid (level : Nat) : ∀ j : Json, j.compact = laid .compact level j
  | null | unreadable | boolean _ | integer _ | number _ | string _ => by
    simp only [compact, laid]
  | array [] => by simp only [compact, laid]
  | array (j :: rest) => by
    rw [compact, laid, compact_eq_laid (level + 1) j, compactElements_eq_laid level rest]
    simp [Layout.compact]
  | object [] => by simp only [compact, laid]
  | object ((k, j) :: rest) => by
    rw [compact, laid, compact_eq_laid (level + 1) j, compactMembers_eq_laid level rest]
    simp [Layout.compact]

theorem compactElements_eq_laid (level : Nat) :
    ∀ js : List Json, compactElements js = laidElements .compact level js
  | [] => by simp [compactElements, laidElements, Layout.compact]
  | j :: rest => by
    rw [compactElements, laidElements, compact_eq_laid (level + 1) j,
      compactElements_eq_laid level rest]
    simp [Layout.compact]

theorem compactMembers_eq_laid (level : Nat) :
    ∀ ms : List (String × Json), compactMembers ms = laidMembers .compact level ms
  | [] => by simp [compactMembers, laidMembers, Layout.compact]
  | (k, j) :: rest => by
    rw [compactMembers, laidMembers, compact_eq_laid (level + 1) j,
      compactMembers_eq_laid level rest]
    simp [Layout.compact]

end

mutual

theorem indented_eq_laid (level : Nat) : ∀ j : Json, j.indented level = laid .indented level j
  | null | unreadable | boolean _ | integer _ | number _ | string _ => by
    simp only [indented, laid]
  | array [] => by simp only [indented, laid]
  | array (j :: rest) => by
    rw [indented, laid, indented_eq_laid (level + 1) j, indentedElements_eq_laid level rest]
    simp [Layout.indented]
  | object [] => by simp only [indented, laid]
  | object ((k, j) :: rest) => by
    rw [indented, laid, indented_eq_laid (level + 1) j, indentedMembers_eq_laid level rest]
    simp [Layout.indented]

theorem indentedElements_eq_laid (level : Nat) :
    ∀ js : List Json, indentedElements level js = laidElements .indented level js
  | [] => by simp [indentedElements, laidElements, Layout.indented]
  | j :: rest => by
    rw [indentedElements, laidElements, indented_eq_laid (level + 1) j,
      indentedElements_eq_laid level rest]
    simp [Layout.indented]

theorem indentedMembers_eq_laid (level : Nat) :
    ∀ ms : List (String × Json), indentedMembers level ms = laidMembers .indented level ms
  | [] => by simp [indentedMembers, laidMembers, Layout.indented]
  | (k, j) :: rest => by
    rw [indentedMembers, laidMembers, indented_eq_laid (level + 1) j,
      indentedMembers_eq_laid level rest]
    simp [Layout.indented]

end

/-! ## What is read -/

mutual

/-- What a written value is read as. -/
def asRead : Json → Json
  | integer n => Numeral.value ⟨decide (n < 0), Decimal.digits n.natAbs, none, none⟩
  | number x => if x.isFinite then .number x else .null
  | array elements => .array (asReadElements elements)
  | object members => .object (asReadMembers members)
  | unreadable => .null
  | j => j

def asReadElements : List Json → List Json
  | [] => []
  | j :: rest => j.asRead :: asReadElements rest

def asReadMembers : List (String × Json) → List (String × Json)
  | [] => []
  | (k, j) :: rest => (k, j.asRead) :: asReadMembers rest

end

mutual

def numbers : Json → List Float
  | number x => [x]
  | array elements => numbersOf elements
  | object members => membersNumbers members
  | _ => []

def numbersOf : List Json → List Float
  | [] => []
  | j :: rest => j.numbers ++ numbersOf rest

def membersNumbers : List (String × Json) → List Float
  | [] => []
  | (_, j) :: rest => j.numbers ++ membersNumbers rest

end

/-- Finite doubles that are read back as themselves. -/
def AreFaithful (xs : List Float) : Prop := ∀ x ∈ xs, x.isFinite = true → IsFaithful x

instance (xs : List Float) : Decidable (AreFaithful xs) := by
  unfold AreFaithful
  infer_instance

theorem AreFaithful.left {xs ys : List Float} (h : AreFaithful (xs ++ ys)) : AreFaithful xs :=
  fun x hx => h x (List.mem_append_left _ hx)

theorem AreFaithful.right {xs ys : List Float} (h : AreFaithful (xs ++ ys)) : AreFaithful ys :=
  fun x hx => h x (List.mem_append_right _ hx)

/-! ## Blanks and first characters -/

theorem skipSpace_append {blanks : List Char} (h : blanks.all isSpace = true) (cs : List Char) :
    skipSpace (blanks ++ cs) = skipSpace cs := by
  unfold skipSpace
  exact List.dropWhile_append_of_pos (List.all_eq_true.1 h)

theorem skipSpace_cons {c : Char} (h : isSpace c = false) (cs : List Char) :
    skipSpace (c :: cs) = c :: cs := by
  simp [skipSpace, h]

theorem value?_skip {blanks : List Char} (h : blanks.all isSpace = true) (steps depth : Nat)
    (cs : List Char) : value? steps depth (blanks ++ cs) = value? steps depth cs := by
  cases steps with
  | zero => rfl
  | succ steps => rw [value?, value?, skipSpace_append h]

theorem members?_skip {blanks : List Char} (h : blanks.all isSpace = true) (steps depth : Nat)
    (cs : List Char) (found : List (Option String × Json)) :
    members? steps depth (blanks ++ cs) found = members? steps depth cs found := by
  cases steps with
  | zero => rfl
  | succ steps => rw [members?, members?, skipSpace_append h]

/-- A number starts with a digit or a minus. -/
theorem number?_head {c : Char} {cs : List Char} {r : Json × List Char}
    (h : number? (c :: cs) = some r) : c = '-' ∨ c.isDigit = true := by
  by_cases hminus : c = '-'
  · exact .inl hminus
  · right
    by_contra hdigit
    have hhead : ((c :: cs).head? == some '-') = false := by simpa using hminus
    have hnone : whole? (c :: cs) = none := by
      simp [whole?, digits?, hdigit]
    rw [number?, hhead] at h
    simp [hnone] at h

theorem value?_number {steps depth : Nat} {cs : List Char} {r : Json × List Char}
    (h : number? cs = some r) : value? (steps + 1) depth cs = some r := by
  cases cs with
  | nil => cases h
  | cons c cs =>
    have hother : ∀ d : Char, d ≠ '-' → d.isDigit = false → c ≠ d := by
      rintro d hd hdigit rfl
      rcases number?_head h with hc | hc
      · exact hd hc
      · rw [hc] at hdigit
        cases hdigit
    have hspace : isSpace c = false := by
      simp [isSpace, hother ' ' (by decide) (by decide), hother '\n' (by decide) (by decide),
        hother '\r' (by decide) (by decide), hother '\t' (by decide) (by decide)]
    rw [value?, skipSpace_cons hspace]
    have hquote := hother '"' (by decide) (by decide)
    have hbracket := hother '[' (by decide) (by decide)
    have hbrace := hother '\x7b' (by decide) (by decide)
    have hnull := hother 'n' (by decide) (by decide)
    have htrue := hother 't' (by decide) (by decide)
    have hfalse := hother 'f' (by decide) (by decide)
    simp [hquote, hbracket, hbrace, hnull, htrue, hfalse, h]

/-! ## Values -/

/-- Elements from the first one on. -/
def firstElements (l : Layout) (level : Nat) : List Json → List Char
  | [] => []
  | j :: rest => laid l (level + 1) j ++ laidElements l level rest

/-- Members from the first one on. -/
def firstMembers (l : Layout) (level : Nat) : List (String × Json) → List Char
  | [] => []
  | (k, j) :: rest =>
    quoted k ++ ':' :: (l.colon ++ (laid l (level + 1) j ++ laidMembers l level rest))

/-- Members as the reader collects them. -/
def keyed (ms : List (String × Json)) : List (Option String × Json) :=
  ms.map fun (k, j) => (some k, j)

theorem objectOf_keyed (ms : List (String × Json)) : objectOf (keyed ms) = .object ms := by
  have h : (keyed ms).mapM (fun m => m.1.map fun k => (k, m.2)) = some ms := by
    induction ms with
    | nil => rfl
    | cons m ms ih =>
      have hcons : keyed (m :: ms) = (some m.1, m.2) :: keyed ms := rfl
      rw [hcons, List.mapM_cons, ih]
      rfl
  unfold objectOf
  split
  · next ms' hread => rw [Option.some.inj (hread.symm.trans h)]
  · next hread => cases hread.symm.trans h

theorem nested_of_le {depth : Nat} (h : depth ≤ maxDepth) (j : Json) : nested depth j = j :=
  if_pos h

/-- No value starts with a blank or a closing bracket. -/
theorem laid_head (l : Layout) (level : Nat) (j : Json) (h : AreFaithful j.numbers) :
    ∃ c cs, laid l level j = c :: cs ∧ isSpace c = false ∧ c ≠ ']' := by
  have hnumber : ∀ {cs : List Char} {r : Json × List Char}, number? cs = some r →
      ∃ c cs', cs = c :: cs' ∧ isSpace c = false ∧ c ≠ ']' := by
    intro cs r hr
    cases cs with
    | nil => cases hr
    | cons c cs =>
      refine ⟨c, cs, rfl, ?_⟩
      rcases number?_head hr with rfl | hdigit
      · decide
      · have hother : ∀ d : Char, d.isDigit = false → c ≠ d := by
          rintro d hd rfl
          rw [hdigit] at hd
          cases hd
        simp [isSpace, hother ' ' rfl, hother '\n' rfl, hother '\r' rfl, hother '\t' rfl,
          hother ']' rfl]
  cases j with
  | null => exact ⟨'n', _, rfl, rfl, by decide⟩
  | unreadable => exact ⟨'n', _, rfl, rfl, by decide⟩
  | boolean b =>
    cases b
    · exact ⟨'f', _, rfl, rfl, by decide⟩
    · exact ⟨'t', _, rfl, rfl, by decide⟩
  | integer n =>
    rw [laid]
    exact hnumber (number?_writtenInteger n)
  | number x =>
    rw [laid, writtenNumber]
    by_cases hfinite : x.isFinite = true
    · rw [if_pos hfinite]
      exact hnumber (h x (by simp [numbers]) hfinite)
    · rw [if_neg hfinite]
      exact ⟨'n', _, rfl, rfl, by decide⟩
  | string s => exact ⟨'"', _, rfl, rfl, by decide⟩
  | array js =>
    cases js with
    | nil => exact ⟨'[', _, rfl, rfl, by decide⟩
    | cons j js => exact ⟨'[', _, by rw [laid], rfl, by decide⟩
  | object ms =>
    cases ms with
    | nil => exact ⟨'\x7b', _, rfl, rfl, by decide⟩
    | cons m ms => exact ⟨'\x7b', _, by rw [laid], rfl, by decide⟩

theorem endsNumber_cons {c : Char} (h : c.isDigit = false ∧ c ≠ '.' ∧ c ≠ 'e' ∧ c ≠ 'E')
    (rest : List Char) : EndsNumber (c :: rest) := by
  intro d hd
  cases hd
  exact h

theorem endsNumber_blank {blanks : List Char} (h : blanks.all isSpace = true) {c : Char}
    (hc : c.isDigit = false ∧ c ≠ '.' ∧ c ≠ 'e' ∧ c ≠ 'E') (rest : List Char) :
    EndsNumber (blanks ++ c :: rest) := by
  intro d hd
  cases blanks with
  | nil => exact endsNumber_cons hc rest d hd
  | cons b blanks =>
    have hb : isSpace b = true := by
      rw [List.all_cons, Bool.and_eq_true] at h
      exact h.1
    have hdb : b = d := by simpa using hd
    subst hdb
    simp only [isSpace, Bool.or_eq_true, beq_iff_eq] at hb
    rcases hb with ((rfl | rfl) | rfl) | rfl <;> decide

theorem endsNumber_laidElements (l : Layout) (level : Nat) (js : List Json) (rest : List Char) :
    EndsNumber (laidElements l level js ++ rest) := by
  cases js with
  | nil =>
    rw [laidElements, List.append_assoc]
    exact endsNumber_blank (l.line_blank level) (by decide) rest
  | cons j js =>
    rw [laidElements]
    exact endsNumber_cons (by decide) _

theorem endsNumber_laidMembers (l : Layout) (level : Nat) (ms : List (String × Json))
    (rest : List Char) : EndsNumber (laidMembers l level ms ++ rest) := by
  cases ms with
  | nil =>
    rw [laidMembers, List.append_assoc]
    exact endsNumber_blank (l.line_blank level) (by decide) rest
  | cons m ms =>
    rw [laidMembers]
    exact endsNumber_cons (by decide) _

theorem value?_string (s : String) (steps depth : Nat) (rest : List Char) :
    value? (steps + 1) depth (quoted s ++ rest) = some (.string s, rest) := by
  have hquoted : quoted s ++ rest = '"' :: (s.toList.flatMap escapedChar ++ '"' :: rest) := by
    simp [quoted]
  rw [hquoted, value?, skipSpace_cons rfl]
  simp only [string?_quoted]
  rfl

theorem length_quoted_pos (s : String) : 0 < (quoted s).length := by
  simp [quoted]

/-! ## Steps of the reader -/

section Steps

variable {blanks : List Char} (hblanks : blanks.all isSpace = true)
include hblanks

theorem elements?_skip (steps depth : Nat) (cs : List Char) (found : List Json) :
    elements? steps depth (blanks ++ cs) found = elements? steps depth cs found := by
  cases steps with
  | zero => rfl
  | succ steps => rw [elements?, elements?, value?_skip hblanks]

theorem value?_array {steps depth : Nat} {c : Char} {cs : List Char} (hspace : isSpace c = false)
    (hclose : c ≠ ']') : value? (steps + 1) depth ('[' :: (blanks ++ c :: cs))
      = elements? steps (depth + 1) (c :: cs) [] := by
  rw [value?, skipSpace_cons rfl]
  simp only [skipSpace_append hblanks, skipSpace_cons hspace]
  split
  · next heq =>
    cases heq
    exact absurd rfl hclose
  · rfl

theorem value?_object {steps depth : Nat} {cs : List Char} :
    value? (steps + 1) depth ('\x7b' :: (blanks ++ '"' :: cs))
      = members? steps (depth + 1) ('"' :: cs) [] := by
  rw [value?, skipSpace_cons rfl]
  simp only [skipSpace_append hblanks]
  rw [skipSpace_cons rfl]
  rfl

theorem elements?_last {steps depth : Nat} {j : Json} {cs rest : List Char} {found : List Json}
    (h : value? steps depth cs = some (j, blanks ++ ']' :: rest)) (hdepth : depth ≤ maxDepth) :
    elements? (steps + 1) depth cs found = some (.array (j :: found).reverse, rest) := by
  have hskip : skipSpace (']' :: rest) = ']' :: rest := skipSpace_cons rfl rest
  rw [elements?, h]
  simp only [skipSpace_append hblanks, hskip, nested_of_le hdepth]

theorem members?_last {steps depth : Nat} {k : String} {j : Json} {colon cs rest : List Char}
    {found : List (Option String × Json)} (hcolon : colon.all isSpace = true)
    (h : value? steps depth cs = some (j, blanks ++ '\x7d' :: rest)) (hdepth : depth ≤ maxDepth) :
    members? (steps + 1) depth (quoted k ++ ':' :: (colon ++ cs)) found
      = some (objectOf ((some k, j) :: found).reverse, rest) := by
  have hquoted : quoted k ++ ':' :: (colon ++ cs)
      = '"' :: (k.toList.flatMap escapedChar ++ '"' :: ':' :: (colon ++ cs)) := by
    simp [quoted]
  have hskip : skipSpace ('\x7d' :: rest) = '\x7d' :: rest := skipSpace_cons rfl rest
  rw [hquoted, members?, skipSpace_cons rfl]
  simp only [string?_quoted]
  rw [skipSpace_cons rfl]
  simp only [value?_skip hcolon, h, skipSpace_append hblanks, hskip, nested_of_le hdepth]

end Steps

theorem elements?_more {steps depth : Nat} {j : Json} {cs rest : List Char} {found : List Json}
    (h : value? steps depth cs = some (j, ',' :: rest)) :
    elements? (steps + 1) depth cs found = elements? steps depth rest (j :: found) := by
  rw [elements?, h]
  simp only
  rw [skipSpace_cons rfl]
  rfl

theorem members?_more {steps depth : Nat} {k : String} {j : Json} {colon cs rest : List Char}
    {found : List (Option String × Json)} (hcolon : colon.all isSpace = true)
    (h : value? steps depth cs = some (j, ',' :: rest)) :
    members? (steps + 1) depth (quoted k ++ ':' :: (colon ++ cs)) found
      = members? steps depth rest ((some k, j) :: found) := by
  have hquoted : quoted k ++ ':' :: (colon ++ cs)
      = '"' :: (k.toList.flatMap escapedChar ++ '"' :: ':' :: (colon ++ cs)) := by
    simp [quoted]
  rw [hquoted, members?, skipSpace_cons rfl]
  simp only [string?_quoted]
  rw [skipSpace_cons rfl]
  simp only [value?_skip hcolon, h]
  rw [skipSpace_cons rfl]
  rfl

theorem succ_of_length {cs : List Char} {steps : Nat} (hne : 0 < cs.length)
    (h : 2 * cs.length ≤ steps) : ∃ n, steps = n + 1 :=
  ⟨steps - 1, by omega⟩

theorem length_laid_pos (l : Layout) (level : Nat) (j : Json) (h : AreFaithful j.numbers) :
    0 < (laid l level j).length := by
  obtain ⟨c, cs, hlaid, -⟩ := laid_head l level j h
  rw [hlaid]
  exact Nat.succ_pos _

/-! ## Values that are laid out -/

theorem value?_writtenNumber {x : Float} (hfaithful : AreFaithful [x]) (steps depth : Nat)
    {rest : List Char} (hrest : EndsNumber rest) :
    value? (steps + 1) depth (writtenNumber x ++ rest)
      = some (if x.isFinite then .number x else .null, rest) := by
  rw [writtenNumber]
  by_cases hfinite : x.isFinite = true
  · rw [if_pos hfinite, if_pos hfinite]
    exact value?_number (number?_append hrest (hfaithful x (by simp) hfinite))
  · rw [if_neg hfinite, if_neg hfinite]
    rfl

theorem value?_laid_empty (l : Layout) (level steps : Nat) {depth : Nat}
    (hdepth : depth + 1 ≤ maxDepth) (rest : List Char) :
    value? (steps + 1) depth (laid l level (array []) ++ rest) = some (array [], rest) ∧
      value? (steps + 1) depth (laid l level (object []) ++ rest) = some (object [], rest) := by
  constructor
  · simp only [laid, List.cons_append, List.nil_append, value?]
    rw [skipSpace_cons rfl]
    simp only [skipSpace_cons (c := ']') rfl, nested_of_le hdepth]
  · simp only [laid, List.cons_append, List.nil_append, value?]
    rw [skipSpace_cons rfl]
    simp only [skipSpace_cons (c := '\x7d') rfl, nested_of_le hdepth]

/-- What is read of the elements is read of the array. -/
theorem value?_laid_array (l : Layout) {j : Json} {js : List Json} {level steps depth : Nat}
    {rest : List Char} {r : Option (Json × List Char)} (hnumbers : AreFaithful j.numbers)
    (h : elements? steps (depth + 1) (firstElements l level (j :: js) ++ rest) [] = r) :
    value? (steps + 1) depth (laid l level (array (j :: js)) ++ rest) = r := by
  obtain ⟨c, cs, hhead, hspace, hclose⟩ := laid_head l (level + 1) j hnumbers
  have hfirst : firstElements l level (j :: js) ++ rest
      = c :: (cs ++ (laidElements l level js ++ rest)) := by
    simp [firstElements, hhead]
  have htext : laid l level (array (j :: js)) ++ rest
      = '[' :: (l.line (level + 1) ++ c :: (cs ++ (laidElements l level js ++ rest))) := by
    simp [laid, hhead]
  rw [htext, value?_array (l.line_blank _) hspace hclose, ← hfirst, h]

/-- What is read of the members is read of the object. -/
theorem value?_laid_object (l : Layout) {m : String × Json} {ms : List (String × Json)}
    {level steps depth : Nat} {rest : List Char} {r : Option (Json × List Char)}
    (h : members? steps (depth + 1) (firstMembers l level (m :: ms) ++ rest) [] = r) :
    value? (steps + 1) depth (laid l level (object (m :: ms)) ++ rest) = r := by
  obtain ⟨k, j⟩ := m
  have hfirst : firstMembers l level ((k, j) :: ms) ++ rest
      = '"' :: (k.toList.flatMap escapedChar ++ '"' :: ':' :: (l.colon
        ++ (laid l (level + 1) j ++ (laidMembers l level ms ++ rest)))) := by
    simp [firstMembers, quoted]
  have htext : laid l level (object ((k, j) :: ms)) ++ rest
      = '\x7b' :: (l.line (level + 1) ++ '"' :: (k.toList.flatMap escapedChar ++ '"' :: ':'
        :: (l.colon ++ (laid l (level + 1) j ++ (laidMembers l level ms ++ rest))))) := by
    simp [laid, quoted]
  rw [htext, value?_object (l.line_blank _), ← hfirst, h]

/-! ## Documents -/

mutual

/-- A layout of a value is read up to its end. -/
theorem value?_laid (l : Layout) : ∀ (j : Json) (level steps depth : Nat) (rest : List Char),
    2 * (laid l level j).length ≤ steps → depth + j.height ≤ maxDepth →
    AreFaithful j.numbers → EndsNumber rest →
    value? steps depth (laid l level j ++ rest) = some (j.asRead, rest)
  | null, level, steps, depth, rest, hsteps, _, hnumbers, _
  | unreadable, level, steps, depth, rest, hsteps, _, hnumbers, _ => by
    obtain ⟨steps, rfl⟩ := succ_of_length (length_laid_pos l level _ hnumbers) hsteps
    rfl
  | boolean b, level, steps, depth, rest, hsteps, _, hnumbers, _ => by
    obtain ⟨steps, rfl⟩ := succ_of_length (length_laid_pos l level _ hnumbers) hsteps
    cases b <;> rfl
  | integer n, level, steps, depth, rest, hsteps, _, hnumbers, hrest => by
    obtain ⟨steps, rfl⟩ := succ_of_length (length_laid_pos l level _ hnumbers) hsteps
    rw [laid]
    exact value?_number (number?_append hrest (number?_writtenInteger n))
  | number x, level, steps, depth, rest, hsteps, _, hnumbers, hrest => by
    obtain ⟨steps, rfl⟩ := succ_of_length (length_laid_pos l level _ hnumbers) hsteps
    rw [laid, asRead]
    exact value?_writtenNumber hnumbers steps depth hrest
  | string s, level, steps, depth, rest, hsteps, _, hnumbers, _ => by
    obtain ⟨steps, rfl⟩ := succ_of_length (length_laid_pos l level _ hnumbers) hsteps
    rw [laid]
    exact value?_string s steps depth rest
  | array [], level, steps, depth, rest, hsteps, hdepth, hnumbers, _ => by
    obtain ⟨steps, rfl⟩ := succ_of_length (length_laid_pos l level _ hnumbers) hsteps
    simp only [height, heightOf] at hdepth
    exact (value?_laid_empty l level steps (by omega) rest).1
  | array (j :: js), level, steps, depth, rest, hsteps, hdepth, hnumbers, _ => by
    obtain ⟨steps, rfl⟩ := succ_of_length (length_laid_pos l level _ hnumbers) hsteps
    rw [height] at hdepth
    have hread := elements?_laid l (j :: js) level steps (depth + 1) rest [] (by simp)
      (by simp only [laid, firstElements, List.length_cons, List.length_append] at hsteps ⊢; omega)
      (by omega) hnumbers
    exact value?_laid_array l hnumbers.left hread
  | object [], level, steps, depth, rest, hsteps, hdepth, hnumbers, _ => by
    obtain ⟨steps, rfl⟩ := succ_of_length (length_laid_pos l level _ hnumbers) hsteps
    simp only [height, membersHeight] at hdepth
    exact (value?_laid_empty l level steps (by omega) rest).2
  | object (m :: ms), level, steps, depth, rest, hsteps, hdepth, hnumbers, _ => by
    obtain ⟨steps, rfl⟩ := succ_of_length (length_laid_pos l level _ hnumbers) hsteps
    rw [height] at hdepth
    have hread := members?_laid l (m :: ms) level steps (depth + 1) rest [] (by simp)
      (by
        simp only [laid, firstMembers, List.length_cons, List.length_append] at hsteps ⊢
        omega)
      (by omega) hnumbers
    rw [List.reverse_nil, List.nil_append, objectOf_keyed] at hread
    rw [asRead]
    exact value?_laid_object l hread

theorem elements?_laid (l : Layout) : ∀ (js : List Json) (level steps depth : Nat)
    (rest : List Char) (found : List Json), js ≠ [] →
    2 * (firstElements l level js).length ≤ steps → depth + heightOf js ≤ maxDepth →
    AreFaithful (numbersOf js) →
    elements? steps depth (firstElements l level js ++ rest) found
      = some (.array (found.reverse ++ asReadElements js), rest)
  | [], _, _, _, _, _, hne, _, _, _ => absurd rfl hne
  | j :: js, level, steps, depth, rest, found, _, hsteps, hdepth, hnumbers => by
    have hpos := length_laid_pos l (level + 1) j hnumbers.left
    simp only [firstElements, List.length_append] at hsteps
    simp only [heightOf] at hdepth
    obtain ⟨steps, rfl⟩ : ∃ n, steps = n + 1 := ⟨steps - 1, by omega⟩
    have hrest : 0 < (laidElements l level js).length := by
      cases js <;> simp [laidElements]
    have hvalue := value?_laid l j (level + 1) steps depth (laidElements l level js ++ rest)
      (by omega) (by omega) hnumbers.left (endsNumber_laidElements l level js rest)
    rw [firstElements, List.append_assoc]
    cases js with
    | nil =>
      rw [laidElements, List.append_assoc] at hvalue ⊢
      rw [elements?_last (l.line_blank level) hvalue (by omega)]
      simp [asReadElements]
    | cons j' js =>
      have hmore := elements?_laid l (j' :: js) level steps depth rest (j.asRead :: found)
        (by simp)
        (by
          simp only [laidElements, firstElements, List.length_cons, List.length_append]
            at hsteps ⊢
          omega)
        (by omega) hnumbers.right
      have htext : laidElements l level (j' :: js) ++ rest
          = ',' :: (l.line (level + 1) ++ (firstElements l level (j' :: js) ++ rest)) := by
        simp [laidElements, firstElements]
      rw [htext] at hvalue ⊢
      rw [elements?_more hvalue, elements?_skip (l.line_blank _), hmore]
      simp [asReadElements]

theorem members?_laid (l : Layout) : ∀ (ms : List (String × Json)) (level steps depth : Nat)
    (rest : List Char) (found : List (Option String × Json)), ms ≠ [] →
    2 * (firstMembers l level ms).length ≤ steps → depth + membersHeight ms ≤ maxDepth →
    AreFaithful (membersNumbers ms) →
    members? steps depth (firstMembers l level ms ++ rest) found
      = some (objectOf (found.reverse ++ keyed (asReadMembers ms)), rest)
  | [], _, _, _, _, _, hne, _, _, _ => absurd rfl hne
  | (k, j) :: ms, level, steps, depth, rest, found, _, hsteps, hdepth, hnumbers => by
    have hpos := length_quoted_pos k
    simp only [firstMembers, List.length_append, List.length_cons] at hsteps
    simp only [membersHeight] at hdepth
    obtain ⟨steps, rfl⟩ : ∃ n, steps = n + 1 := ⟨steps - 1, by omega⟩
    have hvalue := value?_laid l j (level + 1) steps depth (laidMembers l level ms ++ rest)
      (by omega) (by omega) hnumbers.left (endsNumber_laidMembers l level ms rest)
    have hfirst : firstMembers l level ((k, j) :: ms) ++ rest
        = quoted k ++ ':' :: (l.colon ++ (laid l (level + 1) j
          ++ (laidMembers l level ms ++ rest))) := by
      simp [firstMembers]
    rw [hfirst]
    cases ms with
    | nil =>
      rw [laidMembers, List.append_assoc] at hvalue ⊢
      rw [members?_last (l.line_blank level) l.colon_blank hvalue (by omega)]
      simp [asReadMembers, keyed]
    | cons m ms =>
      have hmore := members?_laid l (m :: ms) level steps depth rest
        ((some k, j.asRead) :: found) (by simp)
        (by
          simp only [laidMembers, firstMembers, List.length_cons, List.length_append]
            at hsteps ⊢
          omega)
        (by omega) hnumbers.right
      have htext : laidMembers l level (m :: ms) ++ rest
          = ',' :: (l.line (level + 1) ++ (firstMembers l level (m :: ms) ++ rest)) := by
        simp [laidMembers, firstMembers]
      rw [htext] at hvalue ⊢
      rw [members?_more l.colon_blank hvalue, members?_skip (l.line_blank _), hmore]
      simp [asReadMembers, keyed]

end

/-- A text in any layout is read as what was written. -/
theorem read?_laid (l : Layout) (j : Json) (hdepth : j.height ≤ maxDepth)
    (hnumbers : AreFaithful j.numbers) :
    read? (String.ofList (laid l 0 j)) = some j.asRead := by
  have hvalue := value?_laid l j 0 (2 * (laid l 0 j).length + 2) 0 [] (by omega) (by omega)
    hnumbers endsNumber_nil
  rw [List.append_nil] at hvalue
  unfold read?
  rw [String.toList_ofList]
  simp only [hvalue]
  rfl

theorem read?_page (j : Json) (hdepth : j.height ≤ maxDepth) (hnumbers : AreFaithful j.numbers) :
    read? j.page = some j.asRead := by
  rw [page, indented_eq_laid]
  exact read?_laid _ j hdepth hnumbers

theorem read?_text (j : Json) (hdepth : j.height ≤ maxDepth) (hnumbers : AreFaithful j.numbers) :
    read? j.text = some j.asRead := by
  rw [text, compact_eq_laid 0]
  exact read?_laid _ j hdepth hnumbers

end QuantitySurvey.Json
