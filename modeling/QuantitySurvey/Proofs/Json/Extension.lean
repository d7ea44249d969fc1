import QuantitySurvey.Proofs.Instant.RoundTrip
import QuantitySurvey.Proofs.Json.RoundTrip

/-! # Texts that go on

The reader never goes back on what it has read, so a value at the start of a text is read there
whatever comes after it, as long as a number is not made longer. A text that is one value may
therefore have blanks at its end and nothing else.

* `value?_append`: a value is read in the same way in a text that goes on.
* `read?_append`: what may come after a text.
* `value?_of_blank`: no value starts with a blank that is no space of JSON.
-/

set_option autoImplicit false

namespace QuantitySurvey.Json

namespace Reader

section Extension

variable {cs after more : List Char}

/-! ## Strings -/

theorem hexUnit?_append {n : Nat} (h : hexUnit? cs = some (n, after)) :
    hexUnit? (cs ++ more) = some (n, after ++ more) := by
  unfold hexUnit? at h ⊢
  split at h
  · cases h
  · next hlong =>
    rw [List.length_take] at hlong
    have hfour : 4 ≤ cs.length := by omega
    obtain ⟨m, hnumber, heq⟩ := Option.map_eq_some_iff.1 h
    cases heq
    have hnot : ¬ (cs.take 4).length < 4 := by
      rw [List.length_take]
      omega
    rw [List.take_append_of_le_length hfour, List.drop_append_of_le_length hfour, if_neg hnot,
      hnumber]
    rfl

theorem lowHalf?_unit (cs : List Char) : lowHalf? ('\\' :: 'u' :: cs)
    = (hexUnit? cs).filter fun (n, _) => 0xDC00 ≤ n && n ≤ 0xDFFF := rfl

theorem lowHalf?_append {n : Nat} (h : lowHalf? cs = some (n, after)) :
    lowHalf? (cs ++ more) = some (n, after ++ more) := by
  unfold lowHalf? at h
  split at h
  · next rest =>
    obtain ⟨hunit, hrange⟩ := Option.filter_eq_some_iff.1 h
    rw [List.cons_append, List.cons_append, lowHalf?_unit, hexUnit?_append hunit]
    exact Option.filter_eq_some_iff.2 ⟨rfl, hrange⟩
  · cases h

/-- Where a string goes on, a half of a pair that is alone stays alone. -/
theorem lowHalf?_append_eq_none (h : lowHalf? cs = none) {steps : Nat}
    {found : Option (List Char)} {r : Option String × List Char}
    (hstring : stringFrom steps cs found = some r) : lowHalf? (cs ++ more) = none := by
  cases steps with
  | zero => cases hstring
  | succ steps =>
    cases cs with
    | nil => cases hstring
    | cons c cs =>
      by_cases hback : c = '\\'
      · subst hback
        cases cs with
        | nil => cases hstring
        | cons e rest =>
          by_cases hu : e = 'u'
          · subst hu
            cases hunit : hexUnit? rest with
            | none =>
              have hend : stringFrom (steps + 1) ('\\' :: 'u' :: rest) found = none := by
                have hlow : ¬ ('\\' : Char) < ' ' := by decide
                simp [stringFrom, hunit, hlow]
              rw [hend] at hstring
              cases hstring
            | some unit =>
              rw [lowHalf?_unit, hunit, Option.filter_eq_none_iff] at h
              rw [List.cons_append, List.cons_append, lowHalf?_unit, hexUnit?_append hunit,
                Option.filter_eq_none_iff]
              intro r hr
              cases hr
              exact h unit rfl
          · simp [lowHalf?, hu]
      · simp [lowHalf?, hback]

/-! What the reader does at the start of a string, one case after the other. -/

theorem stringFrom_plain {c : Char} (hquote : c ≠ '"') (hback : c ≠ '\\') (steps : Nat)
    (cs : List Char) (found : Option (List Char)) : stringFrom (steps + 1) (c :: cs) found
      = if c < ' ' then none else stringFrom steps cs (found.map (c :: ·)) := by
  rw [stringFrom.eq_def]
  simp only [if_neg hquote, if_pos hback]

theorem stringFrom_escape {e : Char} (hu : e ≠ 'u') (steps : Nat) (cs : List Char)
    (found : Option (List Char)) : stringFrom (steps + 1) ('\\' :: e :: cs) found
      = (escape? e).bind fun d => stringFrom steps cs (found.map (d :: ·)) := by
  have hlow : ¬ ('\\' : Char) < ' ' := by decide
  rw [stringFrom, if_neg (by decide), if_neg hlow, if_neg (by decide)]
  simp only [if_pos hu]
  cases escape? e <;> rfl

/-- The string after an escape by number, which may be half of a pair. -/
def stringAfter (steps n : Nat) (cs : List Char) (found : Option (List Char)) :
    Option (Option String × List Char) :=
  if n < 0xD800 || 0xDFFF < n then stringFrom steps cs (found.map (Char.ofNat n :: ·))
  else match (if n ≤ 0xDBFF then lowHalf? cs else none) with
    | some (m, rest) =>
      let c := Char.ofNat (0x10000 + (n - 0xD800) * 0x400 + (m - 0xDC00))
      stringFrom steps rest (found.map (c :: ·))
    | none => stringFrom steps cs none

theorem stringFrom_unit (steps : Nat) (cs : List Char) (found : Option (List Char)) :
    stringFrom (steps + 1) ('\\' :: 'u' :: cs) found
      = (hexUnit? cs).bind fun r => stringAfter steps r.1 r.2 found := by
  have hlow : ¬ ('\\' : Char) < ' ' := by decide
  rw [stringFrom, if_neg (by decide), if_neg hlow, if_neg (by decide)]
  simp only [ne_eq, not_true_eq_false, if_false]
  cases hexUnit? cs <;> rfl

theorem stringAfter_append {steps steps' n : Nat} {found : Option (List Char)}
    {r : Option String} (ih : ∀ {cs found}, stringFrom steps cs found = some (r, after) →
      stringFrom steps' (cs ++ more) found = some (r, after ++ more))
    (h : stringAfter steps n cs found = some (r, after)) :
    stringAfter steps' n (cs ++ more) found = some (r, after ++ more) := by
  unfold stringAfter at h ⊢
  split at h
  · next hplain =>
    rw [if_pos hplain]
    exact ih h
  next hhalf =>
  rw [if_neg hhalf]
  -- Only here does the reader look ahead: whether the other half of a pair follows.
  by_cases hhigh : n ≤ 0xDBFF
  · rw [if_pos hhigh] at h ⊢
    cases hlow : lowHalf? cs with
    | none =>
      rw [hlow] at h
      rw [lowHalf?_append_eq_none hlow h]
      exact ih h
    | some low =>
      obtain ⟨m, rest⟩ := low
      rw [hlow] at h
      rw [lowHalf?_append hlow]
      exact ih h
  · rw [if_neg hhigh] at h ⊢
    exact ih h

/-- A string ends where its closing quote is. -/
theorem stringFrom_append {steps steps' : Nat} (hsteps : steps ≤ steps')
    {found : Option (List Char)} {r : Option String}
    (h : stringFrom steps cs found = some (r, after)) :
    stringFrom steps' (cs ++ more) found = some (r, after ++ more) := by
  induction steps generalizing steps' cs found with
  | zero => cases h
  | succ steps ih =>
    obtain ⟨k, rfl⟩ : ∃ k, steps' = k + 1 := ⟨steps' - 1, by omega⟩
    have hk : steps ≤ k := by omega
    cases cs with
    | nil => cases h
    | cons c cs =>
      by_cases hquote : c = '"'
      · subst hquote
        cases h
        rfl
      by_cases hback : c = '\\'
      · subst hback
        cases cs with
        | nil => cases h
        | cons e cs =>
          rw [List.cons_append, List.cons_append]
          by_cases hu : e = 'u'
          · subst hu
            rw [stringFrom_unit] at h ⊢
            obtain ⟨⟨n, rest⟩, hunit, h⟩ := Option.bind_eq_some_iff.1 h
            rw [hexUnit?_append hunit]
            exact stringAfter_append (fun h => ih hk h) h
          · rw [stringFrom_escape hu] at h ⊢
            obtain ⟨d, hd, h⟩ := Option.bind_eq_some_iff.1 h
            rw [hd]
            exact ih hk h
      · rw [List.cons_append]
        rw [stringFrom_plain hquote hback] at h ⊢
        split at h
        · cases h
        · next hcontrol =>
          rw [if_neg hcontrol]
          exact ih hk h

theorem string?_append {r : Option String} (h : string? cs = some (r, after)) :
    string? (cs ++ more) = some (r, after ++ more) := by
  refine stringFrom_append ?_ h
  rw [List.length_append]
  omega

/-! ## Values -/

theorem word?_append {word : String} {j j' : Json} (h : word? word j cs = some (j', after)) :
    word? word j (cs ++ more) = some (j', after ++ more) := by
  unfold word? at h ⊢
  dsimp only at h ⊢
  split at h
  · next htake =>
    cases h
    have hlength : word.toList.length ≤ cs.length := by
      have hcut := congrArg List.length htake
      rw [List.length_take] at hcut
      omega
    rw [List.take_append_of_le_length hlength, List.drop_append_of_le_length hlength, if_pos htake]
  · cases h

theorem skipSpace_append_of_cons {c : Char} {rest : List Char} (h : skipSpace cs = c :: rest) :
    skipSpace (cs ++ more) = c :: (rest ++ more) := by
  unfold skipSpace at h ⊢
  rw [List.dropWhile_append, h]
  rfl

end Extension

theorem value?_nil (steps depth : Nat) : value? steps depth [] = none := by
  cases steps <;> rfl

theorem elements?_nil (steps depth : Nat) (found : List Json) :
    elements? steps depth [] found = none := by
  cases steps with
  | zero => rfl
  | succ steps => rw [elements?, value?_nil]

theorem members?_nil (steps depth : Nat) (found : List (Option String × Json)) :
    members? steps depth [] found = none := by
  cases steps <;> rfl

/-! ### Containers, given what is known of their parts -/

section Containers

variable {cs after more : List Char} {steps steps' depth : Nat} {j : Json}

theorem value?_append_array
    (ih : ∀ {cs}, elements? steps (depth + 1) cs [] = some (j, after) →
      elements? steps' (depth + 1) (cs ++ more) [] = some (j, after ++ more))
    (h : value? (steps + 1) depth ('[' :: cs) = some (j, after)) :
    value? (steps' + 1) depth ('[' :: (cs ++ more)) = some (j, after ++ more) := by
  rw [value?, skipSpace_cons rfl] at h ⊢
  simp only at h ⊢
  cases hfirst : skipSpace cs with
  | nil =>
    simp only [hfirst, elements?_nil] at h
    cases h
  | cons c rest =>
    rw [hfirst] at h
    rw [skipSpace_append_of_cons hfirst]
    by_cases hclose : c = ']'
    · subst hclose
      cases h
      rfl
    · simp only [List.cons.injEq, hclose, false_and, imp_self, implies_true] at h ⊢
      exact ih h

theorem value?_append_object
    (ih : ∀ {cs}, members? steps (depth + 1) cs [] = some (j, after) →
      members? steps' (depth + 1) (cs ++ more) [] = some (j, after ++ more))
    (h : value? (steps + 1) depth ('\x7b' :: cs) = some (j, after)) :
    value? (steps' + 1) depth ('\x7b' :: (cs ++ more)) = some (j, after ++ more) := by
  rw [value?, skipSpace_cons rfl] at h ⊢
  simp only at h ⊢
  cases hfirst : skipSpace cs with
  | nil =>
    simp only [hfirst, members?_nil] at h
    cases h
  | cons c rest =>
    rw [hfirst] at h
    rw [skipSpace_append_of_cons hfirst]
    by_cases hclose : c = '\x7d'
    · subst hclose
      cases h
      rfl
    · simp only [List.cons.injEq, hclose, false_and, imp_self, implies_true] at h ⊢
      exact ih h

/-- A member of an object: a key and a value. -/
def member? (steps depth : Nat) (cs : List Char) :
    Option ((Option String × Json) × List Char) :=
  match skipSpace cs with
  | '"' :: rest => (string? rest).bind fun r =>
    match skipSpace r.2 with
    | ':' :: rest => (value? steps depth rest).map fun v => ((r.1, v.1), v.2)
    | _ => none
  | _ => none

theorem members?_succ (steps depth : Nat) (cs : List Char) (found : List (Option String × Json)) :
    members? (steps + 1) depth cs found = (member? steps depth cs).bind fun r =>
      match skipSpace r.2 with
      | ',' :: rest => members? steps depth rest (r.1 :: found)
      | '\x7d' :: rest => some (nested depth (objectOf (r.1 :: found).reverse), rest)
      | _ => none := by
  rw [members?, member?]
  cases skipSpace cs with
  | nil => rfl
  | cons c rest =>
    by_cases hquote : c = '"'
    · subst hquote
      simp only
      cases string? rest with
      | none => rfl
      | some r =>
        simp only [Option.bind_some]
        cases skipSpace r.2 with
        | nil => rfl
        | cons d rest =>
          by_cases hcolon : d = ':'
          · subst hcolon
            simp only
            cases value? steps depth rest <;> rfl
          · simp [hcolon]
    · simp [hquote]

theorem member?_append {m : Option String × Json}
    (ih : ∀ {cs after j}, value? steps depth cs = some (j, after) →
      value? steps' depth (cs ++ more) = some (j, after ++ more))
    (h : member? steps depth cs = some (m, after)) :
    member? steps' depth (cs ++ more) = some (m, after ++ more) := by
  unfold member? at h
  split at h
  · next rest hquote =>
    obtain ⟨⟨key, rest'⟩, hkey, h⟩ := Option.bind_eq_some_iff.1 h
    split at h
    · next hcolon =>
      obtain ⟨⟨value, rest''⟩, hvalue, heq⟩ := Option.map_eq_some_iff.1 h
      cases heq
      rw [member?, skipSpace_append_of_cons hquote]
      simp only [string?_append hkey, Option.bind_some, skipSpace_append_of_cons hcolon,
        ih hvalue, Option.map_some]
    · cases h
  · cases h

end Containers

theorem skipSpace_skipSpace (cs : List Char) : skipSpace (skipSpace cs) = skipSpace cs :=
  List.dropWhile_idempotent isSpace cs

theorem value?_skipSpace (steps depth : Nat) (cs : List Char) :
    value? steps depth (skipSpace cs) = value? steps depth cs := by
  cases steps with
  | zero => rfl
  | succ steps => rw [value?, value?, skipSpace_skipSpace]

mutual

/-- A value is read in the same way in a text that goes on. -/
theorem value?_append {more : List Char} (hmore : EndsNumber more) :
    ∀ {steps steps' depth : Nat} {cs after : List Char} {j : Json}, steps ≤ steps' →
      value? steps depth cs = some (j, after) →
      value? steps' depth (cs ++ more) = some (j, after ++ more)
  | 0, _, _, _, _, _, _, h => by cases h
  | steps + 1, 0, _, _, _, _, hsteps, _ => by omega
  | steps + 1, steps' + 1, depth, cs, after, j, hsteps, h => by
    have hle : steps ≤ steps' := by omega
    rw [← value?_skipSpace] at h ⊢
    cases hskip : skipSpace cs with
    | nil =>
      rw [hskip] at h
      cases h
    | cons c rest =>
      rw [hskip] at h
      rw [skipSpace_append_of_cons hskip]
      by_cases hbracket : c = '['
      · subst hbracket
        exact value?_append_array (fun h => elements?_append hmore hle h) h
      by_cases hbrace : c = '\x7b'
      · subst hbrace
        exact value?_append_object (fun h => members?_append hmore hle h) h
      have hfirst : skipSpace (c :: rest) = c :: rest := by rw [← hskip, skipSpace_skipSpace]
      have hfirst' : skipSpace (c :: (rest ++ more)) = c :: (rest ++ more) :=
        skipSpace_append_of_cons hfirst
      rw [value?, hfirst] at h
      rw [value?, hfirst']
      by_cases hquote : c = '"'
      · subst hquote
        obtain ⟨⟨r, after'⟩, hstring, heq⟩ := Option.map_eq_some_iff.1 h
        cases heq
        exact Option.map_eq_some_iff.2 ⟨_, string?_append hstring, rfl⟩
      by_cases hnull : c = 'n'
      · subst hnull
        exact word?_append h
      by_cases htrue : c = 't'
      · subst htrue
        exact word?_append h
      by_cases hfalse : c = 'f'
      · subst hfalse
        exact word?_append h
      simp only [List.cons.injEq, hquote, hbracket, hbrace, hnull, htrue, hfalse, false_and,
        imp_self, implies_true] at h ⊢
      exact number?_append hmore h

theorem elements?_append {more : List Char} (hmore : EndsNumber more) :
    ∀ {steps steps' depth : Nat} {cs after : List Char} {found : List Json} {j : Json},
      steps ≤ steps' → elements? steps depth cs found = some (j, after) →
      elements? steps' depth (cs ++ more) found = some (j, after ++ more)
  | 0, _, _, _, _, _, _, _, h => by cases h
  | steps + 1, 0, _, _, _, _, _, hsteps, _ => by omega
  | steps + 1, steps' + 1, depth, cs, after, found, j, hsteps, h => by
    have hle : steps ≤ steps' := by omega
    rw [elements?] at h ⊢
    cases hvalue : value? steps depth cs with
    | none =>
      rw [hvalue] at h
      cases h
    | some r =>
      obtain ⟨element, rest⟩ := r
      rw [hvalue] at h
      rw [value?_append hmore hle hvalue]
      simp only at h ⊢
      cases hskip : skipSpace rest with
      | nil =>
        rw [hskip] at h
        cases h
      | cons c rest' =>
        rw [hskip] at h
        rw [skipSpace_append_of_cons hskip]
        split at h
        · next heq =>
          cases heq
          exact elements?_append hmore hle h
        · next heq =>
          cases heq
          cases h
          rfl
        · cases h

theorem members?_append {more : List Char} (hmore : EndsNumber more) :
    ∀ {steps steps' depth : Nat} {cs after : List Char} {found : List (Option String × Json)}
      {j : Json}, steps ≤ steps' → members? steps depth cs found = some (j, after) →
      members? steps' depth (cs ++ more) found = some (j, after ++ more)
  | 0, _, _, _, _, _, _, _, h => by cases h
  | steps + 1, 0, _, _, _, _, _, hsteps, _ => by omega
  | steps + 1, steps' + 1, depth, cs, after, found, j, hsteps, h => by
    have hle : steps ≤ steps' := by omega
    rw [members?_succ] at h ⊢
    obtain ⟨⟨m, rest⟩, hmember, h⟩ := Option.bind_eq_some_iff.1 h
    rw [member?_append (fun h => value?_append hmore hle h) hmember]
    simp only [Option.bind_some] at h ⊢
    cases hskip : skipSpace rest with
    | nil =>
      rw [hskip] at h
      cases h
    | cons c rest' =>
      rw [hskip] at h
      rw [skipSpace_append_of_cons hskip]
      split at h
      · next heq =>
        cases heq
        exact members?_append hmore hle h
      · next heq =>
        cases heq
        cases h
        rfl
      · cases h

end

/-! ## Blanks that are no space -/

/-- No value starts with a blank that is not skipped. -/
theorem value?_of_blank {cs : List Char} (h : ∀ c ∈ (skipSpace cs).head?, Text.isBlank c = true)
    (steps depth : Nat) : value? steps depth cs = none := by
  cases steps with
  | zero => rfl
  | succ steps =>
    rw [value?]
    cases hskip : skipSpace cs with
    | nil => rfl
    | cons c rest =>
      have hblank : Text.isBlank c = true := h c (by rw [hskip]; rfl)
      have hother : ∀ d : Char, Text.isBlank d = false → c ≠ d := by
        rintro d hd rfl
        rw [hblank] at hd
        cases hd
      have hnumber : number? (c :: rest) = none := by
        cases hread : number? (c :: rest) with
        | none => rfl
        | some r =>
          rcases number?_head hread with rfl | hdigit
          · exact absurd rfl (hother '-' (by decide))
          · rw [Instant.isBlank_of_isDigit hdigit] at hblank
            cases hblank
      simp [hother '"' (by decide), hother '[' (by decide), hother '\x7b' (by decide),
        hother 'n' (by decide), hother 't' (by decide), hother 'f' (by decide), hnumber]

end Reader

/-! ## Whole texts -/

open Reader

/-- A text may go on with blanks and with nothing else. -/
theorem read?_append {s : String} {j : Json} (h : read? s = some j) {more : List Char}
    (hmore : EndsNumber more) :
    read? (s ++ String.ofList more) = if (skipSpace more).isEmpty then some j else none := by
  unfold read? at h ⊢
  rw [String.toList_append, String.toList_ofList]
  dsimp only at h ⊢
  cases hvalue : value? (2 * s.toList.length + 2) 0 s.toList with
  | none =>
    rw [hvalue] at h
    cases h
  | some r =>
    obtain ⟨j', after⟩ := r
    rw [hvalue] at h
    simp only at h
    split at h
    · next hempty =>
      cases h
      have hlength : 2 * s.toList.length + 2 ≤ 2 * (s.toList ++ more).length + 2 := by
        rw [List.length_append]
        omega
      have hblank : after.all isSpace = true := by
        simpa [skipSpace] using hempty
      rw [value?_append hmore hlength hvalue]
      simp only [skipSpace_append hblank]
    · cases h

theorem read?_of_blank {s : String}
    (h : ∀ c ∈ (skipSpace s.toList).head?, Text.isBlank c = true) : read? s = none := by
  unfold read?
  simp only [value?_of_blank h]

end QuantitySurvey.Json
