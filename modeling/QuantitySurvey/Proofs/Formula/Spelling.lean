import Mathlib
import QuantitySurvey.Formula.Screen

/-! # Spellings

How tokens are spelled by characters, without a scanner in it, and what that says about the words of
the text. Numbers and names that follow each other directly may run together into one word; in a
text whose tokens are `Separated` every name is a word.

* `spelled_of_scan`, `scan_of_spelled`: scanning a text gives the tokens that it spells.
* `mem_words_of_spelled`: separated names are words of the text.
-/

set_option autoImplicit false

namespace QuantitySurvey.Formula

/-! ## Characters -/

theorem isNameChar_of_isNameStart {c : Char} (h : isNameStart c = true) : isNameChar c = true := by
  simp only [isNameStart, Bool.or_eq_true] at h
  simp only [isNameChar, Char.isAlphanum, Bool.or_eq_true]
  rcases h with h | h
  · exact .inl (.inl h)
  · exact .inr h

theorem not_isNameChar_of_isAsciiBlank {c : Char} (h : Text.isAsciiBlank c = true) :
    isNameChar c = false := by
  simp only [Text.isAsciiBlank, Bool.or_eq_true, beq_iff_eq] at h
  rcases h with (((h | h) | h) | h) | h <;> subst h <;> decide

/-- The symbols are seven characters, each the whole text of its token. -/
theorem ofSymbol?_eq_some {c : Char} {t : Token} (h : Token.ofSymbol? c = some t) :
    c ∈ ['+', '-', '*', '/', '(', ')', ','] ∧ t.text.toList = [c] := by
  unfold Token.ofSymbol? at h
  repeat
    split at h
    · next hc =>
      cases h
      subst hc
      exact ⟨by decide, by decide⟩
  cases h

theorem ofSymbol?_eq_none {c : Char} (h : c ∉ ['+', '-', '*', '/', '(', ')', ',']) :
    Token.ofSymbol? c = none := by
  cases hs : Token.ofSymbol? c with
  | none => rfl
  | some t => exact absurd (ofSymbol?_eq_some hs).1 h

theorem not_isNameChar_of_symbol {c : Char} (h : c ∈ ['+', '-', '*', '/', '(', ')', ',']) :
    isNameChar c = false := by
  have hall : (['+', '-', '*', '/', '(', ')', ','].all fun c => !isNameChar c) = true := by decide
  simpa using List.all_eq_true.1 hall c h

theorem ofSymbol?_of_isAsciiBlank {c : Char} (h : Text.isAsciiBlank c = true) :
    Token.ofSymbol? c = none := by
  simp only [Text.isAsciiBlank, Bool.or_eq_true, beq_iff_eq] at h
  rcases h with (((h | h) | h) | h) | h <;> subst h <;> decide

theorem ofSymbol?_of_isNameChar {c : Char} (h : isNameChar c = true) :
    Token.ofSymbol? c = none := by
  refine ofSymbol?_eq_none fun hc => ?_
  rw [not_isNameChar_of_symbol hc] at h
  cases h

theorem isAsciiBlank_of_isNameChar {c : Char} (h : isNameChar c = true) :
    Text.isAsciiBlank c = false := by
  cases hblank : Text.isAsciiBlank c with
  | false => rfl
  | true =>
    rw [not_isNameChar_of_isAsciiBlank hblank] at h
    cases h

/-- A character of a number is a digit, and so a name character, or the point. -/
theorem isNumberChar_cases {c : Char} (h : isNumberChar c = true) :
    (isNameChar c = true ∧ c.isDigit = true) ∨ c = '.' := by
  simp only [isNumberChar, Bool.or_eq_true, beq_iff_eq] at h
  refine h.imp_left fun hdigit => ⟨?_, hdigit⟩
  simp [isNameChar, Char.isAlphanum, hdigit]

theorem ofSymbol?_of_isNumberChar {c : Char} (h : isNumberChar c = true) :
    Token.ofSymbol? c = none := by
  rcases isNumberChar_cases h with ⟨hname, -⟩ | rfl
  · exact ofSymbol?_of_isNameChar hname
  · rfl

theorem isAsciiBlank_of_isNumberChar {c : Char} (h : isNumberChar c = true) :
    Text.isAsciiBlank c = false := by
  rcases isNumberChar_cases h with ⟨hname, -⟩ | rfl
  · exact isAsciiBlank_of_isNameChar hname
  · rfl

theorem isBlank_of_isNameChar {c : Char} (h : isNameChar c = true) : Text.isBlank c = false := by
  simp only [isNameChar, Char.isAlphanum, Char.isAlpha, Char.isUpper, Char.isLower, Char.isDigit,
    Bool.or_eq_true, Bool.and_eq_true, decide_eq_true_eq, beq_iff_eq, ge_iff_le,
    UInt32.le_iff_toNat_le] at h
  rcases h with h | rfl
  · have hrange : 48 ≤ c.toNat ∧ c.toNat ≤ 122 := by
      change (65 ≤ c.toNat ∧ c.toNat ≤ 90 ∨ 97 ≤ c.toNat ∧ c.toNat ≤ 122) ∨
        48 ≤ c.toNat ∧ c.toNat ≤ 57 at h
      omega
    simp only [Text.isBlank, Bool.or_eq_false_iff, Bool.and_eq_false_iff, decide_eq_false_iff_not,
      beq_eq_false_iff_ne]
    omega
  · decide

theorem isBlank_of_isNumberChar {c : Char} (h : isNumberChar c = true) :
    Text.isBlank c = false := by
  rcases isNumberChar_cases h with ⟨hname, -⟩ | rfl
  · exact isBlank_of_isNameChar hname
  · decide

theorem isNumberChar_of_isNameStart {c : Char} (h : isNameStart c = true) :
    isNumberChar c = false := by
  cases hnumber : isNumberChar c with
  | false => rfl
  | true =>
    exfalso
    rcases isNumberChar_cases hnumber with ⟨-, hdigit⟩ | rfl
    · simp only [isNameStart, Bool.or_eq_true, beq_iff_eq, Char.isAlpha, Char.isUpper,
        Char.isLower, Char.isDigit, Bool.and_eq_true, decide_eq_true_eq] at h hdigit
      rcases h with h | rfl
      · have h9 : ('9' : Char).val.toNat = 57 := rfl
        simp only [UInt32.le_iff_toNat_le] at h hdigit
        grind
      · exact absurd hdigit (by decide)
    · exact absurd h (by decide)

theorem isNumberChar_of_isDigit {c : Char} (h : c.isDigit = true) : isNumberChar c = true := by
  simp [isNumberChar, h]

theorem isDigit_of_not_mem {cs : List Char} (h : ∀ c ∈ cs, isNumberChar c = true)
    (hpoint : '.' ∉ cs) : ∀ c ∈ cs, c.isDigit = true := by
  intro c hc
  rcases isNumberChar_cases (h c hc) with ⟨-, hdigit⟩ | rfl
  · exact hdigit
  · exact absurd hc hpoint

theorem signed_of_ne {c : Char} (hminus : c ≠ '-') (hplus : c ≠ '+') (cs : List Char) :
    Decimal.signed (c :: cs) = (false, c :: cs) := by
  unfold Decimal.signed
  split
  · next heq => exact absurd (List.cons.inj heq).1 hminus
  · next heq => exact absurd (List.cons.inj heq).1 hplus
  · rfl

/-- A number starts with no sign. -/
theorem signed_of_isNumberChar {c : Char} (h : isNumberChar c = true) (cs : List Char) :
    Decimal.signed (c :: cs) = (false, c :: cs) := by
  refine signed_of_ne ?_ ?_ cs <;>
  · rintro rfl
    cases h

theorem toLower_of_isDigit {c : Char} (h : c.isDigit = true) : c.toLower = c := by
  refine Char.toLower_eq_of_not_isUpper ?_
  simp only [Char.isDigit, Char.isUpper, Bool.and_eq_true, decide_eq_true_eq,
    UInt32.le_iff_toNat_le] at h ⊢
  have h9 : ('9' : Char).val.toNat = 57 := rfl
  have hA : ('A' : Char).val.toNat = 65 := rfl
  omega

theorem isAllowed_of_isNumberChar {c : Char} (h : isNumberChar c = true) : isAllowed c = true := by
  rcases isNumberChar_cases h with ⟨hname, -⟩ | rfl
  · simp [isAllowed, hname]
  · decide +kernel

theorem isAllowed_of_ofSymbol? {c : Char} {t : Token} (h : Token.ofSymbol? c = some t) :
    isAllowed c = true := by
  have hall : ['+', '-', '*', '/', '(', ')', ','].all isAllowed = true := by decide
  exact List.all_eq_true.1 hall c (ofSymbol?_eq_some h).1

/-! ## Tokens and characters -/

/-- Numbers and names, which run together if nothing stands between them. -/
def Token.isWordy : Token → Bool
  | .number _ | .name _ => true
  | _ => false

/-- Of two tokens next to each other one is a symbol. -/
def Separated (ts : List Token) : Prop :=
  ts.IsChain fun a b => a.isWordy = false ∨ b.isWordy = false

theorem Separated.tail {t : Token} {ts : List Token} (h : Separated (t :: ts)) : Separated ts :=
  List.IsChain.tail h

theorem Separated.next {t : Token} {ts : List Token} (h : Separated (t :: ts))
    (ht : t.isWordy = true) : ∀ u ∈ ts.head?, u.isWordy = false := by
  intro u hu
  cases ts with
  | nil => cases hu
  | cons v ts =>
    cases hu
    have hpair := (List.isChain_cons_cons.1 h).1
    rw [ht] at hpair
    simpa using hpair

theorem isWordy_of_ofSymbol? {c : Char} {t : Token} (h : Token.ofSymbol? c = some t) :
    t.isWordy = false := by
  unfold Token.ofSymbol? at h
  repeat
    split at h
    · cases h
      rfl
  cases h

/-- Tokens are spelled by characters, with blanks anywhere between them. -/
inductive Spelled : List Token → List Char → Prop
  | nil : Spelled [] []
  | blank {c : Char} {ts : List Token} {cs : List Char} (h : Text.isAsciiBlank c = true)
      (more : Spelled ts cs) : Spelled ts (c :: cs)
  | symbol {c : Char} {t : Token} {ts : List Token} {cs : List Char}
      (h : Token.ofSymbol? c = some t) (more : Spelled ts cs) : Spelled (t :: ts) (c :: cs)
  | number {c : Char} {cs run rest : List Char} {x : Float} {ts : List Token}
      (starts : isNumberChar c = true) (cut : splitNumber (c :: cs) = (run, rest))
      (value : Decimal.read? run = some x) (more : Spelled ts rest) :
      Spelled (.number x :: ts) (c :: cs)
  | name {c : Char} {cs : List Char} {ts : List Token} (starts : isNameStart c = true)
      (more : Spelled ts ((c :: cs).dropWhile isNameChar)) :
      Spelled (.name (String.ofList ((c :: cs).takeWhile isNameChar)) :: ts) (c :: cs)

/-! ## Runs -/

section Runs

variable {p : Char → Bool} {xs rest : List Char} (hxs : ∀ c ∈ xs, p c = true)
  (hrest : ∀ c ∈ rest.head?, p c = false)
include hxs hrest

theorem takeWhile_run : (xs ++ rest).takeWhile p = xs := by
  rw [List.takeWhile_append_of_pos hxs]
  cases rest with
  | nil => simp
  | cons c rest => rw [List.takeWhile_cons_of_neg (by simp [hrest c rfl]), List.append_nil]

theorem dropWhile_run : (xs ++ rest).dropWhile p = rest := by
  rw [List.dropWhile_append_of_pos hxs]
  cases rest with
  | nil => rfl
  | cons c rest => rw [List.dropWhile_cons_of_neg (by simp [hrest c rfl])]

end Runs

theorem head_dropWhile (p : Char → Bool) (cs : List Char) :
    ∀ c ∈ (cs.dropWhile p).head?, p c = false := by
  intro c hc
  have hnot := List.head?_dropWhile_not p cs
  rw [Option.mem_def.1 hc] at hnot
  simpa using hnot

/-! ## Scanning -/

theorem splitNumber_head {c : Char} (h : isNumberChar c = true) (cs : List Char) :
    ∃ run, (splitNumber (c :: cs)).1 = c :: run := by
  simp [splitNumber, h]

theorem length_splitNumber_le {c : Char} (h : isNumberChar c = true) (cs : List Char) :
    (splitNumber (c :: cs)).2.length ≤ cs.length := by
  obtain ⟨run, hrun⟩ := splitNumber_head h cs
  have hall := congrArg List.length (splitNumber_append (c :: cs))
  simp only [hrun, List.length_append, List.length_cons] at hall
  omega

theorem length_dropWhile_name {c : Char} (h : isNameStart c = true) (cs : List Char) :
    ((c :: cs).dropWhile isNameChar).length ≤ cs.length := by
  rw [List.dropWhile_cons_of_pos (isNameChar_of_isNameStart h)]
  exact List.Sublist.length_le (List.dropWhile_sublist isNameChar)

variable (source : String)

theorem spelled_of_scan {steps offset : Nat} {cs : List Char} {found located : List Located}
    (h : scan source steps offset cs found = .ok located) (hsteps : cs.length ≤ steps) :
    ∃ new, located = found.reverse ++ new ∧ Spelled (new.map Located.token) cs := by
  induction steps generalizing offset cs found with
  | zero =>
    have hcs : cs = [] := List.length_eq_zero_iff.1 (Nat.le_zero.1 hsteps)
    cases h
    exact ⟨[], (List.append_nil _).symm, hcs ▸ .nil⟩
  | succ steps ih =>
    cases cs with
    | nil =>
      cases h
      exact ⟨[], (List.append_nil _).symm, .nil⟩
    | cons c cs =>
      have hrest : cs.length ≤ steps := by simpa using hsteps
      rw [scan] at h
      split at h
      · next t hsymbol =>
        obtain ⟨new, rfl, hnew⟩ := ih h hrest
        exact ⟨⟨t, offset⟩ :: new, by simp, .symbol hsymbol hnew⟩
      · split at h
        · next hblank =>
          obtain ⟨new, rfl, hnew⟩ := ih h hrest
          exact ⟨new, rfl, .blank hblank hnew⟩
        · split at h
          · next hnumber =>
            have hshort := length_splitNumber_le hnumber cs
            simp only at h
            split at h
            · next x hx =>
              obtain ⟨new, rfl, hnew⟩ := ih h (hshort.trans hrest)
              exact ⟨⟨.number x, offset⟩ :: new, by simp, .number hnumber rfl hx hnew⟩
            · cases h
          · split at h
            · next hname =>
              let run := (c :: cs).takeWhile isNameChar
              obtain ⟨new, rfl, hnew⟩ := ih h ((length_dropWhile_name hname cs).trans hrest)
              exact ⟨⟨.name (String.ofList run), offset⟩ :: new, by simp [run], .name hname hnew⟩
            · cases h

theorem scan_of_spelled {ts : List Token} {cs : List Char} (h : Spelled ts cs) {steps : Nat}
    (hsteps : cs.length ≤ steps) (offset : Nat) (found : List Located) :
    ∃ new, scan source steps offset cs found = .ok (found.reverse ++ new) ∧
      new.map Located.token = ts := by
  induction h generalizing steps offset found with
  | nil => exact ⟨[], by cases steps <;> simp [scan], rfl⟩
  | blank hblank more ih =>
    obtain ⟨steps, rfl⟩ := Nat.exists_eq_add_of_le' (Nat.le_of_add_left_le hsteps)
    obtain ⟨new, hscan, hnew⟩ := ih (Nat.le_of_succ_le_succ hsteps) (offset + 1) found
    refine ⟨new, ?_, hnew⟩
    rw [scan, ofSymbol?_of_isAsciiBlank hblank]
    simp only [hblank, if_true]
    exact hscan
  | @symbol c t ts cs hsymbol more ih =>
    obtain ⟨steps, rfl⟩ := Nat.exists_eq_add_of_le' (Nat.le_of_add_left_le hsteps)
    obtain ⟨new, hscan, hnew⟩ :=
      ih (Nat.le_of_succ_le_succ hsteps) (offset + 1) (⟨t, offset⟩ :: found)
    refine ⟨⟨t, offset⟩ :: new, ?_, by simp [hnew]⟩
    rw [scan, hsymbol]
    simpa using hscan
  | @number c cs run rest x ts hstarts cut value more ih =>
    obtain ⟨steps, rfl⟩ := Nat.exists_eq_add_of_le' (Nat.le_of_add_left_le hsteps)
    have hshort := length_splitNumber_le hstarts cs
    rw [cut] at hshort
    obtain ⟨new, hscan, hnew⟩ := ih (hshort.trans (Nat.le_of_succ_le_succ hsteps))
      (offset + run.length) (⟨.number x, offset⟩ :: found)
    refine ⟨⟨.number x, offset⟩ :: new, ?_, by simp [hnew]⟩
    rw [scan, ofSymbol?_of_isNumberChar hstarts]
    simp only [isAsciiBlank_of_isNumberChar hstarts, Bool.false_eq_true, if_false, hstarts,
      if_true, cut, value]
    simpa using hscan
  | @name c cs ts hstarts more ih =>
    obtain ⟨steps, rfl⟩ := Nat.exists_eq_add_of_le' (Nat.le_of_add_left_le hsteps)
    have hshort := (length_dropWhile_name hstarts cs).trans (Nat.le_of_succ_le_succ hsteps)
    have hchar := isNameChar_of_isNameStart hstarts
    let run := (c :: cs).takeWhile isNameChar
    obtain ⟨new, hscan, hnew⟩ := ih hshort (offset + run.length)
      (⟨.name (String.ofList run), offset⟩ :: found)
    refine ⟨⟨.name (String.ofList run), offset⟩ :: new, ?_, by simp [hnew, run]⟩
    rw [scan, ofSymbol?_of_isNameChar hchar]
    simp only [isAsciiBlank_of_isNameChar hchar, Bool.false_eq_true, if_false,
      isNumberChar_of_isNameStart hstarts, hstarts, if_true]
    simpa using hscan

theorem spelled_of_tokenize {source : String} {located : List Located}
    (h : tokenize source = .ok located) : Spelled (located.map Located.token) source.toList := by
  obtain ⟨new, rfl, hnew⟩ := spelled_of_scan source h (Nat.le_refl _)
  exact hnew

theorem tokenize_of_spelled {source : String} {ts : List Token}
    (h : Spelled ts source.toList) :
    ∃ located, tokenize source = .ok located ∧ located.map Located.token = ts := by
  obtain ⟨new, hscan, hnew⟩ := scan_of_spelled source h (Nat.le_refl _) 0 []
  exact ⟨new, hscan, hnew⟩

/-! ## Words -/

theorem words_append_cons (xs cs : List Char) {c : Char} (h : isNameChar c = false) :
    words (xs ++ c :: cs) = words xs ++ words cs := by
  unfold words
  rw [List.splitOnP_append_cons xs cs (by simp [h]), List.filter_append]

theorem words_nil : words [] = [] := rfl

theorem words_cons {c : Char} (h : isNameChar c = false) (cs : List Char) :
    words (c :: cs) = words cs :=
  words_append_cons [] cs h

theorem words_append {xs rest : List Char} (h : ∀ c ∈ rest.head?, isNameChar c = false) :
    words (xs ++ rest) = words xs ++ words rest := by
  cases rest with
  | nil => rw [List.append_nil, words_nil, List.append_nil]
  | cons c cs =>
    have hc : isNameChar c = false := h c rfl
    rw [words_append_cons xs cs hc, words_cons hc]

theorem words_append_of_getLast {xs rest : List Char}
    (h : ∀ c ∈ xs.getLast?, isNameChar c = false) :
    words (xs ++ rest) = words xs ++ words rest := by
  rcases List.eq_nil_or_concat xs with rfl | ⟨ys, c, rfl⟩
  · rfl
  · have hc : isNameChar c = false := h c (by simp)
    rw [List.concat_eq_append, List.append_assoc, List.singleton_append,
      words_append_cons ys rest hc, words_append_cons ys [] hc, words_nil, List.append_nil]

theorem words_of_all {w : List Char} (hne : w ≠ []) (h : ∀ c ∈ w, isNameChar c = true) :
    words w = [w] := by
  have hsplit : w.splitOnP (fun c => !isNameChar c) = [w] :=
    List.splitOnP_eq_singleton (by simpa using h)
  unfold words
  rw [hsplit]
  simp [hne]

theorem mem_of_mem_splitOnP {p : Char → Bool} {w cs : List Char} (h : w ∈ cs.splitOnP p) :
    ∀ c ∈ w, c ∈ cs ∧ p c = false := by
  induction cs generalizing w with
  | nil =>
    rw [List.splitOnP_nil, List.mem_singleton] at h
    simp [h]
  | cons d cs ih =>
    rw [List.splitOnP_cons_eq_if_modifyHead] at h
    intro c hc
    split at h
    · rcases List.mem_cons.1 h with rfl | h
      · cases hc
      · exact ⟨List.mem_cons_of_mem d (ih h c hc).1, (ih h c hc).2⟩
    · next hd =>
      cases hsplit : cs.splitOnP p with
      | nil => exact absurd hsplit (List.splitOnP_ne_nil p cs)
      | cons first others =>
        rw [hsplit, List.modifyHead_cons] at h
        have hin : ∀ v ∈ first :: others, ∀ c ∈ v, c ∈ cs ∧ p c = false := by
          intro v hv
          exact ih (hsplit ▸ hv)
        rcases List.mem_cons.1 h with rfl | h
        · rcases List.mem_cons.1 hc with rfl | hc
          · exact ⟨List.mem_cons_self, by simpa using hd⟩
          · have hfirst := hin first List.mem_cons_self c hc
            exact ⟨List.mem_cons_of_mem d hfirst.1, hfirst.2⟩
        · have hother := hin w (List.mem_cons_of_mem first h) c hc
          exact ⟨List.mem_cons_of_mem d hother.1, hother.2⟩

theorem mem_of_mem_words {w cs : List Char} (h : w ∈ words cs) :
    w ≠ [] ∧ ∀ c ∈ w, c ∈ cs ∧ isNameChar c = true := by
  obtain ⟨hsplit, hne⟩ := List.mem_filter.1 h
  refine ⟨by simpa using hne, fun c hc => ?_⟩
  simpa using mem_of_mem_splitOnP hsplit c hc

/-! ## Names are words -/

structure IsName (n : List Char) : Prop where
  starts : ∃ c ∈ n.head?, isNameStart c = true
  chars : ∀ c ∈ n, isNameChar c = true

theorem isName_takeWhile {c : Char} (h : isNameStart c = true) (cs : List Char) :
    IsName ((c :: cs).takeWhile isNameChar) where
  starts := by
    rw [List.takeWhile_cons_of_pos (isNameChar_of_isNameStart h)]
    exact ⟨c, rfl, h⟩
  chars := by
    intro d hd
    exact List.all_eq_true.1 List.all_takeWhile d hd

theorem isName_of_spelled {ts : List Token} {cs : List Char} (h : Spelled ts cs) {n : String}
    (hn : .name n ∈ ts) : IsName n.toList := by
  induction h with
  | nil => cases hn
  | blank hblank more ih => exact ih hn
  | symbol hsymbol more ih =>
    rcases List.mem_cons.1 hn with rfl | hn
    · cases isWordy_of_ofSymbol? hsymbol
    · exact ih hn
  | number hstarts cut value more ih =>
    rcases List.mem_cons.1 hn with hn | hn
    · cases hn
    · exact ih hn
  | name hstarts more ih =>
    rcases List.mem_cons.1 hn with hn | hn
    · cases hn
      rw [String.toList_ofList]
      exact isName_takeWhile hstarts _
    · exact ih hn

/-- A number is spelled by a run without a sign. -/
theorem read?_of_spelled {ts : List Token} {cs : List Char} (h : Spelled ts cs) {x : Float}
    (hx : .number x ∈ ts) : ∃ run, (∃ c ∈ run.head?, isNumberChar c = true) ∧
      Decimal.read? run = some x := by
  induction h with
  | nil => cases hx
  | blank hblank more ih => exact ih hx
  | symbol hsymbol more ih =>
    rcases List.mem_cons.1 hx with rfl | hx
    · cases isWordy_of_ofSymbol? hsymbol
    · exact ih hx
  | @number c cs run rest y ts hstarts cut value more ih =>
    rcases List.mem_cons.1 hx with hx | hx
    · cases hx
      obtain ⟨tail, hrun⟩ := splitNumber_head hstarts cs
      have hhead : run = c :: tail := (congrArg Prod.fst cut).symm.trans hrun
      exact ⟨run, ⟨c, by simp [hhead], hstarts⟩, value⟩
    · exact ih hx
  | name hstarts more ih =>
    rcases List.mem_cons.1 hx with hx | hx
    · cases hx
    · exact ih hx

/-- Separated names are words of the text. The text may follow on another one, unless a name or a
number would run together with what is at its end. -/
theorem mem_words_of_spelled {ts : List Token} {cs : List Char} (h : Spelled ts cs)
    (hsep : Separated ts) (before : List Char)
    (hopen : (∀ c ∈ before.getLast?, isNameChar c = false) ∨ ∀ t ∈ ts.head?, t.isWordy = false)
    {n : String} (hn : .name n ∈ ts) : n.toList ∈ words (before ++ cs) := by
  -- What is read moves to `before`. After a number or a name its end is open, but then a symbol
  -- follows.
  induction h generalizing before with
  | nil => cases hn
  | @blank c ts cs hblank more ih =>
    rw [List.append_cons]
    refine ih hsep (before ++ [c]) (.inl ?_) hn
    simp [not_isNameChar_of_isAsciiBlank hblank]
  | @symbol c t ts cs hsymbol more ih =>
    rcases List.mem_cons.1 hn with rfl | hn
    · cases isWordy_of_ofSymbol? hsymbol
    · rw [List.append_cons]
      refine ih hsep.tail (before ++ [c]) (.inl ?_) hn
      simp [not_isNameChar_of_symbol (ofSymbol?_eq_some hsymbol).1]
  | @number c cs run rest x ts hstarts cut value more ih =>
    rcases List.mem_cons.1 hn with hn | hn
    · cases hn
    · have hall := splitNumber_append (c :: cs)
      rw [cut] at hall
      rw [← hall, ← List.append_assoc]
      exact ih hsep.tail (before ++ run) (.inr (hsep.next rfl)) hn
  | @name c cs ts hstarts more ih =>
    let run := (c :: cs).takeWhile isNameChar
    let rest := (c :: cs).dropWhile isNameChar
    have hall : c :: cs = run ++ rest := List.takeWhile_append_dropWhile.symm
    rw [hall]
    rcases List.mem_cons.1 hn with hn | hn
    · have hbefore : ∀ c ∈ before.getLast?, isNameChar c = false := by
        refine hopen.resolve_right fun hhead => ?_
        cases hhead _ rfl
      have hrun : run ≠ [] := by
        obtain ⟨d, hd, -⟩ := (isName_takeWhile hstarts cs).starts
        intro hnil
        rw [show (c :: cs).takeWhile isNameChar = [] from hnil] at hd
        cases hd
      cases hn
      rw [String.toList_ofList, words_append_of_getLast hbefore,
        words_append (head_dropWhile isNameChar (c :: cs)),
        words_of_all hrun (isName_takeWhile hstarts cs).chars]
      simp [run]
    · rw [← List.append_assoc]
      exact ih hsep.tail (before ++ run) (.inr (hsep.next rfl)) hn

end QuantitySurvey.Formula
