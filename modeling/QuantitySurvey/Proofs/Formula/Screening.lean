import QuantitySurvey.Proofs.Formula.Nodes
import QuantitySurvey.Proofs.Formula.Tokenizing

/-! # The screen and the tokens

The screen for forbidden words looks at the raw text before there are tokens. It sees the names of a
text, with one exception: a name that follows a digit directly, as in `2eval`, is a token of its own
but no word of its own. The word that it is the end of has a digit at its start, or after the mark of an
exponent, and is never forbidden.

* `Passes`: a piece of text that adds no forbidden word, however the text goes on.
* `passes_number`: numbers are such pieces.
* `forbiddenIn_of_laid`: the forbidden words of a text that is laid out.
* `screen_sees_free_names`: what the screen answers, in terms of tokens.
-/

set_option autoImplicit false

namespace QuantitySurvey.Formula

/-! ## Definitions -/

namespace Located

def name? (t : Located) : Option String :=
  match t.token with
  | .name n => some n
  | _ => none

/-- The token starts right after a digit. A text that has tokens has one byte a character. -/
def followsDigit (text : List Char) (t : Located) : Bool :=
  (text.take t.offset).getLast?.any Char.isDigit

end Located

/-- The first forbidden name among tokens. -/
def firstForbidden? (tokens : List Located) : Option String :=
  (tokens.filterMap Located.name?).find? fun n => isForbidden n.toList

/-- What a screen answers that has found a forbidden word, or none. -/
def screened (source : String) : Option String → Except Failure Unit
  | none => .ok ()
  | some word => .error ((Fault.forbiddenName word).of source)

/-- The tokens that do not follow a digit. -/
def freeTokens (text : List Char) (tokens : List Located) : List Located :=
  tokens.filter fun t => !t.followsDigit text

/-! ## Forbidden words -/

/-- The forbidden words of a text, in order. -/
def forbiddenIn (cs : List Char) : List (List Char) := (words cs).filter isForbidden

theorem forbiddenIn_append {xs rest : List Char} (h : ∀ c ∈ rest.head?, isNameChar c = false) :
    forbiddenIn (xs ++ rest) = forbiddenIn xs ++ forbiddenIn rest := by
  rw [forbiddenIn, words_append h, List.filter_append]
  rfl

theorem forbiddenIn_append_of_getLast {xs rest : List Char}
    (h : ∀ c ∈ xs.getLast?, isNameChar c = false) :
    forbiddenIn (xs ++ rest) = forbiddenIn xs ++ forbiddenIn rest := by
  rw [forbiddenIn, words_append_of_getLast h, List.filter_append]
  rfl

theorem forbiddenIn_of_all {w : List Char} (hne : w ≠ []) (h : ∀ c ∈ w, isNameChar c = true) :
    forbiddenIn w = [w].filter isForbidden := by
  rw [forbiddenIn, words_of_all hne h]

/-- No forbidden word starts like this: there is a digit at the start, or right after that. -/
structure IsHarmless (w : List Char) : Prop where
  chars : ∀ c ∈ w, isNameChar c = true
  early : (w.take 2).any Char.isDigit = true

theorem IsHarmless.append {w u : List Char} (h : IsHarmless w)
    (hu : ∀ c ∈ u, isNameChar c = true) : IsHarmless (w ++ u) where
  chars c hc := (List.mem_append.1 hc).elim (h.chars c) (hu c)
  early := by rw [List.take_append, List.any_append, h.early, Bool.true_or]

theorem forbiddenIn_append_harmless {a w : List Char} (ha : ∀ c ∈ a.getLast?, isNameChar c = false)
    (h : IsHarmless w) : forbiddenIn (a ++ w) = forbiddenIn a := by
  have hne : w ≠ [] := by
    rintro rfl
    cases h.early
  rw [forbiddenIn_append_of_getLast ha, forbiddenIn_of_all hne h.chars, List.filter_cons,
    isForbidden_of_early_digit h.early]
  exact List.append_nil _

/-- The last word of a text is harmless, and the text may go on with it. -/
def EndsHarmless (before : List Char) : Prop :=
  ∃ a w, before = a ++ w ∧ (∀ c ∈ a.getLast?, isNameChar c = false) ∧ IsHarmless w

theorem EndsHarmless.append {before u : List Char} (h : EndsHarmless before)
    (hu : ∀ c ∈ u, isNameChar c = true) :
    EndsHarmless (before ++ u) ∧ forbiddenIn (before ++ u) = forbiddenIn before := by
  obtain ⟨a, w, rfl, ha, hw⟩ := h
  rw [List.append_assoc, forbiddenIn_append_harmless ha hw,
    forbiddenIn_append_harmless ha (hw.append hu)]
  exact ⟨⟨a, w ++ u, rfl, ha, hw.append hu⟩, rfl⟩

/-! ## Numbers -/

/-- What follows a text like this starts a word of its own, or goes on with a harmless one. -/
def Settled (before : List Char) : Prop :=
  (∀ c ∈ before.getLast?, isNameChar c = false) ∨ EndsHarmless before

/-- A piece of text adds no forbidden word, and what follows it adds none to its end. -/
def Passes (before xs : List Char) : Prop :=
  Settled (before ++ xs) ∧ forbiddenIn (before ++ xs) = forbiddenIn before

theorem Passes.trans {before xs ys : List Char} (h : Passes before xs)
    (h' : Passes (before ++ xs) ys) : Passes before (xs ++ ys) := by
  rw [Passes, ← List.append_assoc]
  exact ⟨h'.1, h'.2.trans h.2⟩

/-- A character that no name has ends every word. -/
theorem passes_of_not_isNameChar (before : List Char) {c : Char} (h : isNameChar c = false) :
    Passes before [c] := by
  have hnone : forbiddenIn [c] = [] := by
    rw [forbiddenIn, words_cons h]
    rfl
  refine ⟨.inl (by simpa using h), ?_⟩
  rw [forbiddenIn_append (by simpa using h), hnone, List.append_nil]

theorem passes_harmless {before w : List Char} (hbefore : Settled before) (hw : IsHarmless w) :
    Passes before w := by
  rcases hbefore with hclosed | hopen
  · exact ⟨.inr ⟨before, w, rfl, hclosed, hw⟩, forbiddenIn_append_harmless hclosed hw⟩
  · obtain ⟨hends, hsame⟩ := hopen.append hw.chars
    exact ⟨.inr hends, hsame⟩

theorem isNameChar_of_isDigit {c : Char} (h : c.isDigit = true) : isNameChar c = true := by
  simp [isNameChar, Char.isAlphanum, h]

theorem isHarmless_digits {ds : List Char} (hne : ds ≠ []) (h : ∀ c ∈ ds, c.isDigit = true) :
    IsHarmless ds where
  chars c hc := isNameChar_of_isDigit (h c hc)
  early := by
    obtain ⟨d, rest, rfl⟩ := List.exists_cons_of_ne_nil hne
    simp [h d List.mem_cons_self]

theorem passes_numberChar {before : List Char} {c : Char}
    (hbefore : Settled before ∨ isNameChar c = false) (h : isNumberChar c = true) :
    Passes before [c] := by
  rcases isNumberChar_cases h with ⟨-, hdigit⟩ | rfl
  · have hsettled : Settled before :=
      hbefore.resolve_right (by simp [isNameChar_of_isDigit hdigit])
    exact passes_harmless hsettled (isHarmless_digits (by simp) (by simpa using hdigit))
  · exact passes_of_not_isNameChar before (by decide)

/-- What stands before a mantissa is settled, or the mantissa starts with a point. -/
theorem passes_mantissa {before cs : List Char} {c : Char}
    (hbefore : Settled before ∨ isNameChar c = false)
    (h : ∀ d ∈ c :: cs, isNumberChar d = true) : Passes before (c :: cs) := by
  have hfirst : Passes before [c] := passes_numberChar hbefore (h c List.mem_cons_self)
  induction cs generalizing before c with
  | nil => exact hfirst
  | cons d cs ih =>
    have hrest : ∀ e ∈ d :: cs, isNumberChar e = true := fun e he => h e (List.mem_cons_of_mem c he)
    have hsettled : Settled (before ++ [c]) ∨ isNameChar d = false := .inl hfirst.1
    have hnext := passes_numberChar hsettled (hrest d List.mem_cons_self)
    exact hfirst.trans (ih hsettled hrest hnext)

/-- The mark of an exponent alone is a word that is not forbidden. -/
theorem forbiddenIn_mark {before : List Char} (hbefore : Settled before) {mark : Char}
    (h : mark = 'e' ∨ mark = 'E') : forbiddenIn (before ++ [mark]) = forbiddenIn before := by
  have hchar : ∀ c ∈ [mark], isNameChar c = true := by
    rw [List.forall_mem_singleton]
    rcases h with rfl | rfl <;> rfl
  rcases hbefore with hclosed | hopen
  · have hmark : isForbidden [mark] = false := by
      have he : isForbidden ['e'] = false := by decide +kernel
      have hE : isForbidden ['E'] = false := by decide +kernel
      rcases h with rfl | rfl
      · exact he
      · exact hE
    rw [forbiddenIn_append_of_getLast hclosed, forbiddenIn_of_all (by simp) hchar,
      List.filter_cons_of_neg (by simp [hmark])]
    exact List.append_nil _
  · exact (hopen.append hchar).2

theorem passes_exponent {before exponent : List Char} (hbefore : Settled before)
    (h : IsExponent exponent) : Passes before exponent := by
  obtain ⟨mark, sign, digits, rfl, hmark, hsign, hne, hdigits⟩ := h
  have hharmless := isHarmless_digits hne hdigits
  have hsigned : ∀ c, isNameChar c = false → Passes before (mark :: c :: digits) := by
    intro c hc
    have hbreak := passes_of_not_isNameChar (before ++ [mark]) hc
    have hstart : Passes before [mark, c] := by
      rw [Passes, show before ++ [mark, c] = before ++ [mark] ++ [c] by simp]
      exact ⟨hbreak.1, hbreak.2.trans (forbiddenIn_mark hbefore hmark)⟩
    exact hstart.trans (passes_harmless hstart.1 hharmless)
  simp only [List.mem_cons, List.not_mem_nil, or_false] at hsign
  rcases hsign with rfl | rfl | rfl
  · obtain ⟨d, ds, rfl⟩ := List.exists_cons_of_ne_nil hne
    refine passes_harmless hbefore ⟨fun c hc => ?_, by simp [hdigits d List.mem_cons_self]⟩
    rcases List.mem_cons.1 hc with rfl | hc
    · rcases hmark with rfl | rfl <;> decide
    · exact hharmless.chars c hc
  · exact hsigned '+' (by decide)
  · exact hsigned '-' (by decide)

/-! ## Texts that are laid out -/

/-- A text goes on with a token: what stands before it is settled, and ends with a digit unless a word
is over. -/
def Ready (before : List Char) : Prop :=
  ∀ c ∈ before.getLast?, isNameChar c = true → c.isDigit = true ∧ EndsHarmless before

theorem ready_of_not_isNameChar (before : List Char) {c : Char} (h : isNameChar c = false) :
    Ready (before ++ [c]) := by
  intro d hd hname
  rw [List.getLast?_concat] at hd
  cases hd
  rw [h] at hname
  cases hname

theorem Ready.settled {before : List Char} (h : Ready before) : Settled before := by
  by_cases hclosed : ∀ c ∈ before.getLast?, isNameChar c = false
  · exact .inl hclosed
  · simp only [not_forall, Bool.not_eq_false] at hclosed
    obtain ⟨c, hc, hname⟩ := hclosed
    exact .inr (h c hc hname).2

/-- The end of a number is settled like the end of a word, or it is a digit. -/
theorem ready_of_settled {before : List Char} (h : Settled before)
    (hlast : ∀ c ∈ before.getLast?, isNumberChar c = true) : Ready before := by
  intro c hc hname
  rcases h with hclosed | hopen
  · rw [hclosed c hc] at hname
    cases hname
  · rcases isNumberChar_cases (hlast c hc) with ⟨-, hdigit⟩ | rfl
    · exact ⟨hdigit, hopen⟩
    · cases hname

theorem passes_number {before m e rest : List Char} (ends : (Lexeme.number m e).EndsBefore rest)
    (hbefore : Settled before ∨ ∀ c ∈ m.head?, isNameChar c = false) :
    Passes before (m ++ e) ∧ Ready (before ++ (m ++ e)) := by
  have hmantissa : ∀ {m : List Char}, m ≠ [] → (∀ c ∈ m, isNumberChar c = true) →
      (Settled before ∨ ∀ c ∈ m.head?, isNameChar c = false) → Passes before m := by
    intro m hne hchars hstart
    obtain ⟨c, cs, rfl⟩ := List.exists_cons_of_ne_nil hne
    exact passes_mantissa (hstart.imp id fun h => h c rfl) hchars
  have hlast : ∀ {xs : List Char}, xs ≠ [] → (∀ c ∈ xs, isNumberChar c = true) →
      ∀ ys, ∀ c ∈ (ys ++ xs).getLast?, isNumberChar c = true := by
    intro xs hne hxs ys c hc
    rw [List.getLast?_append_of_ne_nil _ hne] at hc
    exact hxs c (List.mem_of_getLast? hc)
  cases ends with
  | number nonempty chars ends plain =>
    have hpasses := hmantissa nonempty chars hbefore
    rw [List.append_nil]
    exact ⟨hpasses, ready_of_settled hpasses.1 (hlast nonempty chars before)⟩
  | scientific nonempty chars scale ends =>
    have hfirst := hmantissa nonempty chars hbefore
    have hpasses := hfirst.trans (passes_exponent hfirst.1 scale)
    refine ⟨hpasses, ready_of_settled hpasses.1 ?_⟩
    obtain ⟨mark, sign, digits, rfl, -, -, hne, hdigits⟩ := scale
    have hall := hlast hne (fun c hc => isNumberChar_of_isDigit (hdigits c hc))
      (before ++ m ++ mark :: sign)
    simpa using hall

/-- The forbidden names of tokens that do not follow a digit, as characters. -/
def forbiddenNames (text : List Char) (tokens : List Located) : List (List Char) :=
  (((freeTokens text tokens).filterMap Located.name?).map String.toList).filter isForbidden

section Cons

variable {text : List Char} {t : Located}

theorem forbiddenNames_cons_of_nameless (h : t.name? = none) (tokens : List Located) :
    forbiddenNames text (t :: tokens) = forbiddenNames text tokens := by
  unfold forbiddenNames freeTokens
  rw [List.filter_cons]
  split
  · rw [List.filterMap_cons_none h]
  · rfl

theorem forbiddenNames_cons_of_followsDigit (h : t.followsDigit text = true)
    (tokens : List Located) : forbiddenNames text (t :: tokens) = forbiddenNames text tokens := by
  unfold forbiddenNames freeTokens
  rw [List.filter_cons_of_neg (by simp [h])]

theorem forbiddenNames_cons_of_free (h : t.followsDigit text = false) {n : String}
    (hname : t.name? = some n) (tokens : List Located) :
    forbiddenNames text (t :: tokens) =
      [n.toList].filter isForbidden ++ forbiddenNames text tokens := by
  unfold forbiddenNames freeTokens
  rw [List.filter_cons_of_pos (by simp [h]), List.filterMap_cons_some hname, List.map_cons,
    ← List.singleton_append, List.filter_append]

end Cons

theorem followsDigit_append (before after : List Char) (t : Token) :
    Located.followsDigit (before ++ after) ⟨t, before.length⟩ =
      before.getLast?.any Char.isDigit := by
  rw [Located.followsDigit, List.take_left]

theorem name?_of_ofSymbol? {c : Char} {t : Token} (h : Token.ofSymbol? c = some t) (offset : Nat) :
    Located.name? ⟨t, offset⟩ = none := by
  unfold Token.ofSymbol? at h
  repeat
    split at h
    · cases h
      rfl
  cases h

/-- Symbols and numbers are no names. -/
theorem forbiddenNames_of_nameless {l : Lexeme} {offset : Nat} (text : List Char)
    (placed : List Placed) (h : ∀ run, l ≠ .name run) :
    forbiddenNames text ((⟨l, offset⟩ :: placed).filterMap Placed.located?) =
      forbiddenNames text (placed.filterMap Placed.located?) := by
  cases hlocated : Placed.located? ⟨l, offset⟩ with
  | none => rw [List.filterMap_cons_none hlocated]
  | some t =>
    rw [List.filterMap_cons_some hlocated]
    refine forbiddenNames_cons_of_nameless ?_ _
    obtain ⟨token, htoken, rfl⟩ := Option.map_eq_some_iff.1 hlocated
    cases l with
    | symbol c => exact name?_of_ofSymbol? htoken offset
    | name run => exact absurd rfl (h run)
    | number m e =>
      obtain ⟨x, -, rfl⟩ := Option.map_eq_some_iff.1 htoken
      rfl

/-- A name that follows a digit goes on with a harmless word, any other is a word of its own. -/
theorem forbiddenIn_append_name {before run : List Char} (hready : Ready before) (named : IsName run)
    (after : List Char) (tokens : List Located) :
    forbiddenIn (before ++ run) ++ forbiddenNames (before ++ after) tokens =
      forbiddenIn before ++ forbiddenNames (before ++ after)
        (⟨.name (String.ofList run), before.length⟩ :: tokens) := by
  have hfollows := followsDigit_append before after (.name (String.ofList run))
  by_cases hclosed : ∀ c ∈ before.getLast?, isNameChar c = false
  · have hfree : before.getLast?.any Char.isDigit = false := by
      cases hlast : before.getLast? with
      | none => rfl
      | some c =>
        cases hdigit : c.isDigit with
        | false => simp [hdigit]
        | true =>
          have hnot := hclosed c hlast
          rw [isNameChar_of_isDigit hdigit] at hnot
          cases hnot
    have hne : run ≠ [] := by
      obtain ⟨c, cs, rfl, -⟩ := named.exists_cons
      exact List.cons_ne_nil c cs
    rw [forbiddenNames_cons_of_free (hfollows.trans hfree) rfl, String.toList_ofList,
      forbiddenIn_append_of_getLast hclosed, forbiddenIn_of_all hne named.chars, List.append_assoc]
  · simp only [not_forall, Bool.not_eq_false] at hclosed
    obtain ⟨c, hlast, hname⟩ := hclosed
    obtain ⟨hdigit, hopen⟩ := hready c hlast hname
    have hdigits : before.getLast?.any Char.isDigit = true := by
      rw [Option.mem_def.1 hlast]
      exact hdigit
    rw [forbiddenNames_cons_of_followsDigit (hfollows.trans hdigits),
      (hopen.append named.chars).2]

/-- The forbidden words of a text that is laid out are the forbidden names that do not follow a digit. -/
theorem forbiddenIn_of_laid {offset : Nat} {placed : List Placed} {cs : List Char}
    (h : Laid offset placed cs) {before : List Char} (hoffset : offset = before.length)
    (hready : Ready before ∨ ∀ c ∈ cs.head?, isNameChar c = false) :
    forbiddenIn (before ++ cs) =
      forbiddenIn before ++ forbiddenNames (before ++ cs) (placed.filterMap Placed.located?) := by
  -- By induction on the layout: what stands before the rest of the text grows by a piece.
  induction h generalizing before with
  | done => simp [forbiddenNames, freeTokens]
  | @blank offset placed c cs hblank more ih =>
    have hsize : c.utf8Size = 1 := utf8Size_of_isAllowed (by simp [isAllowed, hblank])
    have hc := not_isNameChar_of_isAsciiBlank hblank
    have hrest := @ih (before ++ [c]) (by simp [hoffset, hsize])
      (.inl (ready_of_not_isNameChar before hc))
    rwa [(passes_of_not_isNameChar before hc).2, List.append_assoc] at hrest
  | @lexeme offset placed l rest ends more ih =>
    have hrest := @ih (before ++ l.chars) (by rw [ends.utf8ByteSize, hoffset, List.length_append])
    rw [List.append_assoc] at hrest
    cases l with
    | symbol c =>
      cases ends with
      | symbol listed =>
        obtain ⟨t, ht⟩ := Option.isSome_iff_exists.1 listed
        have hc := not_isNameChar_of_symbol (ofSymbol?_eq_some ht).1
        rw [forbiddenNames_of_nameless _ _ (by simp),
          hrest (.inl (ready_of_not_isNameChar before hc))]
        exact congrArg (· ++ _) (passes_of_not_isNameChar before hc).2
    | number m e =>
      have hstart : Settled before ∨ ∀ c ∈ m.head?, isNameChar c = false := by
        refine hready.imp Ready.settled fun h c hc => h c ?_
        obtain ⟨cs, rfl⟩ := List.head?_eq_some_iff.1 hc
        rfl
      obtain ⟨hpasses, hnext⟩ := passes_number ends hstart
      rw [forbiddenNames_of_nameless _ _ (by simp), hrest (.inl hnext)]
      exact congrArg (· ++ _) hpasses.2
    | name run =>
      cases ends with
      | name named ends =>
        have hbefore : Ready before := by
          refine hready.resolve_right fun h => ?_
          obtain ⟨c, cs, rfl, hstarts⟩ := named.exists_cons
          have hnot := h c rfl
          rw [isNameChar_of_isNameStart hstarts] at hnot
          cases hnot
        have hlocated : Placed.located? ⟨.name run, offset⟩
            = some ⟨.name (String.ofList run), before.length⟩ := by rw [hoffset]; rfl
        rw [List.filterMap_cons_some hlocated, ← forbiddenIn_append_name hbefore named]
        exact hrest (.inr ends)

/-! ## The screen -/

theorem head?_forbiddenNames (text : List Char) (tokens : List Located) :
    (forbiddenNames text tokens).head? =
      (firstForbidden? (freeTokens text tokens)).map String.toList := by
  rw [forbiddenNames, List.head?_filter, List.find?_map]
  rfl

/-- The screen goes by the forbidden words. -/
theorem checkWords_eq_screened (source : String) :
    checkWords source = screened source ((forbiddenIn source.toList).head?.map String.ofList) := by
  rw [checkWords, forbiddenIn, List.head?_filter]
  cases (words source.toList).find? isForbidden <;> rfl

/-- The answer of the screen names the word. -/
theorem screened_injective (source : String) : Function.Injective (screened source) := by
  intro a b h
  cases a with
  | none =>
    cases b with
    | none => rfl
    | some w => cases h
  | some v =>
    cases b with
    | none => cases h
    | some w =>
      have hfailures := Except.error.inj h
      have hreason : "forbidden identifier '" ++ v ++ "'" = "forbidden identifier '" ++ w ++ "'" := by
        injection hfailures
      exact congrArg some ((String.append_right_inj _).1 ((String.append_left_inj _).1 hreason))

theorem eq_filterMap_of_tokenize {source : String} {placed : List Placed} {located : List Located}
    (hlaid : Laid 0 placed source.toList) (h : tokenize source = .ok located) :
    located = placed.filterMap Placed.located? := by
  rw [tokenize_of_laid hlaid] at h
  split at h
  · cases h
  · exact (Except.ok.inj h).symm

theorem exists_checkWords_error_iff {source : String} :
    (∃ failure, checkWords source = .error failure) ↔
      ∃ w ∈ words source.toList, isForbidden w = true := by
  unfold checkWords
  cases hfind : (words source.toList).find? isForbidden with
  | none => simpa using List.find?_eq_none.1 hfind
  | some w =>
    simp only [Except.error.injEq, exists_eq', true_iff]
    exact ⟨w, List.mem_of_find?_eq_some hfind, List.find?_some hfind⟩

theorem mem_forbiddenNames {text : List Char} {tokens : List Located} {w : List Char} :
    w ∈ forbiddenNames text tokens ↔ isForbidden w = true ∧
      ∃ t ∈ tokens, t.followsDigit text = false ∧ ∃ n, t.token = .name n ∧ n.toList = w := by
  have hname : ∀ (t : Located) (n : String), t.name? = some n ↔ t.token = .name n := by
    rintro ⟨token, offset⟩ n
    cases token <;> simp [Located.name?]
  simp only [forbiddenNames, freeTokens, List.mem_filter, List.mem_map, List.mem_filterMap,
    Bool.not_eq_true', hname]
  constructor
  · rintro ⟨⟨n, ⟨t, ⟨ht, hfree⟩, hn⟩, hw⟩, hforbidden⟩
    exact ⟨hforbidden, t, ht, hfree, n, hn, hw⟩
  · rintro ⟨hforbidden, t, ht, hfree, n, hn, hw⟩
    exact ⟨⟨n, ⟨t, ⟨ht, hfree⟩, hn⟩, hw⟩, hforbidden⟩

/-- Tokens that do follow a digit do not matter if none of them is forbidden. -/
theorem firstForbidden?_freeTokens {text : List Char} {tokens : List Located}
    (h : ∀ t ∈ tokens, t.followsDigit text = true → ∀ n, t.name? = some n →
      isForbidden n.toList = false) :
    firstForbidden? (freeTokens text tokens) = firstForbidden? tokens := by
  unfold firstForbidden? freeTokens
  induction tokens with
  | nil => rfl
  | cons t tokens ih =>
    have hrest := ih fun u hu => h u (List.mem_cons_of_mem t hu)
    have hhead := h t List.mem_cons_self
    rw [List.filter_cons, List.filterMap_cons]
    cases hfollows : t.followsDigit text with
    | false =>
      simp only [Bool.not_false, if_true, List.filterMap_cons]
      cases t.name? with
      | none => exact hrest
      | some n => simp only [List.find?_cons, hrest]
    | true =>
      simp only [Bool.not_true, Bool.false_eq_true, if_false]
      cases hname : t.name? with
      | none => exact hrest
      | some n => simp only [List.find?_cons, hhead hfollows n hname, hrest]

/-- On a text that has tokens the screen goes by the names among them that do not follow a digit
directly. It refuses the text exactly if one of these is listed, in any case, or starts with two
underscores, and names the first. That is the first forbidden name among all tokens exactly if the two
are the same word, as they are where no forbidden name follows a digit. -/
theorem screen_sees_free_names {source : String} {located : List Located}
    (h : tokenize source = .ok located) :
    checkWords source = screened source (firstForbidden? (freeTokens source.toList located)) ∧
    ((∃ failure, checkWords source = .error failure) ↔
      ∃ t ∈ located, t.followsDigit source.toList = false ∧ ∃ n, t.token = .name n ∧
        (['_', '_'] <+: n.toList ∨ ∃ w ∈ forbiddenWords, SameLetters n.toList w.toList)) ∧
    (checkWords source = screened source (firstForbidden? located) ↔
      firstForbidden? (freeTokens source.toList located) = firstForbidden? located) ∧
    ((∀ t ∈ located, t.followsDigit source.toList = true → ∀ n, t.name? = some n →
        isForbidden n.toList = false) →
      checkWords source = screened source (firstForbidden? located)) := by
  obtain ⟨placed, hlaid⟩ := exists_laid_of_tokenize h
  have hnames : forbiddenIn source.toList = forbiddenNames source.toList located := by
    rw [eq_filterMap_of_tokenize hlaid h]
    exact @forbiddenIn_of_laid _ _ _ hlaid [] rfl (.inl nofun)
  have hscreen : checkWords source
      = screened source (firstForbidden? (freeTokens source.toList located)) := by
    rw [checkWords_eq_screened, hnames, head?_forbiddenNames, Option.map_map]
    simp [Function.comp_def]
  have hforbidden : ∀ n : String, isForbidden n.toList = true ↔
      ['_', '_'] <+: n.toList ∨ ∃ w ∈ forbiddenWords, SameLetters n.toList w.toList := by
    intro n
    rw [← Bool.not_eq_false, isForbidden_eq_false_iff, not_and_or, not_not]
    simp
  have hiff : checkWords source = screened source (firstForbidden? located) ↔
      firstForbidden? (freeTokens source.toList located) = firstForbidden? located := by
    rw [hscreen, (screened_injective source).eq_iff]
  refine ⟨hscreen, ?_, hiff, fun hnone => hiff.2 (firstForbidden?_freeTokens hnone)⟩
  simp only [← hforbidden]
  rw [exists_checkWords_error_iff]
  constructor
  · rintro ⟨w, hw, hword⟩
    have hmem : w ∈ forbiddenIn source.toList := List.mem_filter.2 ⟨hw, hword⟩
    rw [hnames, mem_forbiddenNames] at hmem
    obtain ⟨-, t, ht, hfree, n, hn, rfl⟩ := hmem
    exact ⟨t, ht, hfree, n, hn, hword⟩
  · rintro ⟨t, ht, hfree, n, hn, hword⟩
    have hmem : n.toList ∈ forbiddenIn source.toList := by
      rw [hnames, mem_forbiddenNames]
      exact ⟨hword, t, ht, hfree, n, hn, rfl⟩
    exact ⟨n.toList, (List.mem_filter.1 hmem).1, hword⟩

theorem sample_screen_misses_name :
    (∃ located, tokenize "2eval" = .ok located ∧ firstForbidden? located = some "eval" ∧
      firstForbidden? (freeTokens "2eval".toList located) = none ∧
      checkWords "2eval" = .ok () ∧
      checkWords "2eval" ≠ screened "2eval" (firstForbidden? located)) ∧
    (∃ located, tokenize "2e5 * (a1 + Eval)" = .ok located ∧
      firstForbidden? located = some "Eval" ∧
      checkWords "2e5 * (a1 + Eval)" = screened "2e5 * (a1 + Eval)" (some "Eval")) := by
  constructor
  · obtain ⟨located, hlocated, hnames⟩ := @exists_ok_of_any _ _ (tokenize "2eval")
      (fun located => decide (firstForbidden? located = some "eval" ∧
        firstForbidden? (freeTokens "2eval".toList located) = none)) (by decide +kernel)
    obtain ⟨hfirst, hfree⟩ := of_decide_eq_true hnames
    obtain ⟨hscreen, -, hiff, -⟩ := screen_sees_free_names hlocated
    refine ⟨located, hlocated, hfirst, hfree, by rw [hscreen, hfree]; rfl, ?_⟩
    rw [ne_eq, hiff, hfirst, hfree]
    nofun
  · obtain ⟨located, hlocated, hnames⟩ := @exists_ok_of_any _ _ (tokenize "2e5 * (a1 + Eval)")
      (fun located => decide (firstForbidden? located = some "Eval" ∧
        firstForbidden? (freeTokens "2e5 * (a1 + Eval)".toList located) = some "Eval"))
      (by decide +kernel)
    obtain ⟨hfirst, hfree⟩ := of_decide_eq_true hnames
    obtain ⟨hscreen, -⟩ := screen_sees_free_names hlocated
    exact ⟨located, hlocated, hfirst, by rw [hscreen, hfree]⟩

end QuantitySurvey.Formula
