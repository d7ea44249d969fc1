import QuantitySurvey.Proofs.Formula.CanonicalText
import QuantitySurvey.Proofs.Formula.Lexemes

/-! # Tokenizing

A text is laid out in lexemes with ASCII blanks before, between and after them, in one way at most.
Every text of characters of the language is laid out, so that it can only fail on numbers, and so is
every text that has tokens.

* `Laid`: lexemes and the bytes at which they start.
* `Laid.unique`: the lexemes of a text.
* `scan_cons`, `scan_of_laid`: one step of the scanner, and what it makes of a text.
* `exists_laid_or_unexpected`: a text without lexemes has a character that starts none.
* `tokenize_lexemes`: the tokens of a text, and on which texts there are none.
-/

set_option autoImplicit false

namespace QuantitySurvey.Formula

/-! ## Definitions -/

/-- A lexeme and the place where it starts, in bytes. -/
structure Placed where
  lexeme : Lexeme
  offset : Nat

namespace Placed

def located? (p : Placed) : Option Located :=
  p.lexeme.token?.map fun t => ⟨t, p.offset⟩

/-- The failure that quotes a lexeme that is no number. -/
def failure (p : Placed) : Failure :=
  (Fault.invalidNumber p.offset).of (String.ofList p.lexeme.chars)

end Placed

/-- From an offset on, a text is made of lexemes and ASCII blanks. -/
inductive Laid : Nat → List Placed → List Char → Prop
  | done {offset : Nat} : Laid offset [] []
  | blank {offset : Nat} {placed : List Placed} {c : Char} {cs : List Char}
      (h : Text.isAsciiBlank c = true) (more : Laid (offset + c.utf8Size) placed cs) :
      Laid offset placed (c :: cs)
  | lexeme {offset : Nat} {placed : List Placed} {l : Lexeme} {rest : List Char}
      (ends : l.EndsBefore rest)
      (more : Laid (offset + (String.ofList l.chars).utf8ByteSize) placed rest) :
      Laid offset (⟨l, offset⟩ :: placed) (l.chars ++ rest)

/-- Lexemes are those of tokens, one by one, and stand where the tokens do. -/
def AreLexemesOf (placed : List Placed) (located : List Located) : Prop :=
  placed.map (fun p => (p.lexeme.token?, p.offset)) = located.map fun t => (some t.token, t.offset)

theorem AreLexemesOf.offsets {placed : List Placed} {located : List Located}
    (h : AreLexemesOf placed located) :
    placed.map Placed.offset = located.map Located.offset := by
  have hoffsets := congrArg (List.map Prod.snd) h
  rwa [List.map_map, List.map_map] at hoffsets

/-- Tokens do not depend on where they stand. -/
theorem AreLexemesOf.tokens {placed : List Placed} {located : List Located}
    (h : AreLexemesOf placed located) :
    (placed.map Placed.lexeme).map Lexeme.token? = (located.map Located.token).map some := by
  have htokens := congrArg (List.map Prod.fst) h
  rw [List.map_map, List.map_map] at htokens ⊢
  exact htokens

theorem areLexemesOf_filterMap {placed : List Placed}
    (h : ∀ p ∈ placed, p.lexeme.token? ≠ none) :
    AreLexemesOf placed (placed.filterMap Placed.located?) := by
  induction placed with
  | nil => rfl
  | cons p placed ih =>
    obtain ⟨t, ht⟩ := Option.ne_none_iff_exists'.1 (h p List.mem_cons_self)
    have hlocated : p.located? = some ⟨t, p.offset⟩ := by rw [Placed.located?, ht, Option.map_some]
    have hrest := ih fun q hq => h q (List.mem_cons_of_mem p hq)
    unfold AreLexemesOf at hrest ⊢
    rw [List.filterMap_cons_some hlocated, List.map_cons, List.map_cons, ht, hrest]

/-! ## Layouts -/

namespace Laid

variable {offset : Nat} {placed : List Placed}

/-- What starts a text decides how it is laid out. -/
theorem cons_cases {c : Char} {cs : List Char} (h : Laid offset placed (c :: cs)) :
    (Text.isAsciiBlank c = true ∧ Laid (offset + c.utf8Size) placed cs) ∨
    ∃ l rest more, Lexeme.first? (c :: cs) = some (l, rest) ∧ placed = ⟨l, offset⟩ :: more ∧
      Laid (offset + (String.ofList l.chars).utf8ByteSize) more rest := by
  generalize hcs : c :: cs = text at h
  cases h with
  | done => cases hcs
  | blank hblank more =>
    cases hcs
    exact .inl ⟨hblank, more⟩
  | @lexeme _ more l rest ends hmore =>
    exact .inr ⟨l, rest, more, hcs ▸ Lexeme.first?_of_endsBefore ends, rfl, hmore⟩

theorem nil_eq (h : Laid offset placed []) : placed = [] := by
  generalize hcs : ([] : List Char) = text at h
  cases h with
  | done => rfl
  | blank hblank more => cases hcs
  | lexeme ends more => exact absurd (List.append_eq_nil_iff.1 hcs.symm).1 ends.chars_ne_nil

/-- A text is laid out in one way. -/
theorem unique {other : List Placed} {cs : List Char} (h : Laid offset placed cs)
    (hother : Laid offset other cs) : other = placed := by
  -- By induction on one layout: `cons_cases` says that the other starts with the same step.
  induction h generalizing other with
  | done => exact hother.nil_eq
  | @blank offset placed c cs hblank more ih =>
    rcases hother.cons_cases with ⟨-, hmore⟩ | ⟨l, rest, after, hfirst, -⟩
    · exact ih hmore
    · rw [Lexeme.first?_of_isAsciiBlank hblank] at hfirst
      cases hfirst
  | @lexeme offset placed l rest ends more ih =>
    obtain ⟨c, cs, hcons⟩ := List.exists_cons_of_ne_nil ends.chars_ne_nil
    have hfirst := Lexeme.first?_of_endsBefore ends
    rw [hcons, List.cons_append] at hfirst hother
    rcases hother.cons_cases with ⟨hblank, -⟩ | ⟨l', rest', after, hfirst', rfl, hafter⟩
    · rw [Lexeme.first?_of_isAsciiBlank hblank] at hfirst
      cases hfirst
    · rw [hfirst] at hfirst'
      cases hfirst'
      rw [ih hafter]

theorem of_first? {l : Lexeme} {cs rest : List Char} (h : Laid (offset + l.chars.length) placed rest)
    (hfirst : Lexeme.first? cs = some (l, rest)) : Laid offset (⟨l, offset⟩ :: placed) cs := by
  obtain ⟨rfl, hends⟩ := Lexeme.first?_eq_some_iff.1 hfirst
  exact .lexeme hends (hends.utf8ByteSize.symm ▸ h)

/-- Lexemes start one after the other. -/
theorem ascending {cs : List Char} (h : Laid offset placed cs) :
    (∀ p ∈ placed, offset ≤ p.offset) ∧ (placed.map Placed.offset).Pairwise (· < ·) := by
  induction h with
  | done => simp
  | blank hblank more ih => exact ⟨fun p hp => (Nat.le_add_right _ _).trans (ih.1 p hp), ih.2⟩
  | @lexeme offset placed l rest ends more ih =>
    have hpositive : 0 < (String.ofList l.chars).utf8ByteSize := by
      rw [ends.utf8ByteSize]
      exact List.length_pos_of_ne_nil ends.chars_ne_nil
    have hafter : ∀ p ∈ placed, offset < p.offset := fun p hp => by
      have hle := ih.1 p hp
      omega
    refine ⟨?_, ?_⟩
    · intro p hp
      rcases List.mem_cons.1 hp with rfl | hp
      · exact Nat.le_refl _
      · exact (hafter p hp).le
    · rw [List.map_cons, List.pairwise_cons]
      exact ⟨List.forall_mem_map.2 hafter, ih.2⟩

theorem endsBefore {cs : List Char} (h : Laid offset placed cs) :
    ∀ p ∈ placed, ∃ rest, p.lexeme.EndsBefore rest := by
  induction h with
  | done => nofun
  | blank hblank more ih => exact ih
  | @lexeme offset placed l rest ends more ih =>
    intro p hp
    rcases List.mem_cons.1 hp with rfl | hp
    · exact ⟨rest, ends⟩
    · exact ih p hp

end Laid

/-- Lexemes with single spaces between them are laid out as they are. -/
theorem exists_laid_joined {lexemes : List Lexeme} (h : ∀ l ∈ lexemes, ∃ rest, l.EndsBefore rest)
    (offset : Nat) : ∃ placed, placed.map Placed.lexeme = lexemes ∧
      Laid offset placed ([' '].intercalate (lexemes.map Lexeme.chars)) := by
  induction lexemes generalizing offset with
  | nil => exact ⟨[], rfl, .done⟩
  | cons l lexemes ih =>
    obtain ⟨rest, hends⟩ := h l List.mem_cons_self
    have hrest := ih fun m hm => h m (List.mem_cons_of_mem l hm)
    cases lexemes with
    | nil =>
      have hlast : l.EndsBefore [] := hends.of_blank nofun
      have hlaid := @Laid.lexeme offset [] l [] hlast .done
      rw [List.append_nil] at hlaid
      exact ⟨[⟨l, offset⟩], rfl, by simpa using hlaid⟩
    | cons m lexemes =>
      obtain ⟨placed, hplaced, hmore⟩ :=
        hrest (offset + (String.ofList l.chars).utf8ByteSize + (' ').utf8Size)
      refine ⟨⟨l, offset⟩ :: placed, by rw [List.map_cons, hplaced], ?_⟩
      rw [List.map_cons, List.map_cons, List.intercalate_cons_cons, List.append_assoc,
        ← List.map_cons]
      exact .lexeme (hends.of_blank (by rintro c ⟨⟩; rfl)) (.blank rfl hmore)

/-! ## Scanning -/

section Scanning

variable (source : String)

/-- One step of the scanner: a blank, a lexeme, or a character that starts neither. -/
theorem scan_cons (steps offset : Nat) (c : Char) (cs : List Char) (found : List Located) :
    scan source (steps + 1) offset (c :: cs) found =
      if Text.isAsciiBlank c then scan source steps (offset + 1) cs found
      else match Lexeme.first? (c :: cs) with
        | some (l, rest) =>
          match l.token? with
          | some t => scan source steps (offset + l.chars.length) rest (⟨t, offset⟩ :: found)
          | none => .error (Placed.failure ⟨l, offset⟩)
        | none => .error ((Fault.unexpectedCharacter c offset).of source) := by
  rw [scan]
  cases hsymbol : Token.ofSymbol? c with
  | some t =>
    have hblank : Text.isAsciiBlank c = false := by
      cases hblank : Text.isAsciiBlank c with
      | false => rfl
      | true =>
        rw [ofSymbol?_of_isAsciiBlank hblank] at hsymbol
        cases hsymbol
    have hfirst : Lexeme.first? (c :: cs) = some (.symbol c, cs) := by
      simp [Lexeme.first?, hsymbol]
    rw [hblank, hfirst]
    simp only [Lexeme.token?, hsymbol]
    rfl
  | none =>
    cases hblank : Text.isAsciiBlank c with
    | true => rfl
    | false =>
      cases hnumber : isNumberChar c with
      | true =>
        have hfirst : Lexeme.first? (c :: cs) =
            some (.number ((c :: cs).takeWhile isNumberChar)
              (splitExponent ((c :: cs).dropWhile isNumberChar)).1,
              (splitExponent ((c :: cs).dropWhile isNumberChar)).2) := by
          simp [Lexeme.first?, hsymbol, hnumber]
        rw [hfirst]
        simp only [Lexeme.token?, splitNumber, Lexeme.chars, Bool.false_eq_true, if_false, if_true]
        cases Decimal.read? ((c :: cs).takeWhile isNumberChar
          ++ (splitExponent ((c :: cs).dropWhile isNumberChar)).1) with
        | some x => rfl
        | none => rfl
      | false =>
        cases hname : isNameStart c with
        | true =>
          have hfirst : Lexeme.first? (c :: cs) =
              some (.name ((c :: cs).takeWhile isNameChar), (c :: cs).dropWhile isNameChar) := by
            simp [Lexeme.first?, hsymbol, hnumber, hname]
          rw [hfirst]
          rfl
        | false =>
          have hfirst : Lexeme.first? (c :: cs) = none := by
            simp [Lexeme.first?, hsymbol, hnumber, hname]
          rw [hfirst]
          rfl

/-- What the scanner makes of a text that is laid out: a failure that quotes the first number that is
none, or the tokens of all lexemes. -/
theorem scan_of_laid {offset : Nat} {placed : List Placed} {cs : List Char}
    (h : Laid offset placed cs) {steps : Nat} (hsteps : cs.length ≤ steps) (found : List Located) :
    scan source steps offset cs found =
      match placed.find? fun p => p.lexeme.isInvalid with
      | some p => .error p.failure
      | none => .ok (found.reverse ++ placed.filterMap Placed.located?) := by
  induction h generalizing steps found with
  | done => cases steps <;> simp [scan]
  | @blank offset placed c cs hblank more ih =>
    obtain ⟨steps, rfl⟩ := Nat.exists_eq_add_of_le' (Nat.le_of_add_left_le hsteps)
    have hsize : c.utf8Size = 1 := utf8Size_of_isAllowed (by simp [isAllowed, hblank])
    rw [scan_cons, if_pos hblank, ← hsize]
    exact ih (Nat.le_of_succ_le_succ hsteps) found
  | @lexeme offset placed l rest ends more ih =>
    obtain ⟨c, cs, hcons⟩ := List.exists_cons_of_ne_nil ends.chars_ne_nil
    have hfirst := Lexeme.first?_of_endsBefore ends
    have hblank : ¬ Text.isAsciiBlank c = true := by
      intro hblank
      rw [hcons, List.cons_append, Lexeme.first?_of_isAsciiBlank hblank] at hfirst
      cases hfirst
    have hlength : rest.length + 1 ≤ steps := by
      rw [hcons, List.cons_append, List.length_cons, List.length_append] at hsteps
      omega
    obtain ⟨steps, rfl⟩ := Nat.exists_eq_add_of_le' (Nat.le_of_add_left_le hlength)
    have hmore := fun found => ih (Nat.le_of_succ_le_succ hlength) found
    rw [ends.utf8ByteSize] at hmore
    rw [hcons, List.cons_append] at hfirst ⊢
    rw [scan_cons, if_neg hblank, hfirst, List.find?_cons]
    cases htoken : l.token? with
    | none => simp only [htoken, (Lexeme.token?_eq_none_iff ends).1 htoken]
    | some t =>
      have hvalid : l.isInvalid = false := by
        rw [← Bool.not_eq_true, ← Lexeme.token?_eq_none_iff ends, htoken]
        simp
      have hlocated : Placed.located? ⟨l, offset⟩ = some ⟨t, offset⟩ := by
        simp [Placed.located?, htoken]
      simp only [htoken, hvalid, hmore, List.filterMap_cons_some hlocated, List.reverse_cons,
        List.append_assoc, List.singleton_append]

/-- A text without lexemes has a character outside the language, which the scanner does not get
past. -/
theorem exists_laid_or_unexpected {steps : Nat} {cs : List Char} (hsteps : cs.length ≤ steps)
    (offset : Nat) (found : List Located) :
    (∃ placed, Laid offset placed cs) ∨
      (∃ c ∈ cs, isAllowed c = false) ∧
        ∀ located, scan source steps offset cs found ≠ .ok located := by
  induction steps generalizing cs offset found with
  | zero =>
    have hcs : cs = [] := List.length_eq_zero_iff.1 (Nat.le_zero.1 hsteps)
    exact .inl ⟨[], hcs ▸ .done⟩
  | succ steps ih =>
    cases cs with
    | nil => exact .inl ⟨[], .done⟩
    | cons c cs =>
      have hrest : cs.length ≤ steps := by simpa using hsteps
      rw [scan_cons]
      cases hblank : Text.isAsciiBlank c with
      | true =>
        have hsize : c.utf8Size = 1 := utf8Size_of_isAllowed (by simp [isAllowed, hblank])
        rcases ih hrest (offset + 1) found with ⟨placed, hlaid⟩ | ⟨⟨d, hd, hnot⟩, hfails⟩
        · exact .inl ⟨placed, .blank hblank (hsize.symm ▸ hlaid)⟩
        · exact .inr ⟨⟨d, List.mem_cons_of_mem c hd, hnot⟩, hfails⟩
      | false =>
        cases hfirst : Lexeme.first? (c :: cs) with
        | none =>
          refine .inr ⟨⟨c, List.mem_cons_self,
            Lexeme.isAllowed_of_first?_eq_none hfirst hblank⟩, ?_⟩
          intro located h
          cases h
        | some p =>
          obtain ⟨l, rest⟩ := p
          have hshort : rest.length ≤ steps :=
            Nat.le_of_lt_succ ((Lexeme.length_lt_of_first? hfirst).trans_le hsteps)
          by_cases hlaid : ∃ placed, Laid (offset + l.chars.length) placed rest
          · obtain ⟨placed, hlaid⟩ := hlaid
            exact .inl ⟨_, hlaid.of_first? hfirst⟩
          · -- The character comes after the lexeme, whether or not the lexeme is a token.
            have hnext := fun found => (ih hshort (offset + l.chars.length) found).resolve_left hlaid
            obtain ⟨⟨d, hd, hnot⟩, -⟩ := hnext found
            refine .inr ⟨⟨d, Lexeme.mem_of_first? hfirst hd, hnot⟩, ?_⟩
            cases htoken : l.token? with
            | some t =>
              simp only [htoken]
              exact (hnext (⟨t, offset⟩ :: found)).2
            | none =>
              simp only [htoken]
              intro located h
              cases h

end Scanning

variable {source : String}

section Outcome

variable {placed : List Placed} (h : Laid 0 placed source.toList)
include h

theorem tokenize_of_laid :
    tokenize source =
      match placed.find? fun p => p.lexeme.isInvalid with
      | some p => .error p.failure
      | none => .ok (placed.filterMap Placed.located?) :=
  scan_of_laid source h (Nat.le_refl _) []

theorem tokenize_of_invalid {p : Placed}
    (hfind : placed.find? (fun p => p.lexeme.isInvalid) = some p) :
    tokenize source = .error p.failure := by
  rw [tokenize_of_laid h, hfind]

theorem tokenize_of_valid (hvalid : ∀ l ∈ placed.map Placed.lexeme, l.isInvalid = false) :
    ∃ located, tokenize source = .ok located ∧ AreLexemesOf placed located := by
  have hall : ∀ p ∈ placed, p.lexeme.isInvalid = false := List.forall_mem_map.1 hvalid
  have hfind : placed.find? (fun p => p.lexeme.isInvalid) = none :=
    List.find?_eq_none.2 fun p hp => by simp [hall p hp]
  refine ⟨placed.filterMap Placed.located?, by rw [tokenize_of_laid h, hfind],
    areLexemesOf_filterMap fun p hp => ?_⟩
  obtain ⟨rest, hends⟩ := h.endsBefore p hp
  rw [ne_eq, Lexeme.token?_eq_none_iff hends, hall p hp]
  exact Bool.false_ne_true

theorem valid_of_tokenize {located : List Located} (htokens : tokenize source = .ok located) :
    ∀ l ∈ placed.map Placed.lexeme, l.isInvalid = false := by
  refine List.forall_mem_map.2 fun p hp => ?_
  cases hfind : placed.find? fun p => p.lexeme.isInvalid with
  | none => simpa using List.find?_eq_none.1 hfind p hp
  | some q =>
    rw [tokenize_of_invalid h hfind] at htokens
    cases htokens

theorem tokenize_fails_iff :
    (∃ failure, tokenize source = .error failure) ↔ ∃ p ∈ placed, p.lexeme.isInvalid = true := by
  constructor
  · rintro ⟨failure, hfails⟩
    cases hfind : placed.find? fun p => p.lexeme.isInvalid with
    | some p =>
      have hinvalid := List.find?_some hfind
      exact ⟨p, List.mem_of_find?_eq_some hfind, hinvalid⟩
    | none =>
      have hvalid : ∀ l ∈ placed.map Placed.lexeme, l.isInvalid = false :=
        List.forall_mem_map.2 fun p hp => by simpa using List.find?_eq_none.1 hfind p hp
      obtain ⟨located, hlocated, -⟩ := tokenize_of_valid h hvalid
      rw [hlocated] at hfails
      cases hfails
  · rintro ⟨p, hp, hinvalid⟩
    cases htokens : tokenize source with
    | error failure => exact ⟨failure, rfl⟩
    | ok located =>
      have hvalid := valid_of_tokenize h htokens p.lexeme (List.mem_map_of_mem hp)
      rw [hinvalid] at hvalid
      cases hvalid

/-- The lexemes of a text with single spaces between them have the tokens that they had. -/
theorem exists_tokenize_joined (hvalid : ∀ l ∈ placed.map Placed.lexeme, l.isInvalid = false) :
    ∃ joined, tokenize (String.ofList
        ([' '].intercalate (placed.map fun p => p.lexeme.chars))) = .ok joined ∧
      (joined.map Located.token).map some = (placed.map Placed.lexeme).map Lexeme.token? := by
  obtain ⟨again, hagain, hjoined⟩ := exists_laid_joined (List.forall_mem_map.2 h.endsBefore) 0
  have hlaid : Laid 0 again (String.ofList
      ([' '].intercalate (placed.map fun p => p.lexeme.chars))).toList := by
    rw [String.toList_ofList]
    rwa [List.map_map] at hjoined
  obtain ⟨joined, htext, hplaced⟩ := tokenize_of_valid hlaid (hagain ▸ hvalid)
  exact ⟨joined, htext, by rw [← hplaced.tokens, hagain]⟩

end Outcome

theorem exists_laid_of_tokenize {located : List Located} (h : tokenize source = .ok located) :
    ∃ placed, Laid 0 placed source.toList :=
  (exists_laid_or_unexpected source (Nat.le_refl _) 0 []).resolve_right
    fun hunexpected => hunexpected.2 located h

theorem exists_laid_of_checkCharacters (h : checkCharacters source = .ok ()) :
    ∃ placed, Laid 0 placed source.toList := by
  refine (exists_laid_or_unexpected source (Nat.le_refl _) 0 []).resolve_right ?_
  rintro ⟨⟨c, hc, hnot⟩, -⟩
  rw [checkCharacters_eq_ok_iff.1 h c hc] at hnot
  cases hnot

/-- The tokens of a text are its lexemes, which start one after the other with nothing but ASCII blanks
before, between and after them, and which have the same tokens with single spaces between them. A text
of characters of the language is made of lexemes, and has no tokens exactly if one of them is a number
without a digit or with more than one point: the failure quotes the first. -/
theorem tokenize_lexemes (source : String) :
    (∀ located, tokenize source = .ok located →
      (located.map Located.offset).Pairwise (· < ·) ∧
      ∃ placed, Laid 0 placed source.toList ∧ AreLexemesOf placed located ∧
        ∃ joined, tokenize (String.ofList
            ([' '].intercalate (placed.map fun p => p.lexeme.chars))) = .ok joined ∧
          joined.map Located.token = located.map Located.token) ∧
    (checkCharacters source = .ok () →
      ∃ placed, Laid 0 placed source.toList ∧
        (∀ other, Laid 0 other source.toList → other = placed) ∧
        ((∃ failure, tokenize source = .error failure) ↔
          ∃ p ∈ placed, p.lexeme.isInvalid = true) ∧
        ∀ p, placed.find? (fun p => p.lexeme.isInvalid) = some p →
          tokenize source
            = .error ((Fault.invalidNumber p.offset).of (String.ofList p.lexeme.chars))) := by
  constructor
  · intro located htokens
    obtain ⟨placed, hlaid⟩ := exists_laid_of_tokenize htokens
    have hvalid := valid_of_tokenize hlaid htokens
    obtain ⟨located, hlocated, hplaced⟩ := tokenize_of_valid hlaid hvalid
    cases hlocated.symm.trans htokens
    obtain ⟨joined, hjoined, hsame⟩ := exists_tokenize_joined hlaid hvalid
    rw [hplaced.tokens] at hsame
    exact ⟨hplaced.offsets ▸ hlaid.ascending.2, placed, hlaid, hplaced, joined, hjoined,
      List.map_injective_iff.2 (Option.some_injective _) hsame⟩
  · intro hcharacters
    obtain ⟨placed, hlaid⟩ := exists_laid_of_checkCharacters hcharacters
    exact ⟨placed, hlaid, fun other hother => hlaid.unique hother, tokenize_fails_iff hlaid,
      fun p hfind => tokenize_of_invalid hlaid hfind⟩

theorem sample_tokenize_lexemes :
    (∃ located placed, tokenize "2e3em * (.5e+x)" = .ok located ∧
      located.map Located.offset = [0, 3, 6, 8, 9, 11, 12, 13, 14] ∧
      Laid 0 placed "2e3em * (.5e+x)".toList ∧ AreLexemesOf placed located) ∧
    checkCharacters "1.2e3 + 4..5 - ." = .ok () ∧
    (∃ placed, Laid 0 placed "1.2e3 + 4..5 - .".toList ∧
      ∃ p ∈ placed, p.lexeme.isInvalid = true) ∧
    tokenize "1.2e3 + 4..5 - ." = .error ((Fault.invalidNumber 8).of "4..5") := by
  obtain ⟨located, hlocated, hoffsets⟩ := @exists_ok_of_any _ _ (tokenize "2e3em * (.5e+x)")
    (fun located => decide (located.map Located.offset = [0, 3, 6, 8, 9, 11, 12, 13, 14]))
    (by decide +kernel)
  obtain ⟨-, placed, hlaid, hplaced, -⟩ := (tokenize_lexemes _).1 located hlocated
  have hcharacters : checkCharacters "1.2e3 + 4..5 - ." = .ok () := by decide +kernel
  have hfails : tokenize "1.2e3 + 4..5 - ." = .error ((Fault.invalidNumber 8).of "4..5") := by
    decide +kernel
  obtain ⟨lexemes, hlexemes, -, hiff, -⟩ := (tokenize_lexemes _).2 hcharacters
  exact ⟨⟨located, placed, hlocated, of_decide_eq_true hoffsets, hlaid, hplaced⟩, hcharacters,
    ⟨lexemes, hlexemes, hiff.1 ⟨_, hfails⟩⟩, hfails⟩

end QuantitySurvey.Formula
