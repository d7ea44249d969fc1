import QuantitySurvey.Proofs.Decimal.Unsigned
import QuantitySurvey.Proofs.Formula.Completeness
import QuantitySurvey.Proofs.Formula.Layout
import QuantitySurvey.Proofs.Formula.Names

/-! # Reading canonical texts

The canonical text of a formula that was read can be read again, as the regrouped tree. Its names and
numbers are tokens of the source, where no two of them touch: so the names are whole words of the
source, none of them forbidden, and the numbers have no sign.

* `separated_of_derives`: in what is derived no two words touch.
* `mem_tokens_of_derives`: the words of a tree are those of its source, or names of functions.
* `canonical_text_parses`: the canonical text of a formula.
-/

set_option autoImplicit false

namespace QuantitySurvey.Formula

namespace Expr

mutual

/-- The numbers of a tree, from left to right. -/
def literals : Expr → List Float
  | literal x => [x]
  | identifier _ | unitName _ => []
  | negate e => e.literals
  | binary _ lhs rhs => lhs.literals ++ rhs.literals
  | call _ args => literalsOf args

def literalsOf : List Expr → List Float
  | [] => []
  | e :: rest => e.literals ++ literalsOf rest

end

theorem mem_literalsOf {args : List Expr} {x : Float} :
    x ∈ literalsOf args ↔ ∃ a ∈ args, x ∈ a.literals := by
  induction args with
  | nil => simp [literalsOf]
  | cons a args ih => simp [literalsOf, ih]

end Expr

theorem Token.ne_of_isWordy {t u : Token} (ht : t.isWordy = true) (hu : u.isWordy = false) :
    t ≠ u := by
  rintro rfl
  rw [hu] at ht
  cases ht

namespace Grammar

/-! ## Words of lists -/

theorem mem_intercalate_iff {t : Token} (ht : t.isWordy = true) {lists : List (List Token)} :
    t ∈ [Token.comma].intercalate lists ↔ ∃ ts ∈ lists, t ∈ ts := by
  have hcomma : t ≠ .comma := Token.ne_of_isWordy ht rfl
  induction lists with
  | nil => simp
  | cons first rest ih =>
    cases rest with
    | nil => simp
    | cons second rest =>
      rw [List.intercalate_cons_cons, List.append_assoc, List.mem_append, List.mem_append]
      refine (or_congr Iff.rfl (or_congr Iff.rfl ih)).trans ?_
      simp [hcomma]

theorem mem_grouped {t : Token} (ht : t.isWordy = true) {needed : Bool} {s : Stretch} :
    t ∈ (s.grouped needed).tokens ↔ t ∈ s.tokens := by
  have hleft : t ≠ .leftParen := Token.ne_of_isWordy ht rfl
  have hright : t ≠ .rightParen := Token.ne_of_isWordy ht rfl
  cases needed <;> simp [Stretch.grouped, Stretch.inParens, hleft, hright]

theorem isWordy_operator (op : Operator) : op.token.isWordy = false := by
  cases op <;> rfl

theorem mem_tokens_binary {t : Token} (ht : t.isWordy = true) {op : Operator} {lhs rhs : Expr} :
    t ∈ (Expr.binary op lhs rhs).tokens ↔ t ∈ lhs.tokens ∨ t ∈ rhs.tokens := by
  have hop : t ≠ op.token := Token.ne_of_isWordy ht (isWordy_operator op)
  rw [tokens_binary, List.mem_append, List.mem_cons, mem_grouped ht, mem_grouped ht]
  simp [hop, stretchOf]

theorem mem_tokens_negate {t : Token} (ht : t.isWordy = true) {e : Expr} :
    t ∈ (Expr.negate e).tokens ↔ t ∈ e.tokens := by
  have hminus : t ≠ .minus := Token.ne_of_isWordy ht rfl
  rw [tokens_negate, List.mem_cons, mem_grouped ht]
  simp [hminus, stretchOf]

theorem mem_tokens_call {t : Token} (ht : t.isWordy = true) {f : Function} {args : List Expr} :
    t ∈ (Expr.call f args).tokens ↔ t = .name f.name ∨ ∃ a ∈ args, t ∈ a.tokens := by
  have hleft : t ≠ .leftParen := Token.ne_of_isWordy ht rfl
  have hright : t ≠ .rightParen := Token.ne_of_isWordy ht rfl
  rw [tokens_call, List.mem_cons, List.mem_cons, List.mem_append, mem_intercalate_iff ht]
  simp [hleft, hright]

theorem mem_tokens_groupedLeft {t : Token} (ht : t.isWordy = true) {e : Expr} {links : List Link}
    (h : t ∈ (groupedLeft e links).tokens) :
    t ∈ e.tokens ∨ ∃ l ∈ links, t ∈ l.operand.tree.tokens := by
  induction links generalizing e with
  | nil => exact .inl h
  | cons l rest ih =>
    rcases ih h with h | ⟨m, hm, h⟩
    · rcases (mem_tokens_binary ht).1 h with h | h
      · exact .inl h
      · exact .inr ⟨l, List.mem_cons_self, h⟩
    · exact .inr ⟨m, List.mem_cons_of_mem l hm, h⟩

theorem mem_literals {e : Expr} {x : Float} (h : .number x ∈ e.tokens) : x ∈ e.literals := by
  induction e using Expr.inductionOn with
  | literal y =>
    simp only [Expr.tokens, Expr.pieces, List.filterMap_cons, id_eq, List.filterMap_nil,
      List.mem_singleton, Token.number.injEq] at h
    simp [Expr.literals, h]
  | identifier name => simp [Expr.tokens, Expr.pieces] at h
  | unitName name => simp [Expr.tokens, Expr.pieces] at h
  | negate operand ih => exact ih ((mem_tokens_negate rfl).1 h)
  | binary op lhs rhs ihl ihr =>
    exact List.mem_append.2 (((mem_tokens_binary rfl).1 h).imp ihl ihr)
  | call f args ih =>
    rcases (mem_tokens_call rfl).1 h with h | ⟨a, ha, h⟩
    · cases h
    · exact Expr.mem_literalsOf.2 ⟨a, ha, ih a ha h⟩

/-! ## The words of a source -/

theorem mem_tokens_linked {t : Token} {first : Stretch} {links : List Link} {f : Function → Prop}
    (ht : t.isWordy = true) (hfirst : t ∈ first.tree.tokens → t ∈ first.tokens ∨ ∃ g, f g)
    (hlinks : ∀ l ∈ links, t ∈ l.operand.tree.tokens → t ∈ l.operand.tokens ∨ ∃ g, f g)
    (h : t ∈ (linked first links).tree.tokens) : t ∈ (linked first links).tokens ∨ ∃ g, f g := by
  rcases mem_tokens_groupedLeft ht h with h | ⟨l, hl, h⟩
  · exact (hfirst h).imp_left fun h => List.mem_append_left _ h
  · refine (hlinks l hl h).imp_left fun h => List.mem_append_right _ ?_
    exact List.mem_flatMap.2 ⟨l, hl, List.mem_cons_of_mem _ h⟩

/-- The numbers and names of a tree come from its source, but for the names of functions. -/
theorem mem_tokens_of_derives {φ : Phrase} {levels : Nat} {s : Stretch} (h : Derives φ levels s)
    {t : Token} (ht : t.isWordy = true) (hmem : t ∈ s.tree.tokens) :
    t ∈ s.tokens ∨ ∃ f : Function, t = .name f.name := by
  induction h with
  | expr head signs tail ihhead ihtail => exact mem_tokens_linked ht ihhead ihtail hmem
  | term head signs tail ihhead ihtail => exact mem_tokens_linked ht ihhead ihtail hmem
  | minus h ih =>
    exact (ih ((mem_tokens_negate ht).1 hmem)).imp_left fun h => List.mem_cons_of_mem _ h
  | plus h ih => exact (ih hmem).imp_left fun h => List.mem_cons_of_mem _ h
  | unary h ih => exact ih hmem
  | number x => exact .inl hmem
  | name n => exact .inl hmem
  | parens h ih =>
    exact (ih hmem).imp_left fun h => List.mem_cons_of_mem _ (List.mem_append_left _ h)
  | @call levels name f args named inside enough notMore units ih =>
    rcases (mem_tokens_call ht).1 hmem with h | ⟨b, hb, h⟩
    · exact .inr ⟨f, h⟩
    · have hb' := List.mem_map_of_mem (f := Expr.tokens) hb
      rw [map_placed tokens_asArgument notMore] at hb'
      obtain ⟨a, ha, heq⟩ := List.mem_map.1 hb'
      rw [← heq] at h
      refine (ih a ha h).imp_left fun h => ?_
      have hin : t ∈ [Token.comma].intercalate (args.map Stretch.tokens) :=
        (mem_intercalate_iff ht).2 ⟨a.tokens, List.mem_map_of_mem ha, h⟩
      exact List.mem_cons_of_mem _ (List.mem_cons_of_mem _ (List.mem_append_left _ hin))

/-! ## Separated tokens -/

theorem Separated.symbol_cons {t : Token} {ts : List Token} (h : Separated ts)
    (ht : t.isWordy = false) : Separated (t :: ts) := by
  cases ts with
  | nil => exact List.isChain_singleton t
  | cons u ts => exact List.isChain_cons_cons.2 ⟨.inl ht, h⟩

/-- Tokens with a symbol between them are separated. -/
theorem Separated.append {xs ys : List Token} {t : Token} (hxs : Separated xs)
    (ht : t.isWordy = false) (hys : Separated ys) : Separated (xs ++ t :: ys) := by
  refine List.isChain_append.2 ⟨hxs, Separated.symbol_cons hys ht, ?_⟩
  intro x hx y hy
  cases hy
  exact .inr ht

theorem separated_intercalate {lists : List (List Token)} (h : ∀ ts ∈ lists, Separated ts) :
    Separated ([Token.comma].intercalate lists) := by
  induction lists with
  | nil => exact List.isChain_nil
  | cons first rest ih =>
    have hfirst := h first List.mem_cons_self
    have hrest := ih fun ts hts => h ts (List.mem_cons_of_mem first hts)
    cases rest with
    | nil => simpa using hfirst
    | cons second rest =>
      rw [List.intercalate_cons_cons, List.append_assoc, List.singleton_append]
      exact Separated.append hfirst rfl hrest

theorem separated_linked {first : Stretch} {links : List Link} (hfirst : Separated first.tokens)
    (hlinks : ∀ l ∈ links, Separated l.operand.tokens) :
    Separated (linked first links).tokens := by
  induction links using List.reverseRecOn with
  | nil => simpa [linked] using hfirst
  | append_singleton links l ih =>
    have hrest := ih fun m hm => hlinks m (List.mem_append_left _ hm)
    have hlast := hlinks l (by simp)
    have htokens : (linked first (links ++ [l])).tokens
        = (linked first links).tokens ++ l.op.token :: l.operand.tokens := by
      simp [linked, Link.tokens]
    rw [htokens]
    exact Separated.append hrest (isWordy_operator l.op) hlast

/-- In what is derived, numbers and names have symbols between them. -/
theorem separated_of_derives {φ : Phrase} {levels : Nat} {s : Stretch} (h : Derives φ levels s) :
    Separated s.tokens := by
  induction h with
  | expr head signs tail ihhead ihtail => exact separated_linked ihhead ihtail
  | term head signs tail ihhead ihtail => exact separated_linked ihhead ihtail
  | minus h ih => exact Separated.symbol_cons ih rfl
  | plus h ih => exact Separated.symbol_cons ih rfl
  | unary h ih => exact ih
  | number x => exact List.isChain_singleton _
  | name n => exact List.isChain_singleton _
  | parens h ih => exact Separated.symbol_cons (Separated.append ih rfl List.isChain_nil) rfl
  | @call levels name f args named inside enough notMore units ih =>
    have hargs : Separated ([Token.comma].intercalate (args.map Stretch.tokens)) := by
      refine separated_intercalate fun ts hts => ?_
      obtain ⟨a, ha, rfl⟩ := List.mem_map.1 hts
      exact ih a ha
    have hname : Separated [.name name] := List.isChain_singleton _
    have hclosed : Separated
        ([Token.comma].intercalate (args.map Stretch.tokens) ++ [.rightParen]) :=
      Separated.append hargs rfl List.isChain_nil
    exact Separated.append hname rfl hclosed

/-! ## Parsing -/

theorem derives_of_parseTokens {source : String} {tokens : List Located} {e : Expr}
    (h : parseTokens source tokens = .ok e) :
    ∃ s, Derives .expr maxLevels s ∧ s.tree = e ∧ tokens.map Located.token = s.tokens ∧
      s.operators ≤ maxOperators := by
  have hgives := gives_whole source ⟨tokens, 0⟩ rfl
  have hrun : parseTokens source tokens = ((whole source).run ⟨tokens, 0⟩).map Prod.fst := rfl
  rw [hrun] at h
  unfold Gives at hgives
  cases hwhole : (whole source).run ⟨tokens, 0⟩ with
  | error f =>
    rw [hwhole] at h
    cases h
  | ok r =>
    rw [hwhole] at h hgives
    cases h
    exact hgives

theorem parseTokens_of_derives (source : String) {tokens : List Located} {s : Stretch}
    (hs : Derives .expr maxLevels s) (htokens : tokens.map Located.token = s.tokens)
    (hroom : s.operators ≤ maxOperators) : parseTokens source tokens = .ok s.tree := by
  have hrun : parseTokens source tokens = ((whole source).run ⟨tokens, 0⟩).map Prod.fst := rfl
  rw [hrun, run_whole source tokens hs htokens hroom]
  rfl

end Grammar

theorem checkWords_eq_ok_iff {source : String} :
    checkWords source = .ok () ↔ ∀ w ∈ words source.toList, isForbidden w = false := by
  unfold checkWords
  cases hfind : (words source.toList).find? isForbidden with
  | none =>
    have hnone := List.find?_eq_none.1 hfind
    exact ⟨fun _ w hw => by simpa using hnone w hw, fun _ => rfl⟩
  | some word =>
    have hword := List.find?_some hfind
    have hmem := List.mem_of_find?_eq_some hfind
    constructor
    · intro h
      cases h
    · intro h
      rw [h word hmem] at hword
      cases hword

theorem checkCharacters_eq_ok_iff {source : String} :
    checkCharacters source = .ok () ↔ ∀ c ∈ source.toList, isAllowed c = true := by
  rw [← @firstOutside?_eq_none_iff isAllowed 0]
  unfold checkCharacters
  cases firstOutside? isAllowed 0 source.toList <;> simp

open Grammar

theorem parse_eq_ok_steps {limits : Limits} {source : String} {formula : Formula} :
    Formula.parse limits source = .ok formula ↔
      source.utf8ByteSize ≤ limits.maxLength ∧ checkWords source = .ok () ∧
      checkCharacters source = .ok () ∧ ∃ located, tokenize source = .ok located ∧
      ∃ e, parseTokens source located = .ok e ∧ ⟨source, e⟩ = formula := by
  unfold Formula.parse
  by_cases hlong : limits.maxLength < source.utf8ByteSize
  · have hnot : ¬ source.utf8ByteSize ≤ limits.maxLength := Nat.not_le_of_lt hlong
    simp only [hlong, if_true, hnot, false_and, iff_false]
    intro h
    obtain ⟨_, h, -⟩ := bind_eq_ok.1 h
    cases h
  · have hle : source.utf8ByteSize ≤ limits.maxLength := Nat.le_of_not_lt hlong
    simp only [hlong, if_false, hle, true_and, bind_eq_ok]
    constructor
    · rintro ⟨⟨⟩, hwords, ⟨⟩, hchars, located, hlocated, e, he, hformula⟩
      exact ⟨hwords, hchars, located, hlocated, e, he, Except.ok.inj hformula⟩
    · rintro ⟨hwords, hchars, located, hlocated, e, he, rfl⟩
      exact ⟨(), hwords, (), hchars, located, hlocated, e, he, rfl⟩

/-- A text is a formula exactly if it is not too long, passes the screens, and spells tokens that are
derived with no more operators than there may be. -/
theorem parse_eq_ok_iff {limits : Limits} {source : String} {formula : Formula} :
    Formula.parse limits source = .ok formula ↔
      formula.source = source ∧ source.utf8ByteSize ≤ limits.maxLength ∧
      ∃ s, IsClean s.tokens source.toList ∧ Derives .expr maxLevels s ∧
        s.operators ≤ maxOperators ∧ s.tree = formula.expr := by
  rw [parse_eq_ok_steps, checkWords_eq_ok_iff, checkCharacters_eq_ok_iff]
  constructor
  · rintro ⟨hlength, hwords, hchars, located, hlocated, e, he, rfl⟩
    obtain ⟨s, hs, htree, htokens, hroom⟩ := derives_of_parseTokens he
    have hspelled := spelled_of_tokenize hlocated
    rw [htokens] at hspelled
    exact ⟨rfl, hlength, s, ⟨hspelled, hwords, hchars⟩, hs, hroom, htree⟩
  · rintro ⟨hsource, hlength, s, hclean, hs, hroom, htree⟩
    obtain ⟨located, hlocated, htokens⟩ := tokenize_of_spelled hclean.spelled
    refine ⟨hlength, hclean.permitted, hclean.allowed, located, hlocated, s.tree,
      parseTokens_of_derives source hs htokens hroom, ?_⟩
    rw [htree, ← hsource]

/-! ## Reading the canonical text -/

theorem isPlain_function (f : Function) : IsPlain (.name f.name) := by
  have hstarts : f.name.toList.head?.any isNameStart = true := by
    cases f <;> decide +kernel
  have hchars : f.name.toList.all isNameChar = true := by
    cases f <;> decide +kernel
  have hpermitted : isForbidden f.name.toList = false := by
    cases f <;> decide +kernel
  exact ⟨⟨(Option.any_eq_true _ _).1 hstarts, List.all_eq_true.1 hchars⟩, hpermitted⟩

/-- A number of a tree was read without a sign, as the source has no signs in its numbers. -/
theorem isUnsigned_of_derives {levels : Nat} {s : Stretch} {cs : List Char}
    (hs : Derives .expr levels s) (hclean : IsClean s.tokens cs) {x : Float}
    (hx : .number x ∈ s.tree.tokens) : Decimal.IsUnsigned x := by
  rcases mem_tokens_of_derives hs rfl hx with hsource | ⟨f, hf⟩
  · obtain ⟨run, ⟨c, hc, hnumber⟩, hread⟩ := read?_of_spelled hclean.spelled hsource
    have hsign : (Decimal.signed run).1 = false := by
      obtain ⟨rest, rfl⟩ := List.head?_eq_some_iff.1 hc
      rw [signed_of_isNumberChar hnumber]
    exact Decimal.isUnsigned_of_read? hsign hread
  · cases hf

/-- A token of a canonical text is plain, unless it is a number that is not finite or does not read
back. -/
theorem isPlain_of_mem_tokens {levels : Nat} {s : Stretch} {cs : List Char}
    (hs : Derives .expr levels s) (hclean : IsClean s.tokens cs) {t : Token}
    (ht : t ∈ s.tree.tokens) (finite : ∀ x, t = .number x → x.isFinite = true)
    (readsBack : ∀ x, t = .number x → Decimal.read? (Decimal.text x).toList = some x) :
    IsPlain t := by
  cases t with
  | number x =>
    obtain ⟨hne, hchars⟩ := Decimal.text_of_isFinite (finite x rfl)
      (isUnsigned_of_derives hs hclean ht)
    refine ⟨hne, fun d hd => ?_, readsBack x rfl⟩
    simpa [isNumberChar] using hchars d hd
  | name n =>
    rcases mem_tokens_of_derives hs rfl ht with hsource | ⟨f, hf⟩
    · -- A name is a word of the source, which passed the screen.
      have hword := mem_words_of_spelled hclean.spelled (separated_of_derives hs) []
        (.inl (by simp)) hsource
      exact ⟨isName_of_spelled hclean.spelled hsource, hclean.permitted _ hword⟩
    · rw [hf]
      exact isPlain_function f
  | _ => exact trivial

/-- The tokens of a canonical text are plain, if the numbers in it are finite and read back. -/
theorem isPlain_of_derives {levels : Nat} {s : Stretch} {cs : List Char}
    (hs : Derives .expr levels s) (hclean : IsClean s.tokens cs)
    (finite : ∀ x ∈ s.tree.literals, x.isFinite = true)
    (readsBack : ∀ x ∈ s.tree.literals, Decimal.read? (Decimal.text x).toList = some x) {t : Token}
    (ht : t ∈ s.tree.tokens) : IsPlain t := by
  have hliteral : ∀ x, t = .number x → x ∈ s.tree.literals := by
    rintro x rfl
    exact mem_literals ht
  exact isPlain_of_mem_tokens hs hclean ht (fun x hx => finite x (hliteral x hx))
    fun x hx => readsBack x (hliteral x hx)

/-- The canonical text of a formula whose numbers are finite and read back is a formula again, unless
it is too long. Its expression is the regrouped one, which is the same exactly if no sum has a sum or
difference on its right and no product a product or quotient; and then both formulas evaluate to the
same in all bindings, with the same steps or the same failure. -/
theorem canonical_text_parses {limits : Limits} {source : String} {formula : Formula}
    (parsed : Formula.parse limits source = .ok formula)
    (finite : ∀ x ∈ formula.expr.literals, x.isFinite = true)
    (readsBack : ∀ x ∈ formula.expr.literals,
      Decimal.read? (Decimal.text x).toList = some x)
    (short : formula.expr.text.utf8ByteSize ≤ limits.maxLength) :
    ∃ canonical, Formula.parse limits formula.expr.text = .ok canonical ∧
      canonical.expr = formula.expr.regrouped ∧
      (canonical.expr = formula.expr ↔ formula.expr.isLeftGrouped = true) ∧
      (formula.expr.isLeftGrouped = true →
        ∀ maxSteps b, canonical.expr.run b maxSteps = formula.expr.run b maxSteps) := by
  obtain ⟨-, -, s, hclean, hs, hroom, htree⟩ := parse_eq_ok_iff.1 parsed
  rw [← htree] at finite readsBack short ⊢
  have hcanonical := derives_stretchOf hs
  have hseparated : Separated s.tree.tokens := separated_of_derives hcanonical
  have hpieces := isClean_pieces s.tree.pieces hseparated fun t ht =>
    isPlain_of_derives hs hclean finite readsBack (List.mem_filterMap.2 ⟨some t, ht, rfl⟩)
  have htext : s.tree.text.toList = s.tree.pieces.flatMap pieceText := by
    rw [Expr.text, String.toList_ofList, Expr.written_eq_flatMap]
  rw [← htext] at hpieces
  have hoperators : s.tree.operatorCount ≤ maxOperators := by
    rw [← operators_eq_operatorCount hs]
    exact hroom
  refine ⟨⟨s.tree.text, s.tree.regrouped⟩, ?_, rfl, Expr.regrouped_eq_self_iff, ?_⟩
  · exact parse_eq_ok_iff.2 ⟨rfl, short, stretchOf s.tree, hpieces, hcanonical, hoperators, rfl⟩
  · intro hgrouped maxSteps b
    show s.tree.regrouped.run b maxSteps = s.tree.run b maxSteps
    rw [Expr.regrouped_of_isLeftGrouped hgrouped]

theorem exists_of_any_parse {limits : Limits} {source : String} {p : Formula → Bool}
    (h : (Formula.parse limits source).toOption.any p = true) :
    ∃ formula, Formula.parse limits source = .ok formula ∧ p formula = true :=
  exists_ok_of_any h

theorem sample_canonical_text_parses :
    ∃ formula, Formula.parse {} "2 * (length + 0.5) - -width / max(3, 4)" = .ok formula ∧
      (∀ x ∈ formula.expr.literals, x.isFinite = true) ∧
      (∀ x ∈ formula.expr.literals, Decimal.read? (Decimal.text x).toList = some x) ∧
      formula.expr.text.utf8ByteSize ≤ 2000 ∧
      ∃ canonical, Formula.parse {} formula.expr.text = .ok canonical ∧
        canonical.expr = formula.expr := by
  obtain ⟨formula, hparse, hcheck⟩ := @exists_of_any_parse {}
    "2 * (length + 0.5) - -width / max(3, 4)" (fun formula =>
      formula.expr.literals.all (fun x =>
        x.isFinite && decide (Decimal.read? (Decimal.text x).toList = some x)) &&
      decide (formula.expr.text.utf8ByteSize ≤ 2000) && formula.expr.isLeftGrouped)
    (by decide +kernel)
  simp only [Bool.and_eq_true, List.all_eq_true, decide_eq_true_eq] at hcheck
  obtain ⟨⟨hliterals, hshort⟩, hgrouped⟩ := hcheck
  have hfinite : ∀ x ∈ formula.expr.literals, x.isFinite = true :=
    fun x hx => (hliterals x hx).1
  have hreads : ∀ x ∈ formula.expr.literals,
      Decimal.read? (Decimal.text x).toList = some x :=
    fun x hx => (hliterals x hx).2
  obtain ⟨canonical, hcanonical, -, hsame, -⟩ :=
    canonical_text_parses hparse hfinite hreads hshort
  exact ⟨formula, hparse, hfinite, hreads, hshort, canonical, hcanonical, hsame.2 hgrouped⟩

/-- A sum on the right of a sum is regrouped, and the rounding differs. -/
theorem sum_of_sum_regrouped :
    let unbound : Parameter.Bindings := ⟨.empty, none, none⟩
    ∃ formula canonical, Formula.parse {} "0.1 + (0.2 + 0.3)" = .ok formula ∧
      (∀ x ∈ formula.expr.literals, x.isFinite = true) ∧
      (∀ x ∈ formula.expr.literals, Decimal.read? (Decimal.text x).toList = some x) ∧
      formula.expr.text.utf8ByteSize ≤ 2000 ∧
      Formula.parse {} formula.expr.text = .ok canonical ∧ canonical.expr ≠ formula.expr ∧
      (formula.expr.run unbound 10000).1.toOption = some 0.6 ∧
      (canonical.expr.run unbound 10000).1.toOption = some 0.6000000000000001 := by
  intro unbound
  obtain ⟨formula, hparse, hcheck⟩ := @exists_of_any_parse {} "0.1 + (0.2 + 0.3)" (fun formula =>
      formula.expr.literals.all (fun x =>
        x.isFinite && decide (Decimal.read? (Decimal.text x).toList = some x)) &&
      decide (formula.expr.text.utf8ByteSize ≤ 2000) &&
      decide ((formula.expr.run unbound 10000).1.toOption = some 0.6) &&
      (Formula.parse {} formula.expr.text).toOption.any fun canonical : Formula =>
        decide ((canonical.expr.run unbound 10000).1.toOption = some 0.6000000000000001))
    (by decide +kernel)
  simp only [Bool.and_eq_true, List.all_eq_true, decide_eq_true_eq] at hcheck
  obtain ⟨⟨⟨hliterals, hshort⟩, hvalue⟩, hsecond⟩ := hcheck
  obtain ⟨canonical, hcanonical, hcheck⟩ := exists_of_any_parse hsecond
  have hother := of_decide_eq_true hcheck
  refine ⟨formula, canonical, hparse, fun x hx => (hliterals x hx).1,
    fun x hx => (hliterals x hx).2, hshort, hcanonical, ?_, hvalue, hother⟩
  intro hsame
  rw [hsame, hvalue] at hother
  exact absurd hother (by decide +kernel)

end QuantitySurvey.Formula
