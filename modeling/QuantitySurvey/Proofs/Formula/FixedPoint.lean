import QuantitySurvey.Proofs.Formula.Nodes

/-! # Canonical texts are fixed points

The canonical text of a formula is read again as a tree with the same canonical text. That tree is not
always the one that was written: operands are regrouped where no parentheses say otherwise, and a
number that is not finite is written as a word, which is read as a name. Neither shows in the text.

* `pieces_regrouped`: a regrouped tree is written in the same way, and has the same leaves.
* `Expr.asWritten`: the tree in which what is written as a name is one.
* `Derives.asWritten`: its source, with the same names in it, is derived within the same levels.
* `canonical_text_fixed`: the canonical text of a formula, and what is read from it.
-/

set_option autoImplicit false

namespace QuantitySurvey.Formula

open Grammar

theorem map_intercalate {α β : Type} (g : α → β) (sep : List α) (lists : List (List α)) :
    (sep.intercalate lists).map g = (sep.map g).intercalate (lists.map (List.map g)) := by
  induction lists with
  | nil => rfl
  | cons first rest ih =>
    cases rest with
    | nil => simp
    | cons second rest =>
      rw [List.intercalate_cons_cons, List.map_append, List.map_append, ih]
      exact List.intercalate_cons_cons.symm

namespace Expr

/-! ## Regrouped trees in writing -/

theorem argumentPieces_eq_intercalate (args : List Expr) :
    argumentPieces args = [some Token.comma, none].intercalate (args.map pieces) := by
  have hfurther : ∀ (e : Expr) (rest : List Expr), e.pieces ++ furtherPieces rest
      = [some Token.comma, none].intercalate ((e :: rest).map pieces) := by
    intro e rest
    induction rest generalizing e with
    | nil => simp [furtherPieces]
    | cons a rest ih =>
      rw [furtherPieces, List.map_cons, List.map_cons, List.intercalate_cons_cons, ← List.map_cons,
        ← ih a]
      simp
  cases args with
  | nil => rfl
  | cons a rest => exact hfurther a rest

theorem groupsRight_congr {e e' : Expr} (h : e.precedence = e'.precedence) (op : Operator) :
    groupsRight op e = groupsRight op e' := by
  unfold groupsRight
  rw [h]

/-- Where the right operand has no parentheses, it does not show to which operands it is joined. -/
theorem pieces_joined {op : Operator} {rhs : Expr} (h : groupsRight op rhs = false) (lhs : Expr) :
    (joined op lhs rhs).pieces = (binary op lhs rhs).pieces := by
  induction rhs using inductionOn with
  | binary op' first last ihfirst ihlast =>
    by_cases hop : op'.precedence = op.precedence
    · -- The first operand takes the place of the right one, and is grouped there as on the left.
      have hsided : op.isOneSided = false := by
        simpa [groupsRight, precedence, hop] using h
      have hgroups : groupsRight op first = decide (first.precedence < op'.precedence) := by
        simp [groupsRight, hsided, hop]
      have hfirst : (joined op lhs first).pieces = (binary op lhs first).pieces := by
        cases hgroups : groupsRight op first with
        | false => exact ihfirst hgroups
        | true =>
          have hne : first.precedence ≠ op.precedence := by
            intro heq
            simp [groupsRight, heq, hsided] at hgroups
          rw [joined_of_ne hne]
      have hopen : decide ((joined op lhs first).precedence < op'.precedence) = false := by
        rw [precedence_joined, hop]
        simp
      rw [joined_binary hop, pieces, hfirst, hopen, pieces, pieces, pieces, hgroups, h]
      simp [enclosed]
    · have hne : (binary op' first last).precedence ≠ op.precedence := hop
      rw [joined_of_ne hne]
  | _ => rfl

/-- A regrouped tree is written in the same way. -/
theorem pieces_regrouped (e : Expr) : e.regrouped.pieces = e.pieces := by
  induction e using inductionOn with
  | negate operand ih => rw [regrouped, pieces, pieces, precedence_regrouped, ih]
  | binary op lhs rhs ihl ihr =>
    have hgroups := groupsRight_congr (precedence_regrouped rhs) op
    have hsame : (binary op lhs.regrouped rhs.regrouped).pieces = (binary op lhs rhs).pieces := by
      rw [pieces, pieces, precedence_regrouped, hgroups, ihl, ihr]
    rw [regrouped]
    split
    · exact hsame
    · next h =>
      rw [Bool.not_eq_true] at h
      rw [pieces_joined (hgroups.trans h), hsame]
  | call f args ih =>
    have hargs : (args.map regrouped).map pieces = args.map pieces :=
      (List.map_map).trans (List.map_congr_left ih)
    rw [regrouped, regroupedAll_eq_map, pieces, pieces, argumentPieces_eq_intercalate,
      argumentPieces_eq_intercalate, hargs]
  | _ => rfl

theorem text_regrouped (e : Expr) : e.regrouped.text = e.text := by
  rw [text, text, written_eq_flatMap, written_eq_flatMap, pieces_regrouped]

/-! ## Names of regrouped trees -/

/-- The names of a kind are those of the operands, from left to right, where a node has any. -/
structure Gathers (names : Expr → List String) : Prop where
  negate : ∀ e, names (.negate e) = names e
  binary : ∀ op lhs rhs, names (.binary op lhs rhs) = names lhs ++ names rhs
  call : ∀ f args, names (.call f args) = args.flatMap names

theorem gathers_numberNames : Gathers numberNames where
  negate _ := rfl
  binary _ _ _ := rfl
  call f args := by
    rw [numberNames]
    induction args with
    | nil => rfl
    | cons a args ih => rw [numberNamesOf, ih, List.flatMap_cons]

theorem gathers_unitPositions : Gathers unitPositions where
  negate _ := rfl
  binary _ _ _ := rfl
  call f args := by
    rw [unitPositions]
    induction args with
    | nil => rfl
    | cons a args ih => rw [unitPositionsOf, ih, List.flatMap_cons]

section Gathered

variable {names : Expr → List String} (gathers : Gathers names)
include gathers

theorem gathered_joined (op : Operator) (lhs rhs : Expr) :
    names (joined op lhs rhs) = names lhs ++ names rhs := by
  induction rhs using inductionOn with
  | binary op' first last ihfirst ihlast =>
    by_cases hop : op'.precedence = op.precedence
    · rw [joined_binary hop, gathers.binary, ihfirst, gathers.binary, List.append_assoc]
    · have hne : (binary op' first last).precedence ≠ op.precedence := hop
      rw [joined_of_ne hne, gathers.binary]
  | _ => exact gathers.binary op lhs _

theorem gathered_regrouped (e : Expr) : names e.regrouped = names e := by
  induction e using inductionOn with
  | negate operand ih => rw [regrouped, gathers.negate, ih, gathers.negate]
  | binary op lhs rhs ihl ihr =>
    rw [regrouped, gathers.binary op lhs rhs, ← ihl, ← ihr]
    split
    · exact gathers.binary op _ _
    · exact gathered_joined gathers op _ _
  | call f args ih =>
    rw [regrouped, regroupedAll_eq_map, gathers.call, gathers.call, List.flatMap_map]
    exact List.flatMap_congr ih
  | _ => rfl

end Gathered

theorem identifiers_regrouped (e : Expr) : e.regrouped.identifiers = e.identifiers := by
  rw [identifiers, identifiers, gathered_regrouped gathers_numberNames]

theorem unitNames_regrouped (e : Expr) : e.regrouped.unitNames = e.unitNames := by
  rw [unitNames, unitNames, gathered_regrouped gathers_unitPositions]

end Expr

/-! ## Numbers that are written as words -/

/-- What the text of a token is read as: the text of a number that is not finite is a word. -/
def Token.asWritten : Token → Token
  | number x => if x.isFinite then number x else name (Decimal.text x)
  | t => t

theorem Token.text_asWritten (t : Token) : t.asWritten.text = t.text := by
  cases t with
  | number x =>
    rw [asWritten]
    split <;> rfl
  | _ => rfl

@[simp] theorem asWritten_operator (op : Operator) : op.token.asWritten = op.token := by
  cases op <;> rfl

namespace Expr

mutual

/-- The tree in which numbers that are not finite are the names that they are written as. -/
def asWritten : Expr → Expr
  | literal x => if x.isFinite then literal x else identifier (Decimal.text x)
  | identifier name => identifier name
  | unitName name => unitName name
  | negate e => negate e.asWritten
  | binary op lhs rhs => binary op lhs.asWritten rhs.asWritten
  | call f args => call f (allAsWritten args)

def allAsWritten : List Expr → List Expr
  | [] => []
  | e :: rest => e.asWritten :: allAsWritten rest

end

theorem allAsWritten_eq_map (args : List Expr) : allAsWritten args = args.map asWritten := by
  induction args with
  | nil => rfl
  | cons a args ih => rw [allAsWritten, ih, List.map_cons]

theorem asWritten_of_isFinite {e : Expr} (h : ∀ x ∈ e.literals, x.isFinite = true) :
    e.asWritten = e := by
  induction e using inductionOn with
  | literal x =>
    have hx : x.isFinite = true := h x List.mem_cons_self
    rw [asWritten, if_pos hx]
  | negate operand ih => rw [asWritten, ih h]
  | binary op lhs rhs ihl ihr =>
    rw [asWritten, ihl fun x hx => h x (List.mem_append_left _ hx),
      ihr fun x hx => h x (List.mem_append_right _ hx)]
  | call f args ih =>
    have hargs : args.map asWritten = args := by
      refine (List.map_congr_left fun a ha => ih a ha fun x hx => ?_).trans (List.map_id args)
      exact h x (mem_literalsOf.2 ⟨a, ha, hx⟩)
    rw [asWritten, allAsWritten_eq_map, hargs]
  | _ => rfl

theorem precedence_asWritten (e : Expr) : e.asWritten.precedence = e.precedence := by
  cases e with
  | literal x =>
    rw [asWritten]
    split <;> rfl
  | _ => rfl

theorem map_enclosed (g : Token → Token) (hleft : g .leftParen = .leftParen)
    (hright : g .rightParen = .rightParen) (needed : Bool) (pieces : List (Option Token)) :
    (enclosed needed pieces).map (Option.map g) = enclosed needed (pieces.map (Option.map g)) := by
  cases needed with
  | false => rfl
  | true => simp [enclosed, hleft, hright]

theorem pieces_asWritten (e : Expr) :
    e.asWritten.pieces = e.pieces.map (Option.map Token.asWritten) := by
  have henclosed := map_enclosed Token.asWritten rfl rfl
  induction e using inductionOn with
  | literal x =>
    rw [asWritten, pieces]
    by_cases hx : x.isFinite = true
    · simp [hx, pieces, Token.asWritten]
    · simp [hx, pieces, Token.asWritten]
  | identifier name => rfl
  | unitName name => rfl
  | negate operand ih =>
    rw [asWritten, pieces, pieces, precedence_asWritten, ih, List.map_cons, henclosed]
    rfl
  | binary op lhs rhs ihl ihr =>
    rw [asWritten, pieces, pieces, precedence_asWritten,
      groupsRight_congr (precedence_asWritten rhs), ihl, ihr]
    simp [henclosed]
  | call f args ih =>
    have hargs : (args.map asWritten).map pieces
        = (args.map pieces).map (List.map (Option.map Token.asWritten)) := by
      rw [List.map_map, List.map_map]
      exact List.map_congr_left ih
    rw [asWritten, allAsWritten_eq_map, pieces, pieces, argumentPieces_eq_intercalate,
      argumentPieces_eq_intercalate, hargs]
    simp [map_intercalate, Token.asWritten]

theorem text_asWritten (e : Expr) : e.asWritten.text = e.text := by
  have hpiece : ∀ piece, pieceText (Option.map Token.asWritten piece) = pieceText piece := by
    rintro (_ | t)
    · rfl
    · exact congrArg String.toList t.text_asWritten
  rw [text, text, written_eq_flatMap, written_eq_flatMap, pieces_asWritten, List.flatMap_map]
  exact congrArg String.ofList (List.flatMap_congr fun piece _ => hpiece piece)

theorem tokens_asWritten (e : Expr) : e.asWritten.tokens = e.tokens.map Token.asWritten := by
  rw [tokens, pieces_asWritten, tokens, List.filterMap_map, List.map_filterMap]
  rfl

end Expr

/-! ## Derivations of what is written -/

namespace Grammar

/-- The same tokens in writing, with as many operators, and the tree of what is written. -/
def Stretch.asWritten (s : Stretch) : Stretch where
  tokens := s.tokens.map Token.asWritten
  operators := s.operators
  tree := s.tree.asWritten

def Link.asWritten (l : Link) : Link where
  op := l.op
  operand := l.operand.asWritten

theorem groupedLeft_asWritten (first : Expr) (links : List Link) :
    (groupedLeft first links).asWritten
      = groupedLeft first.asWritten (links.map Link.asWritten) := by
  induction links generalizing first with
  | nil => rfl
  | cons l rest ih => exact ih (.binary l.op first l.operand.tree)

theorem linked_asWritten (first : Stretch) (links : List Link) :
    (linked first links).asWritten = linked first.asWritten (links.map Link.asWritten) := by
  have htokens : (linked first links).tokens.map Token.asWritten
      = (linked first.asWritten (links.map Link.asWritten)).tokens := by
    simp [linked, Stretch.asWritten, Link.asWritten, Link.tokens, List.map_flatMap,
      List.flatMap_map]
  have hcount : (linked first links).operators
      = (linked first.asWritten (links.map Link.asWritten)).operators := by
    simp [linked, operatorsOf, Stretch.asWritten, Link.asWritten, Function.comp_def]
  have htree : (linked first links).tree.asWritten
      = (linked first.asWritten (links.map Link.asWritten)).tree :=
    groupedLeft_asWritten first.tree links
  rw [Stretch.asWritten, htokens, hcount, htree]

theorem map_tree_asWritten (args : List Stretch) :
    (args.map Stretch.asWritten).map Stretch.tree
      = (args.map Stretch.tree).map Expr.asWritten := by
  rw [List.map_map, List.map_map]
  rfl

theorem called_asWritten {name : String} {f : Function} {args : List Stretch}
    (units : ∀ p ∈ f.parameters.zip (args.map Stretch.tree),
      p.1 = .unit → ∃ n, p.2 = .identifier n) :
    (called name f args).asWritten = called name f (args.map Stretch.asWritten) := by
  have htokens : (called name f args).tokens.map Token.asWritten
      = (called name f (args.map Stretch.asWritten)).tokens := by
    simp [called, map_intercalate, Stretch.asWritten, Token.asWritten, Function.comp_def]
  have hcount : (called name f args).operators
      = (called name f (args.map Stretch.asWritten)).operators := by
    simp [called, Stretch.asWritten, Function.comp_def]
  have htree : (called name f args).tree.asWritten
      = (called name f (args.map Stretch.asWritten)).tree := by
    simp only [called, Expr.asWritten, Expr.allAsWritten_eq_map]
    rw [map_tree_asWritten]
    exact congrArg (Expr.call f) (map_asArgument (fun _ => rfl) units fun _ => rfl)
  rw [Stretch.asWritten, htokens, hcount, htree]

/-- What is written is derived within the same levels, as no sign, parenthesis or call is a number. -/
theorem Derives.asWritten {φ : Phrase} {levels : Nat} {s : Stretch} (h : Derives φ levels s) :
    Derives φ levels s.asWritten := by
  induction h with
  | expr head signs tail ihhead ihtail =>
    rw [linked_asWritten]
    refine .expr ihhead ?_ ?_
    · exact List.forall_mem_map.2 signs
    · exact List.forall_mem_map.2 ihtail
  | term head signs tail ihhead ihtail =>
    rw [linked_asWritten]
    refine .term ihhead ?_ ?_
    · exact List.forall_mem_map.2 signs
    · exact List.forall_mem_map.2 ihtail
  | minus h ih => exact .minus ih
  | plus h ih => exact .plus ih
  | unary h ih => exact .unary ih
  | number x =>
    rw [Stretch.asWritten, List.map_singleton, Token.asWritten, Expr.asWritten]
    split
    · exact .number x
    · exact .name _
  | name n => exact .name n
  | @parens levels s h ih =>
    have hparens : (⟨.leftParen :: (s.tokens ++ [.rightParen]), s.operators, s.tree⟩
        : Stretch).asWritten = s.asWritten.inParens := by
      simp [Stretch.asWritten, Stretch.inParens, Token.asWritten]
    rw [hparens]
    exact ih.inParens
  | @call levels name f args named inside enough notMore units ih =>
    rw [called_asWritten units]
    refine .call named (List.forall_mem_map.2 ih) (by simpa using enough)
      (by simpa using notMore) ?_
    rw [map_tree_asWritten]
    exact units_map (fun _ => rfl) units

end Grammar

open Grammar

/-! ## Reading what is written -/

/-- A number that is not finite and has no sign is written as a name. -/
theorem isPlain_of_not_isFinite {x : Float} (hfinite : ¬ x.isFinite = true)
    (h : Decimal.IsUnsigned x) : IsPlain (.name (Decimal.text x)) := by
  rcases Decimal.text_of_not_isFinite hfinite h with htext | htext
  · rw [htext]
    exact ⟨⟨⟨'N', by decide, by decide⟩, List.all_eq_true.1 (by decide)⟩, by decide +kernel⟩
  · rw [htext]
    exact ⟨⟨⟨'i', by decide, by decide⟩, List.all_eq_true.1 (by decide)⟩, by decide +kernel⟩

/-- A token of what is written is plain, if finite numbers read back. -/
theorem isPlain_asWritten {levels : Nat} {s : Stretch} {cs : List Char}
    (hs : Derives .expr levels s) (hclean : IsClean s.tokens cs)
    (readsBack : ∀ x ∈ s.tree.literals, x.isFinite = true →
      Decimal.read? (Decimal.text x).toList = some x) {t : Token}
    (ht : t ∈ s.tree.asWritten.tokens) : IsPlain t := by
  rw [Expr.tokens_asWritten] at ht
  obtain ⟨u, hu, rfl⟩ := List.mem_map.1 ht
  have hplain := isPlain_of_mem_tokens hs hclean hu
  cases u with
  | number x =>
    rw [Token.asWritten]
    split
    · next hfinite =>
      refine hplain ?_ ?_
      · rintro y ⟨⟩
        exact hfinite
      · rintro y ⟨⟩
        exact readsBack x (mem_literals hu) hfinite
    · next hfinite =>
      exact isPlain_of_not_isFinite hfinite (isUnsigned_of_derives hs hclean hu)
  | _ => exact hplain (fun _ h => nomatch h) fun _ h => nomatch h

/-- The canonical text of a formula passes both screens and is read again, unless it is too long. What
is read has the same canonical text, and the same names if all numbers are finite. That the text of a
finite number reads back is assumed. -/
theorem canonical_text_fixed {limits : Limits} {source : String} {formula : Formula}
    (parsed : Formula.parse limits source = .ok formula)
    (readsBack : ∀ x ∈ formula.expr.literals, x.isFinite = true →
      Decimal.read? (Decimal.text x).toList = some x)
    (short : formula.expr.text.utf8ByteSize ≤ limits.maxLength) :
    ∃ canonical located, checkWords formula.expr.text = .ok () ∧
      checkCharacters formula.expr.text = .ok () ∧
      tokenize formula.expr.text = .ok located ∧
      parseTokens formula.expr.text located = .ok canonical.expr ∧
      Formula.parse limits formula.expr.text = .ok canonical ∧
      canonical.expr.text = formula.expr.text ∧
      ((∀ x ∈ formula.expr.literals, x.isFinite = true) →
        canonical.expr.identifiers = formula.expr.identifiers ∧
        canonical.expr.unitNames = formula.expr.unitNames) := by
  obtain ⟨-, -, s, hclean, hs, hroom, htree⟩ := parse_eq_ok_iff.1 parsed
  rw [← htree] at readsBack short ⊢
  -- The text is that of the tree as written, which is derived where the source is.
  have hcanonical := derives_stretchOf hs.asWritten
  have hpieces := isClean_pieces s.tree.asWritten.pieces (separated_of_derives hcanonical)
    fun t ht => isPlain_asWritten hs hclean readsBack (List.mem_filterMap.2 ⟨some t, ht, rfl⟩)
  have htext : s.tree.text.toList = s.tree.asWritten.pieces.flatMap pieceText := by
    rw [← Expr.text_asWritten, Expr.text, String.toList_ofList, Expr.written_eq_flatMap]
  rw [← htext] at hpieces
  have hoperators : s.tree.asWritten.operatorCount ≤ maxOperators :=
    (operators_eq_operatorCount hs.asWritten) ▸ hroom
  have hread : Formula.parse limits s.tree.text
      = .ok ⟨s.tree.text, s.tree.asWritten.regrouped⟩ :=
    parse_eq_ok_iff.2
      ⟨rfl, short, stretchOf s.tree.asWritten, hpieces, hcanonical, hoperators, rfl⟩
  obtain ⟨-, hwords, hcharacters, located, hlocated, e, he, hformula⟩ :=
    parse_eq_ok_steps.1 hread
  have he' : e = s.tree.asWritten.regrouped := congrArg Formula.expr hformula
  refine ⟨_, located, hwords, hcharacters, hlocated, he' ▸ he, hread, ?_, fun finite => ?_⟩
  · show s.tree.asWritten.regrouped.text = s.tree.text
    rw [Expr.text_regrouped, Expr.text_asWritten]
  · show s.tree.asWritten.regrouped.identifiers = _ ∧ s.tree.asWritten.regrouped.unitNames = _
    rw [Expr.asWritten_of_isFinite finite]
    exact ⟨Expr.identifiers_regrouped _, Expr.unitNames_regrouped _⟩

theorem sample_canonical_text_fixed :
    ∃ formula, Formula.parse {} "2 + (length - to_m(0.50, unit)) * (PI * -(x))" = .ok formula ∧
      (∀ x ∈ formula.expr.literals, x.isFinite = true →
        Decimal.read? (Decimal.text x).toList = some x) ∧
      formula.expr.text.utf8ByteSize ≤ 2000 ∧
      formula.expr.text = "2 + (length - to_m(0.5, unit)) * PI * -x" ∧
      ∃ canonical, Formula.parse {} formula.expr.text = .ok canonical ∧
        canonical.expr.text = formula.expr.text ∧
        canonical.expr.identifiers = ["PI", "length", "x"] ∧
        canonical.expr.unitNames = ["unit"] := by
  obtain ⟨formula, hparse, hcheck⟩ := @exists_of_any_parse {}
    "2 + (length - to_m(0.50, unit)) * (PI * -(x))" (fun formula =>
      formula.expr.literals.all (fun x =>
        x.isFinite && decide (Decimal.read? (Decimal.text x).toList = some x)) &&
      decide (formula.expr.text.utf8ByteSize ≤ 2000) &&
      decide (formula.expr.text = "2 + (length - to_m(0.5, unit)) * PI * -x") &&
      decide (formula.expr.identifiers = ["PI", "length", "x"]) &&
      decide (formula.expr.unitNames = ["unit"]))
    (by decide +kernel)
  simp only [Bool.and_eq_true, List.all_eq_true, decide_eq_true_eq] at hcheck
  obtain ⟨⟨⟨⟨hliterals, hshort⟩, htext⟩, hidentifiers⟩, hunits⟩ := hcheck
  have hreads : ∀ x ∈ formula.expr.literals, x.isFinite = true →
      Decimal.read? (Decimal.text x).toList = some x :=
    fun x hx _ => (hliterals x hx).2
  obtain ⟨canonical, -, -, -, -, -, hcanonical, hfixed, hnames⟩ :=
    canonical_text_fixed hparse hreads hshort
  obtain ⟨hsame, hsameUnits⟩ := hnames fun x hx => (hliterals x hx).1
  exact ⟨formula, hparse, hreads, hshort, htext, canonical, hcanonical, hfixed,
    hsame.trans hidentifiers, hsameUnits.trans hunits⟩

/-- A number that is not finite comes back as a name. -/
example :
    (Formula.parse {} "1e400 - x").toOption.map (fun formula =>
      (formula.expr.text, formula.expr.identifiers)) = some ("inf - x", ["x"]) ∧
    (Formula.parse {} "inf - x").toOption.map (fun formula =>
      (formula.expr.text, formula.expr.identifiers)) = some ("inf - x", ["inf", "x"]) := by
  decide +kernel

end QuantitySurvey.Formula
