import QuantitySurvey.Proofs.Formula.Derivation
import QuantitySurvey.Proofs.Formula.Regrouping

/-! # Derivations of canonical forms

The canonical text of a tree, as tokens with blanks between them, and a derivation of it. Where the
source of a tree had parentheses that the canonical text drops, their level is free; where the
canonical text has parentheses, the source had them too. So every tree that is derived within some
levels is written within them, and what is derived from its canonical tokens is the regrouped tree.

* `Expr.pieces`: the canonical text, as tokens and blanks.
* `Fits`: a tree is written within some levels, without parentheses or with one level for them.
* `fits_binary`: operators keep to that. This is where trees are regrouped.
* `derives_stretchOf`: a tree that is derived has a derivation of its canonical tokens.
-/

set_option autoImplicit false

namespace QuantitySurvey.Formula

/-! ## Canonical tokens -/

namespace Expr

def enclosed (needed : Bool) (pieces : List (Option Token)) : List (Option Token) :=
  if needed then some .leftParen :: pieces ++ [some .rightParen] else pieces

mutual

/-- The canonical text: tokens, and blanks where there is no token. -/
def pieces : Expr → List (Option Token)
  | literal x => [some (.number x)]
  | identifier name | unitName name => [some (.name name)]
  | negate e => some .minus :: enclosed (e.precedence < 3) e.pieces
  | binary op lhs rhs =>
    enclosed (lhs.precedence < op.precedence) lhs.pieces
      ++ none :: some op.token :: none :: enclosed (groupsRight op rhs) rhs.pieces
  | call f args =>
    some (.name f.name) :: some .leftParen :: argumentPieces args ++ [some .rightParen]

def argumentPieces : List Expr → List (Option Token)
  | [] => []
  | e :: rest => e.pieces ++ furtherPieces rest

def furtherPieces : List Expr → List (Option Token)
  | [] => []
  | e :: rest => some .comma :: none :: e.pieces ++ furtherPieces rest

end

def tokens (e : Expr) : List Token := e.pieces.filterMap id

end Expr

namespace Grammar

/-- What the canonical tokens of a tree are derived as. -/
def stretchOf (e : Expr) : Stretch where
  tokens := e.tokens
  operators := e.operatorCount
  tree := e.regrouped

def Stretch.inParens (s : Stretch) : Stretch where
  tokens := .leftParen :: (s.tokens ++ [.rightParen])
  operators := s.operators
  tree := s.tree

def Stretch.grouped (needed : Bool) (s : Stretch) : Stretch :=
  if needed then s.inParens else s

@[simp] theorem Stretch.grouped_operators (needed : Bool) (s : Stretch) :
    (s.grouped needed).operators = s.operators := by
  cases needed <;> rfl

@[simp] theorem Stretch.grouped_tree (needed : Bool) (s : Stretch) :
    (s.grouped needed).tree = s.tree := by
  cases needed <;> rfl

theorem filterMap_enclosed (needed : Bool) (e : Expr) :
    (Expr.enclosed needed e.pieces).filterMap id = ((stretchOf e).grouped needed).tokens := by
  cases needed with
  | false => rfl
  | true => simp [Expr.enclosed, Stretch.grouped, Stretch.inParens, stretchOf, Expr.tokens]

theorem tokens_negate (e : Expr) :
    (Expr.negate e).tokens
      = .minus :: ((stretchOf e).grouped (e.precedence < 3)).tokens := by
  rw [← filterMap_enclosed]
  simp [Expr.tokens, Expr.pieces]

theorem tokens_binary (op : Operator) (lhs rhs : Expr) :
    (Expr.binary op lhs rhs).tokens
      = ((stretchOf lhs).grouped (lhs.precedence < op.precedence)).tokens
        ++ op.token :: ((stretchOf rhs).grouped (Expr.groupsRight op rhs)).tokens := by
  rw [← filterMap_enclosed, ← filterMap_enclosed]
  simp [Expr.tokens, Expr.pieces]

theorem filterMap_argumentPieces (args : List Expr) :
    (Expr.argumentPieces args).filterMap id = [Token.comma].intercalate (args.map Expr.tokens) := by
  have hfurther : ∀ (e : Expr) (rest : List Expr),
      (e.pieces ++ Expr.furtherPieces rest).filterMap id
        = [Token.comma].intercalate ((e :: rest).map Expr.tokens) := by
    intro e rest
    induction rest generalizing e with
    | nil => simp [Expr.furtherPieces, Expr.tokens]
    | cons a rest ih =>
      calc (e.pieces ++ Expr.furtherPieces (a :: rest)).filterMap id
          = e.tokens ++ Token.comma :: (a.pieces ++ Expr.furtherPieces rest).filterMap id := by
            simp [Expr.furtherPieces, Expr.tokens]
        _ = e.tokens ++ Token.comma :: [Token.comma].intercalate ((a :: rest).map Expr.tokens) := by
            rw [ih a]
        _ = [Token.comma].intercalate ((e :: a :: rest).map Expr.tokens) := by
            simp only [List.map_cons, List.intercalate_cons_cons, List.append_assoc,
              List.singleton_append]
  cases args with
  | nil => simp [Expr.argumentPieces]
  | cons a rest => exact hfurther a rest

theorem tokens_call (f : Function) (args : List Expr) :
    (Expr.call f args).tokens = .name f.name :: .leftParen
      :: ([Token.comma].intercalate (args.map Expr.tokens) ++ [.rightParen]) := by
  rw [← filterMap_argumentPieces]
  simp [Expr.tokens, Expr.pieces]

/-! ## Levels and phrases -/

theorem Derives.mono {φ : Phrase} {levels more : Nat} {s : Stretch} (h : Derives φ levels s)
    (hle : levels ≤ more) : Derives φ more s := by
  induction h generalizing more with
  | expr head signs tail ihhead ihtail =>
    exact .expr (ihhead hle) signs (fun l hl => ihtail l hl hle)
  | term head signs tail ihhead ihtail =>
    exact .term (ihhead hle) signs (fun l hl => ihtail l hl hle)
  | unary h ih => exact .unary (ih hle)
  | number x => exact .number x
  | name n => exact .name n
  | minus h ih =>
    obtain ⟨k, rfl⟩ := Nat.exists_eq_add_of_le' (Nat.le_of_add_left_le hle)
    exact .minus (ih (by omega))
  | plus h ih =>
    obtain ⟨k, rfl⟩ := Nat.exists_eq_add_of_le' (Nat.le_of_add_left_le hle)
    exact .plus (ih (by omega))
  | parens h ih =>
    obtain ⟨k, rfl⟩ := Nat.exists_eq_add_of_le' (Nat.le_of_add_left_le hle)
    exact .parens (ih (by omega))
  | call named inside enough notMore units ih =>
    obtain ⟨k, rfl⟩ := Nat.exists_eq_add_of_le' (Nat.le_of_add_left_le hle)
    exact .call named (fun a ha => ih a ha (by omega)) enough notMore units

/-- How tightly the outermost node of a phrase binds at least. -/
def Phrase.precedence : Phrase → Nat
  | expr => 1
  | term => 2
  | unary => 3
  | primary => 4

theorem linked_nil (s : Stretch) : linked s [] = s := by
  simp [linked, operatorsOf, groupedLeft]

theorem Derives.term_of_unary {levels : Nat} {s : Stretch} (h : Derives .unary levels s) :
    Derives .term levels s :=
  linked_nil s ▸ @Derives.term levels s [] h (by simp) (by simp)

theorem Derives.expr_of_term {levels : Nat} {s : Stretch} (h : Derives .term levels s) :
    Derives .expr levels s :=
  linked_nil s ▸ @Derives.expr levels s [] h (by simp) (by simp)

/-- A phrase is also a phrase of any kind that binds less tightly. -/
theorem Derives.loosen {φ ψ : Phrase} {levels : Nat} {s : Stretch} (h : Derives φ levels s)
    (hle : ψ.precedence ≤ φ.precedence) : Derives ψ levels s := by
  have hunary : φ = .primary → Derives .unary levels s := by
    rintro rfl
    exact .unary h
  cases φ with
  | expr => cases ψ <;> first | exact h | simp [Phrase.precedence] at hle
  | term =>
    cases ψ with
    | expr => exact h.expr_of_term
    | term => exact h
    | _ => simp [Phrase.precedence] at hle
  | unary =>
    cases ψ with
    | expr => exact h.term_of_unary.expr_of_term
    | term => exact h.term_of_unary
    | unary => exact h
    | primary => simp [Phrase.precedence] at hle
  | primary =>
    cases ψ with
    | expr => exact (hunary rfl).term_of_unary.expr_of_term
    | term => exact (hunary rfl).term_of_unary
    | unary => exact hunary rfl
    | primary => exact h

theorem Derives.inParens {levels : Nat} {s : Stretch} (h : Derives .expr levels s) :
    Derives .primary (levels + 1) s.inParens :=
  .parens h

/-! ## Written trees -/

/-- The phrase of an operator, and that of its operands. -/
def phraseOf : Operator → Phrase
  | .add | .sub => .expr
  | .mul | .div => .term

def operandOf : Operator → Phrase
  | .add | .sub => .term
  | .mul | .div => .unary

theorem precedence_phraseOf (op : Operator) : (phraseOf op).precedence = op.precedence := by
  cases op <;> rfl

theorem precedence_operandOf (op : Operator) : (operandOf op).precedence = op.precedence + 1 := by
  cases op <;> rfl

theorem operandOf_congr {op op' : Operator} (h : op'.precedence = op.precedence) :
    operandOf op' = operandOf op := by
  cases op <;> cases op' <;> first | rfl | simp [Operator.precedence] at h

/-- A stretch is a chain of operands, with operators between them that bind as tightly as a given
one. The first operand is no such chain itself. -/
def IsChain (op : Operator) (levels : Nat) (s : Stretch) : Prop :=
  ∃ first links, s = linked first links ∧ first.tree.precedence ≠ op.precedence ∧
    Derives (operandOf op) levels first ∧
    ∀ l ∈ links, l.op.precedence = op.precedence ∧ Derives (operandOf op) levels l.operand

theorem IsChain.derives {op : Operator} {levels : Nat} {s : Stretch} (h : IsChain op levels s) :
    Derives (phraseOf op) levels s := by
  obtain ⟨first, links, rfl, -, hfirst, hlinks⟩ := h
  have hsigns : ∀ l ∈ links, l.op.precedence = op.precedence := fun l hl => (hlinks l hl).1
  have hoperands := fun l hl => (hlinks l hl).2
  cases op with
  | add => exact .expr hfirst hsigns hoperands
  | sub => exact .expr hfirst hsigns hoperands
  | mul => exact .term hfirst hsigns hoperands
  | div => exact .term hfirst hsigns hoperands

theorem IsChain.mono {op : Operator} {levels more : Nat} {s : Stretch}
    (h : IsChain op levels s) (hle : levels ≤ more) : IsChain op more s := by
  obtain ⟨first, links, hs, hne, hfirst, hlinks⟩ := h
  exact ⟨first, links, hs, hne, hfirst.mono hle,
    fun l hl => ⟨(hlinks l hl).1, (hlinks l hl).2.mono hle⟩⟩

theorem IsChain.congr {op op' : Operator} {levels : Nat} {s : Stretch}
    (h : IsChain op' levels s) (hop : op'.precedence = op.precedence) : IsChain op levels s := by
  obtain ⟨first, links, hs, hne, hfirst, hlinks⟩ := h
  rw [operandOf_congr hop] at hfirst hlinks
  rw [hop] at hne hlinks
  exact ⟨first, links, hs, hne, hfirst, hlinks⟩

/-- The canonical tokens of a tree are derived within some levels, as its outermost node has it. -/
def IsWritten (levels : Nat) : Expr → Prop
  | .binary op lhs rhs => IsChain op levels (stretchOf (.binary op lhs rhs))
  | .negate e => Derives .unary levels (stretchOf (.negate e))
  | e => Derives .primary levels (stretchOf e)

theorem IsWritten.derives {φ : Phrase} {levels : Nat} {e : Expr} (h : IsWritten levels e)
    (hle : φ.precedence ≤ e.precedence) : Derives φ levels (stretchOf e) := by
  cases e with
  | binary op lhs rhs =>
    have hchain : Derives (phraseOf op) levels (stretchOf (.binary op lhs rhs)) :=
      IsChain.derives h
    refine hchain.loosen ?_
    rw [precedence_phraseOf]
    exact hle
  | negate e => exact Derives.loosen (φ := .unary) h hle
  | _ => exact Derives.loosen (φ := .primary) h hle

theorem IsWritten.mono {levels more : Nat} {e : Expr} (h : IsWritten levels e)
    (hle : levels ≤ more) : IsWritten more e := by
  cases e with
  | binary op lhs rhs => exact IsChain.mono h hle
  | negate e => exact Derives.mono h hle
  | _ => exact Derives.mono h hle

theorem IsWritten.expr {levels : Nat} {e : Expr} (h : IsWritten levels e) :
    Derives .expr levels (stretchOf e) :=
  h.derives e.precedence_pos

/-! ## Trees that fit -/

/-- A tree is written within some levels where at least a precedence is wanted: as it is, or with one
of the levels for parentheses around it. -/
def Fits (precedence levels : Nat) (e : Expr) : Prop :=
  (precedence ≤ e.precedence ∧ IsWritten levels e) ∨
    ∃ fewer, levels = fewer + 1 ∧ IsWritten fewer e

theorem Fits.isWritten {p levels : Nat} {e : Expr} (h : Fits p levels e) : IsWritten levels e := by
  rcases h with ⟨-, h⟩ | ⟨fewer, rfl, h⟩
  · exact h
  · exact h.mono (Nat.le_succ fewer)

theorem Fits.loosen {p q levels : Nat} {e : Expr} (h : Fits p levels e) (hle : q ≤ p) :
    Fits q levels e := by
  rcases h with ⟨hp, h⟩ | h
  · exact .inl ⟨hle.trans hp, h⟩
  · exact .inr h

theorem Fits.succ {p levels : Nat} {e : Expr} (h : Fits p levels e) : Fits p (levels + 1) e := by
  rcases h with ⟨hp, h⟩ | ⟨fewer, rfl, h⟩
  · exact .inl ⟨hp, h.mono (Nat.le_succ levels)⟩
  · exact .inr ⟨fewer + 1, rfl, h.mono (Nat.le_succ fewer)⟩

/-- A tree that does not bind tightly enough has a level left for parentheses. -/
theorem Fits.inParens {p levels : Nat} {e : Expr} (h : Fits p levels e)
    (hlt : e.precedence < p) : Derives .primary levels (stretchOf e).inParens := by
  rcases h with ⟨hp, -⟩ | ⟨fewer, rfl, h⟩
  · omega
  · exact h.expr.inParens

theorem Fits.grouped {φ : Phrase} {levels : Nat} {e : Expr} (h : Fits φ.precedence levels e) :
    Derives φ levels ((stretchOf e).grouped (e.precedence < φ.precedence)) := by
  by_cases hlt : e.precedence < φ.precedence
  · have hprimary : φ.precedence ≤ Phrase.primary.precedence := by cases φ <;> decide
    rw [decide_eq_true hlt]
    exact (h.inParens hlt).loosen hprimary
  · rw [decide_eq_false hlt]
    exact h.isWritten.derives (Nat.le_of_not_lt hlt)

/-! ## Operators -/

section Operators

variable {op : Operator} {levels : Nat} {lhs rhs : Expr}

/-- The left operand, with parentheses if it needs them, starts a chain. -/
theorem isChain_left (h : Fits op.precedence levels lhs) :
    IsChain op levels ((stretchOf lhs).grouped (lhs.precedence < op.precedence)) := by
  by_cases heq : lhs.precedence = op.precedence
  · obtain ⟨op', first, last, rfl, hop⟩ := Expr.exists_binary_of_precedence heq
    rw [decide_eq_false (by omega)]
    exact IsChain.congr h.isWritten hop
  · have hne : ((stretchOf lhs).grouped (lhs.precedence < op.precedence)).tree.precedence
        ≠ op.precedence := by
      rw [Stretch.grouped_tree]
      exact fun htree => heq ((Expr.precedence_regrouped lhs).symm.trans htree)
    refine ⟨_, [], (linked_nil _).symm, hne, ?_, by simp⟩
    by_cases hlt : lhs.precedence < op.precedence
    · rw [decide_eq_true hlt]
      refine (h.inParens hlt).loosen ?_
      cases op <;> decide
    · rw [decide_eq_false hlt]
      refine h.isWritten.derives ?_
      rw [precedence_operandOf]
      omega

/-- An operator goes on a chain with the first operand of a chain on its right. -/
theorem joined_groupedLeft {first : Expr} {links : List Link}
    (hfirst : first.precedence ≠ op.precedence)
    (hlinks : ∀ l ∈ links, l.op.precedence = op.precedence) (lhs : Expr) :
    Expr.joined op lhs (groupedLeft first links)
      = groupedLeft (.binary op lhs first) links := by
  -- The last link is the outermost operator, which stays outermost.
  induction links using List.reverseRecOn with
  | nil => exact Expr.joined_of_ne hfirst lhs
  | append_singleton links l ih =>
    have hlast : l.op.precedence = op.precedence := hlinks l (by simp)
    have hrest := ih fun m hm => hlinks m (List.mem_append_left _ hm)
    unfold groupedLeft at hrest ⊢
    rw [List.foldl_append, List.foldl_append]
    simp only [List.foldl_cons, List.foldl_nil]
    rw [Expr.joined_binary hlast, hrest]

/-- Links that go on a chain with an operator and its right operand. -/
structure Continues (op : Operator) (levels : Nat) (rhs : Expr) (links : List Link) : Prop where
  operands : ∀ l ∈ links, l.op.precedence = op.precedence ∧
    Derives (operandOf op) levels l.operand
  tokens : links.flatMap Link.tokens
    = op.token :: ((stretchOf rhs).grouped (Expr.groupsRight op rhs)).tokens
  operators : operatorsOf links = rhs.operatorCount + 1
  tree : ∀ lhs, groupedLeft lhs links = if Expr.groupsRight op rhs then .binary op lhs rhs.regrouped
    else Expr.joined op lhs rhs.regrouped

/-- An operand that is no chain, or has parentheses, is one link. -/
theorem continues_operand
    (h : Derives (operandOf op) levels ((stretchOf rhs).grouped (Expr.groupsRight op rhs)))
    (hsingle : Expr.groupsRight op rhs = true ∨ rhs.precedence ≠ op.precedence) :
    Continues op levels rhs [⟨op, (stretchOf rhs).grouped (Expr.groupsRight op rhs)⟩] where
  operands := by
    intro l hl
    rw [List.mem_singleton.1 hl]
    exact ⟨rfl, h⟩
  tokens := by simp [Link.tokens]
  operators := by simp [operatorsOf, stretchOf]
  tree := by
    intro lhs
    have htree : groupedLeft lhs [⟨op, (stretchOf rhs).grouped (Expr.groupsRight op rhs)⟩]
        = .binary op lhs rhs.regrouped := by
      simp [groupedLeft, stretchOf]
    rw [htree]
    rcases hsingle with hgroups | hne
    · rw [if_pos hgroups]
    · rw [← Expr.precedence_regrouped] at hne
      rw [Expr.joined_of_ne hne, ite_self]

/-- A chain without parentheses gives its first operand to the operator, and its own links. -/
theorem exists_continues_chain (h : IsWritten levels rhs) (heq : rhs.precedence = op.precedence)
    (hgroups : Expr.groupsRight op rhs = false) : ∃ links, Continues op levels rhs links := by
  obtain ⟨op', a, b, rfl, hop⟩ := Expr.exists_binary_of_precedence heq
  obtain ⟨first, links, hs, hne, hfirst, hlinks⟩ := IsChain.congr h hop
  have hcount : (Expr.binary op' a b).operatorCount = first.operators + operatorsOf links :=
    congrArg Stretch.operators hs
  have htree : (Expr.binary op' a b).regrouped = groupedLeft first.tree links :=
    congrArg Stretch.tree hs
  refine ⟨⟨op, first⟩ :: links, ?_, ?_, ?_, ?_⟩
  · intro l hl
    rcases List.mem_cons.1 hl with rfl | hl
    · exact ⟨rfl, hfirst⟩
    · exact hlinks l hl
  · rw [hgroups, hs]
    rfl
  · rw [hcount]
    simp only [operatorsOf, List.map_cons, List.sum_cons]
    omega
  · intro lhs
    rw [hgroups, htree, joined_groupedLeft hne (fun l hl => (hlinks l hl).1)]
    rfl

theorem exists_continues (h : Fits (op.precedence + 1) levels rhs) :
    ∃ links, Continues op levels rhs links := by
  cases hgroups : Expr.groupsRight op rhs with
  | true =>
    have hlt : rhs.precedence < op.precedence + 1 := by
      simp only [Expr.groupsRight, Bool.or_eq_true, decide_eq_true_eq, Bool.and_eq_true,
        beq_iff_eq] at hgroups
      omega
    have hprimary : (operandOf op).precedence ≤ Phrase.primary.precedence := by
      cases op <;> decide
    refine ⟨_, continues_operand ?_ (.inl hgroups)⟩
    rw [hgroups]
    exact (h.inParens hlt).loosen hprimary
  | false =>
    by_cases heq : rhs.precedence = op.precedence
    · exact exists_continues_chain h.isWritten heq hgroups
    · have hge : (operandOf op).precedence ≤ rhs.precedence := by
        simp only [Expr.groupsRight, Bool.or_eq_false_iff, decide_eq_false_iff_not] at hgroups
        rw [precedence_operandOf]
        omega
      refine ⟨_, continues_operand ?_ (.inr heq)⟩
      rw [hgroups]
      exact h.isWritten.derives hge

theorem fits_binary (hl : Fits op.precedence levels lhs)
    (hr : Fits (op.precedence + 1) levels rhs) :
    Fits op.precedence levels (.binary op lhs rhs) := by
  obtain ⟨first, done, hs, hne, hfirst, hdone⟩ := isChain_left hl
  obtain ⟨links, hlinks, htokens, hcount, htree⟩ := exists_continues hr
  refine .inl ⟨Nat.le_refl _, first, done ++ links, ?_, hne, hfirst, ?_⟩
  · have hleft : lhs.operatorCount = first.operators + operatorsOf done := by
      have hoperators := congrArg Stretch.operators hs
      rwa [Stretch.grouped_operators] at hoperators
    have hregrouped : lhs.regrouped = groupedLeft first.tree done := by
      have htrees := congrArg Stretch.tree hs
      rwa [Stretch.grouped_tree] at htrees
    have hall : (Expr.binary op lhs rhs).tokens
        = first.tokens ++ (done ++ links).flatMap Link.tokens := by
      rw [tokens_binary, hs, ← htokens, List.flatMap_append, ← List.append_assoc]
      rfl
    have hoperators : (Expr.binary op lhs rhs).operatorCount
        = first.operators + operatorsOf (done ++ links) := by
      have happend : operatorsOf (done ++ links) = operatorsOf done + operatorsOf links := by
        simp [operatorsOf]
      rw [happend, hcount, Expr.operatorCount, hleft]
      omega
    have hresult : (Expr.binary op lhs rhs).regrouped
        = groupedLeft first.tree (done ++ links) := by
      have happend : groupedLeft first.tree (done ++ links)
          = groupedLeft (groupedLeft first.tree done) links := List.foldl_append
      rw [happend, htree, ← hregrouped, Expr.regrouped]
    rw [stretchOf, hall, hoperators, hresult]
    rfl
  · intro l hl
    exact (List.mem_append.1 hl).elim (hdone l) (hlinks l)

theorem fits_groupedLeft {p : Nat} {e : Expr} (links : List Link) (he : Fits p levels e)
    (hlinks : ∀ l ∈ links, l.op.precedence = p ∧ Fits (p + 1) levels l.operand.tree) :
    Fits p levels (groupedLeft e links) := by
  induction links generalizing e with
  | nil => exact he
  | cons l rest ih =>
    obtain ⟨hop, hoperand⟩ := hlinks l List.mem_cons_self
    refine ih ?_ fun m hm => hlinks m (List.mem_cons_of_mem l hm)
    subst hop
    exact fits_binary he hoperand

end Operators

/-! ## Calls -/

theorem tokens_asArgument (kind : ArgumentKind) (e : Expr) :
    (asArgument kind e).tokens = e.tokens := by
  cases kind <;> cases e <;> rfl

theorem operatorCount_asArgument (kind : ArgumentKind) (e : Expr) :
    (asArgument kind e).operatorCount = e.operatorCount := by
  cases kind <;> cases e <;> rfl

section Placing

variable {g : Expr → Expr} (names : ∀ n, g (.identifier n) = .identifier n)
  {f : Function} {trees : List Expr}
  (units : ∀ p ∈ f.parameters.zip trees, p.1 = .unit → ∃ n, p.2 = .identifier n)
include names units

/-- What leaves names as they are goes past the reading of names as units. -/
theorem map_asArgument (unitNames : ∀ n, g (.unitName n) = .unitName n) :
    ((f.parameters.zip trees).map fun p => asArgument p.1 p.2).map g
      = (f.parameters.zip (trees.map g)).map fun p => asArgument p.1 p.2 := by
  rw [List.zip_map_right, List.map_map, List.map_map]
  refine List.map_congr_left fun p hp => ?_
  obtain ⟨kind, e⟩ := p
  cases kind with
  | number => rfl
  | unit =>
    obtain ⟨n, rfl⟩ := units _ hp rfl
    simp [asArgument, names, unitNames]

theorem units_map :
    ∀ p ∈ f.parameters.zip (trees.map g), p.1 = .unit → ∃ n, p.2 = .identifier n := by
  intro p hp hunit
  rw [List.zip_map_right] at hp
  obtain ⟨q, hq, rfl⟩ := List.mem_map.1 hp
  obtain ⟨n, hn⟩ := units q hq hunit
  exact ⟨n, (congrArg g hn).trans (names n)⟩

end Placing

/-- Where names of units and of numbers count the same, the arguments of a call are as they were
read. -/
theorem map_placed {α : Type} {g : Expr → α} (hg : ∀ kind e, g (asArgument kind e) = g e)
    {f : Function} {args : List Stretch} (notMore : args.length ≤ f.maxArity) :
    ((f.parameters.zip (args.map Stretch.tree)).map fun p => asArgument p.1 p.2).map g
      = args.map fun a => g a.tree := by
  have hlength : (args.map Stretch.tree).length ≤ f.parameters.length := by
    rw [List.length_map]
    exact notMore
  have hsnd : (f.parameters.zip (args.map Stretch.tree)).map Prod.snd = args.map Stretch.tree :=
    List.map_snd_zip hlength
  calc ((f.parameters.zip (args.map Stretch.tree)).map fun p => asArgument p.1 p.2).map g
      = (f.parameters.zip (args.map Stretch.tree)).map fun p => g p.2 := by
        rw [List.map_map]
        exact List.map_congr_left fun p _ => hg p.1 p.2
    _ = ((f.parameters.zip (args.map Stretch.tree)).map Prod.snd).map g := by
        rw [List.map_map]
        rfl
    _ = args.map fun a => g a.tree := by
        rw [hsnd, List.map_map]
        rfl

theorem map_tree_stretchOf (args : List Stretch) :
    (args.map fun a => stretchOf a.tree).map Stretch.tree
      = (args.map Stretch.tree).map Expr.regrouped := by
  rw [List.map_map, List.map_map]
  rfl

section Calls

variable {name : String} {f : Function} {args : List Stretch}
  (notMore : args.length ≤ f.maxArity)
  (units : ∀ p ∈ f.parameters.zip (args.map Stretch.tree),
    p.1 = .unit → ∃ n, p.2 = .identifier n)
include notMore units

/-- The canonical tokens of a call are a call of the canonical tokens of its arguments. -/
theorem stretchOf_call : stretchOf (called name f args).tree
    = called f.name f (args.map fun a => stretchOf a.tree) := by
  have htokens : (called name f args).tree.tokens
      = (called f.name f (args.map fun a => stretchOf a.tree)).tokens := by
    simp only [called, tokens_call]
    rw [map_placed tokens_asArgument notMore, List.map_map]
    rfl
  have hcount : (called name f args).tree.operatorCount
      = (called f.name f (args.map fun a => stretchOf a.tree)).operators := by
    simp only [called, Expr.operatorCount, Expr.operatorCountOf_eq_sum]
    rw [map_placed operatorCount_asArgument notMore, List.map_map]
    rfl
  have htree : (called name f args).tree.regrouped
      = (called f.name f (args.map fun a => stretchOf a.tree)).tree := by
    simp only [called, Expr.regrouped, Expr.regroupedAll_eq_map]
    rw [map_tree_stretchOf]
    exact congrArg (Expr.call f) (map_asArgument (fun _ => rfl) units fun _ => rfl)
  rw [stretchOf, htokens, hcount, htree]

theorem derives_stretchOf_call {levels : Nat} (enough : f.minArity ≤ args.length)
    (inside : ∀ a ∈ args, Derives .expr levels (stretchOf a.tree)) :
    Derives .primary (levels + 1) (stretchOf (called name f args).tree) := by
  rw [stretchOf_call notMore units]
  refine .call (Function.named?_name f) ?_ (by simpa using enough) (by simpa using notMore) ?_
  · intro a ha
    obtain ⟨b, hb, rfl⟩ := List.mem_map.1 ha
    exact inside b hb
  · rw [map_tree_stretchOf]
    exact units_map (fun _ => rfl) units

end Calls

/-! ## The main statement -/

/-- A tree that is derived as a phrase fits where the phrase stands. -/
theorem fits_of_derives {φ : Phrase} {levels : Nat} {s : Stretch} (h : Derives φ levels s) :
    Fits φ.precedence levels s.tree := by
  induction h with
  | expr head signs tail ihhead ihtail =>
    exact fits_groupedLeft _ (ihhead.loosen (Nat.le_succ 1))
      fun l hl => ⟨signs l hl, ihtail l hl⟩
  | term head signs tail ihhead ihtail =>
    exact fits_groupedLeft _ (ihhead.loosen (Nat.le_succ 2))
      fun l hl => ⟨signs l hl, ihtail l hl⟩
  | @minus levels s h ih =>
    have hnegate : stretchOf (.negate s.tree)
        = ⟨.minus :: ((stretchOf s.tree).grouped (s.tree.precedence < 3)).tokens,
          ((stretchOf s.tree).grouped (s.tree.precedence < 3)).operators,
          .negate ((stretchOf s.tree).grouped (s.tree.precedence < 3)).tree⟩ := by
      rw [Stretch.grouped_operators, Stretch.grouped_tree, ← tokens_negate]
      rfl
    refine .inl ⟨Nat.le_refl _, ?_⟩
    show Derives .unary (levels + 1) (stretchOf (.negate s.tree))
    rw [hnegate]
    exact .minus (Fits.grouped ih)
  -- A plus sign is not in the tree, so that its level is to spare.
  | plus h ih => exact ih.succ
  | unary h ih => exact ih.loosen (Nat.le_succ 3)
  | number x => exact .inl ⟨Nat.le_refl _, .number x⟩
  | name n => exact .inl ⟨Nat.le_refl _, .name n⟩
  -- Nor are parentheses; their level is left for those that the canonical text needs.
  | @parens levels s h ih => exact .inr ⟨levels, rfl, ih.isWritten⟩
  | call named inside enough notMore units ih =>
    refine .inl ⟨Nat.le_refl _, ?_⟩
    exact derives_stretchOf_call notMore units enough fun a ha => (ih a ha).isWritten.expr

/-- The canonical tokens of a tree that is derived are derived within the same levels, as the
regrouped tree. -/
theorem derives_stretchOf {levels : Nat} {s : Stretch} (h : Derives .expr levels s) :
    Derives .expr levels (stretchOf s.tree) :=
  (fits_of_derives h).isWritten.expr

theorem operators_linked {first : Stretch} {links : List Link}
    (hfirst : first.operators = first.tree.operatorCount)
    (hlinks : ∀ l ∈ links, l.operand.operators = l.operand.tree.operatorCount) :
    (linked first links).operators = (linked first links).tree.operatorCount := by
  induction links using List.reverseRecOn with
  | nil =>
    rw [linked_nil]
    exact hfirst
  | append_singleton links l ih =>
    have hrest := ih fun m hm => hlinks m (List.mem_append_left _ hm)
    have hlast := hlinks l (by simp)
    simp only [linked, operatorsOf, groupedLeft, List.map_append, List.sum_append,
      List.foldl_append, List.map_cons, List.map_nil, List.sum_singleton, List.foldl_cons,
      List.foldl_nil, Expr.operatorCount] at hrest hlast ⊢
    omega

theorem operators_eq_operatorCount {φ : Phrase} {levels : Nat} {s : Stretch}
    (h : Derives φ levels s) : s.operators = s.tree.operatorCount := by
  induction h with
  | expr head signs tail ihhead ihtail => exact operators_linked ihhead ihtail
  | term head signs tail ihhead ihtail => exact operators_linked ihhead ihtail
  | call named inside enough notMore units ih =>
    simp only [called, Expr.operatorCount, Expr.operatorCountOf_eq_sum]
    rw [map_placed operatorCount_asArgument notMore]
    exact congrArg List.sum (List.map_congr_left ih)
  | minus h ih => exact ih
  | plus h ih => exact ih
  | unary h ih => exact ih
  | parens h ih => exact ih
  | number x => rfl
  | name n => rfl

end Grammar

end QuantitySurvey.Formula
