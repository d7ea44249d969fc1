import QuantitySurvey.Proofs.Formula.Derivation

/-! # What the parsers return is derived

`Gives x c post` says that from a cursor `c` the parser `x` gives a result as `post` describes, or
gives up with a failure of the formula. The operations of a parser have one equation each, and the
loops one lemma each.

* `spans_chain`, `spans_arguments`: the loops return what their links and arguments derive.
* `sound_parsersAt`: so do the parsers of every level.
-/

set_option autoImplicit false

namespace QuantitySurvey.Formula.Grammar

variable {α β : Type} (source : String)

/-! ## Results of parsers -/

/-- A failure that is reported for a formula. -/
def IsFormulaFailure (f : Failure) : Prop :=
  ∃ expression reason, f = .formula expression reason

theorem isFormulaFailure_of (expression : String) (fault : Fault) :
    IsFormulaFailure (fault.of expression) :=
  ⟨_, _, rfl⟩

/-- The result of a parser is as described, or a failure of the formula. -/
def Gives (x : Parser α) (c : Cursor) (post : α → Cursor → Prop) : Prop :=
  match x.run c with
  | .ok (a, after) => post a after
  | .error f => IsFormulaFailure f

theorem Gives.mono {x : Parser α} {c : Cursor} {post post' : α → Cursor → Prop}
    (h : Gives x c post) (himp : ∀ a after, post a after → post' a after) : Gives x c post' := by
  unfold Gives at h ⊢
  split
  · next a after hrun =>
    rw [hrun] at h
    exact himp _ _ h
  · next f hrun =>
    rw [hrun] at h
    exact h

theorem gives_pure (a : α) (c : Cursor) (post : α → Cursor → Prop) :
    Gives (pure a) c post ↔ post a c := Iff.rfl

theorem gives_bind (x : Parser α) (f : α → Parser β) (c : Cursor) (post : β → Cursor → Prop) :
    Gives (x >>= f) c post ↔ Gives x c fun a after => Gives (f a) after post := by
  unfold Gives
  rw [StateT.run_bind]
  cases x.run c with
  | error f => exact Iff.rfl
  | ok r => exact Iff.rfl

theorem gives_refuse (fault : Fault) (c : Cursor) (post : α → Cursor → Prop) :
    Gives (refuse source fault) c post :=
  isFormulaFailure_of source fault

theorem gives_lift (x : Except Failure α) (c : Cursor) (post : α → Cursor → Prop)
    (h : ∀ f, x = .error f → IsFormulaFailure f) (hok : ∀ a, x = .ok a → post a c) :
    Gives (liftM x : Parser α) c post := by
  cases x with
  | error f => exact h f rfl
  | ok a => exact hok a rfl

/-! ## Operations -/

theorem gives_peek (c : Cursor) (post : Option Token → Cursor → Prop) :
    Gives peek c post ↔ post (c.tokens.head?.map Located.token) c := Iff.rfl

theorem gives_next? (c : Cursor) (post : Option Located → Cursor → Prop)
    (hnone : c.tokens = [] → post none c)
    (hsome : ∀ t rest, c.tokens = t :: rest → post (some t) ⟨rest, c.operators⟩) :
    Gives next? c post := by
  obtain ⟨tokens, operators⟩ := c
  cases tokens with
  | nil => exact hnone rfl
  | cons t rest => exact hsome t rest rfl

theorem gives_advance (c : Cursor) (post : Unit → Cursor → Prop) :
    Gives advance c post ↔ post () ⟨c.tokens.tail, c.operators⟩ := by
  obtain ⟨tokens, operators⟩ := c
  cases tokens with
  | nil => exact Iff.rfl
  | cons t rest => exact Iff.rfl

theorem gives_takeOperator (c : Cursor) (post : Unit → Cursor → Prop)
    (h : c.operators < maxOperators → post () ⟨c.tokens.tail, c.operators + 1⟩) :
    Gives (takeOperator source) c post := by
  have hget : Gives (get : Parser Cursor) c fun d after => d = c ∧ after = c := ⟨rfl, rfl⟩
  unfold takeOperator
  refine (gives_bind _ _ _ _).2 (hget.mono ?_)
  rintro d after ⟨rfl, rfl⟩
  by_cases hfull : maxOperators ≤ after.operators
  · rw [if_pos hfull]
    exact isFormulaFailure_of _ _
  · rw [if_neg hfull]
    exact (gives_advance ⟨after.tokens, after.operators + 1⟩ post).2 (h (by omega))

theorem gives_close (opened : Located) (c : Cursor) (post : Unit → Cursor → Prop)
    (h : ∀ t rest, c.tokens = t :: rest → t.token = .rightParen → post () ⟨rest, c.operators⟩) :
    Gives (close source opened) c post := by
  unfold close
  refine (gives_bind _ _ _ _).2 (gives_next? c _ ?_ ?_)
  · intro _
    exact gives_refuse source _ _ _
  · intro t rest htokens
    by_cases ht : t.token = .rightParen
    · simp only [ht, ne_eq, not_true_eq_false, if_false]
      exact (gives_pure _ _ _).2 (h t rest htokens ht)
    · simp only [ne_eq, ht, not_false_eq_true, if_true]
      exact gives_refuse source _ _ _

theorem gives_enter (below : Option Parsers) (c : Cursor) (post : Parsers → Cursor → Prop)
    (h : ∀ p, below = some p → post p c) : Gives (enter source below) c post := by
  cases below with
  | none => exact gives_refuse source _ _ _
  | some p => exact h p rfl

/-! ## Spans -/

/-- Between two cursors lies a stretch of a phrase, and the operators of it are counted. -/
def Spans (φ : Phrase) (levels : Nat) (c : Cursor) (e : Expr) (after : Cursor) : Prop :=
  ∃ s, Derives φ levels s ∧ s.tree = e ∧
    c.tokens.map Located.token = s.tokens ++ after.tokens.map Located.token ∧
    after.operators = c.operators + s.operators ∧
    (c.operators ≤ maxOperators → after.operators ≤ maxOperators)

theorem Spans.length_lt {φ : Phrase} {levels : Nat} {c after : Cursor} {e : Expr}
    (h : Spans φ levels c e after) : after.tokens.length < c.tokens.length := by
  obtain ⟨s, hs, -, htokens, -⟩ := h
  obtain ⟨t, rest, hhead, -⟩ := hs.head
  have hlength := congrArg List.length htokens
  rw [hhead] at hlength
  simp only [List.length_map, List.length_append, List.length_cons] at hlength
  omega

theorem operatorsOf_cons (l : Link) (links : List Link) :
    operatorsOf (l :: links) = l.operand.operators + 1 + operatorsOf links := by
  simp [operatorsOf]

/-- Between two cursors lie links of operands of a phrase, by which a tree on the left grows. -/
def SpansLinks (φ : Phrase) (precedence levels : Nat) (left : Expr) (c : Cursor) (e : Expr)
    (after : Cursor) : Prop :=
  ∃ links, (∀ l ∈ links, l.op.precedence = precedence) ∧
    (∀ l ∈ links, Derives φ levels l.operand) ∧ groupedLeft left links = e ∧
    c.tokens.map Located.token = links.flatMap Link.tokens ++ after.tokens.map Located.token ∧
    after.operators = c.operators + operatorsOf links ∧
    (c.operators ≤ maxOperators → after.operators ≤ maxOperators)

section Chains

variable {φ : Phrase} {precedence levels : Nat} {operatorOf : Token → Option Operator}
  {operand : Parser Expr}

theorem spans_chainFrom
    (hop : ∀ t op, operatorOf t = some op → t = op.token ∧ op.precedence = precedence)
    (hoperand : ∀ c, Gives operand c (Spans φ levels c)) (turns : Nat) (left : Expr) (c : Cursor) :
    Gives (chainFrom source operatorOf operand turns left) c
      (SpansLinks φ precedence levels left c) := by
  induction turns generalizing left c with
  | zero => exact ⟨[], by simp, by simp, rfl, rfl, rfl, id⟩
  | succ turns ih =>
    unfold chainFrom
    refine (gives_bind _ _ _ _).2 ((gives_peek c _).2 ?_)
    cases hpeek : (c.tokens.head?.map Located.token).bind operatorOf with
    | none => exact ⟨[], by simp, by simp, rfl, rfl, rfl, id⟩
    | some op =>
      obtain ⟨token, htoken, hopOf⟩ := Option.bind_eq_some_iff.1 hpeek
      obtain ⟨rfl, hprecedence⟩ := hop token op hopOf
      refine (gives_bind _ _ _ _).2 (gives_takeOperator source c _ fun hroom => ?_)
      refine (gives_bind _ _ _ _).2 ((hoperand _).mono ?_)
      rintro right mid ⟨s, hs, rfl, hmid, hcount, hbound⟩
      refine (ih _ mid).mono ?_
      rintro e after ⟨links, hsigns, hderives, rfl, hafter, hcount', hbound'⟩
      refine ⟨⟨op, s⟩ :: links, ?_, ?_, rfl, ?_, ?_, ?_⟩
      · simpa [hprecedence] using hsigns
      · simpa [hs] using hderives
      · obtain ⟨tokens, operators⟩ := c
        cases tokens with
        | nil => simp at htoken
        | cons t rest =>
          have ht : t.token = op.token := by simpa using htoken
          simp only [List.tail_cons] at hmid
          simp [ht, hmid, hafter, Link.tokens]
      · have hmidcount : mid.operators = c.operators + 1 + s.operators := hcount
        have hcons : operatorsOf (⟨op, s⟩ :: links) = s.operators + 1 + operatorsOf links :=
          operatorsOf_cons _ _
        omega
      · intro _
        exact hbound' (hbound hroom)

/-- A chain of operands is the first operand and links after it. -/
theorem spans_chain
    (hop : ∀ t op, operatorOf t = some op → t = op.token ∧ op.precedence = precedence)
    (hoperand : ∀ c, Gives operand c (Spans φ levels c)) (c : Cursor) :
    Gives (chain source operatorOf operand) c fun e after =>
      ∃ first links, Derives φ levels first ∧ (∀ l ∈ links, l.op.precedence = precedence) ∧
        (∀ l ∈ links, Derives φ levels l.operand) ∧ (linked first links).tree = e ∧
        c.tokens.map Located.token
          = (linked first links).tokens ++ after.tokens.map Located.token ∧
        after.operators = c.operators + (linked first links).operators ∧
        (c.operators ≤ maxOperators → after.operators ≤ maxOperators) := by
  unfold chain
  refine (gives_bind _ _ _ _).2 ((hoperand c).mono ?_)
  rintro left mid ⟨first, hfirst, rfl, hmid, hcount, hbound⟩
  have hget : Gives (get : Parser Cursor) mid fun d after => d = mid ∧ after = mid := ⟨rfl, rfl⟩
  refine (gives_bind _ _ _ _).2 (hget.mono ?_)
  rintro d d' ⟨rfl, rfl⟩
  refine (spans_chainFrom source hop hoperand _ _ _).mono ?_
  rintro e after ⟨links, hsigns, hderives, rfl, hafter, hcount', hbound'⟩
  refine ⟨first, links, hfirst, hsigns, hderives, rfl, ?_, ?_, fun h => hbound' (hbound h)⟩
  · rw [hmid, hafter, linked, List.append_assoc]
  · rw [hcount', hcount, linked, Nat.add_assoc]

end Chains

/-! ## Arguments and calls -/

theorem intercalate_cons (a : Stretch) (rest : List Stretch) (h : rest ≠ []) :
    [Token.comma].intercalate ((a :: rest).map Stretch.tokens)
      = a.tokens ++ .comma :: [Token.comma].intercalate (rest.map Stretch.tokens) := by
  cases rest with
  | nil => exact absurd rfl h
  | cons b rest => simp [List.intercalate]

theorem spans_argumentsFrom {levels : Nat} {expr : Parser Expr}
    (hexpr : ∀ c, Gives expr c (Spans .expr levels c)) (turns : Nat) (found : List Expr)
    (c : Cursor) (hturns : c.tokens.length < turns) :
    Gives (argumentsFrom expr turns found) c fun es after =>
      ∃ args : List Stretch, args ≠ [] ∧ (∀ a ∈ args, Derives .expr levels a) ∧
        es = found.reverse ++ args.map Stretch.tree ∧
        c.tokens.map Located.token = [Token.comma].intercalate (args.map Stretch.tokens)
          ++ after.tokens.map Located.token ∧
        after.operators = c.operators + (args.map Stretch.operators).sum ∧
        (c.operators ≤ maxOperators → after.operators ≤ maxOperators) := by
  induction turns generalizing found c with
  | zero => omega
  | succ turns ih =>
    unfold argumentsFrom
    refine (gives_bind _ _ _ _).2 ((hexpr c).mono ?_)
    intro e mid hspans
    have hlength := hspans.length_lt
    obtain ⟨s, hs, rfl, hmid, hcount, hbound⟩ := hspans
    refine (gives_bind _ _ _ _).2 ((gives_peek mid _).2 ?_)
    by_cases hcomma : mid.tokens.head?.map Located.token = some .comma
    · rw [if_pos hcomma]
      obtain ⟨tokens, operators⟩ := mid
      cases tokens with
      | nil => simp at hcomma
      | cons t rest =>
        have ht : t.token = .comma := by simpa using hcomma
        refine (gives_bind _ _ _ _).2 ((gives_advance _ _).2 ?_)
        simp only [List.length_cons, List.tail_cons] at hlength ⊢
        refine (ih (s.tree :: found) ⟨rest, operators⟩ (by simp only; omega)).mono ?_
        rintro es after ⟨args, hne, hderives, rfl, hafter, hcount', hbound'⟩
        refine ⟨s :: args, by simp, ?_, by simp, ?_, ?_, fun h => hbound' (hbound h)⟩
        · simpa [hs] using hderives
        · rw [intercalate_cons s args hne, hmid, List.map_cons, ht, hafter]
          simp
        · have hmidcount : operators = c.operators + s.operators := hcount
          rw [hcount', hmidcount, List.map_cons, List.sum_cons, Nat.add_assoc]
    · rw [if_neg hcomma]
      refine (gives_pure _ _ _).2 ⟨[s], by simp, by simpa using hs, by simp, ?_, ?_, hbound⟩
      · simpa [List.intercalate] using hmid
      · simpa using hcount

/-- An argument is placed as it is, or as the name of a unit. -/
theorem placed_eq_ok {f : Function} {kind : ArgumentKind} {e e' : Expr} :
    placed f kind e = .ok e' ↔
      (kind = .unit → ∃ n, e = .identifier n) ∧ asArgument kind e = e' := by
  cases kind with
  | number => simp [placed, asArgument]
  | unit => cases e <;> simp [placed, asArgument]

theorem placed_error {f : Function} {kind : ArgumentKind} {e : Expr} {failure : Failure}
    (h : placed f kind e = .error failure) : IsFormulaFailure failure := by
  cases kind with
  | number => cases h
  | unit =>
    cases e with
    | identifier name => cases h
    | _ =>
      cases h
      exact isFormulaFailure_of _ _

/-- A pass over a list succeeds if it does at every place. -/
theorem mapM_eq_ok_iff {ε : Type} {g : α → Except ε β} {l : List α} {bs : List β} :
    l.mapM g = .ok bs ↔ List.Forall₂ (fun a b => g a = .ok b) l bs := by
  induction l generalizing bs with
  | nil => cases bs <;> simp [pure, Except.pure]
  | cons a l ih =>
    rw [List.mapM_cons]
    cases ha : g a with
    | error e =>
      simp only [bind, Except.bind]
      constructor
      · intro h
        cases h
      · rintro (_ | ⟨hb, -⟩)
        rw [ha] at hb
        cases hb
    | ok b =>
      cases hl : l.mapM g with
      | error e =>
        simp only [bind, Except.bind]
        constructor
        · intro h
          cases h
        · rintro (_ | ⟨-, htail⟩)
          rw [ih.2 htail] at hl
          cases hl
      | ok rest =>
        simp only [bind, Except.bind, pure, Except.pure, Except.ok.injEq]
        constructor
        · rintro rfl
          exact .cons ha (ih.1 hl)
        · rintro (_ | ⟨hb, htail⟩)
          rw [ha] at hb
          rw [ih.2 htail] at hl
          cases hb
          cases hl
          rfl

theorem mapM_error {ε : Type} {g : α → Except ε β} {l : List α} {e : ε}
    (h : l.mapM g = .error e) : ∃ a ∈ l, g a = .error e := by
  induction l with
  | nil => cases h
  | cons a l ih =>
    rw [List.mapM_cons] at h
    cases ha : g a with
    | error e' =>
      rw [ha] at h
      cases h
      exact ⟨a, List.mem_cons_self, ha⟩
    | ok b =>
      cases hl : l.mapM g with
      | error e' =>
        rw [ha, hl] at h
        cases h
        obtain ⟨a', ha', herror⟩ := ih hl
        exact ⟨a', List.mem_cons_of_mem _ ha', herror⟩
      | ok rest =>
        rw [ha, hl] at h
        cases h

/-- Arguments are placed one by one. -/
theorem mapM_placed_eq_ok {f : Function} (l : List (ArgumentKind × Expr)) (es : List Expr) :
    (l.mapM fun (kind, e) => placed f kind e) = .ok es ↔
      (∀ p ∈ l, p.1 = .unit → ∃ n, p.2 = .identifier n) ∧
        (l.map fun p => asArgument p.1 p.2) = es := by
  rw [mapM_eq_ok_iff]
  simp only [placed_eq_ok]
  rw [List.forall₂_and_left, and_congr_right_iff]
  intro _
  have hmap : List.Forall₂ (fun p e' => asArgument p.1 p.2 = e') l es
      ↔ List.Forall₂ Eq (l.map fun p => asArgument p.1 p.2) es :=
    List.forall₂_map_left_iff.symm
  rw [hmap, List.forall₂_eq_eq_eq]

/-- A call is made of the right number of arguments, each fit for its position. -/
theorem callOf_eq_ok {f : Function} {args : List Expr} {e : Expr} :
    callOf f args = .ok e ↔
      (f.minArity ≤ args.length ∧ args.length ≤ f.maxArity) ∧
      (∀ p ∈ f.parameters.zip args, p.1 = .unit → ∃ n, p.2 = .identifier n) ∧
      .call f ((f.parameters.zip args).map fun p => asArgument p.1 p.2) = e := by
  unfold callOf
  by_cases harity : args.length < f.minArity || f.maxArity < args.length
  · rw [if_pos harity]
    have hnot : ¬ (f.minArity ≤ args.length ∧ args.length ≤ f.maxArity) := by
      intro h
      simp only [Bool.or_eq_true, decide_eq_true_eq] at harity
      omega
    simp [hnot]
  · have hfits : f.minArity ≤ args.length ∧ args.length ≤ f.maxArity := by
      simp only [Bool.or_eq_true, decide_eq_true_eq] at harity
      omega
    rw [if_neg harity]
    cases hplaced : (f.parameters.zip args).mapM fun (kind, e) => placed f kind e with
    | error failure =>
      constructor
      · intro h
        cases h
      · rintro ⟨-, hunits, -⟩
        rw [(mapM_placed_eq_ok _ _).2 ⟨hunits, rfl⟩] at hplaced
        cases hplaced
    | ok es =>
      obtain ⟨hunits, rfl⟩ := (mapM_placed_eq_ok _ _).1 hplaced
      simp only [bind, Except.bind, pure, Except.pure, Except.ok.injEq]
      constructor
      · intro h
        exact ⟨hfits, hunits, h⟩
      · rintro ⟨-, -, h⟩
        exact h

theorem callOf_error {f : Function} {args : List Expr} {failure : Failure}
    (h : callOf f args = .error failure) : IsFormulaFailure failure := by
  unfold callOf at h
  split at h
  · cases h
    exact isFormulaFailure_of _ _
  · cases hplaced : (f.parameters.zip args).mapM fun (kind, e) => placed f kind e with
    | error failure' =>
      obtain ⟨p, -, hp⟩ := mapM_error hplaced
      rw [hplaced] at h
      cases h
      exact placed_error hp
    | ok es =>
      rw [hplaced] at h
      cases h

/-! ## Levels -/

/-- The parsers of a level return what is derived within it. -/
structure Parsers.IsSound (p : Parsers) (levels : Nat) : Prop where
  unary : ∀ c, Gives p.unary c (Spans .unary levels c)
  expr : ∀ c, Gives p.expr c (Spans .expr levels c)

/-- The parsers below a level are sound. -/
def SoundBelow (below : Option Parsers) (levels : Nat) : Prop :=
  ∀ p, below = some p → ∃ lower, levels = lower + 1 ∧ p.IsSound lower

/-- With or without arguments, a call is closed and put together in the same way. -/
theorem spans_closedCall {name : String} {offset : Nat} {f : Function}
    (hname : Function.named? name = some f) {opened : Located} (hopened : opened.token = .leftParen)
    {rest : List Located} {operators lower : Nat} (args : List Stretch) (mid : Cursor)
    (hderives : ∀ a ∈ args, Derives .expr lower a)
    (hmid : rest.map Located.token = [Token.comma].intercalate (args.map Stretch.tokens)
      ++ mid.tokens.map Located.token)
    (hcount : mid.operators = operators + (args.map Stretch.operators).sum)
    (hbound : operators ≤ maxOperators → mid.operators ≤ maxOperators) :
    Gives (do close source opened; liftM (callOf f (args.map Stretch.tree))) mid
      (Spans .primary (lower + 1) ⟨⟨.name name, offset⟩ :: opened :: rest, operators⟩) := by
  refine (gives_bind _ _ _ _).2 (gives_close source opened mid _ ?_)
  intro t rest' htokens ht
  refine gives_lift _ _ _ (fun f h => callOf_error h) ?_
  intro e he
  obtain ⟨⟨henough, hmost⟩, hunits, rfl⟩ := callOf_eq_ok.1 he
  rw [List.length_map] at henough hmost
  refine ⟨called name f args, .call hname hderives henough hmost hunits, rfl, ?_, hcount, hbound⟩
  simp only [List.map_cons, hopened, hmid, htokens, ht]
  simp [called]

section Level

variable {below : Option Parsers} {levels : Nat} (hbelow : SoundBelow below levels)
include hbelow

theorem spans_callOn (name : String) (offset : Nat) (c : Cursor)
    (hopen : c.tokens.head?.map Located.token = some .leftParen) :
    Gives (callOn source below name offset) c
      (Spans .primary levels ⟨⟨.name name, offset⟩ :: c.tokens, c.operators⟩) := by
  unfold callOn
  cases hname : Function.named? name with
  | none => exact isFormulaFailure_of _ _
  | some f =>
    refine (gives_bind _ _ _ _).2 (gives_next? c _ ?_ ?_)
    · intro _
      exact gives_refuse source _ _ _
    · intro opened rest htokens
      have hopened : opened.token = .leftParen := by simpa [htokens] using hopen
      refine (gives_bind _ _ _ _).2 (gives_enter source below _ _ ?_)
      intro p hp
      obtain ⟨lower, rfl, hsound⟩ := hbelow p hp
      rw [htokens]
      refine (gives_bind _ _ _ _).2 ((gives_peek _ _).2 ?_)
      dsimp only
      by_cases hclosed : rest.head?.map Located.token = some .rightParen
      · rw [if_pos hclosed]
        have hempty : rest.map Located.token = [Token.comma].intercalate
            (([] : List Stretch).map Stretch.tokens) ++ rest.map Located.token := by
          simp [List.intercalate]
        exact (gives_bind _ _ _ _).2 ((gives_pure _ _ _).2
          (spans_closedCall source hname hopened [] ⟨rest, c.operators⟩ (by simp) hempty rfl id))
      · rw [if_neg hclosed]
        have hget : Gives (get : Parser Cursor) ⟨rest, c.operators⟩
          fun d after => d = ⟨rest, c.operators⟩ ∧ after = ⟨rest, c.operators⟩ := ⟨rfl, rfl⟩
        refine (gives_bind _ _ _ _).2 (hget.mono ?_)
        rintro d d' ⟨rfl, rfl⟩
        refine (gives_bind _ _ _ _).2
          ((spans_argumentsFrom hsound.expr _ [] _ (Nat.lt_succ_self _)).mono ?_)
        rintro es mid ⟨args, -, hderives, rfl, hmid, hcount, hbound⟩
        exact spans_closedCall source hname hopened args mid hderives hmid hcount hbound

theorem spans_primaryOn (c : Cursor) :
    Gives (primaryOn source below) c (Spans .primary levels c) := by
  unfold primaryOn
  refine (gives_bind _ _ _ _).2 (gives_next? c _ ?_ ?_)
  · intro _
    exact gives_refuse source _ _ _
  · intro t rest htokens
    obtain ⟨token, offset⟩ := t
    cases token with
    | number x =>
      exact ⟨_, .number x, rfl, by simp [htokens], rfl, id⟩
    | name n =>
      refine (gives_bind _ _ _ _).2 ((gives_peek _ _).2 ?_)
      by_cases hopen : rest.head?.map Located.token = some .leftParen
      · simp only [hopen, if_true]
        refine (spans_callOn source hbelow n offset ⟨rest, c.operators⟩ hopen).mono ?_
        rintro e after ⟨s, hs, rfl, hafter, hcount, hbound⟩
        exact ⟨s, hs, rfl, by rw [htokens, hafter], hcount, hbound⟩
      · simp only [hopen, if_false]
        exact (gives_pure _ _ _).2 ⟨_, .name n, rfl, by simp [htokens], rfl, id⟩
    | leftParen =>
      refine (gives_bind _ _ _ _).2 (gives_enter source below _ _ ?_)
      intro p hp
      obtain ⟨lower, rfl, hsound⟩ := hbelow p hp
      refine (gives_bind _ _ _ _).2 ((hsound.expr _).mono ?_)
      rintro e mid ⟨s, hs, rfl, hmid, hcount, hbound⟩
      refine (gives_bind _ _ _ _).2 (gives_close source _ mid _ ?_)
      intro t rest' htokens' ht
      refine (gives_pure _ _ _).2 ⟨_, .parens hs, rfl, ?_, hcount, hbound⟩
      simp only at hmid
      simp [htokens, hmid, htokens', ht]
    | plus => exact gives_refuse source _ _ _
    | minus => exact gives_refuse source _ _ _
    | star => exact gives_refuse source _ _ _
    | slash => exact gives_refuse source _ _ _
    | rightParen => exact gives_refuse source _ _ _
    | comma => exact gives_refuse source _ _ _

theorem spans_unaryOn (c : Cursor) :
    Gives (unaryOn source below) c (Spans .unary levels c) := by
  have hprimary : Gives (primaryOn source below) c (Spans .unary levels c) := by
    refine (spans_primaryOn source hbelow c).mono ?_
    rintro e after ⟨s, hs, hrest⟩
    exact ⟨s, .unary hs, hrest⟩
  unfold unaryOn
  refine (gives_bind _ _ _ _).2 ((gives_peek _ _).2 ?_)
  obtain ⟨tokens, operators⟩ := c
  cases tokens with
  | nil => exact hprimary
  | cons t rest =>
    obtain ⟨token, offset⟩ := t
    cases token with
    | minus =>
      refine (gives_bind _ _ _ _).2 ((gives_advance _ _).2 ?_)
      refine (gives_bind _ _ _ _).2 (gives_enter source below _ _ ?_)
      intro p hp
      obtain ⟨lower, rfl, hsound⟩ := hbelow p hp
      refine (gives_bind _ _ _ _).2 ((hsound.unary _).mono ?_)
      rintro e after ⟨s, hs, rfl, hafter, hcount, hbound⟩
      simp only [List.tail_cons] at hafter
      exact (gives_pure _ _ _).2 ⟨_, .minus hs, rfl, by simp [hafter], hcount, hbound⟩
    | plus =>
      refine (gives_bind _ _ _ _).2 ((gives_advance _ _).2 ?_)
      refine (gives_bind _ _ _ _).2 (gives_enter source below _ _ ?_)
      intro p hp
      obtain ⟨lower, rfl, hsound⟩ := hbelow p hp
      refine (hsound.unary _).mono ?_
      rintro e after ⟨s, hs, rfl, hafter, hcount, hbound⟩
      simp only [List.tail_cons] at hafter
      exact ⟨_, .plus hs, rfl, by simp [hafter], hcount, hbound⟩
    | number x => exact hprimary
    | name n => exact hprimary
    | star => exact hprimary
    | slash => exact hprimary
    | leftParen => exact hprimary
    | rightParen => exact hprimary
    | comma => exact hprimary

theorem sound_parsersOn : (parsersOn source below).IsSound levels where
  unary := spans_unaryOn source hbelow
  expr := by
    have hterm : ∀ c, Gives (chain source productOperator? (unaryOn source below)) c
        (Spans .term levels c) := by
      intro c
      refine (spans_chain source (fun t op => productOperator?_eq_some.1)
        (spans_unaryOn source hbelow) c).mono ?_
      rintro e after ⟨first, links, hfirst, hsigns, hlinks, hrest⟩
      exact ⟨linked first links, .term hfirst hsigns hlinks, hrest⟩
    intro c
    refine (spans_chain source (fun t op => sumOperator?_eq_some.1) hterm c).mono ?_
    rintro e after ⟨first, links, hfirst, hsigns, hlinks, hrest⟩
    exact ⟨linked first links, .expr hfirst hsigns hlinks, hrest⟩

end Level

/-- The parsers of every level return what is derived within it. -/
theorem sound_parsersAt (levels : Nat) : (parsersAt source levels).IsSound levels := by
  induction levels with
  | zero =>
    refine sound_parsersOn source ?_
    intro p hp
    cases hp
  | succ levels ih =>
    refine sound_parsersOn source ?_
    intro p hp
    cases hp
    exact ⟨levels, rfl, ih⟩

end QuantitySurvey.Formula.Grammar
