import QuantitySurvey.Proofs.Formula.Soundness

/-! # What is derived is returned

A parser reads the longest stretch that it can, so it returns what is derived only if the tokens
after it do not go on with it: `MayFollow` says which token may come next. What follows inside a
derivation always may.

* `reads_chain`, `run_argumentsFrom`: the loops read links and arguments to their end.
* `reads_of_derives`: the parsers of a level read every stretch that is derived within it.
* `parseTokens_grammar`: the parser accepts exactly what the grammar derives.
-/

set_option autoImplicit false

namespace QuantitySurvey.Formula

namespace Grammar

variable {α β : Type} (source : String)

/-! ## Running parsers -/

theorem run_bind {x : Parser α} {c after : Cursor} {a : α} (h : x.run c = .ok (a, after))
    (f : α → Parser β) : (x >>= f).run c = (f a).run after := by
  rw [StateT.run_bind, h]
  rfl

theorem run_peek (c : Cursor) : peek.run c = .ok (c.tokens.head?.map Located.token, c) := rfl

theorem run_get (c : Cursor) : (get : Parser Cursor).run c = .ok (c, c) := rfl

theorem run_next? (t : Located) (rest : List Located) (k : Nat) :
    next?.run ⟨t :: rest, k⟩ = .ok (some t, ⟨rest, k⟩) := rfl

theorem run_advance (t : Located) (rest : List Located) (k : Nat) :
    advance.run ⟨t :: rest, k⟩ = .ok ((), ⟨rest, k⟩) := rfl

theorem run_takeOperator (t : Located) (rest : List Located) {k : Nat} (h : k < maxOperators) :
    (takeOperator source).run ⟨t :: rest, k⟩ = .ok ((), ⟨rest, k + 1⟩) := by
  have hroom : ¬ maxOperators ≤ k := by omega
  unfold takeOperator
  rw [run_bind (run_get _)]
  simp only [hroom, if_false]
  rfl

theorem run_close (opened t : Located) (rest : List Located) (k : Nat)
    (h : t.token = .rightParen) :
    (close source opened).run ⟨t :: rest, k⟩ = .ok ((), ⟨rest, k⟩) := by
  unfold close
  rw [run_bind (run_next? t rest k)]
  simp [h]
  rfl

/-! ## What may follow -/

/-- A token after a phrase, or the end, with which the phrase does not go on. -/
structure MayFollow (φ : Phrase) (t : Option Token) : Prop where
  noCall : t ≠ some .leftParen
  noFactor : φ = .term ∨ φ = .expr → t.bind productOperator? = none
  noTerm : φ = .expr → t.bind sumOperator? = none

theorem mayFollow_end (φ : Phrase) : MayFollow φ none := ⟨by simp, by simp, by simp⟩

theorem mayFollow_rightParen (φ : Phrase) : MayFollow φ (some .rightParen) :=
  ⟨by simp, by simp [productOperator?], by simp [sumOperator?]⟩

theorem mayFollow_comma (φ : Phrase) : MayFollow φ (some .comma) :=
  ⟨by simp, by simp [productOperator?], by simp [sumOperator?]⟩

/-- The parser reads a stretch to its end, if what comes after it may follow. -/
def Reads (x : Parser Expr) (follow : Option Token → Prop) (s : Stretch) : Prop :=
  ∀ (ls rest : List Located) (k : Nat), ls.map Located.token = s.tokens →
    follow (rest.head?.map Located.token) → k + s.operators ≤ maxOperators →
    x.run ⟨ls ++ rest, k⟩ = .ok (s.tree, ⟨rest, k + s.operators⟩)

/-! ## Loops -/

section Chains

variable {operatorOf : Token → Option Operator} {operand : Parser Expr}
  {follow : Option Token → Prop}

theorem run_chainFrom (links : List Link) (hop : ∀ l ∈ links, operatorOf l.op.token = some l.op)
    (hreads : ∀ l ∈ links, Reads operand follow l.operand)
    (hfollow : ∀ l ∈ links, follow (some l.op.token)) (turns : Nat) (left : Expr)
    (ls rest : List Located) (k : Nat) (htokens : ls.map Located.token = links.flatMap Link.tokens)
    (hend : (rest.head?.map Located.token).bind operatorOf = none)
    (hrest : follow (rest.head?.map Located.token)) (hturns : links.length ≤ turns)
    (hroom : k + operatorsOf links ≤ maxOperators) :
    (chainFrom source operatorOf operand turns left).run ⟨ls ++ rest, k⟩
      = .ok (groupedLeft left links, ⟨rest, k + operatorsOf links⟩) := by
  induction links generalizing turns left ls k with
  | nil =>
    have hls : ls = [] := by simpa using htokens
    subst hls
    cases turns with
    | zero => rfl
    | succ turns =>
      unfold chainFrom
      rw [run_bind (run_peek _)]
      simp only [List.nil_append, hend]
      rfl
  | cons l links ih =>
    obtain ⟨turns, rfl⟩ : ∃ n, turns = n + 1 := ⟨turns - 1, by simp at hturns; omega⟩
    rw [List.flatMap_cons, Link.tokens, List.cons_append] at htokens
    obtain ⟨t, tail, rfl, ht, htail⟩ := List.map_eq_cons_iff.1 htokens
    obtain ⟨ls₁, ls₂, rfl, h₁, h₂⟩ := List.map_eq_append_iff.1 htail
    rw [operatorsOf_cons] at hroom
    have hroom' : k < maxOperators := by omega
    have hnext : (ls₂ ++ rest).head?.map Located.token = (rest.head?.map Located.token) ∨
        ∃ m ∈ links, (ls₂ ++ rest).head?.map Located.token = some m.op.token := by
      cases links with
      | nil =>
        have hls₂ : ls₂ = [] := by simpa using h₂
        exact .inl (by rw [hls₂, List.nil_append])
      | cons m links =>
        rw [List.flatMap_cons, Link.tokens, List.cons_append] at h₂
        obtain ⟨u, tail, rfl, hu, -⟩ := List.map_eq_cons_iff.1 h₂
        exact .inr ⟨m, List.mem_cons_self, by simp [hu]⟩
    have hgo : follow ((ls₂ ++ rest).head?.map Located.token) := by
      obtain h | ⟨m, hm, h⟩ := hnext
      · rw [h]
        exact hrest
      · rw [h]
        exact hfollow m (List.mem_cons_of_mem _ hm)
    have hright := hreads l List.mem_cons_self ls₁ (ls₂ ++ rest) (k + 1) h₁ hgo (by omega)
    have hlater := ih (fun m hm => hop m (List.mem_cons_of_mem _ hm))
      (fun m hm => hreads m (List.mem_cons_of_mem _ hm))
      (fun m hm => hfollow m (List.mem_cons_of_mem _ hm)) turns
      (.binary l.op left l.operand.tree) ls₂ (k + 1 + l.operand.operators) h₂
      (by simpa using hturns) (by omega)
    have hpeek : ((t :: (ls₁ ++ ls₂) ++ rest).head?.map Located.token).bind operatorOf
        = some l.op := by
      simp [ht, hop l List.mem_cons_self]
    have hcount : k + operatorsOf (l :: links)
        = k + 1 + l.operand.operators + operatorsOf links := by
      rw [operatorsOf_cons]
      omega
    unfold chainFrom
    rw [run_bind (run_peek _)]
    simp only [hpeek]
    rw [List.cons_append, List.append_assoc, run_bind (run_takeOperator source _ _ hroom'),
      run_bind hright, hlater, hcount]
    rfl

/-- A chain reads an operand and links, if nothing after it is an operator of the chain. -/
theorem reads_chain {first : Stretch} {links : List Link}
    (hfirst : Reads operand follow first)
    (hop : ∀ l ∈ links, operatorOf l.op.token = some l.op)
    (hreads : ∀ l ∈ links, Reads operand follow l.operand)
    (hfollow : ∀ l ∈ links, follow (some l.op.token)) :
    Reads (chain source operatorOf operand)
      (fun t => t.bind operatorOf = none ∧ follow t) (linked first links) := by
  rintro ls rest k htokens ⟨hend, hrest⟩ hroom
  obtain ⟨ls₁, ls₂, rfl, h₁, h₂⟩ := List.map_eq_append_iff.1 htokens
  simp only [linked] at hroom ⊢
  have hgo : follow ((ls₂ ++ rest).head?.map Located.token) := by
    cases links with
    | nil =>
      have hls₂ : ls₂ = [] := by simpa using h₂
      simpa [hls₂] using hrest
    | cons m links =>
      rw [List.flatMap_cons, Link.tokens, List.cons_append] at h₂
      obtain ⟨u, tail, rfl, hu, -⟩ := List.map_eq_cons_iff.1 h₂
      simpa [hu] using hfollow m List.mem_cons_self
  have hlength : links.length ≤ (ls₂ ++ rest).length := by
    have hflat : links.length ≤ (links.flatMap Link.tokens).length := by
      clear h₂ hop hreads hfollow hroom htokens
      induction links with
      | nil => exact Nat.zero_le _
      | cons l links ih =>
        simp only [List.flatMap_cons, Link.tokens, List.length_append, List.length_cons]
        omega
    rw [← h₂, List.length_map] at hflat
    rw [List.length_append]
    omega
  unfold chain
  rw [List.append_assoc, run_bind (hfirst ls₁ (ls₂ ++ rest) k h₁ hgo (by omega)),
    run_bind (run_get _), run_chainFrom source links hop hreads hfollow _ _ ls₂ rest _ h₂ hend
      hrest hlength (by omega), Nat.add_assoc]

end Chains

theorem run_argumentsFrom {expr : Parser Expr} (args : List Stretch) (hne : args ≠ [])
    (hreads : ∀ a ∈ args, Reads expr (MayFollow .expr) a) (turns : Nat) (found : List Expr)
    (ls rest : List Located) (k : Nat)
    (htokens : ls.map Located.token = [Token.comma].intercalate (args.map Stretch.tokens))
    (hrest : rest.head?.map Located.token = some .rightParen) (hturns : args.length ≤ turns)
    (hroom : k + (args.map Stretch.operators).sum ≤ maxOperators) :
    (argumentsFrom expr turns found).run ⟨ls ++ rest, k⟩
      = .ok (found.reverse ++ args.map Stretch.tree,
        ⟨rest, k + (args.map Stretch.operators).sum⟩) := by
  induction args generalizing turns found ls k with
  | nil => exact absurd rfl hne
  | cons a args ih =>
    obtain ⟨turns, rfl⟩ : ∃ n, turns = n + 1 := ⟨turns - 1, by simp at hturns; omega⟩
    simp only [List.map_cons, List.sum_cons] at hroom ⊢
    unfold argumentsFrom
    by_cases hlast : args = []
    · subst hlast
      have hls : ls.map Located.token = a.tokens := by simpa [List.intercalate] using htokens
      have hfirst := hreads a List.mem_cons_self ls rest k hls
        (hrest ▸ mayFollow_rightParen _) (by simpa using hroom)
      rw [run_bind hfirst, run_bind (run_peek _)]
      simp [hrest]
      rfl
    · rw [intercalate_cons a args hlast] at htokens
      obtain ⟨ls₁, tail, rfl, h₁, htail⟩ := List.map_eq_append_iff.1 htokens
      obtain ⟨t, ls₂, rfl, ht, h₂⟩ := List.map_eq_cons_iff.1 htail
      have hcomma : (t :: ls₂ ++ rest).head?.map Located.token = some .comma := by simp [ht]
      have hfirst := hreads a List.mem_cons_self ls₁ (t :: ls₂ ++ rest) k h₁
        (hcomma ▸ mayFollow_comma _) (by omega)
      have hlater := ih hlast (fun b hb => hreads b (List.mem_cons_of_mem _ hb)) turns
        (a.tree :: found) ls₂ (k + a.operators) h₂ (by simpa using hturns) (by omega)
      rw [List.append_assoc, run_bind hfirst, run_bind (run_peek _)]
      simp only [hcomma, if_true]
      rw [List.cons_append, run_bind (run_advance _ _ _), hlater]
      simp [Nat.add_assoc]

/-! ## Levels -/

def belowAt : Nat → Option Parsers
  | 0 => none
  | levels + 1 => some (parsersAt source levels)

/-- The parser of a phrase at a level. -/
def parserOf (levels : Nat) : Phrase → Parser Expr
  | .expr => (parsersAt source levels).expr
  | .term => chain source productOperator? (parsersAt source levels).unary
  | .unary => (parsersAt source levels).unary
  | .primary => primaryOn source (belowAt source levels)

theorem parserOf_expr (levels : Nat) : parserOf source levels .expr
    = chain source sumOperator? (parserOf source levels .term) := by
  cases levels <;> rfl

theorem parserOf_unary (levels : Nat) : parserOf source levels .unary
    = unaryOn source (belowAt source levels) := by
  cases levels <;> rfl

/-- A sum reads its terms, none of which goes on with the operator after it. -/
theorem reads_expr {levels : Nat} {first : Stretch} {links : List Link}
    (hfirst : Reads (parserOf source levels .term) (MayFollow .term) first)
    (hsigns : ∀ l ∈ links, l.op.precedence = 1)
    (htail : ∀ l ∈ links, Reads (parserOf source levels .term) (MayFollow .term) l.operand) :
    Reads (parserOf source levels .expr) (MayFollow .expr) (linked first links) := by
  have hop : ∀ l ∈ links, sumOperator? l.op.token = some l.op := by
    intro l hl
    exact sumOperator?_eq_some.2 ⟨rfl, hsigns l hl⟩
  have hfollow : ∀ l ∈ links, MayFollow .term (some l.op.token) := by
    intro l hl
    have h := hsigns l hl
    cases hl' : l.op <;> simp [hl', Operator.precedence] at h <;>
      exact ⟨by simp [Operator.token], by simp [Operator.token, productOperator?], by simp⟩
  rw [parserOf_expr]
  intro ls rest k htokens hrest hroom
  exact reads_chain source hfirst hop htail hfollow ls rest k htokens
    ⟨hrest.noTerm rfl, ⟨hrest.noCall, fun _ => hrest.noFactor (.inr rfl), by simp⟩⟩ hroom

/-- A product reads its factors. -/
theorem reads_term {levels : Nat} {first : Stretch} {links : List Link}
    (hfirst : Reads (parserOf source levels .unary) (MayFollow .unary) first)
    (hsigns : ∀ l ∈ links, l.op.precedence = 2)
    (htail : ∀ l ∈ links, Reads (parserOf source levels .unary) (MayFollow .unary) l.operand) :
    Reads (parserOf source levels .term) (MayFollow .term) (linked first links) := by
  have hop : ∀ l ∈ links, productOperator? l.op.token = some l.op := by
    intro l hl
    exact productOperator?_eq_some.2 ⟨rfl, hsigns l hl⟩
  have hfollow : ∀ l ∈ links, MayFollow .unary (some l.op.token) := by
    intro l _
    cases l.op <;> exact ⟨by simp [Operator.token], by simp, by simp⟩
  intro ls rest k htokens hrest hroom
  exact reads_chain source hfirst hop htail hfollow ls rest k htokens
    ⟨hrest.noFactor (.inl rfl), ⟨hrest.noCall, by simp, by simp⟩⟩ hroom

theorem enter_succ (levels : Nat) (c : Cursor) :
    (enter source (belowAt source (levels + 1))).run c
      = .ok (parsersAt source levels, c) := rfl

theorem reads_minus {levels : Nat} {s : Stretch}
    (h : Reads (parserOf source levels .unary) (MayFollow .unary) s) :
    Reads (parserOf source (levels + 1) .unary) (MayFollow .unary)
      ⟨.minus :: s.tokens, s.operators, .negate s.tree⟩ := by
  intro ls rest k htokens hrest hroom
  obtain ⟨t, ls, rfl, ht, hls⟩ := List.map_eq_cons_iff.1 htokens
  have hoperand : (parsersAt source levels).unary.run ⟨ls ++ rest, k⟩
      = .ok (s.tree, ⟨rest, k + s.operators⟩) := h ls rest k hls hrest hroom
  rw [parserOf_unary, unaryOn, run_bind (run_peek _)]
  simp only [List.cons_append, List.head?_cons, Option.map_some, ht]
  rw [run_bind (run_advance _ _ _), run_bind (enter_succ source levels _), run_bind hoperand]
  rfl

theorem reads_plus {levels : Nat} {s : Stretch}
    (h : Reads (parserOf source levels .unary) (MayFollow .unary) s) :
    Reads (parserOf source (levels + 1) .unary) (MayFollow .unary)
      ⟨.plus :: s.tokens, s.operators, s.tree⟩ := by
  intro ls rest k htokens hrest hroom
  obtain ⟨t, ls, rfl, ht, hls⟩ := List.map_eq_cons_iff.1 htokens
  have hoperand : (parsersAt source levels).unary.run ⟨ls ++ rest, k⟩
      = .ok (s.tree, ⟨rest, k + s.operators⟩) := h ls rest k hls hrest hroom
  rw [parserOf_unary, unaryOn, run_bind (run_peek _)]
  simp only [List.cons_append, List.head?_cons, Option.map_some, ht]
  rw [run_bind (run_advance _ _ _), run_bind (enter_succ source levels _), hoperand]

/-- Without a sign in front, a unary phrase is a primary one. -/
theorem reads_unary {levels : Nat} {s : Stretch} (hs : Derives .primary levels s)
    (h : Reads (parserOf source levels .primary) (MayFollow .primary) s) :
    Reads (parserOf source levels .unary) (MayFollow .unary) s := by
  intro ls rest k htokens hrest hroom
  obtain ⟨token, tail, hhead, hstart⟩ := hs.primary_head
  rw [hhead] at htokens
  obtain ⟨t, ls, rfl, ht, hls⟩ := List.map_eq_cons_iff.1 htokens
  have hprimary : (primaryOn source (belowAt source levels)).run ⟨t :: ls ++ rest, k⟩
      = .ok (s.tree, ⟨rest, k + s.operators⟩) :=
    h (t :: ls) rest k (by rw [htokens, hhead]) ⟨hrest.noCall, by simp, by simp⟩ hroom
  rw [parserOf_unary, unaryOn, run_bind (run_peek _)]
  cases token <;> simp only [startsPrimary, Bool.false_eq_true] at hstart <;>
    simpa only [List.cons_append, List.head?_cons, Option.map_some, ht] using hprimary

theorem reads_parens {levels : Nat} {s : Stretch}
    (h : Reads (parserOf source levels .expr) (MayFollow .expr) s) :
    Reads (parserOf source (levels + 1) .primary) (MayFollow .primary)
      ⟨.leftParen :: (s.tokens ++ [.rightParen]), s.operators, s.tree⟩ := by
  intro ls rest k htokens hrest hroom
  obtain ⟨t, tail, rfl, ht, htail⟩ := List.map_eq_cons_iff.1 htokens
  obtain ⟨ls, closing, rfl, hls, hclosing⟩ := List.map_eq_append_iff.1 htail
  obtain ⟨u, rfl, hu⟩ := List.map_eq_singleton_iff.1 hclosing
  have hinside : (parsersAt source levels).expr.run ⟨ls ++ u :: rest, k⟩
      = .ok (s.tree, ⟨u :: rest, k + s.operators⟩) :=
    h ls (u :: rest) k hls (by simpa [hu] using mayFollow_rightParen .expr) hroom
  have htokens' : t :: (ls ++ [u]) ++ rest = t :: (ls ++ u :: rest) := by simp
  rw [parserOf, primaryOn, htokens', run_bind (run_next? _ _ _)]
  simp only [ht]
  rw [run_bind (enter_succ source levels _), run_bind hinside,
    run_bind (run_close source t u rest _ hu)]
  rfl

theorem reads_name {levels : Nat} (n : String) :
    Reads (parserOf source levels .primary) (MayFollow .primary)
      ⟨[.name n], 0, .identifier n⟩ := by
  intro ls rest k htokens hrest _
  obtain ⟨t, rfl, ht⟩ := List.map_eq_singleton_iff.1 htokens
  have hnoCall := hrest.noCall
  rw [parserOf, primaryOn, List.singleton_append, run_bind (run_next? _ _ _)]
  simp only [ht]
  rw [run_bind (run_peek _)]
  simp only [hnoCall, if_false]
  rfl

theorem reads_number {levels : Nat} (x : Float) :
    Reads (parserOf source levels .primary) (MayFollow .primary)
      ⟨[.number x], 0, .literal x⟩ := by
  intro ls rest k htokens _ _
  obtain ⟨t, rfl, ht⟩ := List.map_eq_singleton_iff.1 htokens
  rw [parserOf, primaryOn, List.singleton_append, run_bind (run_next? _ _ _)]
  simp only [ht]
  rfl

theorem intercalate_head {levels : Nat} (args : List Stretch) (hne : args ≠ [])
    (inside : ∀ a ∈ args, Derives .expr levels a) :
    ∃ t rest, [Token.comma].intercalate (args.map Stretch.tokens) = t :: rest ∧
      startsPhrase t = true := by
  cases args with
  | nil => exact absurd rfl hne
  | cons a args =>
    obtain ⟨t, rest, hhead, hstart⟩ := (inside a List.mem_cons_self).head
    by_cases hlast : args = []
    · subst hlast
      exact ⟨t, rest, by simp [List.intercalate, hhead], hstart⟩
    · exact ⟨t, _, by rw [intercalate_cons a args hlast, hhead, List.cons_append], hstart⟩

theorem length_le_intercalate {levels : Nat} (args : List Stretch)
    (inside : ∀ a ∈ args, Derives .expr levels a) :
    args.length ≤ ([Token.comma].intercalate (args.map Stretch.tokens)).length := by
  induction args with
  | nil => exact Nat.zero_le _
  | cons a args ih =>
    obtain ⟨t, rest, hhead, -⟩ := (inside a List.mem_cons_self).head
    have hrest := ih fun b hb => inside b (List.mem_cons_of_mem _ hb)
    by_cases hlast : args = []
    · subst hlast
      simp [List.intercalate, hhead]
    · rw [intercalate_cons a args hlast, List.length_append, hhead]
      simp only [List.length_cons] at hrest ⊢
      omega

theorem reads_call {levels : Nat} {name : String} {f : Function} {args : List Stretch}
    (named : Function.named? name = some f)
    (inside : ∀ a ∈ args, Derives .expr levels a)
    (hreads : ∀ a ∈ args, Reads (parserOf source levels .expr) (MayFollow .expr) a)
    (enough : f.minArity ≤ args.length) (notMore : args.length ≤ f.maxArity)
    (units : ∀ p ∈ f.parameters.zip (args.map Stretch.tree),
      p.1 = .unit → ∃ n, p.2 = .identifier n) :
    Reads (parserOf source (levels + 1) .primary) (MayFollow .primary) (called name f args) := by
  intro ls rest k htokens _ hroom
  obtain ⟨t, tail, rfl, ht, htail⟩ := List.map_eq_cons_iff.1 htokens
  obtain ⟨opened, tail, rfl, hopened, htail⟩ := List.map_eq_cons_iff.1 htail
  obtain ⟨ls, closing, rfl, hls, hclosing⟩ := List.map_eq_append_iff.1 htail
  obtain ⟨u, rfl, hu⟩ := List.map_eq_singleton_iff.1 hclosing
  have htokens' : t :: opened :: (ls ++ [u]) ++ rest = t :: opened :: (ls ++ u :: rest) := by
    simp
  have hcall : callOf f (args.map Stretch.tree) = .ok (called name f args).tree :=
    callOf_eq_ok.2 ⟨by simpa using ⟨enough, notMore⟩, units, rfl⟩
  -- with or without arguments, the call is closed and put together in the same way
  have hfinish : (do close source opened; liftM (callOf f (args.map Stretch.tree))).run
      ⟨u :: rest, k + (args.map Stretch.operators).sum⟩
        = .ok ((called name f args).tree, ⟨rest, k + (called name f args).operators⟩) := by
    rw [run_bind (run_close source opened u rest _ hu), hcall]
    rfl
  rw [parserOf, primaryOn, htokens', run_bind (run_next? _ _ _)]
  simp only [ht]
  rw [run_bind (run_peek _)]
  simp only [List.head?_cons, Option.map_some, hopened, if_true]
  rw [callOn]
  simp only [named]
  rw [run_bind (run_next? _ _ _)]
  simp only
  rw [run_bind (enter_succ source levels _), run_bind (run_peek _)]
  by_cases hargs : args = []
  · subst hargs
    have hnil : ls = [] := by simpa [List.intercalate] using hls
    subst hnil
    simp only [List.nil_append, List.head?_cons, Option.map_some, hu, if_true]
    exact (run_bind rfl _).trans hfinish
  · obtain ⟨token, tail, hhead, hstart⟩ := intercalate_head args hargs inside
    have hmore : (ls ++ u :: rest).head?.map Located.token ≠ some .rightParen := by
      rw [hhead] at hls
      obtain ⟨v, ls, rfl, hv, -⟩ := List.map_eq_cons_iff.1 hls
      rw [List.cons_append, List.head?_cons, Option.map_some, hv]
      intro h
      cases h
      cases hstart
    have hlength : args.length ≤ (ls ++ u :: rest).length + 1 := by
      have hle := length_le_intercalate args inside
      rw [← hls, List.length_map] at hle
      rw [List.length_append]
      omega
    have harguments := run_argumentsFrom args hargs hreads ((ls ++ u :: rest).length + 1) [] ls
      (u :: rest) k hls (by simp [hu]) hlength hroom
    simp only [hmore, if_false]
    rw [run_bind (run_get _)]
    exact (run_bind harguments _).trans hfinish

/-- The parsers of a level read every stretch that is derived within it. -/
theorem reads_of_derives {φ : Phrase} {levels : Nat} {s : Stretch} (h : Derives φ levels s) :
    Reads (parserOf source levels φ) (MayFollow φ) s := by
  induction h with
  | expr head signs tail ihhead ihtail => exact reads_expr source ihhead signs ihtail
  | term head signs tail ihhead ihtail => exact reads_term source ihhead signs ihtail
  | minus h ih => exact reads_minus source ih
  | plus h ih => exact reads_plus source ih
  | unary h ih => exact reads_unary source h ih
  | number x => exact reads_number source x
  | name n => exact reads_name source n
  | parens h ih => exact reads_parens source ih
  | call named inside enough notMore units ih =>
    exact reads_call source named inside ih enough notMore units

/-! ## The whole formula -/

theorem gives_whole (c : Cursor) (hc : c.operators = 0) :
    Gives (whole source) c fun e _ =>
      ∃ s, Derives .expr maxLevels s ∧ s.tree = e ∧ c.tokens.map Located.token = s.tokens ∧
        s.operators ≤ maxOperators := by
  unfold whole
  refine (gives_bind _ _ _ _).2 ((gives_peek _ _).2 ?_)
  by_cases hempty : (c.tokens.head?.map Located.token).isNone
  · rw [if_pos hempty]
    exact gives_refuse source _ _ _
  · rw [if_neg hempty]
    refine (gives_bind _ _ _ _).2 (((sound_parsersAt source maxLevels).expr c).mono ?_)
    rintro e mid ⟨s, hs, htree, htokens, hcount, hbound⟩
    refine (gives_bind _ _ _ _).2 (gives_next? mid _ ?_ ?_)
    · intro hend
      rw [hend, List.map_nil, List.append_nil] at htokens
      have hroom := hbound (by omega)
      exact (gives_pure _ _ _).2 ⟨s, hs, htree, htokens, by omega⟩
    · intro t rest _
      exact gives_refuse source _ _ _

theorem run_whole (tokens : List Located) {s : Stretch} (hs : Derives .expr maxLevels s)
    (htokens : tokens.map Located.token = s.tokens) (hroom : s.operators ≤ maxOperators) :
    (whole source).run ⟨tokens, 0⟩ = .ok (s.tree, ⟨[], s.operators⟩) := by
  obtain ⟨token, tail, hhead, -⟩ := hs.head
  have hfull : (tokens.head?.map Located.token).isNone = false := by
    rw [hhead] at htokens
    obtain ⟨t, ls, rfl, -, -⟩ := List.map_eq_cons_iff.1 htokens
    rfl
  have hexpr : (parsersAt source maxLevels).expr.run ⟨tokens ++ [], 0⟩
      = .ok (s.tree, ⟨[], 0 + s.operators⟩) :=
    reads_of_derives source hs tokens [] 0 htokens (mayFollow_end _) (by omega)
  rw [List.append_nil, Nat.zero_add] at hexpr
  unfold whole
  rw [run_bind (run_peek _)]
  simp only [hfull, Bool.false_eq_true, if_false]
  rw [run_bind hexpr]
  rfl

end Grammar

open Grammar in
/-- A list of tokens is parsed exactly if the grammar derives it within 64 levels and with at most
1024 binary operators. The result is the tree of the derivation; otherwise it is a failure of the
formula. -/
theorem parseTokens_grammar (source : String) (tokens : List Located) :
    (∀ e, parseTokens source tokens = .ok e ↔
      ∃ s, Derives .expr 64 s ∧ s.tokens = tokens.map Located.token ∧ s.operators ≤ 1024 ∧
        s.tree = e) ∧
    ∀ f, parseTokens source tokens = .error f →
      ∃ expression reason, f = .formula expression reason := by
  have hgives := gives_whole source ⟨tokens, 0⟩ rfl
  have hrun : parseTokens source tokens
      = ((whole source).run ⟨tokens, 0⟩).map Prod.fst := by
    unfold parseTokens StateT.run'
    rfl
  refine ⟨fun e => ⟨?_, ?_⟩, ?_⟩
  · intro h
    unfold Gives at hgives
    cases hwhole : (whole source).run ⟨tokens, 0⟩ with
    | error f =>
      rw [hrun, hwhole] at h
      cases h
    | ok r =>
      rw [hwhole] at hgives
      rw [hrun, hwhole] at h
      cases h
      obtain ⟨s, hs, htree, htokens, hroom⟩ := hgives
      exact ⟨s, hs, htokens.symm, hroom, htree⟩
  · rintro ⟨s, hs, htokens, hroom, rfl⟩
    rw [hrun, run_whole source tokens hs htokens.symm hroom]
    rfl
  · intro f h
    unfold Gives at hgives
    cases hwhole : (whole source).run ⟨tokens, 0⟩ with
    | error f' =>
      rw [hwhole] at hgives
      rw [hrun, hwhole] at h
      cases h
      exact hgives
    | ok r =>
      rw [hrun, hwhole] at h
      cases h

end QuantitySurvey.Formula
