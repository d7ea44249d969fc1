import QuantitySurvey.Proofs.Formula.CanonicalText

/-! # Nodes of formulas

The nodes of a tree, each after those below it and from left to right. Every name at a node was a
token of the source or is that of a function. The source has no two words that touch, so its names
are whole words, and the screen has looked at each of them: `names_permitted`.
-/

set_option autoImplicit false

namespace QuantitySurvey.Formula

namespace Expr

/-! ## Nodes -/

mutual

/-- The nodes of a tree, each after those below it, from left to right. -/
def nodes : Expr → List Expr
  | literal x => [literal x]
  | identifier name => [identifier name]
  | unitName name => [unitName name]
  | negate e => e.nodes ++ [negate e]
  | binary op lhs rhs => lhs.nodes ++ rhs.nodes ++ [binary op lhs rhs]
  | call f args => nodesOf args ++ [call f args]

def nodesOf : List Expr → List Expr
  | [] => []
  | e :: rest => e.nodes ++ nodesOf rest

end

theorem mem_nodesOf {args : List Expr} {node : Expr} :
    node ∈ nodesOf args ↔ ∃ a ∈ args, node ∈ a.nodes := by
  induction args with
  | nil => simp [nodesOf]
  | cons a args ih => simp [nodesOf, ih]

/-- The name at a node: that of a parameter, of a constant, of a unit or of a function. -/
def name? : Expr → Option String
  | identifier name | unitName name => some name
  | call f _ => some f.name
  | literal _ | negate _ | binary .. => none

end Expr

/-! ## Names -/

open Grammar

theorem mem_tokens_of_name? {e node : Expr} (hnode : node ∈ e.nodes) {name : String}
    (hname : node.name? = some name) : .name name ∈ e.tokens := by
  induction e using Expr.inductionOn with
  | literal x =>
    obtain rfl := List.mem_singleton.1 hnode
    cases hname
  | identifier n =>
    obtain rfl := List.mem_singleton.1 hnode
    cases hname
    exact List.mem_singleton.2 rfl
  | unitName n =>
    obtain rfl := List.mem_singleton.1 hnode
    cases hname
    exact List.mem_singleton.2 rfl
  | negate operand ih =>
    rcases List.mem_append.1 hnode with hbelow | hself
    · exact (mem_tokens_negate rfl).2 (ih hbelow)
    · obtain rfl := List.mem_singleton.1 hself
      cases hname
  | binary op lhs rhs ihl ihr =>
    rcases List.mem_append.1 hnode with hbelow | hself
    · exact (mem_tokens_binary rfl).2 ((List.mem_append.1 hbelow).imp ihl ihr)
    · obtain rfl := List.mem_singleton.1 hself
      cases hname
  | call f args ih =>
    rcases List.mem_append.1 hnode with hbelow | hself
    · obtain ⟨a, ha, hbelow⟩ := Expr.mem_nodesOf.1 hbelow
      exact (mem_tokens_call rfl).2 (.inr ⟨a, ha, ih a ha hbelow⟩)
    · obtain rfl := List.mem_singleton.1 hself
      cases hname
      exact (mem_tokens_call rfl).2 (.inl rfl)

/-- Letters of either case count as the same. -/
def SameLetters (a b : List Char) : Prop := Text.lowered a = Text.lowered b

theorem lowered_forbiddenWords : ∀ w ∈ forbiddenWords, Text.lowered w.toList = w.toList := by
  decide +kernel

/-- What the screen lets pass is none of the words, in any case, and does not start with two
underscores. -/
theorem isForbidden_eq_false_iff {word : List Char} :
    isForbidden word = false ↔
      ¬ ['_', '_'] <+: word ∧ ∀ w ∈ forbiddenWords, ¬ SameLetters word w.toList := by
  have htake : word.take 2 = ['_', '_'] ↔ ['_', '_'] <+: word :=
    ⟨fun h => h ▸ List.take_prefix 2 word, fun h => (List.prefix_iff_eq_take.1 h).symm⟩
  have hlisted : String.ofList (Text.lowered word) ∈ forbiddenWords ↔
      ∃ w ∈ forbiddenWords, SameLetters word w.toList := by
    constructor
    · intro h
      refine ⟨_, h, ?_⟩
      rw [SameLetters, lowered_forbiddenWords _ h, String.toList_ofList]
    · rintro ⟨w, hw, hsame⟩
      rw [SameLetters, lowered_forbiddenWords w hw] at hsame
      rwa [hsame, String.ofList_toList]
  rw [isForbidden, Bool.or_eq_false_iff, beq_eq_false_iff_ne, ne_eq, htake]
  refine and_congr_right fun _ => ?_
  rw [← Bool.not_eq_true, List.contains_iff_mem, hlisted]
  simp

theorem isForbidden_of_mem_tokens {limits : Limits} {source : String} {formula : Formula}
    (parsed : Formula.parse limits source = .ok formula) {name : String}
    (hname : .name name ∈ formula.expr.tokens) : isForbidden name.toList = false := by
  obtain ⟨-, -, s, hclean, hs, -, htree⟩ := parse_eq_ok_iff.1 parsed
  rw [← htree] at hname
  rcases mem_tokens_of_derives hs rfl hname with hsource | ⟨f, hf⟩
  · have hword := mem_words_of_spelled hclean.spelled (separated_of_derives hs) []
      (.inl (by simp)) hsource
    exact hclean.permitted _ hword
  · cases hf
    exact (isPlain_function f).2

/-- No name in a formula that was read is a forbidden word, in any case, or starts with two
underscores. -/
theorem names_permitted {limits : Limits} {source : String} {formula : Formula}
    (parsed : Formula.parse limits source = .ok formula) {node : Expr}
    (hnode : node ∈ formula.expr.nodes) {name : String} (hname : node.name? = some name) :
    ¬ ['_', '_'] <+: name.toList ∧
      ∀ w ∈ forbiddenWords, ¬ SameLetters name.toList w.toList :=
  isForbidden_eq_false_iff.1
    (isForbidden_of_mem_tokens parsed (mem_tokens_of_name? hnode hname))

theorem sample_names_permitted :
    ∃ formula, Formula.parse {} "max(OPENING, 2e3) / to_mm(_x, mm)" = .ok formula ∧
      ∃ node ∈ formula.expr.nodes, node.name? = some "_x" ∧ ¬ ['_', '_'] <+: "_x".toList ∧
        ∀ w ∈ forbiddenWords, ¬ SameLetters "_x".toList w.toList := by
  obtain ⟨formula, hparse, hnames⟩ := @exists_of_any_parse {}
    "max(OPENING, 2e3) / to_mm(_x, mm)"
    (fun formula => decide (formula.expr.nodes.filterMap Expr.name?
      = ["OPENING", "max", "_x", "mm", "to_mm"]))
    (by decide +kernel)
  have hx : "_x" ∈ formula.expr.nodes.filterMap Expr.name? := by
    rw [of_decide_eq_true hnames]
    decide
  obtain ⟨node, hnode, hname⟩ := List.mem_filterMap.1 hx
  exact ⟨formula, hparse, node, hnode, hname, names_permitted hparse hnode hname⟩

end QuantitySurvey.Formula
