import QuantitySurvey.Proofs.Formula.CanonicalText

/-! # Well formed trees

A tree is well formed if every call has as many arguments as its function takes, and if names of
units stand where units are expected and nowhere else. The parser makes no other trees:
`wellFormed_of_parse`.
-/

set_option autoImplicit false

namespace QuantitySurvey.Formula

/-- Every call in the tree has between the least and the greatest number of arguments, with the name
of a unit in each position of a unit, and a number in the others. The name of a unit alone is no
well formed tree, so there are no others. -/
inductive Expr.IsWellFormed : Expr → Prop
  | literal (x : Float) : IsWellFormed (.literal x)
  | identifier (name : String) : IsWellFormed (.identifier name)
  | negate {operand : Expr} (h : IsWellFormed operand) : IsWellFormed (.negate operand)
  | binary {lhs rhs : Expr} (op : Operator) (left : IsWellFormed lhs)
      (right : IsWellFormed rhs) : IsWellFormed (.binary op lhs rhs)
  | call {f : Function} {args : List Expr} (enough : f.minArity ≤ args.length)
      (notMore : args.length ≤ f.maxArity)
      (units : ∀ a, (ArgumentKind.unit, a) ∈ f.parameters.zip args → ∃ name, a = .unitName name)
      (numbers : ∀ a, (ArgumentKind.number, a) ∈ f.parameters.zip args → IsWellFormed a) :
      IsWellFormed (.call f args)

open Grammar

/-! ## What is derived -/

theorem wellFormed_groupedLeft {first : Expr} {links : List Link} (hfirst : first.IsWellFormed)
    (hlinks : ∀ l ∈ links, l.operand.tree.IsWellFormed) :
    (groupedLeft first links).IsWellFormed := by
  induction links generalizing first with
  | nil => exact hfirst
  | cons l rest ih =>
    refine ih (.binary l.op hfirst (hlinks l List.mem_cons_self)) fun l' hl' => ?_
    exact hlinks l' (List.mem_cons_of_mem l hl')

theorem zip_map_zip {α β γ : Type} (l : List α) (m : List β) (g : α × β → γ) :
    l.zip ((l.zip m).map g) = (l.zip m).map fun p => (p.1, g p) := by
  induction l generalizing m with
  | nil => rfl
  | cons a l ih =>
    cases m with
    | nil => rfl
    | cons b m => simp [ih]

theorem wellFormed_of_derives {φ : Phrase} {levels : Nat} {s : Stretch} (h : Derives φ levels s) :
    s.tree.IsWellFormed := by
  induction h with
  | expr head signs tail ih ihtail => exact wellFormed_groupedLeft ih ihtail
  | term head signs tail ih ihtail => exact wellFormed_groupedLeft ih ihtail
  | minus h ih => exact .negate ih
  | plus h ih => exact ih
  | unary h ih => exact ih
  | number x => exact .literal x
  | name n => exact .identifier n
  | parens h ih => exact ih
  | @call levels name f args named inside enough notMore units ih =>
    -- an argument in a position is the one that was read there, as the position wants it
    have hread : ∀ kind a, (kind, a) ∈ f.parameters.zip ((f.parameters.zip
        (args.map Stretch.tree)).map fun p => asArgument p.1 p.2) →
        ∃ s ∈ args, (kind, s.tree) ∈ f.parameters.zip (args.map Stretch.tree) ∧
          a = asArgument kind s.tree := by
      intro kind a ha
      rw [zip_map_zip] at ha
      obtain ⟨⟨kind', e⟩, hmem, heq⟩ := List.mem_map.1 ha
      cases heq
      obtain ⟨s, hs, rfl⟩ := List.mem_map.1 (List.of_mem_zip hmem).2
      exact ⟨s, hs, hmem, rfl⟩
    have hlength : ((f.parameters.zip (args.map Stretch.tree)).map
        fun p => asArgument p.1 p.2).length = args.length := by
      have hmost : args.length ≤ f.parameters.length := notMore
      simp [hmost]
    refine .call (by rwa [hlength]) (by rwa [hlength]) (fun a ha => ?_) fun a ha => ?_
    · obtain ⟨s, -, hmem, rfl⟩ := hread _ _ ha
      obtain ⟨n, hn⟩ : ∃ n, s.tree = .identifier n := units _ hmem rfl
      exact ⟨n, by rw [hn]; rfl⟩
    · obtain ⟨s, hs, -, rfl⟩ := hread _ _ ha
      exact ih s hs

theorem wellFormed_of_parse {limits : Limits} {source : String} {formula : Formula}
    (parsed : Formula.parse limits source = .ok formula) : formula.expr.IsWellFormed := by
  obtain ⟨-, -, s, -, hs, -, htree⟩ := parse_eq_ok_iff.1 parsed
  rw [← htree]
  exact wellFormed_of_derives hs

end QuantitySurvey.Formula
