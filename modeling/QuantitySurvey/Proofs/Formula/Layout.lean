import QuantitySurvey.Proofs.Formula.Canonical
import QuantitySurvey.Proofs.Formula.Spelling

/-! # Canonical texts

The canonical text is its pieces, one after the other. A text of pieces passes both screens and
spells its tokens, if the tokens are separated and each of them is plain: a name that is not
forbidden, or a number that is written in digits and points and reads back.

* `written_eq_flatMap`: the canonical text, piece by piece.
* `isClean_pieces`: a text of plain pieces.
-/

set_option autoImplicit false

namespace QuantitySurvey.Formula

/-! ## Pieces of text -/

def pieceText : Option Token → List Char
  | none => [' ']
  | some t => t.text.toList

namespace Expr

theorem text_token (op : Operator) : op.token.text.toList = [op.symbol] := by
  cases op <;> decide

theorem flatMap_enclosed (needed : Bool) (pieces : List (Option Token)) :
    (enclosed needed pieces).flatMap pieceText = grouped needed (pieces.flatMap pieceText) := by
  have hleft : pieceText (some .leftParen) = ['('] := by decide
  have hright : pieceText (some .rightParen) = [')'] := by decide
  cases needed with
  | false => rfl
  | true => simp [enclosed, grouped, hleft, hright]

theorem writtenArguments_eq_flatMap {args : List Expr}
    (h : ∀ a ∈ args, a.written = a.pieces.flatMap pieceText) :
    writtenArguments args = (argumentPieces args).flatMap pieceText := by
  have hcomma : pieceText (some .comma) = [','] := by decide
  have hfurther : ∀ rest : List Expr, (∀ a ∈ rest, a.written = a.pieces.flatMap pieceText) →
      writtenFurther rest = (furtherPieces rest).flatMap pieceText := by
    intro rest hrest
    induction rest with
    | nil => rfl
    | cons a rest ih =>
      have hhead := hrest a List.mem_cons_self
      have htail := ih fun b hb => hrest b (List.mem_cons_of_mem a hb)
      rw [writtenFurther, hhead, htail, furtherPieces]
      simp only [List.flatMap_cons, List.cons_append, List.flatMap_append, hcomma]
      rfl
  cases args with
  | nil => rfl
  | cons a rest =>
    rw [writtenArguments, h a List.mem_cons_self,
      hfurther rest fun b hb => h b (List.mem_cons_of_mem a hb), argumentPieces,
      List.flatMap_append]

/-- The canonical text is that of the pieces. -/
theorem written_eq_flatMap (e : Expr) : e.written = e.pieces.flatMap pieceText := by
  induction e using Expr.inductionOn with
  | literal x => simp [written, pieces, pieceText, Token.text]
  | identifier name => simp [written, pieces, pieceText, Token.text]
  | unitName name => simp [written, pieces, pieceText, Token.text]
  | negate operand ih =>
    have hminus : pieceText (some .minus) = ['-'] := by decide
    rw [written, ih, pieces, List.flatMap_cons, flatMap_enclosed, hminus, List.singleton_append]
  | binary op lhs rhs ihl ihr =>
    have hop : pieceText (some op.token) = [op.symbol] := text_token op
    rw [written, ihl, ihr, pieces]
    simp only [List.flatMap_append, List.flatMap_cons, flatMap_enclosed, hop]
    rfl
  | call f args ih =>
    have hleft : pieceText (some .leftParen) = ['('] := by decide
    have hright : pieceText (some .rightParen) = [')'] := by decide
    rw [written, writtenArguments_eq_flatMap ih, pieces]
    simp only [List.flatMap_cons, List.cons_append, List.flatMap_append, hleft, hright,
      List.flatMap_nil, List.append_nil, List.nil_append]
    exact List.append_assoc f.name.toList _ _

end Expr

/-! ## Clean texts -/

/-- A text passes both screens and spells tokens. -/
structure IsClean (ts : List Token) (cs : List Char) : Prop where
  spelled : Spelled ts cs
  permitted : ∀ w ∈ words cs, isForbidden w = false
  allowed : ∀ c ∈ cs, isAllowed c = true

theorem IsClean.nil : IsClean [] [] where
  spelled := .nil
  permitted := by simp [words_nil]
  allowed := by simp

theorem IsClean.space {ts : List Token} {cs : List Char} (h : IsClean ts cs) :
    IsClean ts (' ' :: cs) where
  spelled := .blank rfl h.spelled
  permitted := by
    rw [words_cons rfl]
    exact h.permitted
  allowed := by
    intro c hc
    rcases List.mem_cons.1 hc with rfl | hc
    · rfl
    · exact h.allowed c hc

theorem IsClean.symbol {c : Char} {t : Token} {ts : List Token} {cs : List Char}
    (h : IsClean ts cs) (hsymbol : Token.ofSymbol? c = some t) : IsClean (t :: ts) (c :: cs) where
  spelled := .symbol hsymbol h.spelled
  permitted := by
    rw [words_cons (not_isNameChar_of_symbol (ofSymbol?_eq_some hsymbol).1)]
    exact h.permitted
  allowed := by
    intro d hd
    rcases List.mem_cons.1 hd with rfl | hd
    · exact isAllowed_of_ofSymbol? hsymbol
    · exact h.allowed d hd

/-- No name and no number goes on with the next character, if there is one. -/
def EndsWord (rest : List Char) : Prop :=
  ∀ c ∈ rest.head?, isNameChar c = false ∧ isNumberChar c = false

section Words

variable {ts : List Token} {rest : List Char} (ends : EndsWord rest)
include ends

theorem IsClean.name (h : IsClean ts rest) {n : String} (hn : IsName n.toList)
    (hpermitted : isForbidden n.toList = false) :
    IsClean (.name n :: ts) (n.toList ++ rest) where
  spelled := by
    obtain ⟨c, hc, hstarts⟩ := hn.starts
    obtain ⟨cs, hcons⟩ := List.head?_eq_some_iff.1 hc
    have hends : ∀ c ∈ rest.head?, isNameChar c = false := fun c hc => (ends c hc).1
    have htake : (c :: (cs ++ rest)).takeWhile isNameChar = n.toList := by
      rw [← List.cons_append, ← hcons]
      exact takeWhile_run hn.chars hends
    have hdrop : (c :: (cs ++ rest)).dropWhile isNameChar = rest := by
      rw [← List.cons_append, ← hcons]
      exact dropWhile_run hn.chars hends
    have hspelled := Spelled.name hstarts (hdrop.symm ▸ h.spelled)
    rw [htake, String.ofList_toList] at hspelled
    rw [hcons]
    exact hspelled
  permitted := by
    have hne : n.toList ≠ [] := by
      obtain ⟨c, hc, -⟩ := hn.starts
      intro hnil
      rw [hnil] at hc
      cases hc
    rw [words_append fun c hc => (ends c hc).1, words_of_all hne hn.chars]
    intro w hw
    rcases List.mem_append.1 hw with hw | hw
    · rw [List.mem_singleton.1 hw]
      exact hpermitted
    · exact h.permitted w hw
  allowed := by
    intro c hc
    rcases List.mem_append.1 hc with hc | hc
    · simp [isAllowed, hn.chars c hc]
    · exact h.allowed c hc

theorem splitNumber_run {run : List Char} (hrun : ∀ c ∈ run, isNumberChar c = true) :
    splitNumber (run ++ rest) = (run, rest) := by
  have hends : ∀ c ∈ rest.head?, isNumberChar c = false := fun c hc => (ends c hc).2
  have hexponent : splitExponent rest = ([], rest) := by
    cases rest with
    | nil => rfl
    | cons c rest =>
      have hc : isNameChar c = false := (ends c rfl).1
      have he : c ≠ 'e' := by
        rintro rfl
        cases hc
      have hE : c ≠ 'E' := by
        rintro rfl
        cases hc
      simp [splitExponent, he, hE]
  unfold splitNumber
  rw [dropWhile_run hrun hends, takeWhile_run hrun hends, hexponent]
  simp

end Words

/-- A word with a digit at its start, or right after that, is not forbidden. -/
theorem isForbidden_of_early_digit {w : List Char} (h : (w.take 2).any Char.isDigit = true) :
    isForbidden w = false := by
  have hscore : (w.take 2 == ['_', '_']) = false := by
    rw [beq_eq_false_iff_ne]
    intro heq
    rw [heq] at h
    cases h
  have hlisted : ∀ s ∈ forbiddenWords, (s.toList.take 2).any Char.isDigit = false := by
    decide +kernel
  have hlower : ((Text.lowered w).take 2).any Char.isDigit = true := by
    obtain ⟨d, hmem, hd⟩ := List.any_eq_true.1 h
    rw [Text.lowered, ← List.map_take]
    exact List.any_eq_true.2 ⟨d, List.mem_map.2 ⟨d, hmem, toLower_of_isDigit hd⟩, hd⟩
  have hnot : String.ofList (Text.lowered w) ∉ forbiddenWords := by
    intro hmem
    have hnone := hlisted _ hmem
    rw [String.toList_ofList, hlower] at hnone
    cases hnone
  unfold isForbidden
  rw [hscore, Bool.false_or]
  simpa using hnot

/-- A row of digits is no forbidden word. -/
theorem isForbidden_of_isDigit {w : List Char} (hne : w ≠ []) (hw : ∀ c ∈ w, c.isDigit = true) :
    isForbidden w = false := by
  obtain ⟨d, rest, rfl⟩ := List.exists_cons_of_ne_nil hne
  exact isForbidden_of_early_digit (by simp [hw d List.mem_cons_self])

theorem IsClean.number {ts : List Token} {rest : List Char} (h : IsClean ts rest)
    (ends : EndsWord rest) {x : Float} (hne : (Decimal.text x).toList ≠ [])
    (hchars : ∀ c ∈ (Decimal.text x).toList, isNumberChar c = true)
    (hread : Decimal.read? (Decimal.text x).toList = some x) :
    IsClean (.number x :: ts) ((Decimal.text x).toList ++ rest) where
  spelled := by
    have hcut := splitNumber_run ends hchars
    obtain ⟨c, cs, hcons⟩ := List.exists_cons_of_ne_nil hne
    rw [hcons] at hchars hcut hread ⊢
    exact .number (hchars c List.mem_cons_self) hcut hread h.spelled
  permitted := by
    rw [words_append fun c hc => (ends c hc).1]
    intro w hw
    rcases List.mem_append.1 hw with hw | hw
    · obtain ⟨hwne, hall⟩ := mem_of_mem_words hw
      refine isForbidden_of_isDigit hwne fun c hc => ?_
      rcases isNumberChar_cases (hchars c (hall c hc).1) with ⟨-, hdigit⟩ | rfl
      · exact hdigit
      · cases (hall _ hc).2
    · exact h.permitted w hw
  allowed := by
    intro c hc
    rcases List.mem_append.1 hc with hc | hc
    · exact isAllowed_of_isNumberChar (hchars c hc)
    · exact h.allowed c hc

/-! ## Plain tokens -/

/-- A token whose text passes the screens and is the token again. -/
def IsPlain : Token → Prop
  | .name n => IsName n.toList ∧ isForbidden n.toList = false
  | .number x => (Decimal.text x).toList ≠ [] ∧
    (∀ c ∈ (Decimal.text x).toList, isNumberChar c = true) ∧
    Decimal.read? (Decimal.text x).toList = some x
  | _ => True

theorem text_of_not_isWordy {t : Token} (h : t.isWordy = false) :
    ∃ c, t.text.toList = [c] ∧ Token.ofSymbol? c = some t := by
  cases t with
  | number x => cases h
  | name n => cases h
  | plus => exact ⟨'+', by decide, rfl⟩
  | minus => exact ⟨'-', by decide, rfl⟩
  | star => exact ⟨'*', by decide, rfl⟩
  | slash => exact ⟨'/', by decide, rfl⟩
  | leftParen => exact ⟨'(', by decide, rfl⟩
  | rightParen => exact ⟨')', by decide, rfl⟩
  | comma => exact ⟨',', by decide, rfl⟩

/-- After a number or a name comes a symbol or a blank. -/
theorem endsWord_pieces {t : Token} {pieces : List (Option Token)}
    (hsep : Separated (t :: pieces.filterMap id)) (ht : t.isWordy = true) :
    EndsWord (pieces.flatMap pieceText) := by
  intro c hc
  cases pieces with
  | nil => cases hc
  | cons piece pieces =>
    cases piece with
    | none =>
      cases hc
      exact ⟨rfl, rfl⟩
    | some u =>
      have hu : u.isWordy = false := hsep.next ht u (by simp)
      obtain ⟨d, htext, hsymbol⟩ := text_of_not_isWordy hu
      have hcd : c = d := by
        rw [List.flatMap_cons, pieceText, htext] at hc
        simpa using hc.symm
      have hnumber : isNumberChar d = false := by
        cases hd : isNumberChar d with
        | false => rfl
        | true =>
          rw [ofSymbol?_of_isNumberChar hd] at hsymbol
          cases hsymbol
      rw [hcd]
      exact ⟨not_isNameChar_of_symbol (ofSymbol?_eq_some hsymbol).1, hnumber⟩

/-- A text of plain pieces is clean, if no two words of it touch. -/
theorem isClean_pieces (pieces : List (Option Token)) (hsep : Separated (pieces.filterMap id))
    (hplain : ∀ t, some t ∈ pieces → IsPlain t) :
    IsClean (pieces.filterMap id) (pieces.flatMap pieceText) := by
  induction pieces with
  | nil => exact .nil
  | cons piece pieces ih =>
    have hrest : ∀ t, some t ∈ pieces → IsPlain t :=
      fun t ht => hplain t (List.mem_cons_of_mem piece ht)
    cases piece with
    | none => exact (ih hsep hrest).space
    | some t =>
      have hclean := ih hsep.tail hrest
      have ht : IsPlain t := hplain t List.mem_cons_self
      cases hwordy : t.isWordy with
      | false =>
        obtain ⟨c, htext, hsymbol⟩ := text_of_not_isWordy hwordy
        rw [List.flatMap_cons, pieceText, htext]
        exact hclean.symbol hsymbol
      | true =>
        have hends := endsWord_pieces hsep hwordy
        cases t with
        | number x => exact hclean.number hends ht.1 ht.2.1 ht.2.2
        | name n => exact IsClean.name hends hclean ht.1 ht.2
        | _ => cases hwordy

end QuantitySurvey.Formula
