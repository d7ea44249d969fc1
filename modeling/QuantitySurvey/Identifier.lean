import QuantitySurvey.Text.Hex

/-! # Identifiers

Elements, assemblies and quantities carry 128-bit identifiers. One is written as 32 hexadecimal
digits in groups of 8, 4, 4, 4 and 12; it may be read in that form, without the hyphens, in
braces, or after `urn:uuid:`, with digits of either case. -/

set_option autoImplicit false

namespace QuantitySurvey

/-- A 128-bit identifier. -/
structure Identifier where
  bits : BitVec 128
deriving DecidableEq, Repr

namespace Identifier

/-- The identifier of a number, of which the last 128 bits count. -/
def ofNat (n : Nat) : Identifier := ⟨BitVec.ofNat 128 n⟩

def toNat (i : Identifier) : Nat := i.bits.toNat

def nil : Identifier := ofNat 0

instance : Inhabited Identifier := ⟨nil⟩

/-! ## Order -/

instance : Ord Identifier := ⟨fun a b => compare a.toNat b.toNat⟩

instance : Std.TransOrd Identifier where
  eq_swap {a b} := @Std.OrientedCmp.eq_swap Nat compare _ a.toNat b.toNat
  isLE_trans {a b c} h₁ h₂ :=
    @Std.TransCmp.isLE_trans Nat compare _ a.toNat b.toNat c.toNat h₁ h₂

theorem compare_eq_iff {a b : Identifier} : compare a b = .eq ↔ a = b := by
  obtain ⟨x⟩ := a
  obtain ⟨y⟩ := b
  show compare x.toNat y.toNat = .eq ↔ _
  rw [Std.LawfulEqCmp.compare_eq_iff_eq]
  exact ⟨fun h => congrArg mk (BitVec.eq_of_toNat_eq h), fun h => congrArg toNat h⟩

instance : Std.LawfulEqOrd Identifier where
  eq_of_compare h := compare_eq_iff.1 h

/-! ## Text -/

/-- The digits in their five groups. -/
def grouped (ds : List Char) : List Char :=
  ds.take 8 ++ '-' :: (ds.drop 8).take 4 ++ '-' :: (ds.drop 12).take 4
    ++ '-' :: (ds.drop 16).take 4 ++ '-' :: ds.drop 20

def text (i : Identifier) : String :=
  String.ofList (grouped (Text.hexDigits 32 i.toNat))

/-- The digits of five groups of the right lengths. -/
def ungrouped? (cs : List Char) : Option (List Char) :=
  let hyphen := fun i => cs[i]? == some '-'
  if cs.length = 36 && hyphen 8 && hyphen 13 && hyphen 18 && hyphen 23 then
    some (cs.take 8 ++ (cs.drop 9).take 4 ++ (cs.drop 14).take 4 ++ (cs.drop 19).take 4
      ++ cs.drop 24)
  else none

/-- The text inside a wrapping: braces, or the name of the identifier scheme. -/
def unwrapped (cs : List Char) : List Char :=
  if cs.length = 38 && cs.head? == some '\x7b' && cs.getLast? == some '\x7d' then
    (cs.drop 1).take 36
  else if cs.take 9 = "urn:uuid:".toList then cs.drop 9
  else cs

/-- The identifier that a text stands for. Thirty-two digits stand alone only. -/
def read? (s : String) : Option Identifier :=
  let cs := s.toList
  let digits := if cs.length = 32 then some cs else ungrouped? (unwrapped cs)
  (digits.bind Text.hexNumber?).map ofNat

example : (ofNat 0x1234).text = "00000000-0000-0000-0000-000000001234" := by decide +kernel
example : read? "00000000-0000-0000-0000-00000000001F" = some (ofNat 31) := by decide +kernel
example : read? "urn:uuid:00000000-0000-0000-0000-000000000001" = some (ofNat 1) := by
  decide +kernel
example : read? "\x7b00000000-0000-0000-0000-000000000001\x7d" = some (ofNat 1) := by
  decide +kernel

end Identifier

end QuantitySurvey
