/-
# UTF-16

The code units of a text, as a program that keeps its strings in UTF-16 has them.  A
character outside the basic plane is a surrogate pair; the halves of pairs are no
characters, so that the units are read back one way only (`chars_units`).
-/

import YtShare.Lib.JsonRoundTrip

namespace YtShare
namespace Lib

open Json

/-- The code units of a character. -/
def unitsOf (c : Char) : Text :=
  if c.toNat < 0x10000 then [code c]
  else
    [UInt16.ofNat (0xd800 + (c.toNat - 0x10000) / 0x400),
      UInt16.ofNat (0xdc00 + (c.toNat - 0x10000) % 0x400)]

/-- The code units of a text. -/
def units (cs : List Char) : Text := cs.flatMap unitsOf

/-- The character of a surrogate pair. -/
def ofPair (c d : UInt16) : Char :=
  Char.ofNat (0x10000 + (c.toNat - 0xd800) * 0x400 + (d.toNat - 0xdc00))

/-- The text that code units write, if they write one. -/
def chars : Text → Option (List Char)
  | [] => some []
  | [c] => if isLead c ∨ isTrail c then none else some [Char.ofNat c.toNat]
  | c :: d :: s =>
      if isLead c then
        if isTrail d then (chars s).map fun cs => ofPair c d :: cs else none
      else if isTrail c then none
      else (chars (d :: s)).map fun cs => Char.ofNat c.toNat :: cs

@[simp] theorem units_nil : units [] = [] := rfl

@[simp] theorem units_cons (c : Char) (cs : List Char) :
    units (c :: cs) = unitsOf c ++ units cs := rfl

@[simp] theorem units_append (cs ds : List Char) : units (cs ++ ds) = units cs ++ units ds :=
  List.flatMap_append

/-! ### The units of a character -/

/-- A character of the basic plane is its own code unit, and no half of a pair. -/
theorem unitsOf_basic {c : Char} (h : c.toNat < 0x10000) :
    unitsOf c = [code c] ∧ (code c).toNat = c.toNat ∧ isLead (code c) = false ∧
      isTrail (code c) = false := by
  have hcode : (code c).toNat = c.toNat := UInt16.toNat_ofNat_of_lt h
  have hvalid : c.toNat < 0xd800 ∨ 0xdfff < c.toNat := by
    have hc := c.valid
    unfold UInt32.isValidChar Nat.isValidChar at hc
    rcases hc with hc | hc
    · exact .inl hc
    · exact .inr hc.1
  refine ⟨if_pos h, hcode, decide_eq_false ?_, decide_eq_false ?_⟩
  · rw [UInt16.le_iff_toNat_le, UInt16.le_iff_toNat_le, hcode]
    rintro ⟨h₁, h₂⟩
    change 0xd800 ≤ _ at h₁
    change _ ≤ 0xdbff at h₂
    omega
  · rw [UInt16.le_iff_toNat_le, UInt16.le_iff_toNat_le, hcode]
    rintro ⟨h₁, h₂⟩
    change 0xdc00 ≤ _ at h₁
    change _ ≤ 0xdfff at h₂
    omega

/-- Any other character is a pair, which is the pair of that character. -/
theorem unitsOf_pair {c : Char} (h : ¬c.toNat < 0x10000) :
    ∃ a b, unitsOf c = [a, b] ∧ isLead a = true ∧ isTrail b = true ∧ ofPair a b = c := by
  have hvalid : c.toNat < 0x110000 := by
    have hc := c.valid
    unfold UInt32.isValidChar Nat.isValidChar at hc
    change c.val.toNat < 0x110000
    omega
  have ha : (UInt16.ofNat (0xd800 + (c.toNat - 0x10000) / 0x400)).toNat =
      0xd800 + (c.toNat - 0x10000) / 0x400 := UInt16.toNat_ofNat_of_lt (by
    change _ < 0x10000
    omega)
  have hb : (UInt16.ofNat (0xdc00 + (c.toNat - 0x10000) % 0x400)).toNat =
      0xdc00 + (c.toNat - 0x10000) % 0x400 := UInt16.toNat_ofNat_of_lt (by
    change _ < 0x10000
    omega)
  refine ⟨_, _, if_neg h, decide_eq_true ?_, decide_eq_true ?_, ?_⟩
  · rw [UInt16.le_iff_toNat_le, UInt16.le_iff_toNat_le, ha]
    change 0xd800 ≤ _ ∧ _ ≤ 0xdbff
    omega
  · rw [UInt16.le_iff_toNat_le, UInt16.le_iff_toNat_le, hb]
    change 0xdc00 ≤ _ ∧ _ ≤ 0xdfff
    omega
  · have hsum : 0x10000 + (0xd800 + (c.toNat - 0x10000) / 0x400 - 0xd800) * 0x400 +
        (0xdc00 + (c.toNat - 0x10000) % 0x400 - 0xdc00) = c.toNat := by
      omega
    rw [ofPair, ha, hb, hsum, Char.ofNat_toNat]

/-! ### The units are read back -/

/-- A unit that is half of no pair is a character. -/
theorem chars_basic {c : UInt16} (hlead : isLead c = false) (htrail : isTrail c = false)
    (s : Text) : chars (c :: s) = (chars s).map fun cs => Char.ofNat c.toNat :: cs := by
  cases s with
  | nil => simp [chars, hlead, htrail]
  | cons d s => simp [chars, hlead, htrail]

/-- Two halves of a pair are a character. -/
theorem chars_pair {c d : UInt16} (hlead : isLead c = true) (htrail : isTrail d = true)
    (s : Text) : chars (c :: d :: s) = (chars s).map fun cs => ofPair c d :: cs := by
  simp [chars, hlead, htrail]

/-- **A text is read back from its code units.** -/
theorem chars_units (cs : List Char) : chars (units cs) = some cs := by
  induction cs with
  | nil => rfl
  | cons c cs ih =>
    rw [units_cons]
    by_cases h : c.toNat < 0x10000
    · obtain ⟨hunits, hcode, hlead, htrail⟩ := unitsOf_basic h
      rw [hunits, List.cons_append, List.nil_append, chars_basic hlead htrail, ih, hcode,
        Char.ofNat_toNat]
      rfl
    · obtain ⟨a, b, hunits, hlead, htrail, hpair⟩ := unitsOf_pair h
      rw [hunits, List.cons_append, List.cons_append, List.nil_append, chars_pair hlead htrail, ih,
        hpair]
      rfl

end Lib
end YtShare
