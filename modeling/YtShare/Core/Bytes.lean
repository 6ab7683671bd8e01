/-
# Go strings

A Go string is a list of bytes.  Most strings are texts in UTF-8, but what a
percent-encoding writes down may be no text at all, so the strings that are
taken apart as URLs are lists of bytes here, and `utf8` makes one of a text.

Where Go reads a string rune by rune, a byte that begins no character is read
as `U+FFFD` and takes one byte (`decodeRune`).
-/

import YtShare.Core.Strings
import YtShare.Core.Unicode
import YtShare.Lib.Cut
import YtShare.Lib.Strip

namespace YtShare

open Lib

/-- A Go string. -/
abbrev Bytes := List UInt8

/-- The byte of a character of ASCII. -/
abbrev byte (c : Char) : UInt8 := c.toUInt8

/-- What holds of every byte of a string is decided along the string.  A byte is of a
finite type, and so it could be decided by going through all that there are. -/
instance (priority := 1100) decidableForallByte (p : UInt8 → Prop) [DecidablePred p]
    (s : Bytes) : Decidable (∀ c ∈ s, p c) :=
  List.decidableBAll p s

/-- What holds of every character of a text is decided along the text. -/
instance (priority := 1100) decidableForallChar (p : Char → Prop) [DecidablePred p]
    (cs : List Char) : Decidable (∀ c ∈ cs, p c) :=
  List.decidableBAll p cs

/-- The bytes of a text. -/
def utf8 (s : String) : Bytes := s.toList.flatMap String.utf8EncodeChar

/-- The text of a string of ASCII. -/
def ofASCII (s : Bytes) : String := String.ofList (s.map fun b => Char.ofNat b.toNat)

/-- The bytes of two texts, one after the other. -/
theorem utf8_append (s t : String) : utf8 (s ++ t) = utf8 s ++ utf8 t := by
  rw [utf8, String.toList_append, List.flatMap_append]
  rfl

/-- A text has at least one byte a character. -/
theorem length_le_utf8 (s : String) : s.length ≤ (utf8 s).length := by
  rw [← String.length_toList, utf8]
  induction s.toList with
  | nil => exact Nat.le_refl 0
  | cons c cs ih =>
    have hpos : 0 < (String.utf8EncodeChar c).length :=
      List.length_pos_iff.2 String.utf8EncodeChar_ne_nil
    rw [List.flatMap_cons, List.length_append, List.length_cons]
    omega

/-- A byte of ASCII is the one byte of its character. -/
theorem utf8EncodeChar_ofNat : ∀ n < 128,
    String.utf8EncodeChar (Char.ofNat n) = [UInt8.ofNat n] := by
  decide +kernel

/-- A character of ASCII is one byte. -/
theorem utf8EncodeChar_byte {b : UInt8} (h : b < 128) :
    String.utf8EncodeChar (Char.ofNat b.toNat) = [b] := by
  rw [utf8EncodeChar_ofNat b.toNat h, UInt8.ofNat_toNat]

/-- Bytes of ASCII come back from the text that they make. -/
theorem utf8_ofASCII {s : Bytes} (h : ∀ b ∈ s, b < 128) : utf8 (ofASCII s) = s := by
  rw [utf8, ofASCII, String.toList_ofList]
  induction s with
  | nil => rfl
  | cons b s ih =>
    rw [List.map_cons, List.flatMap_cons, utf8EncodeChar_byte (h b List.mem_cons_self),
      ih fun c hc => h c (List.mem_cons_of_mem _ hc)]
    rfl

/-- A text of ASCII, byte by byte. -/
theorem utf8_ofList {cs : List Char} (h : ∀ c ∈ cs, c.toNat < 128) :
    utf8 (String.ofList cs) = cs.map fun c => UInt8.ofNat c.toNat := by
  rw [utf8, String.toList_ofList]
  induction cs with
  | nil => rfl
  | cons c cs ih =>
    have hc := utf8EncodeChar_ofNat c.toNat (h c List.mem_cons_self)
    rw [Char.ofNat_toNat] at hc
    rw [List.flatMap_cons, hc, ih fun d hd => h d (List.mem_cons_of_mem _ hd)]
    rfl

/-- And a text of ASCII from its bytes. -/
theorem ofASCII_utf8 {cs : List Char} (h : ∀ c ∈ cs, c.toNat < 128) :
    ofASCII (utf8 (String.ofList cs)) = String.ofList cs := by
  rw [utf8_ofList h, ofASCII, List.map_map]
  refine congrArg String.ofList ?_
  conv_rhs => rw [← List.map_id cs]
  refine List.map_congr_left fun c hc => ?_
  have hbyte : (UInt8.ofNat c.toNat).toNat = c.toNat :=
    UInt8.toNat_ofNat_of_lt' (Nat.lt_trans (h c hc) (by decide))
  rw [Function.comp_apply, hbyte, Char.ofNat_toNat, id]

/-! ### Runes -/

/-- `utf8.DecodeRuneInString` on a string that is not empty: the rune and the
bytes it takes. -/
def decodeRune (s : Bytes) : Char × ℕ :=
  match s.toByteArray.utf8DecodeChar? 0 with
  | some c => (c, c.utf8Size)
  | none => ('\ufffd', 1)

/-- The runes of a string after so many bytes. -/
def runesFrom : ℕ → Bytes → List Char
  | _, [] => []
  | n + 1, _ :: s => runesFrom n s
  | 0, b :: s => (decodeRune (b :: s)).1 :: runesFrom ((decodeRune (b :: s)).2 - 1) s

/-- The runes that `range` reads off a string. -/
def runes (s : Bytes) : List Char := runesFrom 0 s

/-- Reading from a place on is reading what is left from there. -/
theorem runesFrom_eq (n : ℕ) (s : Bytes) : runesFrom n s = runes (s.drop n) := by
  induction n generalizing s with
  | zero => rfl
  | succ n ih =>
    cases s with
    | nil => rfl
    | cons b s => exact ih s

/-- **The first rune of a string that begins with a character.** -/
theorem decodeRune_append (c : Char) (s : Bytes) :
    decodeRune (String.utf8EncodeChar c ++ s) = (c, c.utf8Size) := by
  rw [decodeRune, List.toByteArray_append, ByteArray.utf8DecodeChar?_utf8EncodeChar_append]

/-- A character that was encoded is read as one rune. -/
theorem runes_append (c : Char) (s : Bytes) :
    runes (String.utf8EncodeChar c ++ s) = c :: runes s := by
  have hdec := decodeRune_append c s
  cases he : String.utf8EncodeChar c with
  | nil => exact absurd he String.utf8EncodeChar_ne_nil
  | cons b bs =>
    have hlen := String.length_utf8EncodeChar c
    rw [he] at hdec hlen
    rw [List.cons_append] at hdec ⊢
    rw [runes, runesFrom, hdec, runesFrom_eq, ← hlen, List.length_cons, Nat.add_sub_cancel,
      List.drop_left]

/-- A byte of ASCII is a rune. -/
theorem runes_cons {b : UInt8} (h : b < 128) (s : Bytes) :
    runes (b :: s) = Char.ofNat b.toNat :: runes s := by
  have := runes_append (Char.ofNat b.toNat) s
  rwa [utf8EncodeChar_byte h] at this

/-! ### Letter case -/

/-- A letter of ASCII in lower case. -/
def lowerByte (b : UInt8) : UInt8 := if byte 'A' ≤ b ∧ b ≤ byte 'Z' then b + 32 else b

/-- `strings.Map`. -/
def mapRunes (f : Char → Char) (s : Bytes) : Bytes :=
  (runes s).flatMap fun c => String.utf8EncodeChar (f c)

/-- `strings.ToLower`. -/
def toLower (s : Bytes) : Bytes :=
  if s.all (fun b => decide (b < 128)) = true then s.map lowerByte else mapRunes Unicode.toLower s

/-- Lowering a letter of ASCII is lowering its byte. -/
theorem utf8EncodeChar_toLower : ∀ n < 128,
    String.utf8EncodeChar (Unicode.toLower (Char.ofNat n)) = [lowerByte (UInt8.ofNat n)] := by
  decide +kernel

/-- A string of ASCII is lowered rune by rune, too. -/
theorem toLower_eq (s : Bytes) : toLower s = mapRunes Unicode.toLower s := by
  rw [toLower]
  split_ifs with hs
  · have hall : ∀ b ∈ s, b < 128 := fun b hb => by simpa using List.all_eq_true.1 hs b hb
    clear hs
    induction s with
    | nil => rfl
    | cons b s ih =>
      have hb : b < 128 := hall b List.mem_cons_self
      rw [mapRunes, runes_cons hb, List.flatMap_cons, utf8EncodeChar_toLower b.toNat hb,
        UInt8.ofNat_toNat, List.map_cons, ih fun c hc => hall c (List.mem_cons_of_mem _ hc)]
      rfl
  · rfl

/-- A byte of ASCII is lowered apart from the rest. -/
theorem toLower_cons {b : UInt8} (h : b < 128) (s : Bytes) :
    toLower (b :: s) = lowerByte b :: toLower s := by
  rw [toLower_eq, toLower_eq, mapRunes, runes_cons h, List.flatMap_cons,
    utf8EncodeChar_toLower b.toNat h, UInt8.ofNat_toNat]
  rfl

/-! ### White space -/

/-- The white space of Unicode. -/
def spaces : List Char :=
  ['\t', '\n', '\x0b', '\x0c', '\r', ' ', '\u0085', '\u00a0', '\u1680', '\u2000', '\u2001',
    '\u2002', '\u2003', '\u2004', '\u2005', '\u2006', '\u2007', '\u2008', '\u2009', '\u200a',
    '\u2028', '\u2029', '\u202f', '\u205f', '\u3000']

/-- The bytes of each of them. -/
def spaceWords : List Bytes := spaces.map String.utf8EncodeChar

/-- `strings.TrimSpace`.  UTF-8 is read from either end: the last rune of a
string is white space when the string ends with its bytes. -/
def trimSpaceBytes (s : Bytes) : Bytes :=
  (strip (spaceWords.map List.reverse) (strip spaceWords s).reverse).reverse

/-- White space is what stands in the table of `unicode.IsSpace`. -/
theorem isSpace_iff {c : Char} : isSpace c = true ↔ c ∈ spaces := by
  constructor
  · intro h
    by_cases hr : 8192 ≤ c.toNat ∧ c.toNat ≤ 8202
    · have hall : ∀ k < 11, Char.ofNat (8192 + k) ∈ spaces := by decide
      have hc : Char.ofNat (8192 + (c.toNat - 8192)) = c := by
        rw [Nat.add_sub_cancel' hr.1, Char.ofNat_toNat]
      rw [← hc]
      exact hall _ (by omega)
    · have hrange : ¬('\u2000'.toNat ≤ c.toNat ∧ c.toNat ≤ '\u200a'.toNat) := hr
      simp only [isSpace, Bool.or_eq_true, beq_iff_eq, Bool.and_eq_true, decide_eq_true_eq, hrange,
        or_false] at h
      rcases h with
        ((((((((((((h | h) | h) | h) | h) | h) | h) | h) | h) | h) | h) | h) | h) | h <;>
      · rw [h]
        decide
  · have hall : ∀ d ∈ spaces, isSpace d = true := by decide
    exact hall c

/-- No encoding of white space begins another one. -/
theorem prefixFree_spaceWords : PrefixFree spaceWords := by decide +kernel

/-- Nor does one end another. -/
theorem prefixFree_reverse_spaceWords : PrefixFree (spaceWords.map List.reverse) := by
  decide +kernel

/-- A byte of ASCII that is printed. -/
def Printed (b : UInt8) : Prop := 32 < b ∧ b < 127

instance (b : UInt8) : Decidable (Printed b) := inferInstanceAs (Decidable (_ ∧ _))

/-- No white space begins or ends with a printed byte. -/
theorem not_printed_of_spaceWords : ∀ w ∈ spaceWords,
    (∃ b ∈ w.head?, ¬Printed b) ∧ ∃ b ∈ w.getLast?, ¬Printed b := by
  decide +kernel

/-- **White space around a text is trimmed**, and nothing of a text that begins
and ends with a printed byte. -/
theorem trimSpaceBytes_append {lead trail : List Char} (hl : ∀ c ∈ lead, isSpace c = true)
    (ht : ∀ c ∈ trail, isSpace c = true) {s : Bytes} (hh : ∀ b ∈ s.head?, Printed b)
    (he : ∀ b ∈ s.getLast?, Printed b) (hne : s ≠ []) :
    trimSpaceBytes (lead.flatMap String.utf8EncodeChar ++
      (s ++ trail.flatMap String.utf8EncodeChar)) = s := by
  have hmem : ∀ cs : List Char, (∀ c ∈ cs, isSpace c = true) →
      ∀ w ∈ cs.map String.utf8EncodeChar, w ∈ spaceWords := by
    intro cs hcs w hw
    obtain ⟨c, hc, rfl⟩ := List.mem_map.1 hw
    exact List.mem_map.2 ⟨c, isSpace_iff.1 (hcs c hc), rfl⟩
  have hfront : strip spaceWords (lead.flatMap String.utf8EncodeChar ++
      (s ++ trail.flatMap String.utf8EncodeChar)) =
      s ++ trail.flatMap String.utf8EncodeChar := by
    rw [List.flatMap_def]
    refine strip_flatten prefixFree_spaceWords (hmem lead hl) fun w hw hpre => ?_
    obtain ⟨⟨b, hb, hnot⟩, -⟩ := not_printed_of_spaceWords w hw
    refine hnot (hh b ?_)
    cases w with
    | nil => cases hb
    | cons x w =>
      cases s with
      | nil => exact absurd rfl hne
      | cons y s =>
        cases hb
        obtain ⟨t, ht⟩ := hpre
        exact congrArg some (List.cons.inj ht).1.symm
  have hback : (s ++ trail.flatMap String.utf8EncodeChar).reverse =
      (((trail.map String.utf8EncodeChar).map List.reverse).reverse).flatten ++ s.reverse := by
    rw [List.reverse_append, List.flatMap_def, List.reverse_flatten]
  rw [trimSpaceBytes, hfront, hback, strip_flatten prefixFree_reverse_spaceWords,
    List.reverse_reverse]
  · intro w hw
    obtain ⟨v, hv, rfl⟩ := List.mem_map.1 (List.mem_reverse.1 hw)
    exact List.mem_map.2 ⟨v, hmem trail ht v hv, rfl⟩
  · intro w hw hpre
    obtain ⟨v, hv, rfl⟩ := List.mem_map.1 hw
    obtain ⟨-, b, hb, hnot⟩ := not_printed_of_spaceWords v hv
    refine hnot (he b ?_)
    rw [← List.head?_reverse] at hb ⊢
    cases hv' : v.reverse with
    | nil => rw [hv'] at hb; cases hb
    | cons x w =>
      rw [hv'] at hb hpre
      cases hs : s.reverse with
      | nil => exact absurd (List.reverse_eq_nil_iff.1 hs) hne
      | cons y s' =>
        rw [hs] at hpre
        cases hb
        obtain ⟨t, ht⟩ := hpre
        exact congrArg some (List.cons.inj ht).1.symm

end YtShare
