/-
# Strings that differ in letter case

Two strings differ in letter case only when one becomes the other by exchanging
characters that `unicode.ToLower` makes one of (`CaseVariant`).  The strings
need not be texts: a byte that belongs to no character stands in both.

`ToLower` makes one string of both where the result is ASCII
(`CaseVariant.toLower_eq`).  A byte of ASCII that is no letter stands in both at
the same place, since nothing else is lowered to it (`CaseVariant.cons_inv`,
`mem_of_mem_toLower`); and a byte of ASCII is lowered apart from what stands
around it (`toLower_append_cons`).
-/

import YtShare.Core.Bytes

namespace YtShare

/-! ### Bytes of characters -/

/-- No character begins with a byte that goes on with one. -/
theorem head_utf8EncodeChar (c : Char) :
    ∀ b ∈ (String.utf8EncodeChar c).head?, b < 128 ∨ 192 ≤ b := by
  have hval : c.toNat = c.val.toNat := rfl
  intro b hb
  rw [String.utf8EncodeChar] at hb
  split_ifs at hb with h1 h2 h3
  · cases hb
    refine .inl ?_
    rw [UInt8.lt_iff_toNat_lt]
    simp
    omega
  all_goals
    cases hb
    refine .inr ?_
    rw [UInt8.le_iff_toNat_le]
    simp
    omega

/-- The bytes of a character beyond ASCII are beyond ASCII. -/
theorem le_of_mem_utf8EncodeChar {c : Char} (h : 128 ≤ c.toNat) :
    ∀ b ∈ String.utf8EncodeChar c, 128 ≤ b := by
  have hval : ¬c.val.toNat ≤ 127 := by
    have : c.toNat = c.val.toNat := rfl
    omega
  intro b hb
  rw [UInt8.le_iff_toNat_le]
  rw [String.utf8EncodeChar, if_neg hval] at hb
  split_ifs at hb
  all_goals
    simp only [List.mem_cons, List.not_mem_nil, or_false] at hb
  · rcases hb with rfl | rfl <;> simp <;> omega
  · rcases hb with rfl | rfl | rfl <;> simp <;> omega
  · rcases hb with rfl | rfl | rfl | rfl <;> simp <;> omega

/-- A character of ASCII is one byte. -/
theorem utf8EncodeChar_of_lt {c : Char} (h : c.toNat < 128) :
    String.utf8EncodeChar c = [UInt8.ofNat c.toNat] := by
  have hc := utf8EncodeChar_ofNat c.toNat h
  rwa [Char.ofNat_toNat] at hc

/-- A string that begins with a byte of ASCII and with a character begins with
the byte as that character. -/
theorem utf8EncodeChar_cons {c : Char} {b : UInt8} {s t : Bytes} (hb : b < 128)
    (h : String.utf8EncodeChar c ++ s = b :: t) : c = Char.ofNat b.toNat ∧ s = t := by
  by_cases hc : c.toNat < 128
  · rw [utf8EncodeChar_of_lt hc] at h
    obtain ⟨rfl, rfl⟩ := List.cons.inj h
    refine ⟨?_, rfl⟩
    have hsame : (UInt8.ofNat c.toNat).toNat = c.toNat := by
      rw [UInt8.toNat_ofNat']
      omega
    rw [hsame, Char.ofNat_toNat]
  · cases he : String.utf8EncodeChar c with
    | nil => exact absurd he String.utf8EncodeChar_ne_nil
    | cons d ds =>
      rw [he, List.cons_append] at h
      have hd : d ∈ String.utf8EncodeChar c := by
        rw [he]
        exact List.mem_cons_self
      have hge := le_of_mem_utf8EncodeChar (Nat.not_lt.1 hc) d hd
      rw [(List.cons.inj h).1] at hge
      exact absurd hb (by rw [UInt8.not_lt]; exact hge)

/-- The bytes of a character after the first one go on with it. -/
theorem tail_utf8EncodeChar (c : Char) :
    ∀ b ∈ (String.utf8EncodeChar c).tail, 128 ≤ b ∧ b < 192 := by
  intro b hb
  rw [UInt8.le_iff_toNat_le, UInt8.lt_iff_toNat_lt]
  rw [String.utf8EncodeChar] at hb
  split_ifs at hb
  all_goals
    simp only [List.tail_cons, List.mem_cons, List.not_mem_nil, or_false] at hb
  · rcases hb with rfl
    simp
    omega
  · rcases hb with rfl | rfl <;> simp <;> omega
  · rcases hb with rfl | rfl | rfl <;> simp <;> omega

/-- Two strings that begin with a character each and are one begin with one
character. -/
theorem utf8EncodeChar_append_inj {c d : Char} {s t : Bytes}
    (h : String.utf8EncodeChar c ++ s = String.utf8EncodeChar d ++ t) : c = d ∧ s = t := by
  have hdec := decodeRune_append c s
  rw [h, decodeRune_append] at hdec
  obtain rfl : d = c := congrArg Prod.fst hdec
  exact ⟨rfl, List.append_cancel_left h⟩

/-- A text that begins with a character has the bytes of this character first. -/
theorem eq_append_of_decode {s : Bytes} {c : Char}
    (hc : s.toByteArray.utf8DecodeChar? 0 = some c) :
    s = String.utf8EncodeChar c ++ s.drop c.utf8Size := by
  have hextract := String.toByteArray_utf8EncodeChar_of_utf8DecodeChar?_eq_some hc
  have hlist := congrArg (fun b : ByteArray => b.data.toList) hextract
  simp only [ByteArray.data_extract, List.data_toByteArray, Array.toList_extract,
    List.extract_eq_take_drop] at hlist
  simp only [Nat.sub_zero, List.drop_zero] at hlist
  rw [hlist, List.take_append_drop]

/-- **What a string begins with**: a character, or a byte that begins none. -/
theorem decodeRune_cases (s : Bytes) :
    (∃ c t, s = String.utf8EncodeChar c ++ t ∧ decodeRune s = (c, c.utf8Size)) ∨
      (∀ c t, s ≠ String.utf8EncodeChar c ++ t) ∧ decodeRune s = ('\ufffd', 1) := by
  by_cases h : ∃ c t, s = String.utf8EncodeChar c ++ t
  · obtain ⟨c, t, rfl⟩ := h
    exact .inl ⟨c, t, rfl, decodeRune_append c t⟩
  · refine .inr ⟨fun c t hs => h ⟨c, t, hs⟩, ?_⟩
    rw [decodeRune]
    split
    · next c hc => exact absurd ⟨c, _, eq_append_of_decode hc⟩ h
    · rfl

/-- A string whose first rune is not `U+FFFD` begins with a character. -/
theorem exists_rune {s : Bytes} (h : (decodeRune s).1 ≠ '\ufffd') :
    ∃ t, s = String.utf8EncodeChar (decodeRune s).1 ++ t := by
  rcases decodeRune_cases s with ⟨c, t, hs, hdec⟩ | ⟨-, hdec⟩
  · exact ⟨t, by rw [hdec]; exact hs⟩
  · exact absurd (congrArg Prod.fst hdec) h

/-- `ToLower` takes a text character by character. -/
theorem toLower_utf8EncodeChar (c : Char) (s : Bytes) :
    toLower (String.utf8EncodeChar c ++ s) =
      String.utf8EncodeChar (Unicode.toLower c) ++ toLower s := by
  rw [toLower_eq, toLower_eq, mapRunes, runes_append]
  rfl

/-- **A string that is lowered into ASCII is a text.** -/
theorem text_of_toLower {s : Bytes} (h : ∀ b ∈ toLower s, b < 128) :
    ∃ cs : List Char, s = cs.flatMap String.utf8EncodeChar := by
  induction hn : s.length using Nat.strong_induction_on generalizing s with
  | _ n ih =>
    cases s with
    | nil => exact ⟨[], rfl⟩
    | cons b s =>
      have hrune : (decodeRune (b :: s)).1 ≠ '\ufffd' := by
        intro hr
        have hmem : (0xef : UInt8) ∈ toLower (b :: s) := by
          rw [toLower_eq, mapRunes, runes, runesFrom, List.flatMap_cons, hr]
          exact List.mem_append_left _ (by decide)
        exact absurd (h _ hmem) (by decide)
      obtain ⟨t, ht⟩ := exists_rune hrune
      generalize (decodeRune (b :: s)).1 = c at ht
      rw [ht] at h hn
      have hpos : 0 < (String.utf8EncodeChar c).length :=
        List.length_pos_iff.2 String.utf8EncodeChar_ne_nil
      rw [toLower_utf8EncodeChar] at h
      rw [List.length_append] at hn
      obtain ⟨cs, rfl⟩ := ih t.length (by omega)
        (fun d hd => h d (List.mem_append_right _ hd)) rfl
      exact ⟨c :: cs, ht⟩

/-- **A string that is lowered into ASCII without an `i` or a `k` is of ASCII.**
Beyond ASCII only `U+0130` and the Kelvin sign are lowered into it. -/
theorem ascii_of_toLower {s : Bytes}
    (h : ∀ b ∈ toLower s, b < 128 ∧ b ≠ byte 'i' ∧ b ≠ byte 'k') : ∀ b ∈ s, b < 128 := by
  obtain ⟨cs, rfl⟩ := text_of_toLower fun b hb => (h b hb).1
  induction cs with
  | nil => exact fun b hb => absurd hb List.not_mem_nil
  | cons c cs ih =>
    rw [List.flatMap_cons, toLower_utf8EncodeChar] at h
    intro b hb
    rw [List.flatMap_cons] at hb
    rcases List.mem_append.1 hb with hb | hb
    · by_cases hc : c.toNat < 128
      · rw [utf8EncodeChar_of_lt hc, List.mem_singleton] at hb
        rw [hb, UInt8.lt_iff_toNat_lt, UInt8.toNat_ofNat']
        exact (Nat.mod_le _ _).trans_lt hc
      · exfalso
        -- the first byte of what `c` is lowered to
        obtain ⟨d, hd⟩ := List.exists_mem_of_ne_nil _
          (String.utf8EncodeChar_ne_nil (c := Unicode.toLower c))
        obtain ⟨hlt, hi, hk⟩ := h d (List.mem_append_left _ hd)
        by_cases hdotted : c = '\u0130'
        · rw [hdotted, Unicode.toLower_dotted_i] at hd
          exact hi (List.mem_singleton.1 hd)
        · by_cases hkelvin : c = '\u212a'
          · rw [hkelvin, Unicode.toLower_kelvin] at hd
            exact hk (List.mem_singleton.1 hd)
          · have hge := le_of_mem_utf8EncodeChar
              (Unicode.le_toLower (Nat.not_lt.1 hc) hdotted hkelvin) d hd
            exact absurd hlt (by rw [UInt8.not_lt]; exact hge)
    · exact ih (fun d hd => h d (List.mem_append_right _ hd)) b hb

/-! ### Bytes of ASCII among other bytes -/

/-- **The first rune of a string** is there without a byte of ASCII after it, too. -/
theorem decodeRune_append_cons {s : Bytes} (hs : s ≠ []) {b : UInt8} (hb : b < 128) (t : Bytes) :
    decodeRune (s ++ b :: t) = decodeRune s ∧ (decodeRune s).2 ≤ s.length := by
  have hone : 1 ≤ s.length := List.length_pos_iff.2 hs
  rcases decodeRune_cases s with ⟨c, u, rfl, hdec⟩ | ⟨hnone, hdec⟩
  · rw [hdec, List.append_assoc, decodeRune_append, List.length_append,
      String.length_utf8EncodeChar]
    exact ⟨rfl, Nat.le_add_right _ _⟩
  · rw [hdec]
    refine ⟨?_, hone⟩
    rcases decodeRune_cases (s ++ b :: t) with ⟨c, u, happ, -⟩ | ⟨-, hdec'⟩
    · -- the character would be in `s`, or have the byte in it
      exfalso
      rcases List.append_eq_append_iff.1 happ with ⟨v, hv, hu⟩ | ⟨v, hv, -⟩
      · cases v with
        | nil => exact hnone c [] (by rw [hv, List.append_nil, List.append_nil])
        | cons d v =>
          obtain ⟨rfl, -⟩ := List.cons.inj hu
          have hmem : b ∈ String.utf8EncodeChar c := by
            rw [hv]
            exact List.mem_append_right _ List.mem_cons_self
          have hc : c.toNat < 128 := by
            by_contra hge
            have hle := le_of_mem_utf8EncodeChar (Nat.not_lt.1 hge) b hmem
            exact absurd hb (by rw [UInt8.not_lt]; exact hle)
          have hlen := congrArg List.length hv
          rw [utf8EncodeChar_of_lt hc, List.length_append, List.length_cons] at hlen
          simp only [List.length_cons, List.length_nil] at hlen
          omega
      · exact hnone c v hv
    · exact hdec'

/-- The runes of a text are its first and those of what follows it. -/
theorem runes_eq_cons (b : UInt8) (s : Bytes) :
    runes (b :: s) = (decodeRune (b :: s)).1 :: runes (s.drop ((decodeRune (b :: s)).2 - 1)) := by
  rw [runes, runesFrom, runesFrom_eq]

/-- **A byte of ASCII is a rune**, whatever stands before it. -/
theorem runes_append_cons {b : UInt8} (hb : b < 128) (s t : Bytes) :
    runes (s ++ b :: t) = runes s ++ Char.ofNat b.toNat :: runes t := by
  induction hn : s.length using Nat.strong_induction_on generalizing s with
  | _ n ih =>
    cases s with
    | nil => exact runes_cons hb t
    | cons d s =>
      obtain ⟨hdec, hle⟩ := decodeRune_append_cons (List.cons_ne_nil d s) hb t
      rw [List.length_cons] at hn hle
      rw [List.cons_append] at hdec ⊢
      rw [runes_eq_cons, hdec, List.drop_append_of_le_length (by omega), runes_eq_cons d s,
        ih _ (by rw [List.length_drop]; omega) _ rfl]
      rfl

/-- **A byte of ASCII is lowered by itself**, and so is what stands before and after it. -/
theorem toLower_append_cons {b : UInt8} (hb : b < 128) (s t : Bytes) :
    toLower (s ++ b :: t) = toLower s ++ lowerByte b :: toLower t := by
  rw [toLower_eq, mapRunes, runes_append_cons hb, List.flatMap_append, List.flatMap_cons,
    utf8EncodeChar_toLower b.toNat hb, UInt8.ofNat_toNat, toLower_eq, toLower_eq]
  rfl

/-- A byte of ASCII is in the lowered text in lower case. -/
theorem lowerByte_mem_toLower {s : Bytes} {b : UInt8} (hb : b < 128) (hs : b ∈ s) :
    lowerByte b ∈ toLower s := by
  obtain ⟨u, v, rfl⟩ := List.append_of_mem hs
  rw [toLower_append_cons hb]
  exact List.mem_append_right _ List.mem_cons_self

/-- A rune of ASCII is one of the bytes. -/
theorem mem_of_mem_runes {c : Char} (hc : c.toNat < 128) {s : Bytes} (h : c ∈ runes s) :
    UInt8.ofNat c.toNat ∈ s := by
  induction hn : s.length using Nat.strong_induction_on generalizing s with
  | _ n ih =>
    cases s with
    | nil => exact absurd h List.not_mem_nil
    | cons b s =>
      rw [runes_eq_cons] at h
      rw [List.length_cons] at hn
      rcases List.mem_cons.1 h with heq | h
      · have hrune : (decodeRune (b :: s)).1 ≠ '\ufffd' := by
          rw [← heq]
          rintro rfl
          exact absurd hc (by decide)
        obtain ⟨t, ht⟩ := exists_rune hrune
        rw [ht, ← heq, utf8EncodeChar_of_lt hc]
        exact List.mem_append_left _ (List.mem_singleton_self _)
      · refine List.mem_cons_of_mem _ (List.mem_of_mem_drop (ih _ ?_ h rfl))
        rw [List.length_drop]
        omega

/-- Nothing is lost altogether. -/
theorem toLower_ne_nil {s : Bytes} (h : s ≠ []) : toLower s ≠ [] := by
  cases s with
  | nil => exact absurd rfl h
  | cons b s =>
    rw [toLower_eq, mapRunes, runes_eq_cons, List.flatMap_cons]
    exact List.append_ne_nil_of_left_ne_nil String.utf8EncodeChar_ne_nil _

/-! ### Letters of one lower case -/

/-- A byte of a letter: a letter of ASCII or a byte beyond ASCII. -/
def LetterByte (b : UInt8) : Prop :=
  byte 'a' ≤ b ∧ b ≤ byte 'z' ∨ byte 'A' ≤ b ∧ b ≤ byte 'Z' ∨ 128 ≤ b

instance (b : UInt8) : Decidable (LetterByte b) := inferInstanceAs (Decidable (_ ∨ _))

/-- Letters of ASCII are lowered to letters, and nothing else of ASCII is
lowered. -/
theorem toLower_ascii : ∀ n < 128,
    (Unicode.toLower (Char.ofNat n)).toNat < 128 ∧
      (LetterByte (UInt8.ofNat n) ↔
        LetterByte (UInt8.ofNat (Unicode.toLower (Char.ofNat n)).toNat)) ∧
      (¬LetterByte (UInt8.ofNat n) → Unicode.toLower (Char.ofNat n) = Char.ofNat n) := by
  decide +kernel

/-- **What else is lowered to the same is a letter, too.** -/
theorem letterByte_of_toLower {c d : Char} (hne : c ≠ d)
    (h : Unicode.toLower c = Unicode.toLower d) : ∀ b ∈ String.utf8EncodeChar c, LetterByte b := by
  intro b hb
  by_cases hc : c.toNat < 128
  · rw [utf8EncodeChar_of_lt hc, List.mem_singleton] at hb
    obtain ⟨hlt, hiff, hsame⟩ := toLower_ascii c.toNat hc
    rw [Char.ofNat_toNat] at hlt hiff hsame
    rw [hb]
    by_contra hnot
    by_cases hd : d.toNat < 128
    · obtain ⟨-, hiff', hsame'⟩ := toLower_ascii d.toNat hd
      rw [Char.ofNat_toNat] at hiff' hsame'
      have hd' : ¬LetterByte (UInt8.ofNat d.toNat) := by
        rw [hiff', ← h, ← hiff]
        exact hnot
      exact hne ((hsame hnot).symm.trans (h.trans (hsame' hd')))
    · rw [h] at hlt hiff
      by_cases hi : d = '\u0130'
      · rw [hi, Unicode.toLower_dotted_i] at hiff
        exact hnot (hiff.2 (by decide))
      · by_cases hk : d = '\u212a'
        · rw [hk, Unicode.toLower_kelvin] at hiff
          exact hnot (hiff.2 (by decide))
        · have hge := Unicode.le_toLower (Nat.not_lt.1 hd) hi hk
          omega
  · exact .inr (.inr (le_of_mem_utf8EncodeChar (Nat.not_lt.1 hc) b hb))

/-- Nothing else is lowered to a character of ASCII that is no letter. -/
theorem eq_of_toLower_char {c : Char} (hlt : (Unicode.toLower c).toNat < 128)
    (hb : ¬LetterByte (UInt8.ofNat (Unicode.toLower c).toNat)) : Unicode.toLower c = c := by
  by_contra hne
  obtain ⟨-, -, hfix⟩ := toLower_ascii _ hlt
  rw [Char.ofNat_toNat] at hfix
  refine hb (letterByte_of_toLower hne (hfix hb) _ ?_)
  rw [utf8EncodeChar_of_lt hlt]
  exact List.mem_singleton_self _

/-- **Nothing else is lowered to a byte that is of no letter.** -/
theorem mem_of_mem_toLower {b : UInt8} (hb : ¬LetterByte b) {s : Bytes} (h : b ∈ toLower s) :
    b ∈ s := by
  rw [toLower_eq, mapRunes, List.mem_flatMap] at h
  obtain ⟨c, hc, hmem⟩ := h
  have hlt : (Unicode.toLower c).toNat < 128 := by
    by_contra hge
    exact hb (.inr (.inr (le_of_mem_utf8EncodeChar (Nat.not_lt.1 hge) b hmem)))
  rw [utf8EncodeChar_of_lt hlt, List.mem_singleton] at hmem
  subst hmem
  have hsame := eq_of_toLower_char hlt hb
  rw [hsame] at hlt ⊢
  exact mem_of_mem_runes hlt hc

/-- A string without a letter is lowered to by itself alone. -/
theorem eq_of_toLower {s : Bytes} (h : ∀ b ∈ toLower s, ¬LetterByte b) : toLower s = s := by
  have hascii : ∀ b ∈ toLower s, b < 128 := fun b hb => by
    rw [← UInt8.not_le]
    exact fun hge => h b hb (.inr (.inr hge))
  obtain ⟨cs, rfl⟩ := text_of_toLower hascii
  clear hascii
  induction cs with
  | nil => rfl
  | cons c cs ih =>
    rw [List.flatMap_cons] at h ⊢
    rw [toLower_utf8EncodeChar] at h ⊢
    rw [ih fun b hb => h b (List.mem_append_right _ hb)]
    have hlt : (Unicode.toLower c).toNat < 128 := by
      by_contra hge
      obtain ⟨b, hb⟩ := List.exists_mem_of_ne_nil _
        (String.utf8EncodeChar_ne_nil (c := Unicode.toLower c))
      exact h b (List.mem_append_left _ hb)
        (.inr (.inr (le_of_mem_utf8EncodeChar (Nat.not_lt.1 hge) b hb)))
    have hb := h (UInt8.ofNat (Unicode.toLower c).toNat) (List.mem_append_left _ (by
      rw [utf8EncodeChar_of_lt hlt]
      exact List.mem_singleton_self _))
    rw [eq_of_toLower_char hlt hb]

/-! ### Strings -/

/-- The two strings differ in letter case only.  Letter case is what
`unicode.ToLower` makes of it: two letters are of one case when it makes one of
both.  Pairs that other foldings identify and it does not, such as the two small
sigmas, long `s` and `s`, dotless `i` and `i`, or the micro sign and `mu`, are
not variants of each other. -/
inductive CaseVariant : Bytes → Bytes → Prop
  | nil : CaseVariant [] []
  | same (b : UInt8) {s t : Bytes} (h : CaseVariant s t) : CaseVariant (b :: s) (b :: t)
  | letter {c d : Char} {s t : Bytes} (hc : Unicode.toLower c = Unicode.toLower d)
      (h : CaseVariant s t) :
      CaseVariant (String.utf8EncodeChar c ++ s) (String.utf8EncodeChar d ++ t)

namespace CaseVariant

variable {s t : Bytes}

/-- A text is a variant of itself. -/
theorem refl (s : Bytes) : CaseVariant s s := by
  induction s with
  | nil => exact .nil
  | cons b s ih => exact .same b ih

/-- Two texts are variants of each other. -/
theorem symm (h : CaseVariant s t) : CaseVariant t s := by
  induction h with
  | nil => exact .nil
  | same b _ ih => exact .same b ih
  | letter hc _ ih => exact .letter hc.symm ih

/-- **What two such strings begin with**: one byte, or letters. -/
theorem heads (h : CaseVariant s t) :
    s = [] ∧ t = [] ∨ (∃ b s' t', s = b :: s' ∧ t = b :: t' ∧ CaseVariant s' t') ∨
      ∃ w x s' t', s = w ++ s' ∧ t = x ++ t' ∧ CaseVariant s' t' ∧ w ≠ [] ∧
        (∀ b ∈ w, LetterByte b) ∧ (∀ b ∈ x, LetterByte b) ∧
        ∀ u v, CaseVariant u v → CaseVariant (w ++ u) (x ++ v) := by
  cases h with
  | nil => exact .inl ⟨rfl, rfl⟩
  | same b h => exact .inr (.inl ⟨b, _, _, rfl, rfl, h⟩)
  | @letter c d s' t' hc h =>
    by_cases hcd : c = d
    · subst hcd
      by_cases hlt : c.toNat < 128
      · rw [utf8EncodeChar_of_lt hlt]
        exact .inr (.inl ⟨_, _, _, rfl, rfl, h⟩)
      · have hletter : ∀ b ∈ String.utf8EncodeChar c, LetterByte b := fun b hb =>
          .inr (.inr (le_of_mem_utf8EncodeChar (Nat.not_lt.1 hlt) b hb))
        exact .inr (.inr ⟨_, _, _, _, rfl, rfl, h, String.utf8EncodeChar_ne_nil, hletter, hletter,
          fun u v huv => .letter hc huv⟩)
    · exact .inr (.inr ⟨_, _, _, _, rfl, rfl, h, String.utf8EncodeChar_ne_nil,
        letterByte_of_toLower hcd hc, letterByte_of_toLower (Ne.symm hcd) hc.symm,
        fun u v huv => .letter hc huv⟩)

/-- Two strings of ASCII, letter by letter. -/
theorem of_ascii (h : s.length = t.length)
    (hall : ∀ p ∈ s.zip t, p.1 < 128 ∧ p.2 < 128 ∧
      Unicode.toLower (Char.ofNat p.1.toNat) = Unicode.toLower (Char.ofNat p.2.toNat)) :
    CaseVariant s t := by
  induction s generalizing t with
  | nil => rw [List.eq_nil_of_length_eq_zero h.symm]; exact .nil
  | cons b s ih =>
    cases t with
    | nil => cases h
    | cons c t =>
      obtain ⟨hb, hc, hlower⟩ := hall (b, c) List.mem_cons_self
      have hst := ih (Nat.succ.inj h) fun p hp => hall p (List.mem_cons_of_mem _ hp)
      have hletter := CaseVariant.letter hlower hst
      rwa [utf8EncodeChar_byte hb, utf8EncodeChar_byte hc] at hletter

/-- The empty text has no other variant. -/
theorem nil_inv (h : CaseVariant [] t) : t = [] := by
  rcases h.heads with ⟨-, rfl⟩ | ⟨b, s', t', hnil, -⟩ | ⟨w, x, s', t', hnil, -, -, hw, -⟩
  · rfl
  · cases hnil
  · exact absurd (List.append_eq_nil_iff.1 hnil.symm).1 hw

/-- A byte that is of no letter stands in both. -/
theorem mem (h : CaseVariant s t) {b : UInt8} (hb : ¬LetterByte b) (hs : b ∈ s) : b ∈ t := by
  induction hn : s.length using Nat.strong_induction_on generalizing s t with
  | _ n ih =>
    rcases h.heads with ⟨rfl, -⟩ | ⟨c, s', t', rfl, rfl, hst⟩ |
      ⟨w, x, s', t', rfl, rfl, hst, hw, hletter, -⟩
    · exact absurd hs List.not_mem_nil
    · rw [List.length_cons] at hn
      rcases List.mem_cons.1 hs with rfl | hs
      · exact List.mem_cons_self
      · exact List.mem_cons_of_mem _ (ih s'.length (by omega) hst hs rfl)
    · have hpos : 0 < w.length := List.length_pos_iff.2 hw
      rw [List.length_append] at hn
      rcases List.mem_append.1 hs with hs | hs
      · exact absurd (hletter b hs) hb
      · exact List.mem_append_right _ (ih s'.length (by omega) hst hs rfl)

/-- A byte that goes on with a character stands in both at one place. -/
theorem tail_inv {w : Bytes} (hw : ∀ b ∈ w, 128 ≤ b ∧ b < 192) (h : CaseVariant (w ++ s) t) :
    ∃ t', t = w ++ t' ∧ CaseVariant s t' := by
  induction w generalizing t with
  | nil => exact ⟨t, rfl, h⟩
  | cons b w ih =>
    have hb := hw b List.mem_cons_self
    rw [List.cons_append] at h
    generalize hu : b :: (w ++ s) = u at h
    cases h with
    | nil => cases hu
    | same c h =>
      obtain ⟨rfl, rfl⟩ := List.cons.inj hu
      obtain ⟨t', rfl, ht⟩ := ih (fun d hd => hw d (List.mem_cons_of_mem _ hd)) h
      exact ⟨t', rfl, ht⟩
    | @letter c d s' t' hc h =>
      have hhead : (String.utf8EncodeChar c).head? = some b := by
        cases he : String.utf8EncodeChar c with
        | nil => exact absurd he String.utf8EncodeChar_ne_nil
        | cons x xs =>
          rw [he] at hu
          exact congrArg some (List.cons.inj hu).1.symm
      rcases head_utf8EncodeChar c b hhead with hlt | hge
      · exact absurd hb.1 (by rw [UInt8.not_le]; exact hlt)
      · exact absurd hb.2 (by rw [UInt8.not_lt]; exact hge)

/-- **A character stands in both at one place, up to its case.** -/
theorem char_inv {c : Char} (h : CaseVariant (String.utf8EncodeChar c ++ s) t) :
    ∃ d t', t = String.utf8EncodeChar d ++ t' ∧ Unicode.toLower c = Unicode.toLower d ∧
      CaseVariant s t' := by
  generalize hu : String.utf8EncodeChar c ++ s = u at h
  cases h with
  | nil => exact absurd (List.append_eq_nil_iff.1 hu).1 String.utf8EncodeChar_ne_nil
  | @same b s' t' h =>
    cases he : String.utf8EncodeChar c with
    | nil => exact absurd he String.utf8EncodeChar_ne_nil
    | cons x xs =>
      rw [he] at hu
      obtain ⟨rfl, rfl⟩ := List.cons.inj hu
      have htail := tail_utf8EncodeChar c
      rw [he] at htail
      obtain ⟨t', rfl, ht⟩ := tail_inv htail h
      exact ⟨c, t', by rw [he]; rfl, rfl, ht⟩
  | @letter e d s' t' hc h =>
    obtain ⟨rfl, rfl⟩ := utf8EncodeChar_append_inj hu
    exact ⟨d, t', rfl, hc, h⟩

/-- A byte of ASCII stands in both at one place, up to its case. -/
theorem cons_inv {b : UInt8} (hb : b < 128) (h : CaseVariant (b :: s) t) :
    ∃ d t', t = String.utf8EncodeChar d ++ t' ∧
      Unicode.toLower (Char.ofNat b.toNat) = Unicode.toLower d ∧ CaseVariant s t' := by
  have hsplit : b :: s = String.utf8EncodeChar (Char.ofNat b.toNat) ++ s := by
    rw [utf8EncodeChar_byte hb]
    rfl
  rw [hsplit] at h
  exact char_inv h

/-- **Two strings that differ in letter case are lowered to one**, where this is
ASCII. -/
theorem toLower_eq (h : CaseVariant s t) (hs : ∀ b ∈ toLower s, b < 128) :
    toLower t = toLower s := by
  obtain ⟨cs, rfl⟩ := text_of_toLower hs
  clear hs
  induction cs generalizing t with
  | nil => rw [h.nil_inv]; rfl
  | cons c cs ih =>
    rw [List.flatMap_cons] at h ⊢
    obtain ⟨d, t', rfl, hd, h⟩ := char_inv h
    rw [toLower_utf8EncodeChar, toLower_utf8EncodeChar, ih h, hd]

end CaseVariant

/-! ### Texts -/

/-- `strings.ToLower` on a text. -/
def lowerText (s : String) : String := String.ofList (s.toList.map Unicode.toLower)

/-- A lowered text has as many characters. -/
theorem length_lowerText (s : String) : (lowerText s).length = s.length := by
  rw [lowerText, String.length_ofList, List.length_map, String.length_toList]

/-- **Texts that differ in letter case are lowered to one.** -/
theorem lowerText_of_variant {s t : String} (h : CaseVariant (utf8 s) (utf8 t)) :
    lowerText s = lowerText t := by
  have hchars : ∀ cs ds : List Char,
      CaseVariant (cs.flatMap String.utf8EncodeChar) (ds.flatMap String.utf8EncodeChar) →
        cs.map Unicode.toLower = ds.map Unicode.toLower := by
    intro cs
    induction cs with
    | nil =>
      intro ds h
      cases ds with
      | nil => rfl
      | cons d ds =>
        exact absurd (List.append_eq_nil_iff.1 h.nil_inv).1 String.utf8EncodeChar_ne_nil
    | cons c cs ih =>
      intro ds h
      rw [List.flatMap_cons] at h
      obtain ⟨d, t, ht, hd, hst⟩ := h.char_inv
      cases ds with
      | nil => exact absurd (List.append_eq_nil_iff.1 ht.symm).1 String.utf8EncodeChar_ne_nil
      | cons e ds =>
        rw [List.flatMap_cons] at ht
        obtain ⟨rfl, rfl⟩ := utf8EncodeChar_append_inj ht
        rw [List.map_cons, List.map_cons, hd, ih ds hst]
  rw [lowerText, hchars _ _ h, lowerText]

/-- White space is lowered to itself. -/
theorem toLower_space : ∀ c ∈ spaces, Unicode.toLower c = c := by decide +kernel

/-- No letter is lowered to white space. -/
theorem caseRanges_not_space : ∀ r ∈ Unicode.caseRanges, ∀ c ∈ spaces,
    r.covers ((c.toNat : ℤ) - r.delta).toNat = false := by
  decide +kernel

/-- The ranges of letters are moved to characters, and never among the surrogates. -/
theorem caseRanges_valid : ∀ r ∈ Unicode.caseRanges,
    0 ≤ r.lo + r.delta ∧ (r.hi + r.delta < 55296 ∨
      57343 < r.lo + r.delta ∧ r.hi + r.delta < 1114112) := by
  decide +kernel

/-- No letter of ASCII is lowered to white space. -/
theorem toLower_ascii_space : ∀ n < 128, Unicode.toLower (Char.ofNat n) ∈ spaces →
    Char.ofNat n ∈ spaces := by
  decide +kernel

/-- **White space and the case of letters** have nothing to do with each other. -/
theorem isSpace_toLower (c : Char) : isSpace (Unicode.toLower c) = isSpace c := by
  refine Bool.eq_iff_iff.2 ?_
  rw [isSpace_iff, isSpace_iff]
  refine ⟨fun h => ?_, fun h => by rwa [toLower_space c h]⟩
  by_cases hc : c.toNat < 128
  · have hascii := toLower_ascii_space c.toNat hc
    rw [Char.ofNat_toNat] at hascii
    exact hascii h
  · rw [Unicode.toLower, if_neg hc] at h
    split at h
    · next r hr =>
      have hmem := List.mem_of_find?_eq_some hr
      have hcov : r.covers c.toNat = true := by simpa using List.find?_some hr
      obtain ⟨hlo, hhi, -⟩ := of_decide_eq_true hcov
      obtain ⟨hpos, hvalid⟩ := caseRanges_valid r hmem
      have hval : (Char.ofNat (c.toNat + r.delta).toNat).toNat = (c.toNat + r.delta).toNat :=
        Unicode.toNat_ofNat (by omega)
      have hnot := caseRanges_not_space r hmem _ h
      have hback : (((c.toNat + r.delta).toNat : ℤ) - r.delta).toNat = c.toNat := by omega
      rw [hval, hback, hcov] at hnot
      cases hnot
    · exact h

/-- **White space is trimmed before a text is lowered and after it alike.** -/
theorem lowerText_trimSpace (s : String) : lowerText (trimSpace s) = trimSpace (lowerText s) := by
  have hcomp : isSpace ∘ Unicode.toLower = isSpace := funext isSpace_toLower
  rw [lowerText, trimSpace, trimSpace, lowerText, String.toList_ofList, String.toList_ofList,
    List.dropWhile_map, hcomp, ← List.map_reverse, List.dropWhile_map, hcomp, ← List.map_reverse]

end YtShare
