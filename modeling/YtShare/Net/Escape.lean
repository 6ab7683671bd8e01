/-
# Percent-encoding

`shouldEscape`, `unescape` and `QueryEscape` of `net/url`.  The parts of a URL
are decoded alike but for three rules: a `+` is a space in a query, a host may
hold no byte that it cannot show, and what it percent-encodes is either no
ASCII or the percent sign.

Decoding never makes a string longer and keeps its length only when there is
nothing to decode, so what a decoder gives back unchanged is what it passes
through byte by byte (`unescape_eq_self_iff`).  `QueryEscape` is undone by the
decoder of queries (`unescape_queryEscape`); the decoder of user names and
passwords undoes it but for the spaces (`unescape_userPassword_queryEscape`).
-/

import YtShare.Core.Bytes
import YtShare.Lib.Except

namespace YtShare
namespace URL

open Lib

/-- The errors of `Parse`. -/
inductive ParseError
  /-- `net/url: invalid control character in URL` -/
  | controlCharacter
  /-- `missing protocol scheme` -/
  | missingScheme
  /-- `first path segment in URL cannot contain colon` -/
  | colonInFirstSegment
  /-- `net/url: invalid userinfo` -/
  | invalidUserinfo
  /-- `missing ']' in host` -/
  | missingBracket
  /-- `invalid port %q after host` -/
  | invalidPort (port : Bytes)
  /-- `EscapeError` -/
  | escape (s : Bytes)
  /-- `InvalidHostError` -/
  | invalidHost (s : Bytes)
deriving DecidableEq

/-- `encoding`: the part of a URL that is decoded. -/
inductive Encoding
  | path
  | host
  | zone
  | userPassword
  | queryComponent
  | fragment
deriving DecidableEq

/-- A letter of ASCII. -/
def isAlpha (c : UInt8) : Bool :=
  decide (byte 'a' ≤ c ∧ c ≤ byte 'z' ∨ byte 'A' ≤ c ∧ c ≤ byte 'Z')

/-- A digit. -/
def isDigit (c : UInt8) : Bool := decide (byte '0' ≤ c ∧ c ≤ byte '9')

/-- `shouldEscape`. -/
def shouldEscape (c : UInt8) (mode : Encoding) : Bool :=
  if isAlpha c || isDigit c then false
  else if (mode = .host ∨ mode = .zone) ∧ c ∈ utf8 "!$&'()*+,;=:[]<>\"" then false
  else if c ∈ utf8 "-_.~" then false
  else if c ∈ utf8 "$&+,/:;=?@" then
    match mode with
    | .path => decide (c = byte '?')
    | .userPassword => decide (c ∈ utf8 "@/?:")
    | .queryComponent => true
    | .fragment => false
    | .host | .zone => true
  else if mode = .fragment ∧ c ∈ utf8 "!()*" then false
  else true

/-- `ishex`. -/
def ishex (c : UInt8) : Bool :=
  isDigit c || decide (byte 'a' ≤ c ∧ c ≤ byte 'f' ∨ byte 'A' ≤ c ∧ c ≤ byte 'F')

/-- `unhex`. -/
def unhex (c : UInt8) : UInt8 :=
  if isDigit c then c - byte '0'
  else if byte 'a' ≤ c ∧ c ≤ byte 'f' then c - byte 'a' + 10
  else if byte 'A' ≤ c ∧ c ≤ byte 'F' then c - byte 'A' + 10
  else 0

/-- What `%ab` writes. -/
def unhex2 (a b : UInt8) : UInt8 := unhex a <<< 4 ||| unhex b

/-- The check of `unescape` on a well-formed `%ab`: a host encodes no ASCII but
the percent sign, and a zone only what it could also show, or a space. -/
def allowed (mode : Encoding) (a b : UInt8) : Bool :=
  match mode with
  | .host => decide (8 ≤ unhex a ∨ (a, b) = (byte '2', byte '5'))
  | .zone =>
      decide ((a, b) = (byte '2', byte '5') ∨ unhex2 a b = byte ' ') ||
        !shouldEscape (unhex2 a b) .host
  | _ => true

/-- The byte is left as it is: `unescape` rejects what a host cannot show. -/
def shown (mode : Encoding) (c : UInt8) : Bool :=
  !(decide (mode = .host ∨ mode = .zone) && decide (c < 128) && shouldEscape c mode)

/-- `unescape`. -/
def unescape (mode : Encoding) : Bytes → Except ParseError Bytes
  | [] => .ok []
  | c :: s =>
      if c = byte '%' then
        match s with
        | a :: b :: t =>
            if ishex a && ishex b && allowed mode a b then
              (unescape mode t).map (unhex2 a b :: ·)
            else .error (.escape [c, a, b])
        | _ => .error (.escape (c :: s))
      else if c = byte '+' then
        (unescape mode s).map ((if mode = .queryComponent then byte ' ' else byte '+') :: ·)
      else if shown mode c then (unescape mode s).map (c :: ·)
      else .error (.invalidHost [c])

/-- The hexadecimal digits of `escape`. -/
def upperhex (n : UInt8) : UInt8 := (utf8 "0123456789ABCDEF").getD n.toNat 0

/-- `QueryEscape` of one byte. -/
def queryEscapeByte (c : UInt8) : Bytes :=
  if c = byte ' ' then [byte '+']
  else if shouldEscape c .queryComponent then [byte '%', upperhex (c >>> 4), upperhex (c &&& 15)]
  else [c]

/-- `QueryEscape`. -/
def queryEscape (s : Bytes) : Bytes := s.flatMap queryEscapeByte

/-! ### Decoding -/

/-- What holds of the 256 values holds of every byte. -/
theorem forall_byte {P : UInt8 → Prop} (h : ∀ n < 256, P (UInt8.ofNat n)) (c : UInt8) : P c := by
  have hc := h c.toNat c.toNat_lt
  rwa [UInt8.ofNat_toNat] at hc

/-- The decoder of this part passes the byte through. -/
def Plain (mode : Encoding) (c : UInt8) : Prop :=
  c ≠ byte '%' ∧ (c = byte '+' → mode ≠ .queryComponent) ∧ shown mode c = true

instance (mode : Encoding) (c : UInt8) : Decidable (Plain mode c) :=
  inferInstanceAs (Decidable (_ ∧ (_ → _) ∧ _))

/-- A `+` is shown everywhere. -/
theorem shown_plus (mode : Encoding) : shown mode (byte '+') = true := by
  cases mode <;> decide

/-- A percent sign and two digits give the byte of the escape, where it is allowed. -/
theorem unescape_percent (mode : Encoding) (a b : UInt8) (s : Bytes) :
    unescape mode (byte '%' :: a :: b :: s) =
      if ishex a && ishex b && allowed mode a b then (unescape mode s).map (unhex2 a b :: ·)
      else .error (.escape [byte '%', a, b]) := by
  rw [unescape.eq_def]
  rfl

/-- A `+` is a space in a query, and itself elsewhere. -/
theorem unescape_plus (mode : Encoding) (s : Bytes) :
    unescape mode (byte '+' :: s) =
      (unescape mode s).map ((if mode = .queryComponent then byte ' ' else byte '+') :: ·) := by
  rw [unescape.eq_def]
  rfl

/-- Any other byte stays as it is, where it may be shown. -/
theorem unescape_other (mode : Encoding) {c : UInt8} (hp : c ≠ byte '%') (hplus : c ≠ byte '+')
    (s : Bytes) :
    unescape mode (c :: s) =
      if shown mode c then (unescape mode s).map (c :: ·) else .error (.invalidHost [c]) := by
  rw [unescape.eq_def]
  simp only
  rw [if_neg hp, if_neg hplus]

/-- A byte that is passed through. -/
theorem unescape_cons {mode : Encoding} {c : UInt8} (h : Plain mode c) (s : Bytes) :
    unescape mode (c :: s) = (unescape mode s).map (c :: ·) := by
  by_cases hplus : c = byte '+'
  · rw [hplus, unescape_plus, if_neg (h.2.1 hplus)]
  · rw [unescape_other mode h.1 hplus, if_pos h.2.2]

/-- **A text of plain bytes** is read as it is written. -/
theorem unescape_of_plain {mode : Encoding} {s : Bytes} (h : ∀ c ∈ s, Plain mode c) :
    unescape mode s = .ok s := by
  induction s with
  | nil => rfl
  | cons c s ih =>
    rw [unescape_cons (h c List.mem_cons_self), ih fun d hd => h d (List.mem_cons_of_mem _ hd)]
    rfl

/-- **What `unescape` takes off the front of a string it accepts**: an escape or
one byte, and what these write. -/
theorem unescape_eq_ok {mode : Encoding} {c : UInt8} {s t : Bytes}
    (h : unescape mode (c :: s) = .ok t) :
    ∃ w d u v, c :: s = w ++ u ∧ unescape mode u = .ok v ∧ t = d :: v ∧ u.length ≤ s.length ∧
      (∀ x, unescape mode (w ++ x) = (unescape mode x).map (d :: ·)) ∧
      (w = [c] ∧ c ≠ byte '%' ∧
          (Plain mode c ∧ d = c ∨ c = byte '+' ∧ mode = .queryComponent ∧ d = byte ' ') ∨
        c = byte '%' ∧ ∃ a b, w = [c, a, b] ∧ ishex a = true ∧ ishex b = true ∧
          allowed mode a b = true ∧ d = unhex2 a b) := by
  by_cases hp : c = byte '%'
  · subst hp
    match s, h with
    | [], h => cases h
    | [a], h => cases h
    | a :: b :: u, h =>
      rw [unescape_percent] at h
      split_ifs at h with hok
      obtain ⟨v, hv, rfl⟩ := ok_of_map h
      have hlen : u.length ≤ (a :: b :: u).length := by
        rw [List.length_cons, List.length_cons]
        omega
      have hstep : ∀ x, unescape mode ([byte '%', a, b] ++ x) =
          (unescape mode x).map (unhex2 a b :: ·) := by
        intro x
        show unescape mode (byte '%' :: a :: b :: x) = _
        rw [unescape_percent, if_pos hok]
      rw [Bool.and_eq_true, Bool.and_eq_true] at hok
      exact ⟨[byte '%', a, b], _, u, v, rfl, hv, rfl, hlen, hstep,
        .inr ⟨rfl, a, b, rfl, hok.1.1, hok.1.2, hok.2, rfl⟩⟩
  · by_cases hplus : c = byte '+'
    · subst hplus
      rw [unescape_plus] at h
      obtain ⟨v, hv, rfl⟩ := ok_of_map h
      refine ⟨[byte '+'], _, s, v, rfl, hv, rfl, Nat.le_refl _, fun x => unescape_plus mode x,
        .inl ⟨rfl, hp, ?_⟩⟩
      split_ifs with hq
      · exact .inr ⟨rfl, hq, rfl⟩
      · exact .inl ⟨⟨hp, fun _ => hq, shown_plus mode⟩, rfl⟩
    · rw [unescape_other mode hp hplus] at h
      split_ifs at h with hshown
      obtain ⟨v, hv, rfl⟩ := ok_of_map h
      have hplain : Plain mode c := ⟨hp, fun he => absurd he hplus, hshown⟩
      exact ⟨[c], c, s, v, rfl, hv, rfl, Nat.le_refl _, fun x => unescape_cons hplain x,
        .inl ⟨rfl, hp, .inl ⟨hplain, rfl⟩⟩⟩

/-- **What a part decodes to is decoded apart from what follows.** -/
theorem unescape_append {mode : Encoding} {s t : Bytes} (h : unescape mode s = .ok t)
    (u : Bytes) : unescape mode (s ++ u) = (unescape mode u).map (t ++ ·) := by
  induction hn : s.length using Nat.strong_induction_on generalizing s t with
  | _ n ih =>
    cases s with
    | nil =>
      cases h
      show unescape mode u = _
      cases unescape mode u <;> rfl
    | cons c s =>
      obtain ⟨w, d, r, v, hw, hr, rfl, hlen, hstep, -⟩ := unescape_eq_ok h
      rw [List.length_cons] at hn
      rw [hw, List.append_assoc, hstep, ih r.length (by omega) hr rfl]
      cases unescape mode u <;> rfl

/-- **What a byte that is passed through separates is decoded apart**, when it is
no part of an escape. -/
theorem unescape_split {mode : Encoding} {c : UInt8} (hc : Plain mode c) (hhex : ishex c = false)
    {s u t : Bytes} (h : unescape mode (s ++ c :: u) = .ok t) :
    ∃ v w, unescape mode s = .ok v ∧ unescape mode u = .ok w ∧ t = v ++ c :: w := by
  induction hn : s.length using Nat.strong_induction_on generalizing s t with
  | _ n ih =>
    cases s with
    | nil =>
      rw [List.nil_append, unescape_cons hc] at h
      obtain ⟨w, hw, rfl⟩ := ok_of_map h
      exact ⟨[], w, rfl, hw, rfl⟩
    | cons x s =>
      obtain ⟨f, d, r, v, hf, hr, rfl, -, hstep, hcase⟩ := unescape_eq_ok h
      rw [List.length_cons] at hn
      -- what is left after the first byte or escape still has the separator
      obtain ⟨s', hs', hr', hlen⟩ : ∃ s', x :: s = f ++ s' ∧ r = s' ++ c :: u ∧
          s'.length ≤ s.length := by
        rcases hcase with ⟨rfl, -⟩ | ⟨-, a, b, rfl, ha, hb, -⟩
        · exact ⟨s, rfl, (List.cons.inj hf).2.symm, Nat.le_refl _⟩
        · match s, hf with
          | [], hf =>
            obtain rfl : c = a := (List.cons.inj (List.cons.inj hf).2).1
            rw [hhex] at ha
            cases ha
          | [y], hf =>
            obtain rfl : c = b := (List.cons.inj (List.cons.inj (List.cons.inj hf).2).2).1
            rw [hhex] at hb
            cases hb
          | y :: z :: s', hf =>
            simp only [List.cons_append, List.nil_append, List.cons.injEq] at hf
            obtain ⟨-, rfl, rfl, rfl⟩ := hf
            refine ⟨s', rfl, rfl, ?_⟩
            rw [List.length_cons, List.length_cons]
            omega
      subst hr'
      obtain ⟨v', w, hv', hw, rfl⟩ := ih s'.length (by omega) hr rfl
      refine ⟨d :: v', w, ?_, hw, rfl⟩
      rw [hs', hstep, hv']
      rfl

/-- Decoding makes a string no longer, and shorter where it holds an escape. -/
theorem length_unescape {mode : Encoding} {s t : Bytes} (h : unescape mode s = .ok t) :
    t.length ≤ s.length ∧ (byte '%' ∈ s → t.length < s.length) := by
  induction hn : s.length using Nat.strong_induction_on generalizing s t with
  | _ n ih =>
    cases s with
    | nil => cases h; exact ⟨Nat.zero_le _, fun hm => absurd hm List.not_mem_nil⟩
    | cons c s =>
      obtain ⟨w, d, r, v, hw, hr, rfl, hlen, -, hcase⟩ := unescape_eq_ok h
      rw [List.length_cons] at hn
      obtain ⟨hle, hlt⟩ := ih r.length (by omega) hr rfl
      have htotal := congrArg List.length hw
      rw [List.length_append, List.length_cons] at htotal
      rcases hcase with ⟨rfl, hc, -⟩ | ⟨-, a, b, rfl, -⟩
      · rw [List.length_singleton] at htotal
        refine ⟨by rw [List.length_cons]; omega, fun hm => ?_⟩
        rw [hw] at hm
        have hr' : byte '%' ∈ r := by
          rcases List.mem_append.1 hm with hm | hm
          · exact absurd (List.mem_singleton.1 hm).symm hc
          · exact hm
        have := hlt hr'
        rw [List.length_cons]
        omega
      · have hthree : [c, a, b].length = 3 := rfl
        refine ⟨by rw [List.length_cons]; omega, fun _ => ?_⟩
        rw [List.length_cons]
        omega

/-- **A string is decoded to itself exactly when every byte is passed through.** -/
theorem unescape_eq_self_iff {mode : Encoding} {s : Bytes} :
    unescape mode s = .ok s ↔ ∀ c ∈ s, Plain mode c := by
  refine ⟨fun h => ?_, unescape_of_plain⟩
  have hp : byte '%' ∉ s := fun hm => Nat.lt_irrefl _ ((length_unescape h).2 hm)
  induction s with
  | nil => exact fun c hc => absurd hc List.not_mem_nil
  | cons c s ih =>
    obtain ⟨w, d, r, v, hw, hr, hv, -, -, hcase⟩ := unescape_eq_ok h
    rcases hcase with ⟨rfl, -, hd⟩ | ⟨rfl, -⟩
    · obtain ⟨rfl, rfl⟩ := List.cons.inj hv
      obtain rfl : s = r := (List.cons.inj hw).2
      have htail := ih hr fun hm => hp (List.mem_cons_of_mem _ hm)
      rcases hd with ⟨hplain, -⟩ | ⟨hplus, -, hspace⟩
      · intro x hx
        rcases List.mem_cons.1 hx with rfl | hx
        · exact hplain
        · exact htail x hx
      · exact absurd (hplus.symm.trans hspace) (by decide)
    · exact absurd List.mem_cons_self hp

/-! ### Hosts -/

/-- A byte that a decoded host may hold. -/
def HostByte (c : UInt8) : Prop :=
  128 ≤ c ∨ shouldEscape c .host = false ∨ c = byte '%' ∨ c = byte ' '

instance (c : UInt8) : Decidable (HostByte c) := inferInstanceAs (Decidable (_ ∨ _ ∨ _ ∨ _))

/-- A digit of an escape is worth less than sixteen, and so is what is none. -/
theorem unhex_lt : ∀ c : UInt8, unhex c < 16 := forall_byte (by decide +kernel)

/-- An escape whose first digit is 8 or more is no ASCII. -/
theorem le_unhex2 : ∀ m < 16, ∀ n < 16, 8 ≤ m →
    (128 : UInt8) ≤ UInt8.ofNat m <<< 4 ||| UInt8.ofNat n := by
  decide +kernel

/-- A byte that a host passes through may stand in a decoded host. -/
theorem hostByte_of_plain {mode : Encoding} (hm : mode = .host ∨ mode = .zone) :
    ∀ c : UInt8, Plain mode c → HostByte c := by
  rcases hm with rfl | rfl <;> exact forall_byte (by decide +kernel)

/-- So may a byte that a host may have encoded. -/
theorem hostByte_of_allowed {mode : Encoding} (hm : mode = .host ∨ mode = .zone) {a b : UInt8}
    (h : allowed mode a b = true) : HostByte (unhex2 a b) := by
  rcases hm with rfl | rfl
  · rcases of_decide_eq_true h with h | h
    · have hge := le_unhex2 (unhex a).toNat (unhex_lt a) (unhex b).toNat (unhex_lt b) h
      rw [UInt8.ofNat_toNat, UInt8.ofNat_toNat] at hge
      exact .inl hge
    · obtain ⟨rfl, rfl⟩ := Prod.mk.inj h
      decide
  · rcases Bool.or_eq_true _ _ ▸ h with h | h
    · rcases of_decide_eq_true h with h | h
      · obtain ⟨rfl, rfl⟩ := Prod.mk.inj h
        decide
      · exact .inr (.inr (.inr h))
    · exact .inr (.inl (by simpa using h))

/-- **What a host decodes to**: no byte but those it can show or encode. -/
theorem hostByte_of_unescape {mode : Encoding} (hm : mode = .host ∨ mode = .zone) {s t : Bytes}
    (h : unescape mode s = .ok t) : ∀ c ∈ t, HostByte c := by
  induction hn : s.length using Nat.strong_induction_on generalizing s t with
  | _ n ih =>
    cases s with
    | nil => cases h; exact fun c hc => absurd hc List.not_mem_nil
    | cons c s =>
      obtain ⟨w, d, r, v, hw, hr, rfl, hlen, -, hcase⟩ := unescape_eq_ok h
      rw [List.length_cons] at hn
      have hd : HostByte d := by
        rcases hcase with ⟨-, -, ⟨hplain, rfl⟩ | ⟨-, rfl, -⟩⟩ | ⟨-, a, b, -, -, -, hall, rfl⟩
        · exact hostByte_of_plain hm _ hplain
        · rcases hm with hm | hm <;> cases hm
        · exact hostByte_of_allowed hm hall
      intro x hx
      rcases List.mem_cons.1 hx with rfl | hx
      · exact hd
      · exact ih r.length (by omega) hr rfl x hx

/-! ### `QueryEscape` -/

/-- A byte that `QueryEscape` writes. -/
def Escaped (c : UInt8) : Prop :=
  isAlpha c = true ∨ isDigit c = true ∨ c ∈ utf8 "-_.~%+"

instance (c : UInt8) : Decidable (Escaped c) := inferInstanceAs (Decidable (_ ∨ _ ∨ _))

/-- `QueryEscape` writes letters, digits and the signs of an escaped text for every
byte. -/
theorem escaped_queryEscapeByte : ∀ c : UInt8, ∀ d ∈ queryEscapeByte c, Escaped d :=
  forall_byte (by decide +kernel)

/-- And for every text. -/
theorem escaped_queryEscape (s : Bytes) : ∀ d ∈ queryEscape s, Escaped d := by
  intro d hd
  obtain ⟨c, -, hd⟩ := List.mem_flatMap.1 hd
  exact escaped_queryEscapeByte c d hd

/-- Each byte comes back from its escape in a query. -/
theorem unescape_queryEscapeByte : ∀ c : UInt8,
    unescape .queryComponent (queryEscapeByte c) = .ok [c] :=
  forall_byte (by decide +kernel)

/-- The decoder of user names and passwords leaves a `+` as it is. -/
def plusForSpace (c : UInt8) : UInt8 := if c = byte ' ' then byte '+' else c

/-- In a password it comes back too, except that a space is a `+` there. -/
theorem unescape_userPassword_queryEscapeByte : ∀ c : UInt8,
    unescape .userPassword (queryEscapeByte c) = .ok [plusForSpace c] :=
  forall_byte (by decide +kernel)

/-- **The decoder of queries undoes `QueryEscape`.** -/
theorem unescape_queryEscape (s : Bytes) : unescape .queryComponent (queryEscape s) = .ok s := by
  induction s with
  | nil => rfl
  | cons c s ih =>
    show unescape _ (queryEscapeByte c ++ queryEscape s) = _
    rw [unescape_append (unescape_queryEscapeByte c), ih]
    rfl

/-- **The decoder of user names and passwords undoes `QueryEscape`, but for the
spaces.** -/
theorem unescape_userPassword_queryEscape (s : Bytes) :
    unescape .userPassword (queryEscape s) = .ok (s.map plusForSpace) := by
  induction s with
  | nil => rfl
  | cons c s ih =>
    show unescape _ (queryEscapeByte c ++ queryEscape s) = _
    rw [unescape_append (unescape_userPassword_queryEscapeByte c), ih]
    rfl

end URL
end YtShare
