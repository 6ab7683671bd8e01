/-
# Hosts in another letter case

Two hosts of URLs that differ in letter case only are decoded alike
(`unescape_variant`): what is no letter stands in both, a letter is passed
through in either case, and the digits of an escape mean the same.

A host that is no IP literal and has no port is decoded as it stands
(`parseHost_of_not_special`).  Where it is one or has one, what is left of it in
the parsed URL still shows the bracket or the colon (`mem_of_special`).
-/

import YtShare.Core.LetterCase
import YtShare.Net.URL

namespace YtShare
namespace URL

open Lib

/-! ### Decoding -/

/-- The digits of an escape in another letter case. -/
theorem hex_ascii : ∀ m < 128, ∀ n < 128,
    ishex (UInt8.ofNat m) = true ∧
        Unicode.toLower (Char.ofNat m) = Unicode.toLower (Char.ofNat n) →
      ishex (UInt8.ofNat n) = true ∧ unhex (UInt8.ofNat n) = unhex (UInt8.ofNat m) ∧
        (isDigit (UInt8.ofNat m) = true → m = n) := by
  decide +kernel

/-- A digit of an escape is lowered into ASCII, and is not one of the letters that
others are lowered to. -/
theorem hex_lower : ∀ m < 128, ishex (UInt8.ofNat m) = true →
    (Unicode.toLower (Char.ofNat m)).toNat < 128 ∧
      Unicode.toLower (Char.ofNat m) ≠ 'i' ∧ Unicode.toLower (Char.ofNat m) ≠ 'k' := by
  decide +kernel

/-- A digit of an escape is of ASCII. -/
theorem lt_of_ishex : ∀ c : UInt8, ishex c = true → c < 128 := forall_byte (by decide +kernel)

/-- **A digit of an escape stands in both hosts at one place.** -/
theorem ishex_inv {a : UInt8} {s t : Bytes} (ha : ishex a = true) (h : CaseVariant (a :: s) t) :
    ∃ a' t', t = a' :: t' ∧ ishex a' = true ∧ unhex a' = unhex a ∧
      (isDigit a = true → a = a') ∧ CaseVariant s t' := by
  have hlt := lt_of_ishex a ha
  have hnat : a.toNat < 128 := hlt
  obtain ⟨d, t', rfl, hd, hst⟩ := h.cons_inv hlt
  have hback : UInt8.ofNat a.toNat = a := UInt8.ofNat_toNat
  have hdlt : d.toNat < 128 := by
    obtain ⟨hlow, hi, hk⟩ := hex_lower a.toNat hnat (by rw [hback]; exact ha)
    rw [hd] at hlow hi hk
    by_contra hnot
    have hge := Unicode.le_toLower (Nat.not_lt.1 hnot)
      (fun he => hi (by rw [he, Unicode.toLower_dotted_i]))
      (fun he => hk (by rw [he, Unicode.toLower_kelvin]))
    omega
  have hdchar : Char.ofNat d.toNat = d := Char.ofNat_toNat d
  obtain ⟨hhex, hval, hdigit⟩ := hex_ascii a.toNat hnat d.toNat hdlt
    ⟨by rw [hback]; exact ha, by rw [hdchar]; exact hd⟩
  refine ⟨UInt8.ofNat d.toNat, t', ?_, hhex, by rw [hval, hback], fun hdig => ?_, hst⟩
  · rw [utf8EncodeChar_of_lt hdlt]
    rfl
  · rw [← hdigit (by rw [hback]; exact hdig), hback]

/-- A host may encode the same, whatever the case of the digits. -/
theorem allowed_host {a b a' b' : UInt8} (ha : unhex a' = unhex a)
    (hda : isDigit a = true → a = a') (hdb : isDigit b = true → b = b')
    (h : allowed .host a b = true) : allowed .host a' b' = true := by
  refine decide_eq_true ?_
  rw [ha]
  refine (of_decide_eq_true h).imp_right fun he => ?_
  obtain ⟨rfl, rfl⟩ := Prod.mk.inj he
  rw [← hda (by decide), ← hdb (by decide)]

/-- A letter of a host is read as it is written. -/
theorem letterByte_plain : ∀ c : UInt8, LetterByte c → Plain .host c :=
  forall_byte (by decide +kernel)

/-- **Hosts that differ in letter case are decoded alike.** -/
theorem unescape_variant {s t u : Bytes} (h : CaseVariant s t) (hs : unescape .host s = .ok u) :
    ∃ v, unescape .host t = .ok v ∧ CaseVariant u v := by
  induction hn : s.length using Nat.strong_induction_on generalizing s t u with
  | _ n ih =>
    rcases h.heads with ⟨rfl, rfl⟩ | ⟨c, s', t', rfl, rfl, hst⟩ |
      ⟨w, x, s', t', rfl, rfl, hst, hw, hletter, hletter', hjoin⟩
    · cases hs
      exact ⟨[], rfl, .nil⟩
    · rw [List.length_cons] at hn
      obtain ⟨r, d, rest, v, hsplit, hrest, rfl, hlen, hstep, hcase⟩ := unescape_eq_ok hs
      rcases hcase with ⟨rfl, hp, hd⟩ | ⟨rfl, a, b, rfl, ha, hb, hall, rfl⟩
      · -- the byte is passed through
        obtain rfl : s' = rest := (List.cons.inj hsplit).2
        rcases hd with ⟨hplain, rfl⟩ | ⟨-, hmode, -⟩
        · obtain ⟨v', hv', hvar⟩ := ih s'.length (by omega) hst hrest rfl
          refine ⟨d :: v', ?_, .same d hvar⟩
          rw [unescape_cons hplain, hv']
          rfl
        · cases hmode
      · -- the byte begins an escape
        obtain rfl : s' = a :: b :: rest := (List.cons.inj hsplit).2
        obtain ⟨a', t₁, rfl, ha', haval, hadig, h₁⟩ := ishex_inv ha hst
        obtain ⟨b', t₂, rfl, hb', hbval, hbdig, h₂⟩ := ishex_inv hb h₁
        obtain ⟨v', hv', hvar⟩ := ih rest.length (by
          rw [List.length_cons, List.length_cons] at hn
          omega) h₂ hrest rfl
        have hsame : unhex2 a' b' = unhex2 a b := by rw [unhex2, haval, hbval, unhex2]
        refine ⟨unhex2 a b :: v', ?_, .same _ hvar⟩
        have hok : (ishex a' && ishex b' && allowed .host a' b') = true := by
          rw [ha', hb', allowed_host haval hadig hbdig hall]
          rfl
        rw [unescape_percent, if_pos hok, hv', hsame]
        rfl
    · have hpos : 0 < w.length := List.length_pos_iff.2 hw
      rw [List.length_append] at hn
      have hplain : unescape .host w = .ok w :=
        unescape_of_plain fun c hc => letterByte_plain c (hletter c hc)
      have hplain' : unescape .host x = .ok x :=
        unescape_of_plain fun c hc => letterByte_plain c (hletter' c hc)
      rw [unescape_append hplain] at hs
      obtain ⟨v, hrest, rfl⟩ := ok_of_map hs
      obtain ⟨v', hv', hvar⟩ := ih s'.length (by omega) hst hrest rfl
      refine ⟨x ++ v', ?_, hjoin v v' hvar⟩
      rw [unescape_append hplain', hv']
      rfl

/-! ### Ports and IP literals -/

/-- The host is an IP literal or has a port, or may have one. -/
def Special (host : Bytes) : Prop := host.head? = some (byte '[') ∨ byte ':' ∈ host

/-- A host that is no IP literal and has no port is decoded as a whole. -/
theorem parseHost_of_not_special {host : Bytes} (h : ¬Special host) :
    parseHost host = unescape .host host := by
  have hcolon : byte ':' ∉ host := fun hm => h (.inr hm)
  rw [parseHost, if_neg fun hhead => h (.inl hhead), cutLast_of_notMem hcolon]

/-- A byte that is passed through and belongs to no escape is not lost. -/
theorem mem_unescape {mode : Encoding} {c : UInt8} (hc : Plain mode c) (hhex : ishex c = false)
    {s t : Bytes} (h : unescape mode s = .ok t) (hs : c ∈ s) : c ∈ t := by
  obtain ⟨a, b, rfl⟩ := List.append_of_mem hs
  obtain ⟨v, w, -, -, rfl⟩ := unescape_split hc hhex h
  exact List.mem_append_right v List.mem_cons_self

/-- **An IP literal and a port show in the parsed host.** -/
theorem mem_of_special {host t : Bytes} (h : Special host) (ht : parseHost host = .ok t) :
    byte ']' ∈ t ∨ byte ':' ∈ t := by
  rw [parseHost] at ht
  split_ifs at ht with hhead
  · refine .inl ?_
    split at ht
    · cases ht
    · next before after hcut =>
      rw [parseIPLiteral] at ht
      split_ifs at ht
      split at ht
      · obtain ⟨u, -, hzone⟩ := ok_of_bind ht
        obtain ⟨v, -, hport⟩ := ok_of_bind hzone
        obtain ⟨w, hw, rfl⟩ := ok_of_map hport
        have hmem := mem_unescape (by decide) (by decide) hw List.mem_cons_self
        exact List.mem_append_right _ (List.mem_append_right _ hmem)
      · exact mem_unescape (by decide) (by decide) ht
          (List.mem_append_right _ List.mem_cons_self)
  · have hcolon : byte ':' ∈ host := h.resolve_left hhead
    refine .inr ?_
    split at ht
    · exact mem_unescape (by decide) (by decide) ht hcolon
    · split_ifs at ht
      exact mem_unescape (by decide) (by decide) ht hcolon

/-- The other case of an IP literal is one, and so with a port. -/
theorem special_of_variant {s t : Bytes} (h : CaseVariant s t) (hs : Special s) : Special t := by
  rcases hs with hs | hs
  · refine .inl ?_
    cases s with
    | nil => cases hs
    | cons b s =>
      cases hs
      rcases h.heads with ⟨hnil, -⟩ | ⟨c, s', t', hcons, rfl, -⟩ |
        ⟨w, x, s', t', hw, -, -, hne, hl, -⟩
      · cases hnil
      · rw [(List.cons.inj hcons).1]
        rfl
      · cases w with
        | nil => exact absurd rfl hne
        | cons c w =>
          have hletter := hl c List.mem_cons_self
          rw [← (List.cons.inj hw).1] at hletter
          exact absurd hletter (by decide)
  · exact .inr (h.mem (by decide) hs)

end URL
end YtShare
