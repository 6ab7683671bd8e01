/-
# An authority written and read again

A program that writes `<user>:<password>@<host>:<port>` by putting the texts
together, the user and the password in `QueryEscape` and the host as it is, writes
what `parseAuthority` may read otherwise.  The host is read as it was written
exactly when nothing in it is decoded and it opens no bracket
(`hostname_eq_iff`); of the user and the password only the spaces are lost
(`parseUserinfo_queryEscape`).

What `parse` gives as a host is made of the bytes that a host can show or encode
(`hostByte_of_parse`), so it never ends the authority it is written into.
-/

import YtShare.Net.Query

namespace YtShare
namespace URL

open Lib

/-! ### What a host is made of -/

/-- What was read between brackets holds only bytes that a host may hold. -/
theorem hostByte_of_parseIPLiteral {before after t : Bytes}
    (h : parseIPLiteral before after = .ok t) : ∀ c ∈ t, HostByte c := by
  unfold parseIPLiteral at h
  split_ifs at h with hport
  split at h
  · obtain ⟨host, hhost, h⟩ := ok_of_bind h
    obtain ⟨zone, hzone, h⟩ := ok_of_bind h
    obtain ⟨port, hport, rfl⟩ := ok_of_map h
    intro c hc
    rcases List.mem_append.1 hc with hc | hc
    · exact hostByte_of_unescape (.inl rfl) hhost c hc
    · rcases List.mem_append.1 hc with hc | hc
      · exact hostByte_of_unescape (.inr rfl) hzone c hc
      · exact hostByte_of_unescape (.inl rfl) hport c hc
  · exact hostByte_of_unescape (.inl rfl) h

/-- **A host that was read** holds only bytes that a host may hold, bracketed or not. -/
theorem hostByte_of_parseHost {host t : Bytes} (h : parseHost host = .ok t) :
    ∀ c ∈ t, HostByte c := by
  unfold parseHost at h
  split_ifs at h with hbracket
  · split at h
    · cases h
    · exact hostByte_of_parseIPLiteral h
  · split at h
    · exact hostByte_of_unescape (.inl rfl) h
    · split_ifs at h with hport
      exact hostByte_of_unescape (.inl rfl) h

/-- So does the host of an authority that was read, after its user. -/
theorem hostByte_of_parseAuthority {authority : Bytes} {u : Option Userinfo × Bytes}
    (h : parseAuthority authority = .ok u) : ∀ c ∈ u.2, HostByte c := by
  unfold parseAuthority at h
  split at h
  · obtain ⟨host, hhost, rfl⟩ := ok_of_map h
    exact hostByte_of_parseHost hhost
  · obtain ⟨host, hhost, h⟩ := ok_of_bind h
    obtain ⟨user, -, rfl⟩ := ok_of_map h
    exact hostByte_of_parseHost hhost

/-- **What a host is made of**: bytes that a host can show or encode. -/
theorem hostByte_of_parse {raw : Bytes} {u : URL} (h : parse raw = .ok u) :
    ∀ c ∈ u.host, HostByte c := by
  unfold parse at h
  obtain ⟨u', hparse, hmap⟩ := ok_of_bind h
  obtain ⟨_, -, rfl⟩ := ok_of_map hmap
  unfold parseURL at hparse
  split_ifs at hparse with hctl hstar
  · obtain rfl := Except.ok.inj hparse
    exact fun c hc => absurd hc List.not_mem_nil
  · obtain ⟨s, -, hrest⟩ := ok_of_bind hparse
    unfold parseRest at hrest
    split_ifs at hrest
    · obtain rfl := Except.ok.inj hrest
      exact fun c hc => absurd hc List.not_mem_nil
    · obtain ⟨a, ha, hpath⟩ := ok_of_bind hrest
      obtain ⟨path, -, rfl⟩ := ok_of_map hpath
      exact hostByte_of_parseAuthority ha
    · obtain ⟨path, -, rfl⟩ := ok_of_map hrest
      exact fun c hc => absurd hc List.not_mem_nil

/-! ### Host and port -/

/-- The host stands in brackets. -/
def Bracketed (host : Bytes) : Prop :=
  host.head? = some (byte '[') ∧ host.getLast? = some (byte ']')

instance (host : Bytes) : Decidable (Bracketed host) := inferInstanceAs (Decidable (_ ∧ _))

/-- The host without its brackets. -/
def unbracket (host : Bytes) : Bytes := if Bracketed host then host.tail.dropLast else host

/-- The last step of `splitHostPort`, which takes the brackets off. -/
theorem split_unbracket (host d : Bytes) :
    (if host.head? = some (byte '[') ∧ host.getLast? = some (byte ']') then
      (host.tail.dropLast, d) else (host, d)) = (unbracket host, d) := by
  by_cases hb : Bracketed host
  · rw [unbracket, if_pos hb]
    exact if_pos hb
  · rw [unbracket, if_neg hb]
    exact if_neg hb

/-- A host and a port that are put together are split again. -/
theorem splitHostPort_append (host : Bytes) {d : Bytes} (hd : d.all isDigit = true) :
    splitHostPort (host ++ byte ':' :: d) = (unbracket host, d) := by
  have hcolon : byte ':' ∉ d := fun hm =>
    absurd (List.all_eq_true.1 hd _ hm) (by decide)
  rw [splitHostPort, cutLast_append host hcolon]
  simp only [if_pos hd]
  exact split_unbracket host d

/-- What `splitHostPort` splits is put together from these parts, or has no port. -/
theorem splitHostPort_cases (hostPort : Bytes) :
    splitHostPort hostPort = (unbracket hostPort, []) ∨
      ∃ host d, d.all isDigit = true ∧ hostPort = host ++ byte ':' :: d ∧
        splitHostPort hostPort = (unbracket host, d) := by
  cases h : cutLast (byte ':') hostPort with
  | none =>
    refine .inl ?_
    rw [splitHostPort, h]
    exact split_unbracket hostPort []
  | some p =>
    obtain ⟨host, d⟩ := p
    obtain ⟨rfl, -⟩ := cutLast_eq_some.1 h
    by_cases hd : d.all isDigit = true
    · exact .inr ⟨host, d, hd, rfl, splitHostPort_append host hd⟩
    · refine .inl ?_
      rw [splitHostPort, h]
      simp only [if_neg hd]
      exact split_unbracket _ []

/-- Without its brackets a host has no new bytes. -/
theorem mem_of_mem_unbracket {c : UInt8} {host : Bytes} (h : c ∈ unbracket host) : c ∈ host := by
  unfold unbracket at h
  split_ifs at h
  · exact List.mem_of_mem_tail ((List.dropLast_sublist _).mem h)
  · exact h

/-- Taking the brackets off makes a host shorter. -/
theorem length_unbracket_lt {host : Bytes} (h : Bracketed host) :
    (unbracket host).length < host.length := by
  have hne : host ≠ [] := fun hnil => by
    rw [hnil] at h
    exact absurd h.1 nofun
  have hpos := List.length_pos_iff.2 hne
  rw [unbracket, if_pos h, List.length_dropLast, List.length_tail]
  omega

/-- The hostname is a part of the host. -/
theorem mem_hostname {u : URL} {c : UInt8} (h : c ∈ u.hostname) : c ∈ u.host := by
  unfold hostname at h
  rcases splitHostPort_cases u.host with he | ⟨host, d, -, hhost, he⟩
  · rw [he] at h
    exact mem_of_mem_unbracket h
  · rw [he] at h
    rw [hhost]
    exact List.mem_append_left _ (mem_of_mem_unbracket h)

/-- A port is made of digits. -/
theorem isDigit_port (u : URL) : u.port.all isDigit = true := by
  unfold port
  rcases splitHostPort_cases u.host with he | ⟨host, d, hd, -, he⟩
  · rw [he]
    rfl
  · rw [he]
    exact hd

/-! ### A host written as it is -/

/-- The two parts make up the whole. -/
theorem splitAtWord_eq_some {w s a b : Bytes} (h : splitAtWord w s = some (a, b)) : s = a ++ b := by
  induction s generalizing a b with
  | nil =>
    unfold splitAtWord at h
    split_ifs at h
    obtain ⟨rfl, rfl⟩ := Prod.mk.inj (Option.some.inj h)
    rfl
  | cons c s ih =>
    unfold splitAtWord at h
    split_ifs at h
    · obtain ⟨rfl, rfl⟩ := Prod.mk.inj (Option.some.inj h)
      rfl
    · obtain ⟨p, hp, he⟩ := Option.map_eq_some_iff.1 h
      obtain ⟨rfl, rfl⟩ := Prod.mk.inj he
      rw [List.cons_append, ← ih hp]

/-- **The hosts that are read as they are written**: nothing in them is decoded or
refused, and they open no bracket. -/
def PlainHost (host : Bytes) : Prop :=
  byte ' ' ∉ host ∧ byte '%' ∉ host ∧ host.head? ≠ some (byte '[')

instance (host : Bytes) : Decidable (PlainHost host) := inferInstanceAs (Decidable (_ ∧ _ ∧ _))

/-- A byte of a host that is no space and no percent sign is read as it is written. -/
theorem plain_of_hostByte : ∀ c : UInt8, HostByte c → c ≠ byte ' ' → c ≠ byte '%' →
    Plain .host c :=
  forall_byte (by decide +kernel)

/-- What is passed through in a host, a space and a percent sign are not. -/
theorem not_plain_host : ¬Plain .host (byte ' ') ∧ ¬Plain .host (byte '%') := by decide

/-- The colon before a port is read as it is written, and is no digit of an escape. -/
theorem plain_colon : Plain .host (byte ':') ∧ ishex (byte ':') = false := by decide

/-- Nor is the bracket that closes a literal. -/
theorem plain_bracket : Plain .host (byte ']') ∧ ishex (byte ']') = false := by decide

/-- Every digit of a port is read as it is written. -/
theorem plain_of_isDigit : ∀ c : UInt8, isDigit c = true → Plain .host c :=
  forall_byte (by decide +kernel)

/-- A port does not make a bracket of the first byte of the host. -/
theorem head?_append_colon {host : Bytes} (d : Bytes) (h : host.head? ≠ some (byte '[')) :
    (host ++ byte ':' :: d).head? ≠ some (byte '[') := by
  cases host with
  | nil => exact fun he => absurd (Option.some.inj he) (by decide)
  | cons c host => exact h

section

variable {host d : Bytes} (hd : d.all isDigit = true)
include hd

/-- There is no colon in a port of digits, so the one before it is the last. -/
theorem colon_notMem_digits : byte ':' ∉ d := fun hm =>
  absurd (List.all_eq_true.1 hd _ hm) (by decide)

/-- A port decodes to itself. -/
theorem unescape_digits : unescape .host d = .ok d :=
  unescape_of_plain fun c hc => plain_of_isDigit c (List.all_eq_true.1 hd c hc)

/-- A host that opens no bracket is decoded together with its port. -/
theorem parseHost_append (h : host.head? ≠ some (byte '[')) :
    parseHost (host ++ byte ':' :: d) = unescape .host (host ++ byte ':' :: d) := by
  have hvalid : validOptionalPort (byte ':' :: d) = true := by
    rw [validOptionalPort, decide_eq_true rfl, Bool.true_and, hd]
  rw [parseHost, if_neg (head?_append_colon d h), cutLast_append host (colon_notMem_digits hd)]
  simp only [if_pos hvalid]

/-- **A plain host with a port** is read as it is written. -/
theorem parseHost_of_plainHost (hbytes : ∀ c ∈ host, HostByte c) (h : PlainHost host) :
    parseHost (host ++ byte ':' :: d) = .ok (host ++ byte ':' :: d) := by
  rw [parseHost_append hd h.2.2]
  refine unescape_of_plain fun c hc => ?_
  rcases List.mem_append.1 hc with hc | hc
  · exact plain_of_hostByte c (hbytes c hc) (fun he => h.1 (he ▸ hc)) fun he => h.2.1 (he ▸ hc)
  · rcases List.mem_cons.1 hc with rfl | hc
    · exact plain_colon.1
    · exact plain_of_isDigit c (List.all_eq_true.1 hd c hc)

/-- A host without brackets that is read as it was written is plain. -/
theorem plainHost_of_unescape {t : Bytes} (h : host.head? ≠ some (byte '['))
    (ht : unescape .host (host ++ byte ':' :: d) = .ok t) (hname : (splitHostPort t).1 = host) :
    PlainHost host := by
  obtain ⟨v, w, hv, hw, rfl⟩ := unescape_split plain_colon.1 plain_colon.2 ht
  obtain rfl : d = w := Except.ok.inj ((unescape_digits hd).symm.trans hw)
  rw [splitHostPort_append v hd] at hname
  have hle := (length_unescape hv).1
  -- nothing was decoded, or the host would have become shorter
  obtain rfl : v = host := by
    by_cases hb : Bracketed v
    · have hlt := length_unbracket_lt hb
      rw [show unbracket v = host from hname] at hlt
      omega
    · rwa [unbracket, if_neg hb] at hname
  have hplain := unescape_eq_self_iff.1 hv
  exact ⟨fun hm => not_plain_host.1 (hplain _ hm), fun hm => not_plain_host.2 (hplain _ hm), h⟩

/-- What an IP literal with a port is read as: no longer before the bracket than it was. -/
theorem parseIPLiteral_port {before t : Bytes}
    (h : parseIPLiteral before (byte ':' :: d) = .ok t) :
    ∃ x, t = (x ++ [byte ']']) ++ byte ':' :: d ∧ x.length ≤ before.length := by
  have hend : unescape .host (byte ']' :: byte ':' :: d) = .ok (byte ']' :: byte ':' :: d) := by
    rw [unescape_cons plain_bracket.1, unescape_cons plain_colon.1, unescape_digits hd]
    rfl
  unfold parseIPLiteral at h
  split_ifs at h with hvalid
  split at h
  · rename_i host zone hsplit
    obtain ⟨host', hhost, hrest⟩ := ok_of_bind h
    obtain ⟨zone', hzone, hmap⟩ := ok_of_bind hrest
    obtain ⟨port, hport, rfl⟩ := ok_of_map hmap
    obtain rfl := Except.ok.inj (hend.symm.trans hport)
    have hbefore : before = host ++ zone := splitAtWord_eq_some hsplit
    refine ⟨host' ++ zone', by simp, ?_⟩
    rw [hbefore, List.length_append, List.length_append]
    exact Nat.add_le_add (length_unescape hhost).1 (length_unescape hzone).1
  · obtain ⟨v, w, hv, hw, rfl⟩ := unescape_split plain_bracket.1 plain_bracket.2 h
    rw [unescape_cons plain_colon.1, unescape_digits hd] at hw
    obtain rfl : byte ':' :: d = w := Except.ok.inj hw
    exact ⟨v, by simp, (length_unescape hv).1⟩

/-- A host that opens a bracket is not read as it was written: it loses its brackets. -/
theorem hostname_ne_of_bracket {t : Bytes} (h : host.head? = some (byte '['))
    (ht : parseHost (host ++ byte ':' :: d) = .ok t) : (splitHostPort t).1 ≠ host := by
  have hhead : (host ++ byte ':' :: d).head? = some (byte '[') := by
    rw [List.head?_append, h]
    rfl
  have hdigits : byte ']' ∉ byte ':' :: d := by
    intro hm
    rcases List.mem_cons.1 hm with he | hm
    · exact absurd he (by decide)
    · exact absurd (List.all_eq_true.1 hd _ hm) (by decide)
  rw [parseHost, if_pos hhead] at ht
  cases hcut : cutLast (byte ']') host with
  | none =>
    have hno : byte ']' ∉ host ++ byte ':' :: d := fun hm =>
      (List.mem_append.1 hm).elim (cutLast_eq_none.1 hcut) hdigits
    rw [cutLast_of_notMem hno] at ht
    cases ht
  | some p =>
    obtain ⟨before, after⟩ := p
    obtain ⟨rfl, hafter⟩ := cutLast_eq_some.1 hcut
    have hno : byte ']' ∉ after ++ byte ':' :: d := fun hm =>
      (List.mem_append.1 hm).elim hafter hdigits
    rw [List.append_assoc, List.cons_append, cutLast_append before hno] at ht
    simp only at ht
    -- only a port may follow the bracket
    obtain rfl : after = [] := by
      cases after with
      | nil => rfl
      | cons c after =>
        unfold parseIPLiteral at ht
        split_ifs at ht with hvalid
        rw [List.cons_append, validOptionalPort, Bool.and_eq_true] at hvalid
        have hcolon := List.all_eq_true.1 hvalid.2 (byte ':') (by simp)
        exact absurd hcolon (by decide)
    obtain ⟨x, rfl, hx⟩ := parseIPLiteral_port hd ht
    rw [splitHostPort_append _ hd]
    intro hname
    have hname : unbracket (x ++ [byte ']']) = before ++ [byte ']'] := hname
    by_cases hb : Bracketed (x ++ [byte ']'])
    · have hlt := length_unbracket_lt hb
      rw [hname, List.length_append, List.length_append] at hlt
      omega
    · rw [unbracket, if_neg hb] at hname
      rw [hname] at hb
      exact hb ⟨h, List.getLast?_concat⟩

/-- **A host is read as it was written exactly when it is plain.** -/
theorem hostname_eq_iff (hbytes : ∀ c ∈ host, HostByte c) :
    (∃ t, parseHost (host ++ byte ':' :: d) = .ok t ∧ (splitHostPort t).1 = host) ↔
      PlainHost host := by
  constructor
  · intro ⟨t, ht, hname⟩
    by_cases h : host.head? = some (byte '[')
    · exact absurd hname (hostname_ne_of_bracket hd h ht)
    · rw [parseHost_append hd h] at ht
      exact plainHost_of_unescape hd h ht hname
  · intro h
    refine ⟨_, parseHost_of_plainHost hd hbytes h, ?_⟩
    have hb : ¬Bracketed host := fun hb => h.2.2 hb.1
    rw [splitHostPort_append host hd, unbracket, if_neg hb]

end

/-! ### The user -/

/-- What `QueryEscape` writes may stand in a user name and in a password. -/
theorem userinfoByte_of_escaped : ∀ c : UInt8, Escaped c → userinfoByte c = true :=
  forall_byte (by decide +kernel)

/-- **A user and a password in `QueryEscape` are read back, but for their spaces.** -/
theorem parseUserinfo_queryEscape (user password : Bytes) :
    parseUserinfo (queryEscape user ++ byte ':' :: queryEscape password) =
      .ok ⟨user.map plusForSpace, some (password.map plusForSpace)⟩ := by
  have hvalid : validUserinfo (queryEscape user ++ byte ':' :: queryEscape password) = true := by
    refine List.all_eq_true.2 fun c hc => ?_
    rcases List.mem_append.1 hc with hc | hc
    · exact userinfoByte_of_escaped c (escaped_queryEscape user c hc)
    · rcases List.mem_cons.1 hc with rfl | hc
      · decide
      · exact userinfoByte_of_escaped c (escaped_queryEscape password c hc)
  have hcolon : byte ':' ∉ queryEscape user := fun hm =>
    (escaped_ne _ (escaped_queryEscape user _ hm)).2.2.2.2.2.2.2.1 rfl
  have hmem : byte ':' ∈ queryEscape user ++ byte ':' :: queryEscape password :=
    List.mem_append_right _ List.mem_cons_self
  rw [parseUserinfo, if_pos hvalid, if_pos hmem, cut_append hcolon]
  simp only [unescape_userPassword_queryEscape]
  rfl

/-- A text comes back from `QueryEscape` and the decoder of passwords unchanged if it
holds no space, and only then. -/
theorem map_plusForSpace_eq_iff {s : Bytes} : s.map plusForSpace = s ↔ byte ' ' ∉ s := by
  have hbyte : ∀ c : UInt8, plusForSpace c = c ↔ c ≠ byte ' ' := forall_byte (by decide +kernel)
  conv_lhs => rw [← List.map_id s, List.map_map]
  rw [List.map_inj_left]
  exact ⟨fun h hm => (hbyte _).1 (h _ hm) rfl, fun h c hc => (hbyte c).2 fun he => h (he ▸ hc)⟩

/-- The user is what stands before the last `@`. -/
theorem parseAuthority_append {hostPort : Bytes} (userinfo : Bytes) (h : byte '@' ∉ hostPort) :
    parseAuthority (userinfo ++ byte '@' :: hostPort) =
      (parseHost hostPort).bind fun host =>
        (parseUserinfo userinfo).map fun user => (some user, host) := by
  rw [parseAuthority, cutLast_append userinfo h]

end URL
end YtShare
