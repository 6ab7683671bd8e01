/-
# The letter case of the host

Host names are the same in any letter case, and `ExtractYouTubeID` lowers the
host before it compares it.  It takes `www.` off before that, so a `www.` that
is not in lower case stays, and the host is then none of the four.

`host_case_iff` says for which pairs of inputs that differ in the letter case of
the host the outcome is the same: those where both hosts begin with `www.` in
lower case or neither does, and those that name no video in lower case either.
-/

import YtShare.Net.HostCase
import YtShare.Videos.YouTube

namespace YtShare
namespace Videos

open Lib

/-! ### Hosts of the four -/

/-- The URL names a video on this host. -/
def NamesVideo (host : Bytes) (u : URL) : Prop :=
  host = shortHost ∧ idPattern (barePath u) = true ∨
    host ∈ fullHosts ∧
      (idPattern (watchParam u) = true ∨ ∃ id ∈ lastSegment u, idPattern id = true)

/-- The host in lower case, without `www.` then. -/
def lowerSiteHost (host : Bytes) : Bytes := trimPrefix (utf8 "www.") (toLower host)

/-- The host is one of the four. -/
def IsSite (host : Bytes) : Prop := host = shortHost ∨ host ∈ fullHosts

/-- What the names of the four are made of. -/
theorem site_spec {host : Bytes} (h : IsSite host) :
    (∀ b ∈ host, b < 128 ∧ b ≠ byte ':' ∧ b ≠ byte ']') ∧ ¬utf8 "www." <+: host := by
  have hall : ∀ k ∈ shortHost :: fullHosts,
      (∀ b ∈ k, b < 128 ∧ b ≠ byte ':' ∧ b ≠ byte ']') ∧ ¬utf8 "www." <+: k := by
    decide
  exact hall host (List.mem_cons.2 h)

/-- A video is found exactly where the URL names one. -/
theorem findID_ne_none {host : Bytes} {u : URL} : findID host u ≠ none ↔ NamesVideo host u := by
  rw [NamesVideo, findID]
  by_cases hs : host = shortHost
  · have hf : host ∉ fullHosts := by
      rw [hs]
      decide
    rw [if_pos hs]
    by_cases hid : idPattern (barePath u) = true <;> simp [hs, hid, hs ▸ hf]
  · rw [if_neg hs]
    by_cases hf : host ∈ fullHosts
    · rw [if_pos hf]
      by_cases hv : idPattern (watchParam u) = true
      · simp [hs, hf, hv]
      · rw [if_neg hv]
        cases lastSegment u with
        | none => simp [hs, hf, hv]
        | some id => by_cases hid : idPattern id = true <;> simp [hs, hf, hv, hid, Option.filter]
    · simp [hs, hf]

/-- Where an id is found, the host is one of the four. -/
theorem isSite_of_findID {host : Bytes} {u : URL} (h : findID host u ≠ none) : IsSite host :=
  (findID_ne_none.1 h).imp And.left And.left

/-- `www.` is taken off before the host is lowered and after it alike. -/
theorem toLower_www (s : Bytes) : toLower (utf8 "www." ++ s) = utf8 "www." ++ toLower s := by
  show toLower (byte 'w' :: byte 'w' :: byte 'w' :: byte '.' :: s) = _
  rw [toLower_cons (by decide), toLower_cons (by decide), toLower_cons (by decide),
    toLower_cons (by decide)]
  rfl

/-- The host is compared as its lower case would be, where it begins with
`www.` or has none. -/
theorem lowerSiteHost_www (s : Bytes) : lowerSiteHost (utf8 "www." ++ s) = toLower s := by
  rw [lowerSiteHost, toLower_www, trimPrefix_append]

/-- A `www.` in lower case is taken off before the rest is lowered. -/
theorem siteHost_www (s : Bytes) : siteHost (utf8 "www." ++ s) = toLower s := by
  rw [siteHost, trimPrefix_append]

/-- Without one the whole host is lowered. -/
theorem siteHost_of_not_www {host : Bytes} (h : ¬utf8 "www." <+: host) :
    siteHost host = toLower host := by
  rw [siteHost, trimPrefix_eq_self h]

/-- The host in lower case is what it is compared as, with or without `www.`. -/
theorem toLower_of_lowerSiteHost (host : Bytes) :
    toLower host = lowerSiteHost host ∨ toLower host = utf8 "www." ++ lowerSiteHost host := by
  by_cases hw : utf8 "www." <+: toLower host
  · obtain ⟨s, hs⟩ := hw
    refine .inr ?_
    rw [lowerSiteHost, ← hs, trimPrefix_append]
  · exact .inl (trimPrefix_eq_self hw).symm

/-- A host that is one of the four once it is lowered first is lowered into ASCII. -/
theorem lt_of_lowerSiteHost {host : Bytes} (h : IsSite (lowerSiteHost host)) :
    ∀ b ∈ toLower host, b < 128 := by
  intro b hb
  rcases toLower_of_lowerSiteHost host with he | he
  · rw [he] at hb
    exact ((site_spec h).1 b hb).1
  · rw [he] at hb
    rcases List.mem_append.1 hb with hb | hb
    · have hwww : ∀ c ∈ utf8 "www.", c < 128 := by decide
      exact hwww b hb
    · exact ((site_spec h).1 b hb).1

/-- What is found on a host that is one of the four, is found on its lower case. -/
theorem lowerSiteHost_of_isSite {host : Bytes} (h : IsSite (siteHost host)) :
    lowerSiteHost host = siteHost host := by
  by_cases hw : utf8 "www." <+: host
  · obtain ⟨s, rfl⟩ := hw
    rw [lowerSiteHost_www, siteHost_www]
  · rw [siteHost_of_not_www hw] at h ⊢
    exact trimPrefix_eq_self (site_spec h).2

/-- A host with a port or an IP literal is none of the four in lower case. -/
theorem not_isSite_lower_of_mem {host : Bytes} (h : byte ']' ∈ host ∨ byte ':' ∈ host) :
    ¬IsSite (lowerSiteHost host) := by
  intro hsite
  have hmem : ∀ b : UInt8, b < 128 → b ∉ utf8 "www." → b ∈ host →
      lowerByte b = b → b ∈ lowerSiteHost host := by
    intro b hb hnot hin hlower
    have hto := lowerByte_mem_toLower hb hin
    rw [hlower] at hto
    rcases toLower_of_lowerSiteHost host with he | he
    · rwa [he] at hto
    · rw [he] at hto
      exact (List.mem_append.1 hto).resolve_left hnot
  rcases h with h | h
  · exact ((site_spec hsite).1 _ (hmem _ (by decide) (by decide) h (by decide))).2.2 rfl
  · exact ((site_spec hsite).1 _ (hmem _ (by decide) (by decide) h (by decide))).2.1 rfl

/-! ### Two hosts -/

/-- `www.` in lower case is one. -/
theorem variant_of_www {s t : Bytes} (h : CaseVariant (utf8 "www." ++ s) (utf8 "www." ++ t)) :
    CaseVariant s t := by
  have hstep : ∀ {b : UInt8} {s t : Bytes}, b < 128 → CaseVariant (b :: s) (b :: t) →
      CaseVariant s t := by
    intro b s t hb h
    obtain ⟨d, t', ht, -, hst⟩ := h.cons_inv hb
    rw [(utf8EncodeChar_cons hb ht.symm).2] at hst
    exact hst
  have hw : byte 'w' < 128 := by decide
  exact hstep (by decide) (hstep hw (hstep hw (hstep hw h)))

/-- A host is compared like its other case, where this is one of the four. -/
theorem siteHost_variant {s t : Bytes} (h : CaseVariant s t)
    (hw : utf8 "www." <+: s ↔ utf8 "www." <+: t) (hs : IsSite (siteHost s)) :
    siteHost t = siteHost s := by
  have hascii : ∀ b ∈ siteHost s, b < 128 := fun b hb => ((site_spec hs).1 b hb).1
  by_cases hpre : utf8 "www." <+: s
  · obtain ⟨t', rfl⟩ := hw.1 hpre
    obtain ⟨s', rfl⟩ := hpre
    rw [siteHost_www] at hascii ⊢
    rw [siteHost_www]
    exact (variant_of_www h).toLower_eq hascii
  · rw [siteHost_of_not_www hpre] at hascii ⊢
    rw [siteHost_of_not_www fun ht => hpre (hw.2 ht)]
    exact h.toLower_eq hascii

/-- **A host whose `www.` is not in lower case is none of the four.** -/
theorem not_isSite_of_www {s t : Bytes} (h : CaseVariant (utf8 "www." ++ s) t)
    (ht : ¬utf8 "www." <+: t) : ¬IsSite (siteHost t) := by
  intro hsite
  rw [siteHost_of_not_www ht] at hsite
  obtain ⟨hall, hnot⟩ := site_spec hsite
  have heq := h.symm.toLower_eq fun b hb => (hall b hb).1
  rw [toLower_www] at heq
  exact hnot (heq ▸ List.prefix_append _ _)

/-- The lower cases of two hosts are compared alike. -/
theorem lowerSiteHost_variant {s t : Bytes} (h : CaseVariant s t) (hs : IsSite (lowerSiteHost s)) :
    lowerSiteHost t = lowerSiteHost s := by
  rw [lowerSiteHost, h.toLower_eq (lt_of_lowerSiteHost hs), lowerSiteHost]

/-- What is found on the one host with `www.` in lower case. -/
theorem findID_www {s t : Bytes} (h : CaseVariant (utf8 "www." ++ s) t) (u : URL) :
    findID (siteHost (utf8 "www." ++ s)) u ≠ none ↔ NamesVideo (lowerSiteHost t) u := by
  rw [siteHost_www, ← lowerSiteHost_www]
  constructor
  · intro hfind
    rw [lowerSiteHost_variant h (isSite_of_findID hfind)]
    exact findID_ne_none.1 hfind
  · intro hnames
    have hsite : IsSite (lowerSiteHost t) := hnames.imp And.left And.left
    rw [lowerSiteHost_variant h.symm hsite]
    exact findID_ne_none.2 hnames

/-- **What is found on two hosts that differ in letter case.** -/
theorem findID_variant {s t : Bytes} (h : CaseVariant s t) (u : URL) :
    findID (siteHost s) u = findID (siteHost t) u ↔
      ((utf8 "www." <+: s ↔ utf8 "www." <+: t) ∨ ¬NamesVideo (lowerSiteHost s) u) := by
  have hnone : ∀ {host}, ¬IsSite host → findID host u = none := fun hnot =>
    by_contra fun hne => hnot (isSite_of_findID hne)
  by_cases hw : utf8 "www." <+: s ↔ utf8 "www." <+: t
  · refine iff_of_true ?_ (.inl hw)
    by_cases hs : IsSite (siteHost s)
    · rw [siteHost_variant h hw hs]
    · by_cases ht : IsSite (siteHost t)
      · rw [siteHost_variant h.symm hw.symm ht]
      · rw [hnone hs, hnone ht]
  · rw [or_iff_right hw]
    by_cases hs : utf8 "www." <+: s
    · have ht : ¬utf8 "www." <+: t := fun ht => hw ⟨fun _ => ht, fun _ => hs⟩
      obtain ⟨s, rfl⟩ := hs
      rw [hnone (not_isSite_of_www h ht), ← findID_www (.refl _) u, not_not]
    · have ht : utf8 "www." <+: t := by_contra fun ht => hw ⟨fun h => absurd h hs,
        fun h => absurd h ht⟩
      obtain ⟨t, rfl⟩ := ht
      rw [hnone (not_isSite_of_www h.symm hs), ← findID_www h.symm u, not_not]
      exact eq_comm

/-! ### Two inputs -/

/-- The user of an authority with its `@`, or nothing. -/
def credentials : Option Bytes → Bytes
  | none => []
  | some userinfo => userinfo ++ [byte '@']

/-- The two inputs are URLs, with white space around them or not, that differ in
the letter case of the host only. -/
inductive HostVariant (raw raw' : Bytes) : Prop
  | intro (scheme : Bytes) (userinfo : Option Bytes) (host host' rest : Bytes)
      (hs : URL.ValidScheme scheme) (hu : ∀ s ∈ userinfo, ∀ c ∈ s, ¬URL.EndsAuthority c)
      (hh : ∀ c ∈ host, ¬URL.EndsAuthority c ∧ c ≠ byte '@')
      (hr : ∀ c ∈ rest.head?, URL.EndsAuthority c) (hv : CaseVariant host host')
      (h : trimSpaceBytes raw =
        URL.lead scheme ++ utf8 "//" ++ (credentials userinfo ++ host ++ rest))
      (h' : trimSpaceBytes raw' =
        URL.lead scheme ++ utf8 "//" ++ (credentials userinfo ++ host' ++ rest))

/-- The user of an authority. -/
def parseUser : Option Bytes → Except URL.ParseError (Option Userinfo)
  | none => .ok none
  | some userinfo => (URL.parseUserinfo userinfo).map some

/-- What of a URL does not depend on the host. -/
def besidesHost (scheme : Bytes) (userinfo : Option Bytes) (rest : Bytes) :
    Except URL.ParseError URL :=
  (parseUser userinfo).bind fun user =>
    (URL.unescape .path (cut (byte '?') (cut (byte '#') rest).1).1).bind fun path =>
      (URL.unescape .fragment (cut (byte '#') rest).2).map fun _ =>
        ⟨toLower scheme, user, [], path, (cut (byte '?') (cut (byte '#') rest).1).2⟩

/-- **How a URL is parsed, apart from its host.** -/
theorem parse_host {scheme host rest : Bytes} {userinfo : Option Bytes}
    (hs : URL.ValidScheme scheme) (hne : scheme ≠ [] ∨ credentials userinfo ++ host ≠ [])
    (hu : ∀ s ∈ userinfo, ∀ c ∈ s, ¬URL.EndsAuthority c)
    (hh : ∀ c ∈ host, ¬URL.EndsAuthority c ∧ c ≠ byte '@')
    (hr : ∀ c ∈ rest.head?, URL.EndsAuthority c) :
    URL.parse (URL.lead scheme ++ utf8 "//" ++ (credentials userinfo ++ host ++ rest)) =
      if (credentials userinfo ++ host ++ (cut (byte '#') rest).1).any URL.isCTL then
        .error .controlCharacter
      else
        (URL.parseHost host).bind fun host =>
          (besidesHost scheme userinfo rest).map fun u => { u with host := host } := by
  have ha : ∀ c ∈ credentials userinfo ++ host, ¬URL.EndsAuthority c := by
    intro c hc
    rcases List.mem_append.1 hc with hc | hc
    · cases userinfo with
      | none => exact absurd hc List.not_mem_nil
      | some s =>
        rcases List.mem_append.1 hc with hc | hc
        · exact hu s rfl c hc
        · rw [List.mem_singleton.1 hc]
          rintro (he | he | he) <;> exact absurd he (by decide)
    · exact (hh c hc).1
  have hat : byte '@' ∉ host := fun hm => (hh _ hm).2 rfl
  rw [URL.parse_authority hs hne ha hr]
  refine if_congr Iff.rfl rfl ?_
  rw [URL.parseAuthority, besidesHost]
  cases userinfo with
  | none =>
    rw [credentials, List.nil_append, cutLast_of_notMem hat, parseUser]
    simp only
    cases URL.parseHost host with
    | error e => rfl
    | ok host =>
      cases URL.unescape .path (cut (byte '?') (cut (byte '#') rest).1).1 with
      | error e => rfl
      | ok path => cases URL.unescape .fragment (cut (byte '#') rest).2 <;> rfl
  | some s =>
    have hcut : cutLast (byte '@') (credentials (some s) ++ host) = some (s, host) := by
      rw [credentials, List.append_assoc]
      exact cutLast_append s hat
    rw [hcut, parseUser]
    simp only
    cases URL.parseHost host with
    | error e => rfl
    | ok host =>
      cases URL.parseUserinfo s with
      | error e => rfl
      | ok user =>
        cases URL.unescape .path (cut (byte '?') (cut (byte '#') rest).1).1 with
        | error e => rfl
        | ok path => cases URL.unescape .fragment (cut (byte '#') rest).2 <;> rfl

/-- The outcome for an input, from the URL it is. -/
theorem toOption_extractYouTubeID (raw : Bytes) :
    (extractYouTubeID raw).toOption =
      (URL.parse (trimSpaceBytes raw)).toOption.bind fun u => findID (siteHost u.host) u := by
  ext id
  have htop : ∀ {ε α : Type} {x : Except ε α} {a : α}, x.toOption = some a ↔ x = .ok a := by
    intro ε α x a
    cases x <;> simp [Except.toOption]
  rw [htop, extractYouTubeID_eq_ok, Option.bind_eq_some_iff]
  simp only [htop]

/-- The bytes that end a part of a URL or belong to none are of no letter. -/
theorem not_letterByte : ∀ b : UInt8,
    URL.EndsAuthority b ∨ b = byte '@' ∨ URL.isCTL b = true → ¬LetterByte b :=
  URL.forall_byte (by decide +kernel)

/-- What a host may not hold, its other case does not hold. -/
theorem host_bytes {s t : Bytes} (h : CaseVariant s t)
    (hs : ∀ c ∈ s, ¬URL.EndsAuthority c ∧ c ≠ byte '@') :
    ∀ c ∈ t, ¬URL.EndsAuthority c ∧ c ≠ byte '@' := by
  intro c hc
  refine ⟨fun hend => ?_, fun hat => ?_⟩
  · exact (hs c (h.symm.mem (not_letterByte c (.inl hend)) hc)).1 hend
  · exact (hs c (h.symm.mem (not_letterByte c (.inr (.inl hat))) hc)).2 hat

/-- Control characters stand in both hosts or in neither. -/
theorem any_isCTL_variant {s t : Bytes} (h : CaseVariant s t) :
    t.any URL.isCTL = s.any URL.isCTL := by
  have hmem : ∀ {s t : Bytes}, CaseVariant s t → s.any URL.isCTL = true →
      t.any URL.isCTL = true := by
    intro s t h hs
    obtain ⟨c, hc, hctl⟩ := List.any_eq_true.1 hs
    exact List.any_eq_true.2 ⟨c, h.mem (not_letterByte c (.inr (.inr hctl))) hc, hctl⟩
  exact Bool.eq_iff_iff.2 ⟨hmem h.symm, hmem h⟩

/-- No video is found on a host with a port or an IP literal, in either case. -/
theorem findID_special {host t : Bytes} (h : URL.Special host) (ht : URL.parseHost host = .ok t)
    (u : URL) : findID (siteHost t) u = none ∧ ¬NamesVideo (lowerSiteHost t) u := by
  have hnot := not_isSite_lower_of_mem (URL.mem_of_special h ht)
  refine ⟨by_contra fun hne => hnot ?_, fun hnames => hnot (hnames.imp And.left And.left)⟩
  have hsite := isSite_of_findID hne
  rwa [lowerSiteHost_of_isSite hsite]

/-- **What two hosts that differ in letter case are parsed to**: two that differ
so, or nothing on which a video is found. -/
theorem parseHost_variant {s t : Bytes} (h : CaseVariant s t) :
    (∃ u v, URL.parseHost s = .ok u ∧ URL.parseHost t = .ok v ∧ CaseVariant u v) ∨
      (∀ u, URL.parseHost s = .ok u → ∀ url,
          findID (siteHost u) url = none ∧ ¬NamesVideo (lowerSiteHost u) url) ∧
        ∀ v, URL.parseHost t = .ok v → ∀ url, findID (siteHost v) url = none := by
  by_cases hs : URL.Special s
  · refine .inr ⟨fun u hu url => findID_special hs hu url, fun v hv url => ?_⟩
    exact (findID_special (URL.special_of_variant h hs) hv url).1
  · have ht : ¬URL.Special t := fun ht => hs (URL.special_of_variant h.symm ht)
    rw [URL.parseHost_of_not_special hs, URL.parseHost_of_not_special ht]
    cases hu : URL.unescape .host s with
    | error e =>
      refine .inr ⟨fun u hu => (nomatch hu), fun v hv => ?_⟩
      obtain ⟨u, hu', -⟩ := URL.unescape_variant h.symm hv
      rw [hu] at hu'
      cases hu'
    | ok u =>
      obtain ⟨v, hv, huv⟩ := URL.unescape_variant h hu
      exact .inl ⟨u, v, rfl, hv, huv⟩

/-- **The outcomes for two inputs that differ in the letter case of the host**:
they are the same where `www.` is in lower case in both hosts or in neither, and
where the link names no video on the host in lower case. -/
theorem host_case_iff {raw raw' : Bytes} (h : HostVariant raw raw') :
    (extractYouTubeID raw).toOption = (extractYouTubeID raw').toOption ↔
      ∀ u u', URL.parse (trimSpaceBytes raw) = .ok u → URL.parse (trimSpaceBytes raw') = .ok u' →
        ((utf8 "www." <+: u.host ↔ utf8 "www." <+: u'.host) ∨
          ¬NamesVideo (lowerSiteHost u.host) u) := by
  obtain ⟨scheme, userinfo, host, host', rest, hs, hu, hh, hr, hv, htrim, htrim'⟩ := h
  rw [toOption_extractYouTubeID, toOption_extractYouTubeID, htrim, htrim']
  by_cases hne : scheme ≠ [] ∨ credentials userinfo ++ host ≠ []
  · have hne' : scheme ≠ [] ∨ credentials userinfo ++ host' ≠ [] := by
      refine hne.imp_right fun hauth hnil => hauth ?_
      obtain ⟨hcred, rfl⟩ := List.append_eq_nil_iff.1 hnil
      rw [hv.symm.nil_inv, hcred, List.append_nil]
    rw [parse_host hs hne hu hh hr, parse_host hs hne' hu (host_bytes hv hh) hr, List.any_append,
      List.any_append, List.any_append, List.any_append, any_isCTL_variant hv]
    split_ifs with hctl
    · exact ⟨fun _ u u' hu => (nomatch hu), fun _ => rfl⟩
    · rcases parseHost_variant hv with ⟨u, v, hpu, hpv, huv⟩ | ⟨hnone, hnone'⟩
      · rw [hpu, hpv]
        cases besidesHost scheme userinfo rest with
        | error e => exact ⟨fun _ u u' hu => (nomatch hu), fun _ => rfl⟩
        | ok w =>
          refine (findID_variant huv w).trans ⟨fun h u u' hu hu' => ?_, fun h => h _ _ rfl rfl⟩
          cases hu
          cases hu'
          exact h
      · have hbind : ∀ {x : Except URL.ParseError Bytes},
            (∀ u, x = .ok u → ∀ url, findID (siteHost u) url = none) →
            ((x.bind fun host => (besidesHost scheme userinfo rest).map fun u =>
              { u with host := host }).toOption.bind fun u => findID (siteHost u.host) u) =
                none := by
          intro x hx
          cases x with
          | error e => rfl
          | ok u =>
            cases besidesHost scheme userinfo rest with
            | error e => rfl
            | ok w => exact hx u rfl _
        refine iff_of_true ?_ fun u u' hu hu' => .inr ?_
        · rw [hbind fun u hu url => (hnone u hu url).1, hbind hnone']
        · obtain ⟨h, hp, hmap⟩ := ok_of_bind hu
          obtain ⟨w, -, rfl⟩ := ok_of_map hmap
          exact (hnone h hp _).2
  · rw [not_or, not_not, not_not] at hne
    obtain ⟨rfl, hnil⟩ := hne
    obtain ⟨hcred, rfl⟩ := List.append_eq_nil_iff.1 hnil
    rw [hv.nil_inv]
    refine iff_of_true rfl fun u u' hu hu' => .inl ?_
    rw [hu] at hu'
    cases hu'
    exact Iff.rfl

/-- A link with its host in lower case. -/
def lowerLink : Bytes := utf8 "https://www.youtube.com/watch?v=dQw4w9WgXcQ"

/-- The link with `WWW.`. -/
def upperLink : Bytes := utf8 "https://WWW.youtube.com/watch?v=dQw4w9WgXcQ"

/-- The link with the name of the site as it is written. -/
def titleLink : Bytes := utf8 "https://www.YouTube.com/watch?v=dQw4w9WgXcQ"

/-- The link with a host that is lowered to that of the link. -/
theorem hostVariant_link (host : Bytes) (hlen : (utf8 "www.youtube.com").length = host.length)
    (hall : ∀ p ∈ (utf8 "www.youtube.com").zip host, p.1 < 128 ∧ p.2 < 128 ∧
      Unicode.toLower (Char.ofNat p.1.toNat) = Unicode.toLower (Char.ofNat p.2.toNat))
    {raw : Bytes} (hraw : trimSpaceBytes raw =
      utf8 "https://" ++ (host ++ utf8 "/watch?v=dQw4w9WgXcQ")) : HostVariant lowerLink raw := by
  have hrest : ∀ c ∈ (utf8 "/watch?v=dQw4w9WgXcQ").head?, URL.EndsAuthority c := by
    intro c hc
    exact .inl (Option.some.inj hc).symm
  refine .intro (utf8 "https") none (utf8 "www.youtube.com") host
    (utf8 "/watch?v=dQw4w9WgXcQ") ⟨by decide, by decide⟩ nofun (by decide) hrest
    (.of_ascii hlen hall) (by decide +kernel) ?_
  rw [hraw]
  rfl

/-- The name of the site may be written in any case. -/
theorem host_case_titleLink :
    (extractYouTubeID lowerLink).toOption = (extractYouTubeID titleLink).toOption := by
  have hlink : HostVariant lowerLink titleLink :=
    hostVariant_link (utf8 "www.YouTube.com") (by decide)
      (List.forall_iff_forall_mem.1 (by decide)) (by decide +kernel)
  refine (host_case_iff hlink).2 fun u u' hu hu' => .inl ?_
  have hlower : URL.parse (trimSpaceBytes lowerLink) = .ok ⟨utf8 "https", none,
      utf8 "www.youtube.com", utf8 "/watch", utf8 "v=dQw4w9WgXcQ"⟩ := by decide +kernel
  have htitle : URL.parse (trimSpaceBytes titleLink) = .ok ⟨utf8 "https", none,
      utf8 "www.YouTube.com", utf8 "/watch", utf8 "v=dQw4w9WgXcQ"⟩ := by decide +kernel
  rw [hlower] at hu
  rw [htitle] at hu'
  cases hu
  cases hu'
  exact iff_of_true (by decide) (by decide)

/-- A host whose `www.` is not in lower case is not recognised. -/
theorem not_host_case : ¬∀ raw raw', HostVariant raw raw' →
    (extractYouTubeID raw).toOption = (extractYouTubeID raw').toOption := by
  intro h
  have hlink : HostVariant lowerLink upperLink :=
    hostVariant_link (utf8 "WWW.youtube.com") (by decide)
      (List.forall_iff_forall_mem.1 (by decide)) (by decide +kernel)
  have hsame := h lowerLink upperLink hlink
  have hlower : (extractYouTubeID lowerLink).toOption = some (utf8 "dQw4w9WgXcQ") := by
    decide +kernel
  have hupper : (extractYouTubeID upperLink).toOption = none := by decide +kernel
  rw [hlower, hupper] at hsame
  cases hsame

end Videos
end YtShare
