/-
# Which links are taken for videos

The comment on `ExtractYouTubeID` names four forms: `watch?v=`, `youtu.be/`,
`embed/` and `shorts/`.  On `youtu.be` the function accepts no other.  On the
other hosts it looks at `v` on every path and at the last segment of every path
of two or more, so a link to a channel, a user or a playlist is taken for a
video when what it ends with happens to have the eleven characters of an id.
And since `ToLower` makes an `i` of `U+0130`, a host with that letter in it is
taken for `music.youtube.com`.

`accepts_documented_iff` says for which links the function keeps to the four
forms: those whose host is written in ASCII, and whose `v` stands on `/watch`,
or whose last segment of eleven characters stands under `/embed` or `/shorts`.
-/

import YtShare.Core.LetterCase
import YtShare.Videos.YouTube

namespace YtShare
namespace Videos

open Lib

/-- The host as it is compared with the documented ones: without `www.`, and
with the letters of ASCII in lower case. -/
def plainHost (host : Bytes) : Bytes := trimPrefix (utf8 "www.") (host.map lowerByte)

/-- The URL is one of the documented forms, with this id. -/
def DocumentedForm (u : URL) (id : Bytes) : Prop :=
  idPattern id = true ∧
    (plainHost u.host = shortHost ∧ barePath u = id ∨
      plainHost u.host ∈ fullHosts ∧
        (barePath u = utf8 "watch" ∧ watchParam u = id ∨ barePath u = utf8 "embed/" ++ id ∨
          barePath u = utf8 "shorts/" ++ id))

instance (u : URL) (id : Bytes) : Decidable (DocumentedForm u id) :=
  inferInstanceAs (Decidable (_ ∧ (_ ∧ _ ∨ _ ∧ (_ ∧ _ ∨ _ ∨ _))))

/-- The host is written in ASCII. -/
def ASCIIHost (u : URL) : Prop := ∀ b ∈ u.host, b < 128

/-- The path is one of `/embed/<id>` and `/shorts/<id>`. -/
def PlayerPath (u : URL) (id : Bytes) : Prop :=
  barePath u = utf8 "embed/" ++ id ∨ barePath u = utf8 "shorts/" ++ id

/-- On the three full hosts, when the URL has an id: the host is written in ASCII,
a `v` that is an id stands on the path `/watch`, or repeats the id of the path,
and a last segment that is one stands under `/embed` or `/shorts`. -/
def DocumentedPlace (u : URL) : Prop :=
  siteHost u.host ∈ fullHosts →
    (idPattern (watchParam u) = true →
        ASCIIHost u ∧ (barePath u = utf8 "watch" ∨ PlayerPath u (watchParam u))) ∧
      (idPattern (watchParam u) = false →
        ∀ id ∈ lastSegment u, idPattern id = true → ASCIIHost u ∧ PlayerPath u id)

/-- The short host is none of the full ones. -/
theorem shortHost_notMem : shortHost ∉ fullHosts := by decide

/-! ### The host -/

/-- The names of the four hosts are of ASCII and have no `www.` to take off. -/
theorem host_names : ∀ name ∈ shortHost :: fullHosts,
    (∀ b ∈ name, b < 128) ∧ trimPrefix (utf8 "www.") name = name := by
  decide

/-- A byte that is lowered into ASCII is of ASCII. -/
theorem lt_of_lowerByte : ∀ b : UInt8, lowerByte b < 128 → b < 128 :=
  URL.forall_byte (by decide +kernel)

/-- **A host of ASCII** that the function takes for one of the four is that one. -/
theorem plainHost_of_ascii {host name : Bytes} (hall : ∀ b ∈ host, b < 128)
    (hname : name ∈ shortHost :: fullHosts) (hsite : siteHost host = name) :
    plainHost host = name := by
  have hlower : ∀ s : Bytes, (∀ b ∈ s, b < 128) → toLower s = s.map lowerByte := by
    intro s hs
    rw [toLower, if_pos (List.all_eq_true.2 fun b hb => decide_eq_true (hs b hb))]
  by_cases hwww : utf8 "www." <+: host
  · obtain ⟨rest, rfl⟩ := hwww
    have hrest : ∀ b ∈ rest, b < 128 := fun b hb => hall b (List.mem_append_right _ hb)
    rw [siteHost, trimPrefix_append, hlower rest hrest] at hsite
    rw [plainHost, List.map_append, show (utf8 "www.").map lowerByte = utf8 "www." by decide,
      trimPrefix_append, hsite]
  · rw [siteHost, trimPrefix_eq_self hwww, hlower host hall] at hsite
    rw [plainHost, hsite]
    exact (host_names name hname).2

/-- A documented host is written in ASCII. -/
theorem ascii_of_plainHost {u : URL} (h : plainHost u.host ∈ shortHost :: fullHosts) :
    ASCIIHost u := by
  have hplain := (host_names _ h).1
  intro b hb
  refine lt_of_lowerByte b ?_
  have hmem : lowerByte b ∈ u.host.map lowerByte := List.mem_map_of_mem hb
  by_cases hwww : utf8 "www." <+: u.host.map lowerByte
  · obtain ⟨rest, hrest⟩ := hwww
    rw [plainHost, ← hrest, trimPrefix_append] at hplain
    rw [← hrest] at hmem
    rcases List.mem_append.1 hmem with hw | hr
    · have hall : ∀ c ∈ utf8 "www.", c < 128 := by decide
      exact hall _ hw
    · exact hplain _ hr
  · rw [plainHost, trimPrefix_eq_self hwww] at hplain
    exact hplain _ hmem

/-- No letter beyond ASCII is lowered to one of `youtu.be`. -/
theorem ascii_of_short {host : Bytes} (hs : siteHost host = shortHost) :
    ∀ b ∈ host, b < 128 := by
  have hname : ∀ b ∈ shortHost, b < 128 ∧ b ≠ byte 'i' ∧ b ≠ byte 'k' := by decide
  rw [siteHost] at hs
  have htrim : ∀ b ∈ trimPrefix (utf8 "www.") host, b < 128 :=
    ascii_of_toLower fun b hb => hname b (hs ▸ hb)
  by_cases hwww : utf8 "www." <+: host
  · obtain ⟨rest, rfl⟩ := hwww
    rw [trimPrefix_append] at htrim
    intro b hb
    rcases List.mem_append.1 hb with hw | hr
    · have hall : ∀ c ∈ utf8 "www.", c < 128 := by decide
      exact hall b hw
    · exact htrim b hr
  · rwa [trimPrefix_eq_self hwww] at htrim

/-! ### The path -/

/-- On `youtu.be` every form is documented. -/
theorem documented_of_short {u : URL} {id : Bytes} (hs : siteHost u.host = shortHost)
    (h : findID (siteHost u.host) u = some id) : DocumentedForm u id := by
  refine ⟨findID_shape h, .inl ⟨?_, ?_⟩⟩
  · exact plainHost_of_ascii (ascii_of_short hs) List.mem_cons_self hs
  · rw [findID, if_pos hs] at h
    split_ifs at h
    exact Option.some.inj h

/-- What is found on the three full hosts. -/
theorem findID_full {u : URL} {id : Bytes} (hf : siteHost u.host ∈ fullHosts) :
    findID (siteHost u.host) u = some id ↔
      idPattern (watchParam u) = true ∧ watchParam u = id ∨
        idPattern (watchParam u) = false ∧ id ∈ lastSegment u ∧ idPattern id = true := by
  have hs : siteHost u.host ≠ shortHost := fun h => shortHost_notMem (h ▸ hf)
  rw [findID, if_neg hs, if_pos hf]
  cases hv : idPattern (watchParam u) with
  | true => simp
  | false => simp [Option.filter_eq_some_iff]

/-- A documented form on the three full hosts, read off the host and the path. -/
theorem documented_full {u : URL} {id : Bytes} (hf : siteHost u.host ∈ fullHosts) :
    DocumentedForm u id ↔ idPattern id = true ∧ ASCIIHost u ∧
      (barePath u = utf8 "watch" ∧ watchParam u = id ∨ PlayerPath u id) := by
  have hsame : ASCIIHost u → plainHost u.host = siteHost u.host := fun hall =>
    plainHost_of_ascii hall (List.mem_cons_of_mem _ hf) rfl
  constructor
  · rintro ⟨hid, ⟨h, -⟩ | ⟨h, hplace⟩⟩
    · have hall : ASCIIHost u := ascii_of_plainHost (h ▸ List.mem_cons_self)
      rw [hsame hall] at h
      exact absurd (h ▸ hf) shortHost_notMem
    · exact ⟨hid, ascii_of_plainHost (List.mem_cons_of_mem _ h), hplace⟩
  · rintro ⟨hid, hall, hplace⟩
    exact ⟨hid, .inr ⟨hsame hall ▸ hf, hplace⟩⟩

/-- **Only documented links are accepted exactly where the host and the path are
documented.**  For every input: whatever id is returned, the input is a URL of a
documented form with that id, if and only if the URL, where there is one, has
its host in ASCII and `v` and its last segment in documented places. -/
theorem accepts_documented_iff (raw : Bytes) :
    (∀ id, extractYouTubeID raw = .ok id →
        ∃ u, URL.parse (trimSpaceBytes raw) = .ok u ∧ DocumentedForm u id) ↔
      ∀ u, URL.parse (trimSpaceBytes raw) = .ok u → DocumentedPlace u := by
  constructor
  · intro h u hu hf
    have hform : ∀ id, findID (siteHost u.host) u = some id → DocumentedForm u id := by
      intro id hid
      obtain ⟨w, hw, hdoc⟩ := h id (extractYouTubeID_eq_ok.2 ⟨u, hu, hid⟩)
      rw [hu] at hw
      cases hw
      exact hdoc
    refine ⟨fun hv => ?_, fun hv id hid hpat => ?_⟩
    · obtain ⟨-, hall, hplace⟩ :=
        (documented_full hf).1 (hform _ ((findID_full hf).2 (.inl ⟨hv, rfl⟩)))
      exact ⟨hall, hplace.imp_left And.left⟩
    · obtain ⟨-, hall, hplace⟩ :=
        (documented_full hf).1 (hform _ ((findID_full hf).2 (.inr ⟨hv, hid, hpat⟩)))
      refine ⟨hall, hplace.resolve_left fun hwatch => ?_⟩
      rw [hwatch.2, hpat] at hv
      cases hv
  · intro h id hid
    obtain ⟨u, hu, hfind⟩ := extractYouTubeID_eq_ok.1 hid
    refine ⟨u, hu, ?_⟩
    by_cases hs : siteHost u.host = shortHost
    · exact documented_of_short hs hfind
    · by_cases hf : siteHost u.host ∈ fullHosts
      · obtain ⟨hwatch, hlast⟩ := h u hu hf
        refine (documented_full hf).2 ⟨findID_shape hfind, ?_⟩
        rcases (findID_full hf).1 hfind with ⟨hv, rfl⟩ | ⟨hv, hmem, hpat⟩
        · obtain ⟨hall, hplace⟩ := hwatch hv
          exact ⟨hall, hplace.imp_left fun hp => ⟨hp, rfl⟩⟩
        · obtain ⟨hall, hplace⟩ := hlast hv id hmem hpat
          exact ⟨hall, .inr hplace⟩
      · rw [findID_of_ne hs hf] at hfind
        cases hfind

/-- A host with `U+0130` in the place of its `i`. -/
example : extractYouTubeID (utf8 "https://mus\u0130c.youtube.com/watch?v=dQw4w9WgXcQ") =
    .ok (utf8 "dQw4w9WgXcQ") := by decide +kernel

/-- The page of a user whose name has eleven letters. -/
def userPage : Bytes := utf8 "https://www.youtube.com/user/GoogleMusic"

/-- The page of a user is taken for a video. -/
theorem accepts_userPage :
    ¬∀ raw id, extractYouTubeID raw = .ok id →
      ∃ u, URL.parse (trimSpaceBytes raw) = .ok u ∧ DocumentedForm u id := by
  intro h
  have hid : extractYouTubeID userPage = .ok (utf8 "GoogleMusic") := by decide +kernel
  have hparse : URL.parse (trimSpaceBytes userPage) = .ok ⟨utf8 "https", none,
      utf8 "www.youtube.com", utf8 "/user/GoogleMusic", []⟩ := by decide +kernel
  obtain ⟨u, hu, hdoc⟩ := h userPage _ hid
  rw [hparse] at hu
  cases hu
  exact absurd hdoc (by decide +kernel)

end Videos
end YtShare
