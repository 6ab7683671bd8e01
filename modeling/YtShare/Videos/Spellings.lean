/-
# One id for all spellings of a link

A video has many links: `http` or `https`, with or without `www.`, on four
hosts, as `watch?v=`, `embed/`, `shorts/` or on `youtu.be`, with other
parameters around `v`, with slashes at the end of the path and with white space
around all of it.  `Spelling` lists them, and `ExtractYouTubeID` reads the one
id off each of them (`extract_spelling`).

`WatchURL` writes one of these spellings, so the URL that `Share` stores leads
back to the id it was made from, and two inputs are stored under one URL
exactly when they have one id (`canonical_round_trip`).
-/

import YtShare.Net.Query
import YtShare.Videos.YouTube

namespace YtShare
namespace Videos

open Lib

/-! ### Spellings -/

/-- The two schemes. -/
def schemes : List Bytes := [utf8 "http", utf8 "https"]

/-- The host, with or without `www.`. -/
def authority (www : Bool) (host : Bytes) : Bytes := (if www then utf8 "www." else []) ++ host

/-- What a link begins with. -/
def origin (scheme : Bytes) (www : Bool) (host : Bytes) : Bytes :=
  scheme ++ utf8 "://" ++ authority www host

/-- The query of a path form: none, or some parameters in `QueryEscape`. -/
def queryTail (params : List (Bytes × Bytes)) : Bytes :=
  if params = [] then [] else byte '?' :: [byte '&'].intercalate (params.map URL.encodePair)

/-- The query of a watch form, with parameters before and after `v`. -/
def watchQuery (before after : List (Bytes × Bytes)) (id : Bytes) : Bytes :=
  [byte '&'].intercalate
    (before.map URL.encodePair ++ (utf8 "v=" ++ id) :: after.map URL.encodePair)

/-- No parameter is `v`. -/
def NoV (params : List (Bytes × Bytes)) : Prop := ∀ p ∈ params, p.1 ≠ utf8 "v"

/-- The documented links to the video `id`. -/
inductive Spelling (id : Bytes) : Bytes → Prop
  | watch (scheme host : Bytes) (www : Bool) (before after : List (Bytes × Bytes))
      (hs : scheme ∈ schemes) (hh : host ∈ fullHosts) (hb : NoV before) (ha : NoV after) :
      Spelling id (origin scheme www host ++
        (utf8 "/watch" ++ byte '?' :: watchQuery before after id))
  | player (scheme host kind : Bytes) (www : Bool) (slashes : ℕ) (params : List (Bytes × Bytes))
      (hs : scheme ∈ schemes) (hh : host ∈ fullHosts) (hk : kind ∈ [utf8 "embed", utf8 "shorts"])
      (hp : NoV params) :
      Spelling id (origin scheme www host ++
        (byte '/' :: (kind ++ byte '/' :: id ++ List.replicate slashes (byte '/')) ++
          queryTail params))
  | short (scheme : Bytes) (www : Bool) (slashes : ℕ) (params : List (Bytes × Bytes))
      (hs : scheme ∈ schemes) :
      Spelling id (origin scheme www shortHost ++
        (byte '/' :: (id ++ List.replicate slashes (byte '/')) ++ queryTail params))

/-! ### How they are parsed -/

/-- A byte of the path of a link. -/
def PathByte (c : UInt8) : Prop := idByte c = true ∨ c = byte '/'

instance (c : UInt8) : Decidable (PathByte c) := inferInstanceAs (Decidable (_ ∨ _))

/-- A byte of the query of a link. -/
def QueryByte (c : UInt8) : Prop := URL.Escaped c ∨ c = byte '=' ∨ c = byte '&'

instance (c : UInt8) : Decidable (QueryByte c) := inferInstanceAs (Decidable (_ ∨ _ ∨ _))

/-- A byte of a path is read as it is written, and ends nothing. -/
theorem pathByte_plain : ∀ c : UInt8, PathByte c →
    URL.Plain .path c ∧ Printed c ∧ URL.isCTL c = false ∧ c ≠ byte '#' ∧ c ≠ byte '?' :=
  URL.forall_byte (by decide +kernel)

/-- A byte of a query is printed, and begins no fragment. -/
theorem queryByte_plain : ∀ c : UInt8, QueryByte c →
    Printed c ∧ URL.isCTL c = false ∧ c ≠ byte '#' :=
  URL.forall_byte (by decide +kernel)

/-- A byte of an id is read as it is written wherever it stands. -/
theorem idByte_plain : ∀ c : UInt8, idByte c = true →
    URL.Plain .queryComponent c ∧ QueryByte c ∧ c ≠ byte '/' ∧ c ≠ byte ';' ∧ c ≠ byte '&' :=
  URL.forall_byte (by decide +kernel)

/-- What a host of a link is, however it is spelled. -/
theorem authority_spec : ∀ host ∈ shortHost :: fullHosts, ∀ www : Bool,
    URL.parseAuthority (authority www host) = .ok (none, authority www host) ∧
      siteHost (authority www host) = host ∧ authority www host ≠ [] ∧
      ∀ c ∈ authority www host, ¬(c = byte '/' ∨ c = byte '?' ∨ c = byte '#') ∧
        URL.isCTL c = false ∧ Printed c := by
  decide +kernel

/-- What a scheme of a link is. -/
theorem scheme_spec : ∀ scheme ∈ schemes, scheme ≠ [] ∧ toLower scheme = scheme ∧
    (∀ c ∈ scheme, URL.isAlpha c = true ∧ Printed c) ∧
      scheme ++ utf8 "://" = URL.lead scheme ++ utf8 "//" := by
  decide +kernel

/-- The text is the query with its question mark, or nothing. -/
def IsTail (tail query : Bytes) : Prop := tail = [] ∧ query = [] ∨ tail = byte '?' :: query

/-- **A link is parsed to its parts.** -/
theorem parse_link {scheme host path tail query : Bytes} (hs : scheme ∈ schemes)
    (hh : host ∈ shortHost :: fullHosts) (www : Bool) (hp : ∀ c ∈ path, PathByte c)
    (hslash : path.head? = some (byte '/')) (ht : IsTail tail query)
    (hq : ∀ c ∈ query, QueryByte c) :
    URL.parse (origin scheme www host ++ (path ++ tail)) =
      .ok ⟨scheme, none, authority www host, path, query⟩ := by
  obtain ⟨hauth, -, hne, hbytes⟩ := authority_spec host hh www
  obtain ⟨hscheme, hlower, halpha, hlead⟩ := scheme_spec scheme hs
  have hvalid : URL.ValidScheme scheme := by
    cases scheme with
    | nil => trivial
    | cons c s =>
      exact ⟨(halpha c List.mem_cons_self).1, fun d hd =>
        .inl (halpha d (List.mem_cons_of_mem _ hd)).1⟩
  have htail : ∀ c ∈ tail, c = byte '?' ∨ QueryByte c := by
    intro c hc
    rcases ht with ⟨rfl, -⟩ | rfl
    · exact absurd hc List.not_mem_nil
    · exact (List.mem_cons.1 hc).imp_right (hq c)
  have hhash : byte '#' ∉ path ++ tail := by
    intro h
    rcases List.mem_append.1 h with h | h
    · exact (pathByte_plain _ (hp _ h)).2.2.2.1 rfl
    · rcases htail _ h with h | h
      · exact absurd h (by decide)
      · exact (queryByte_plain _ h).2.2 rfl
  have hctl : (authority www host ++ (path ++ tail)).any URL.isCTL = false := by
    refine List.any_eq_false.2 fun c hc => ?_
    have hfalse : URL.isCTL c = false := by
      rcases List.mem_append.1 hc with hc | hc
      · exact (hbytes c hc).2.1
      · rcases List.mem_append.1 hc with hc | hc
        · exact (pathByte_plain c (hp c hc)).2.2.1
        · rcases htail c hc with rfl | hc
          · decide
          · exact (queryByte_plain c hc).2.1
    rw [hfalse]
    decide
  have hquest : byte '?' ∉ path := fun h => (pathByte_plain _ (hp _ h)).2.2.2.2 rfl
  have hcut : cut (byte '?') (path ++ tail) = (path, query) := by
    rcases ht with ⟨rfl, rfl⟩ | rfl
    · rw [List.append_nil]
      exact cut_of_notMem hquest
    · exact cut_append hquest query
  have hends : ∀ c ∈ (path ++ tail).head?, URL.EndsAuthority c := by
    cases path with
    | nil => cases hslash
    | cons d path =>
      intro c hc
      cases hslash
      cases hc
      exact .inl rfl
  have hpath : URL.unescape .path path = .ok path :=
    URL.unescape_of_plain fun c hc => (pathByte_plain c (hp c hc)).1
  rw [origin, hlead, List.append_assoc, URL.parse_authority hvalid (.inl hscheme)
    (fun c hc => (hbytes c hc).1) hends, cut_of_notMem hhash, hctl, hauth, hcut, hlower]
  show ((URL.unescape .path path).bind _) = _
  rw [hpath]
  rfl

/-- **White space around a link is trimmed.** -/
theorem trim_link {scheme host path tail query : Bytes} (hs : scheme ∈ schemes)
    (hh : host ∈ shortHost :: fullHosts) (www : Bool) (hp : ∀ c ∈ path, PathByte c)
    (ht : IsTail tail query) (hq : ∀ c ∈ query, QueryByte c) {lead trail : List Char}
    (hl : ∀ c ∈ lead, isSpace c = true) (htr : ∀ c ∈ trail, isSpace c = true) :
    trimSpaceBytes (lead.flatMap String.utf8EncodeChar ++
      (origin scheme www host ++ (path ++ tail) ++ trail.flatMap String.utf8EncodeChar)) =
      origin scheme www host ++ (path ++ tail) := by
  obtain ⟨-, -, hne, hbytes⟩ := authority_spec host hh www
  obtain ⟨-, -, halpha, -⟩ := scheme_spec scheme hs
  have hall : ∀ c ∈ origin scheme www host ++ (path ++ tail), Printed c := by
    intro c hc
    rcases List.mem_append.1 hc with hc | hc
    · rcases List.mem_append.1 hc with hc | hc
      · rcases List.mem_append.1 hc with hc | hc
        · exact (halpha c hc).2
        · have hsep : ∀ d ∈ utf8 "://", Printed d := by decide
          exact hsep c hc
      · exact (hbytes c hc).2.2
    · rcases List.mem_append.1 hc with hc | hc
      · exact (pathByte_plain c (hp c hc)).2.1
      · rcases ht with ⟨rfl, -⟩ | rfl
        · exact absurd hc List.not_mem_nil
        · rcases List.mem_cons.1 hc with rfl | hc
          · decide
          · exact (queryByte_plain c (hq c hc)).1
  refine trimSpaceBytes_append hl htr (fun b hb => hall b (List.mem_of_mem_head? hb))
    (fun b hb => hall b (List.mem_of_mem_getLast? hb)) ?_
  intro hnil
  have hauth := (List.append_eq_nil_iff.1 (List.append_eq_nil_iff.1 hnil).1).2
  exact hne hauth

/-! ### The parameter `v` -/

/-- A pair is written with the bytes of queries. -/
theorem queryByte_of_encodePair {p : Bytes × Bytes} : ∀ c ∈ URL.encodePair p, QueryByte c := by
  intro c hc
  exact (URL.mem_encodePair hc).imp_right .inl

/-- And so are pairs with an `&` between them. -/
theorem queryByte_intercalate {pieces : List Bytes} (h : ∀ p ∈ pieces, ∀ c ∈ p, QueryByte c) :
    ∀ c ∈ [byte '&'].intercalate pieces, QueryByte c := by
  intro c hc
  rcases URL.mem_intercalate hc with hc | ⟨p, hp, hc⟩
  · exact .inr (.inr hc)
  · exact h p hp c hc

/-- The query of a path form holds its parameters. -/
theorem queryTail_spec (params : List (Bytes × Bytes)) :
    ∃ query, IsTail (queryTail params) query ∧ (∀ c ∈ query, QueryByte c) ∧
      URL.parseQuery query = params := by
  by_cases hnil : params = []
  · subst hnil
    exact ⟨[], .inl ⟨rfl, rfl⟩, fun c hc => absurd hc List.not_mem_nil, rfl⟩
  · refine ⟨_, .inr (if_neg hnil), queryByte_intercalate fun q hq => ?_, ?_⟩
    · obtain ⟨p, -, rfl⟩ := List.mem_map.1 hq
      exact queryByte_of_encodePair
    · have hpieces : ∀ q ∈ params.map URL.encodePair, byte '&' ∉ q := by
        intro q hq
        obtain ⟨p, -, rfl⟩ := List.mem_map.1 hq
        exact URL.amp_notMem_encodePair p
      rw [URL.parseQuery_intercalate hpieces, URL.filterMap_encodePair]

/-- The query of a watch form has `v`, first of all with the id. -/
theorem watchQuery_spec {id : Bytes} (hid : idPattern id = true) {before : List (Bytes × Bytes)}
    (hb : NoV before) (after : List (Bytes × Bytes)) :
    (∀ c ∈ watchQuery before after id, QueryByte c) ∧
      (URL.parseQuery (watchQuery before after id)).find? (fun p => decide (p.1 = utf8 "v")) =
        some (utf8 "v", id) := by
  have hbyte : ∀ c ∈ id, _ := fun c hc => idByte_plain c (idByte_of_idPattern hid c hc)
  have hv : ∀ c ∈ utf8 "v=", QueryByte c ∧ c ≠ byte ';' ∧ c ≠ byte '&' := by decide
  have hpiece : ∀ c ∈ utf8 "v=" ++ id, QueryByte c ∧ c ≠ byte ';' ∧ c ≠ byte '&' := by
    intro c hc
    rcases List.mem_append.1 hc with hc | hc
    · exact hv c hc
    · exact ⟨(hbyte c hc).2.1, (hbyte c hc).2.2.2.1, (hbyte c hc).2.2.2.2⟩
  have hpieces : ∀ q ∈ before.map URL.encodePair ++ (utf8 "v=" ++ id) ::
      after.map URL.encodePair, (∀ c ∈ q, QueryByte c) ∧ byte '&' ∉ q := by
    have hmap : ∀ ps : List (Bytes × Bytes), ∀ q ∈ ps.map URL.encodePair,
        (∀ c ∈ q, QueryByte c) ∧ byte '&' ∉ q := by
      intro ps q hq
      obtain ⟨p, -, rfl⟩ := List.mem_map.1 hq
      exact ⟨queryByte_of_encodePair, URL.amp_notMem_encodePair p⟩
    intro q hq
    rcases List.mem_append.1 hq with hq | hq
    · exact hmap before q hq
    · rcases List.mem_cons.1 hq with rfl | hq
      · exact ⟨fun c hc => (hpiece c hc).1, fun h => (hpiece _ h).2.2 rfl⟩
      · exact hmap after q hq
  have hpair : URL.queryPair (utf8 "v=" ++ id) = some (utf8 "v", id) := by
    have hkey : byte '=' ∉ utf8 "v" := by decide
    have hplain : URL.unescape .queryComponent (utf8 "v") = .ok (utf8 "v") := by decide
    exact URL.queryPair_append hkey (fun h => (hpiece _ h).2.1 rfl) hplain
      (URL.unescape_of_plain fun c hc => (hbyte c hc).1)
  refine ⟨queryByte_intercalate fun q hq => (hpieces q hq).1, ?_⟩
  rw [watchQuery, URL.parseQuery_intercalate fun q hq => (hpieces q hq).2,
    List.filterMap_append, List.filterMap_cons_some hpair, URL.filterMap_encodePair,
    URL.filterMap_encodePair]
  exact URL.find_key hb

/-! ### One id -/

/-- What is found on a full host in a URL with the parameter `v`. -/
theorem findID_watch {host id : Bytes} {u : URL} (hf : host ∈ fullHosts)
    (hid : idPattern id = true)
    (hv : (URL.parseQuery u.rawQuery).find? (fun p => decide (p.1 = utf8 "v")) =
      some (utf8 "v", id)) : findID host u = some id := by
  have hparam : watchParam u = id := by
    rw [watchParam, URL.queryGet, hv]
    rfl
  have hs : host ≠ shortHost := fun h => absurd (h ▸ hf) (by decide)
  rw [findID, if_neg hs, if_pos hf, hparam, if_pos hid]

/-- What is found on a full host in a URL without the parameter. -/
theorem findID_player {host kind id : Bytes} {u : URL} (hf : host ∈ fullHosts)
    (hid : idPattern id = true) (hk : byte '/' ∉ kind) (hp : barePath u = kind ++ byte '/' :: id)
    (hv : NoV (URL.parseQuery u.rawQuery)) : findID host u = some id := by
  have hparam : watchParam u = [] := by
    rw [watchParam, URL.queryGet, URL.find_key_none hv]
    rfl
  have hs : host ≠ shortHost := fun h => absurd (h ▸ hf) (by decide)
  have hslash : byte '/' ∉ id := fun h =>
    (idByte_plain _ (idByte_of_idPattern hid _ h)).2.2.1 rfl
  have hlast : lastSegment u = some id := by
    rw [lastSegment, hp, List.splitOn_append_cons_self_of_not_mem hk,
      List.splitOn_eq_singleton hslash]
    rfl
  rw [findID, if_neg hs, if_pos hf, hparam, if_neg (by decide), hlast]
  exact Option.filter_eq_some_iff.2 ⟨rfl, hid⟩

/-- An id is not empty. -/
theorem ne_nil_of_idPattern {id : Bytes} (h : idPattern id = true) : id ≠ [] := by
  intro hnil
  have hlen := length_of_idPattern h
  rw [hnil] at hlen
  cases hlen

/-- The slashes around a path whose ends are bytes of ids are trimmed. -/
theorem trim_path {s : Bytes} (hh : ∀ c ∈ s.head?, idByte c = true)
    (hl : ∀ c ∈ s.getLast?, idByte c = true) (slashes : ℕ) :
    trim (byte '/') (byte '/' :: (s ++ List.replicate slashes (byte '/'))) = s := by
  have hhead : s.head? ≠ some (byte '/') := fun h => (idByte_plain _ (hh _ h)).2.2.1 rfl
  have hlast : s.getLast? ≠ some (byte '/') := fun h => (idByte_plain _ (hl _ h)).2.2.1 rfl
  exact trim_replicate (byte '/') 1 slashes hhead hlast

/-- What `ExtractYouTubeID` makes of a link, from what it finds in its parts. -/
theorem extract_link {scheme host path tail query id : Bytes} (hs : scheme ∈ schemes)
    (hh : host ∈ shortHost :: fullHosts) (www : Bool) (hp : ∀ c ∈ path, PathByte c)
    (hslash : path.head? = some (byte '/')) (ht : IsTail tail query)
    (hq : ∀ c ∈ query, QueryByte c) {lead trail : List Char} (hl : ∀ c ∈ lead, isSpace c = true)
    (htr : ∀ c ∈ trail, isSpace c = true)
    (hfind : findID host ⟨scheme, none, authority www host, path, query⟩ = some id) :
    extractYouTubeID (lead.flatMap String.utf8EncodeChar ++
      (origin scheme www host ++ (path ++ tail) ++ trail.flatMap String.utf8EncodeChar)) =
      .ok id := by
  refine extractYouTubeID_eq_ok.2
    ⟨⟨scheme, none, authority www host, path, query⟩, ?_, ?_⟩
  · rw [trim_link hs hh www hp ht hq hl htr]
    exact parse_link hs hh www hp hslash ht hq
  · rw [(authority_spec host hh www).2.1]
    exact hfind

/-- **The one id is read off every spelling**, whatever white space is around
it. -/
theorem extract_spelling {id raw : Bytes} (hid : idPattern id = true) (h : Spelling id raw)
    {lead trail : List Char} (hl : ∀ c ∈ lead, isSpace c = true)
    (ht : ∀ c ∈ trail, isSpace c = true) :
    extractYouTubeID (lead.flatMap String.utf8EncodeChar ++
      (raw ++ trail.flatMap String.utf8EncodeChar)) = .ok id := by
  have hbyte : ∀ c ∈ id, idByte c = true := idByte_of_idPattern hid
  have hne : id ≠ [] := ne_nil_of_idPattern hid
  have hslashes : ∀ n : ℕ, ∀ c ∈ List.replicate n (byte '/'), PathByte c := fun n c hc =>
    .inr (List.eq_of_mem_replicate hc)
  cases h with
  | watch scheme host www before after hs hh hb ha =>
    obtain ⟨hq, hv⟩ := watchQuery_spec hid hb after
    have hpath : ∀ c ∈ utf8 "/watch", PathByte c := by decide
    exact extract_link hs (List.mem_cons_of_mem _ hh) www hpath rfl (.inr rfl) hq hl ht
      (findID_watch hh hid hv)
  | player scheme host kind www slashes params hs hh hk hp =>
    obtain ⟨query, htail, hq, rfl⟩ := queryTail_spec params
    have hkind : (∀ c ∈ kind, idByte c = true) ∧ kind ≠ [] := by
      have hall : ∀ k ∈ [utf8 "embed", utf8 "shorts"], (∀ c ∈ k, idByte c = true) ∧ k ≠ [] := by
        decide
      exact hall kind hk
    have hpath : ∀ c ∈ byte '/' :: (kind ++ byte '/' :: id ++
        List.replicate slashes (byte '/')), PathByte c := by
      intro c hc
      rcases List.mem_cons.1 hc with rfl | hc
      · exact .inr rfl
      · rcases List.mem_append.1 hc with hc | hc
        · rcases List.mem_append.1 hc with hc | hc
          · exact .inl (hkind.1 c hc)
          · exact (List.mem_cons.1 hc).elim .inr fun hc => .inl (hbyte c hc)
        · exact hslashes slashes c hc
    have hbare : trim (byte '/') (byte '/' :: (kind ++ byte '/' :: id ++
        List.replicate slashes (byte '/'))) = kind ++ byte '/' :: id := by
      refine trim_path (fun c hc => ?_) (fun c hc => ?_) slashes
      · rw [List.head?_append_of_ne_nil _ hkind.2] at hc
        exact hkind.1 c (List.mem_of_mem_head? hc)
      · rw [List.getLast?_append_of_ne_nil _ (List.cons_ne_nil _ _),
          List.getLast?_cons_of_ne_nil hne] at hc
        exact hbyte c (List.mem_of_mem_getLast? hc)
    have hslash : byte '/' ∉ kind := fun h => (idByte_plain _ (hkind.1 _ h)).2.2.1 rfl
    exact extract_link hs (List.mem_cons_of_mem _ hh) www hpath rfl htail hq hl ht
      (findID_player hh hid hslash hbare hp)
  | short scheme www slashes params hs =>
    obtain ⟨query, htail, hq, -⟩ := queryTail_spec params
    have hpath : ∀ c ∈ byte '/' :: (id ++ List.replicate slashes (byte '/')), PathByte c := by
      intro c hc
      rcases List.mem_cons.1 hc with rfl | hc
      · exact .inr rfl
      · exact (List.mem_append.1 hc).elim (fun hc => .inl (hbyte c hc)) (hslashes slashes c)
    have hbare : trim (byte '/') (byte '/' :: (id ++ List.replicate slashes (byte '/'))) = id :=
      trim_path (fun c hc => hbyte c (List.mem_of_mem_head? hc))
        (fun c hc => hbyte c (List.mem_of_mem_getLast? hc)) slashes
    refine extract_link hs List.mem_cons_self www hpath rfl htail hq hl ht ?_
    rw [findID, if_pos rfl, barePath, hbare, if_pos hid]

example : extractYouTubeID (utf8 " http://m.youtube.com/watch?t=42s&v=dQw4w9WgXcQ\n") =
    .ok (utf8 "dQw4w9WgXcQ") := by
  decide +kernel

/-- `WatchURL` writes a spelling of the link. -/
theorem spelling_watchURL {id : Bytes} (hid : idPattern id = true) :
    Spelling id (utf8 (watchURL (ofASCII id))) := by
  have hnone : NoV [] := fun p hp => absurd hp List.not_mem_nil
  have hspelling : Spelling id (origin (utf8 "https") true (utf8 "youtube.com") ++
      (utf8 "/watch" ++ byte '?' :: watchQuery [] [] id)) :=
    .watch _ _ true [] [] (List.mem_cons_of_mem _ List.mem_cons_self) List.mem_cons_self hnone hnone
  have hquery : watchQuery [] [] id = utf8 "v=" ++ id := by
    simp [watchQuery, List.intercalate]
  have hraw : utf8 (watchURL (ofASCII id)) = origin (utf8 "https") true (utf8 "youtube.com") ++
      (utf8 "/watch" ++ byte '?' :: watchQuery [] [] id) := by
    have hstart : utf8 "https://www.youtube.com/watch?v=" = origin (utf8 "https") true
        (utf8 "youtube.com") ++ (utf8 "/watch" ++ byte '?' :: utf8 "v=") := by decide +kernel
    have hwatch : utf8 (watchURL (ofASCII id)) = utf8 "https://www.youtube.com/watch?v=" ++ id :=
      (utf8_append _ _).trans (congrArg _ (utf8_ofASCII_id hid))
    rw [hwatch, hstart, hquery]
    simp only [List.append_assoc, List.cons_append]
  rw [hraw]
  exact hspelling

/-- The URL that is stored leads back to its id. -/
theorem extract_watchURL {id : Bytes} (hid : idPattern id = true) :
    extractYouTubeID (utf8 (watchURL (ofASCII id))) = .ok id := by
  have hnone : ∀ c ∈ ([] : List Char), isSpace c = true := nofun
  have h := extract_spelling hid (spelling_watchURL hid) hnone hnone
  rwa [List.flatMap_nil, List.nil_append, List.append_nil] at h

/-- **Canonical round trip of video links.**  Every documented spelling of a link
leads to its id, whatever white space is around it, and so does the URL that
`WatchURL` writes; whatever input is accepted, the id has the eleven characters
of the pattern and is found again in the URL that is stored; and two accepted
inputs are stored under one URL exactly when they have one id. -/
theorem canonical_round_trip :
    (∀ id raw : Bytes, idPattern id = true → Spelling id raw → ∀ lead trail : List Char,
        (∀ c ∈ lead, isSpace c = true) → (∀ c ∈ trail, isSpace c = true) →
        extractYouTubeID (lead.flatMap String.utf8EncodeChar ++
          (raw ++ trail.flatMap String.utf8EncodeChar)) = .ok id) ∧
      (∀ id : Bytes, idPattern id = true →
        extractYouTubeID (utf8 (watchURL (ofASCII id))) = .ok id) ∧
      (∀ raw id, extractYouTubeID raw = .ok id →
        idPattern id = true ∧ extractYouTubeID (utf8 (watchURL (ofASCII id))) = .ok id) ∧
      ∀ raw raw' id id', extractYouTubeID raw = .ok id → extractYouTubeID raw' = .ok id' →
        (watchURL (ofASCII id) = watchURL (ofASCII id') ↔ id = id') := by
  refine ⟨fun id raw hid h lead trail hl ht => extract_spelling hid h hl ht,
    fun id hid => extract_watchURL hid,
    fun raw id h => ⟨extractYouTubeID_shape h, extract_watchURL (extractYouTubeID_shape h)⟩,
    fun raw raw' id id' h h' => ⟨fun he => ?_, fun he => by rw [he]⟩⟩
  have hid := extract_watchURL (extractYouTubeID_shape h)
  rw [he, extract_watchURL (extractYouTubeID_shape h')] at hid
  exact (Except.ok.inj hid).symm

end Videos
end YtShare
