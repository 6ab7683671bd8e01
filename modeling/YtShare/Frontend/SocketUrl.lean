/-
# The URL of the socket

`buildUrl` and `debugUrl` of
`frontend/src/modules/notifications/hooks/useNotificationsSocket.tsx`.

The access token travels in the query of the URL, written by `URLSearchParams` in
the browser and read by `net/url` in the server.  The two escape differently:
`URLSearchParams` leaves `*` as it is and writes `~` as `%7E`, and `QueryEscape`
the other way round.  `socket_url_read_back` says that what the browser writes the
server reads, whatever is in the token and in the cursor.

The page logs the URL with the token replaced by `***`.  `debugUrl_hides` says that
what it logs is the same for every token, as long as the address of the server,
which comes from the build, holds no `access_token=` of its own.
-/

import YtShare.Net.Query

namespace YtShare
namespace Frontend

open Lib URL

/-! ### `URLSearchParams` -/

/-- The serializer of `application/x-www-form-urlencoded` on one byte. -/
def formEscapeByte (c : UInt8) : Bytes :=
  if c = byte ' ' then [byte '+']
  else if isAlpha c || isDigit c || decide (c ∈ utf8 "*-._") then [c]
  else [byte '%', upperhex (c >>> 4), upperhex (c &&& 15)]

/-- The serializer on a text. -/
def formEscape (s : String) : Bytes := (utf8 s).flatMap formEscapeByte

/-- One pair. -/
def formPair (p : String × String) : Bytes := formEscape p.1 ++ byte '=' :: formEscape p.2

/-- `URLSearchParams.toString`. -/
def urlSearchParams (ps : List (String × String)) : Bytes :=
  [byte '&'].intercalate (ps.map formPair)

/-! ### The URL -/

/-- The pairs of `buildUrl`.  The cursor is set unless it is empty. -/
def socketParams (accessToken lastEventId : String) : List (String × String) :=
  ("access_token", accessToken) :: if lastEventId = "" then [] else [("since", lastEventId)]

/-- `API_ENDPOINTS.notificationsWS`. -/
def notificationsWS : Bytes := utf8 "/notifications/ws"

/-- `buildUrl`, with `WS_BASE_URL`. -/
def buildUrl (base : Bytes) (accessToken lastEventId : String) : Bytes :=
  base ++ notificationsWS ++ byte '?' :: urlSearchParams (socketParams accessToken lastEventId)

/-- The path that the server has it under. -/
def socketPath : Bytes := utf8 "/api/v1/notifications/ws"

/-- The target of the request that the browser makes for a URL with this path. -/
def socketTarget (accessToken lastEventId : String) : Bytes :=
  socketPath ++ byte '?' :: urlSearchParams (socketParams accessToken lastEventId)

/-- What the debug log looks for. -/
def secretKey : Bytes := utf8 "access_token="

/-- What it writes instead. -/
def hidden : Bytes := utf8 "access_token=***"

/-- `url.replace(/access_token=[^&]+/, 'access_token=***')`: at the first place
where the key is followed by one character or more that are no `&`. -/
def debugUrl : Bytes → Bytes
  | [] => []
  | c :: s =>
      let rest := (c :: s).drop secretKey.length
      if secretKey <+: c :: s ∧ rest.head? ≠ none ∧ rest.head? ≠ some (byte '&') then
        hidden ++ rest.dropWhile fun d => decide (d ≠ byte '&')
      else c :: debugUrl s

/-! ### What the serializer writes -/

/-- A byte that the serializer writes. -/
def FormByte (c : UInt8) : Prop :=
  isAlpha c = true ∨ isDigit c = true ∨ c ∈ utf8 "*-._%+"

instance (c : UInt8) : Decidable (FormByte c) := inferInstanceAs (Decidable (_ ∨ _ ∨ _))

/-- What the serializer writes for one byte, and that the decoder reads it back. -/
theorem formEscapeByte_spec : ∀ c : UInt8, (∀ d ∈ formEscapeByte c, FormByte d) ∧
    unescape .queryComponent (formEscapeByte c) = .ok [c] :=
  forall_byte (by decide +kernel)

/-- What `URLSearchParams` writes for a text is of the bytes of forms. -/
theorem formByte_formEscape (s : String) : ∀ d ∈ formEscape s, FormByte d := by
  intro d hd
  obtain ⟨c, -, hd⟩ := List.mem_flatMap.1 hd
  exact (formEscapeByte_spec c).1 d hd

/-- The bytes that mean something in a URL are not among them. -/
theorem formByte_ne : ∀ c : UInt8, FormByte c →
    c ≠ byte '&' ∧ c ≠ byte '=' ∧ c ≠ byte ';' ∧ c ≠ byte '#' ∧ c ≠ byte '?' ∧
      isCTL c = false :=
  forall_byte (by decide +kernel)

/-- **What the serializer writes is read back by the decoder of queries.** -/
theorem unescape_formEscape (s : String) :
    unescape .queryComponent (formEscape s) = .ok (utf8 s) := by
  rw [formEscape]
  induction utf8 s with
  | nil => rfl
  | cons c s ih =>
    rw [List.flatMap_cons, unescape_append (formEscapeByte_spec c).2, ih]
    rfl

/-- A pair holds such bytes and the sign between key and value. -/
theorem mem_formPair {p : String × String} {c : UInt8} (h : c ∈ formPair p) :
    FormByte c ∨ c = byte '=' := by
  rcases List.mem_append.1 h with h | h
  · exact .inl (formByte_formEscape p.1 c h)
  · rcases List.mem_cons.1 h with h | h
    · exact .inr h
    · exact .inl (formByte_formEscape p.2 c h)

/-- So no pair is split where the query is. -/
theorem amp_notMem_formPair (p : String × String) : byte '&' ∉ formPair p := by
  intro h
  rcases mem_formPair h with h | h
  · exact (formByte_ne _ h).1 rfl
  · exact absurd h (by decide)

/-- A pair is read back. -/
theorem queryPair_formPair (p : String × String) :
    queryPair (formPair p) = some (utf8 p.1, utf8 p.2) := by
  refine queryPair_append (fun h => ?_) (fun h => ?_) (unescape_formEscape p.1)
    (unescape_formEscape p.2)
  · exact (formByte_ne _ (formByte_formEscape p.1 _ h)).2.1 rfl
  · rcases mem_formPair h with h | h
    · exact (formByte_ne _ h).2.2.1 rfl
    · exact absurd h (by decide)

/-- **`ParseQuery` reads what `URLSearchParams` writes.** -/
theorem parseQuery_urlSearchParams (ps : List (String × String)) :
    parseQuery (urlSearchParams ps) = ps.map fun p => (utf8 p.1, utf8 p.2) := by
  have hpieces : ∀ q ∈ ps.map formPair, byte '&' ∉ q := by
    intro q hq
    obtain ⟨p, -, rfl⟩ := List.mem_map.1 hq
    exact amp_notMem_formPair p
  rw [urlSearchParams, parseQuery_intercalate hpieces, List.filterMap_map]
  induction ps with
  | nil => rfl
  | cons p ps ih =>
    have hp : (queryPair ∘ formPair) p = some (utf8 p.1, utf8 p.2) := queryPair_formPair p
    rw [List.filterMap_cons_some hp, List.map_cons,
      ih fun q hq => hpieces q (List.mem_cons_of_mem _ hq)]

/-- A byte of a query. -/
theorem mem_urlSearchParams {ps : List (String × String)} {c : UInt8}
    (h : c ∈ urlSearchParams ps) : FormByte c ∨ c = byte '=' ∨ c = byte '&' := by
  rcases mem_intercalate h with rfl | ⟨q, hq, hc⟩
  · exact .inr (.inr rfl)
  · obtain ⟨p, -, rfl⟩ := List.mem_map.1 hq
    exact (mem_formPair hc).imp_right .inl

/-! ### In the server -/

theorem socketPath_eq : socketPath = byte '/' :: socketPath.tail := rfl

/-- A path has no scheme before it. -/
theorem getScheme_slash (s : Bytes) : getScheme (byte '/' :: s) = .ok ([], byte '/' :: s) := by
  have hplain : isAlpha (byte '/') = false ∧ isSchemeTail (byte '/') = false ∧
      byte '/' ≠ byte ':' := by decide
  rw [getScheme, getSchemeLoop, hplain.1, hplain.2.1, if_neg Bool.false_ne_true,
    if_neg Bool.false_ne_true, if_neg hplain.2.2]

/-- The bytes of a target. -/
theorem isCTL_socketTarget (accessToken lastEventId : String) :
    (socketTarget accessToken lastEventId).any isCTL = false := by
  have hpath : ∀ c ∈ socketPath, isCTL c = false := by decide
  refine List.any_eq_false.2 fun c hc => Bool.not_eq_true _ ▸ ?_
  rcases List.mem_append.1 hc with hc | hc
  · exact hpath c hc
  · rcases List.mem_cons.1 hc with rfl | hc
    · decide
    · rcases mem_urlSearchParams hc with hc | rfl | rfl
      · exact (formByte_ne c hc).2.2.2.2.2
      · decide
      · decide

/-- **A path with a query is taken apart.** -/
theorem parseURL_path {p query : Bytes}
    (hctl : (byte '/' :: p ++ byte '?' :: query).any isCTL = false)
    (hslash : p.head? ≠ some (byte '/')) (hquery : byte '?' ∉ byte '/' :: p)
    (hplain : unescape .path (byte '/' :: p) = .ok (byte '/' :: p)) :
    parseURL (byte '/' :: p ++ byte '?' :: query) = .ok ⟨[], none, [], byte '/' :: p, query⟩ := by
  have hstar : byte '/' :: p ++ byte '?' :: query ≠ utf8 "*" := fun h => by
    have hhead := (List.cons.inj (h.trans (rfl : utf8 "*" = [byte '*']))).1
    exact absurd hhead (by decide)
  have hscheme : getScheme (byte '/' :: p ++ byte '?' :: query) =
      .ok ([], byte '/' :: p ++ byte '?' :: query) := getScheme_slash (p ++ byte '?' :: query)
  have hrest : parseRest [] (byte '/' :: p) query = .ok ⟨[], none, [], byte '/' :: p, query⟩ := by
    have hslashes : ¬utf8 "//" <+: byte '/' :: p := by
      rw [(rfl : utf8 "//" = [byte '/', byte '/'])]
      rintro ⟨t, ht⟩
      refine hslash ?_
      rw [← (List.cons.inj ht).2]
      rfl
    unfold parseRest
    rw [if_neg (fun h => h.1 rfl), if_neg (fun h => h.1 rfl), if_neg (fun h => hslashes h.2),
      hplain]
    rfl
  have hlower : toLower ([] : Bytes) = [] := rfl
  rw [parseURL, hctl, if_neg Bool.false_ne_true, if_neg hstar, hscheme]
  simp only [Except.bind, hlower, cut_append hquery, hrest]

/-- **The server reads what the browser writes.**  Whatever is in the token and in
the cursor, the request for the URL of the socket is for the handler of the
socket, and its query has the two as they were; without a cursor it reads none. -/
theorem socket_url_read_back (accessToken lastEventId : String) :
    ∃ u, parseURL (socketTarget accessToken lastEventId) = .ok u ∧ u.path = socketPath ∧
      queryGet u (utf8 "access_token") = utf8 accessToken ∧
      queryGet u (utf8 "since") = utf8 lastEventId := by
  obtain ⟨p, hp⟩ : ∃ p, socketPath = byte '/' :: p := ⟨_, socketPath_eq⟩
  have hctl := isCTL_socketTarget accessToken lastEventId
  have hslash : socketPath.tail.head? ≠ some (byte '/') := by decide
  have hquery : byte '?' ∉ socketPath := by decide
  have hplain : unescape .path socketPath = .ok socketPath :=
    unescape_of_plain (by decide)
  rw [socketTarget] at hctl ⊢
  rw [hp] at hctl hslash hquery hplain ⊢
  refine ⟨_, parseURL_path hctl hslash hquery hplain, rfl, ?_⟩
  have hkeys : utf8 "access_token" ≠ utf8 "since" := by decide
  have hfound : ∀ (key value : Bytes) ps,
      ((key, value) :: ps).find? (fun q => decide (q.1 = key)) = some (key, value) :=
    fun _ _ _ => List.find?_cons_of_pos (decide_eq_true rfl)
  rw [queryGet, queryGet, parseQuery_urlSearchParams, socketParams, List.map_cons]
  constructor
  · rw [hfound]
    rfl
  · rw [List.find?_cons_of_neg (by simpa using hkeys)]
    split_ifs with hempty
    · rw [hempty]
      rfl
    · rw [List.map_cons, hfound]
      rfl

/-! ### In the log -/

/-- A text without the separator begins what stands before it. -/
theorem prefix_of_prefix_append {k a b : Bytes} {sep : UInt8} (hsep : sep ∉ k)
    (h : k <+: a ++ sep :: b) : k <+: a := by
  have ha : a ++ [sep] <+: a ++ sep :: b := ⟨b, by rw [List.append_assoc]; rfl⟩
  rcases List.prefix_or_prefix_of_prefix h ha with h | h
  · rcases List.prefix_concat_iff.1 h with rfl | h
    · exact absurd (List.mem_append_right a (List.mem_singleton_self sep)) hsep
    · exact h
  · exact absurd (h.subset (List.mem_append_right a (List.mem_singleton_self sep))) hsep

/-- Where the key does not begin nothing is replaced. -/
theorem debugUrl_cons {c : UInt8} {s : Bytes} (h : ¬secretKey <+: c :: s) :
    debugUrl (c :: s) = c :: debugUrl s := by
  rw [debugUrl]
  exact if_neg fun hmatch => h hmatch.1

/-- What stands before a separator, and has no key, is left as it is. -/
theorem debugUrl_append {before : Bytes} {sep : UInt8} (hsep : sep ∉ secretKey)
    (h : ¬secretKey <:+: before) (rest : Bytes) :
    debugUrl (before ++ sep :: rest) = before ++ sep :: debugUrl rest := by
  induction before with
  | nil =>
    refine debugUrl_cons fun hkey => h ?_
    exact (prefix_of_prefix_append (a := []) hsep hkey).isInfix
  | cons c s ih =>
    have hcons : debugUrl (c :: s ++ sep :: rest) = c :: debugUrl (s ++ sep :: rest) :=
      debugUrl_cons fun hkey => h (prefix_of_prefix_append hsep hkey).isInfix
    rw [hcons, ih fun hs => h (hs.trans (List.suffix_cons c s).isInfix)]
    rfl

/-- The key with a value that is not empty. -/
theorem debugUrl_secret {x tail : Bytes} (hx : x ≠ []) (hamp : byte '&' ∉ x)
    (htail : tail = [] ∨ ∃ t, tail = byte '&' :: t) :
    debugUrl (secretKey ++ (x ++ tail)) = hidden ++ tail := by
  obtain ⟨c, s, hkey⟩ : ∃ c s, secretKey = c :: s :=
    ⟨byte 'a', utf8 "ccess_token=", rfl⟩
  obtain ⟨d, y, rfl⟩ := List.exists_cons_of_ne_nil hx
  have hd : d ≠ byte '&' := fun h => hamp (h ▸ List.mem_cons_self)
  have hall : ∀ e ∈ d :: y, decide (e ≠ byte '&') = true := fun e he =>
    decide_eq_true fun h => hamp (h ▸ he)
  have hdrop : (secretKey ++ (d :: y ++ tail)).drop secretKey.length = d :: y ++ tail :=
    List.drop_left
  have hrest : (d :: y ++ tail).dropWhile (fun e => decide (e ≠ byte '&')) = tail := by
    rw [List.dropWhile_append_of_pos hall]
    rcases htail with rfl | ⟨t, rfl⟩
    · rfl
    · exact List.dropWhile_cons_of_neg (by simp)
  have hcons : secretKey ++ (d :: y ++ tail) = c :: (s ++ (d :: y ++ tail)) := by
    rw [hkey]
    rfl
  rw [hcons, debugUrl, ← hcons, hdrop, hrest]
  exact if_pos ⟨List.prefix_append _ _, Option.some_ne_none d, fun h => hd (Option.some.inj h)⟩

/-- The serializer writes something for a text that is not empty. -/
theorem formEscape_ne_nil {s : String} (h : s ≠ "") : formEscape s ≠ [] := by
  intro hnil
  have hbytes : utf8 s = [] := by
    cases hs : utf8 s with
    | nil => rfl
    | cons c t =>
      rw [formEscape, hs, List.flatMap_cons] at hnil
      have hne : formEscapeByte c ≠ [] := by
        rw [formEscapeByte]
        split_ifs
        · exact List.cons_ne_nil _ _
        · exact List.cons_ne_nil _ _
        · exact List.cons_ne_nil _ _
      exact absurd (List.append_eq_nil_iff.1 hnil).1 hne
  have hlength := length_le_utf8 s
  rw [hbytes, List.length_nil, Nat.le_zero] at hlength
  exact h (String.length_eq_zero_iff.1 hlength)

/-- **The log hides the token.**  What the page logs of the URL of its socket has
three stars in the place of the token, and nothing in it depends on the token, as
long as the address of the server has no key of its own. -/
theorem debugUrl_hides {base : Bytes} (hbase : ¬secretKey <:+: base) {accessToken : String}
    (htoken : accessToken ≠ "") (lastEventId : String) :
    debugUrl (buildUrl base accessToken lastEventId) =
      base ++ notificationsWS ++ byte '?' :: (hidden ++
        if lastEventId = "" then [] else byte '&' :: formPair ("since", lastEventId)) := by
  have hkey : formEscape "access_token" ++ [byte '='] = secretKey := by decide +kernel
  have hquery : urlSearchParams (socketParams accessToken lastEventId) =
      secretKey ++ (formEscape accessToken ++
        if lastEventId = "" then [] else byte '&' :: formPair ("since", lastEventId)) := by
    rw [urlSearchParams, socketParams, ← hkey]
    split_ifs
    · simp [List.intercalate, formPair]
    · simp [List.intercalate, formPair]
  have hpath : notificationsWS = byte '/' :: utf8 "notifications/ws" := rfl
  have hinfix : ¬secretKey <:+: utf8 "notifications/ws" := by decide +kernel
  have hsecret : debugUrl (secretKey ++ (formEscape accessToken ++
      if lastEventId = "" then [] else byte '&' :: formPair ("since", lastEventId))) =
        hidden ++ if lastEventId = "" then [] else byte '&' :: formPair ("since", lastEventId) := by
    refine debugUrl_secret (formEscape_ne_nil htoken)
      (fun h => (formByte_ne _ (formByte_formEscape accessToken _ h)).1 rfl) ?_
    split_ifs
    · exact .inl rfl
    · exact .inr ⟨_, rfl⟩
  rw [buildUrl, hquery, hpath, List.append_assoc, List.append_assoc, List.cons_append,
    debugUrl_append (by decide) hbase, debugUrl_append (by decide) hinfix, hsecret,
    List.cons_append]

/-- The address that the build has when nothing else is set. -/
theorem debugUrl_hides_localhost :
    debugUrl (buildUrl (utf8 "ws://localhost:8080/api/v1") "ey.a.b" "e1") =
      utf8 "ws://localhost:8080/api/v1/notifications/ws?access_token=***&since=e1" := by
  have hbase : ¬secretKey <:+: utf8 "ws://localhost:8080/api/v1" := by decide +kernel
  rw [debugUrl_hides hbase (by decide) "e1"]
  decide +kernel

end Frontend
end YtShare
