/-
# The database written as a URL

`DatabaseConfig.URL` writes the user and the password in `QueryEscape` and the host,
the database name and the SSL mode as they are.  `applyDatabaseURL` decodes each of
them after the rules of its place in a URL: a user's `+` is a plus sign, a host shows
no space, a path ends at the first `?`, a query's pieces at the `&`.

So what `applyDatabaseURL` once decoded it may decode again, refuse or cut off.  A
decoder makes nothing longer, which leaves one way to read a field as it was: byte by
byte.  That gives the exact condition on the fields (`UrlSafe`), one line for each
place.
-/

import YtShare.Config.Load
import YtShare.Net.Authority

namespace YtShare
namespace Config

open Lib URL

/-! ### The port -/

/-- A decimal digit is a character of ASCII. -/
theorem lt_of_isDigit {c : Char} (h : c.isDigit = true) : c.toNat < 128 := by
  obtain ⟨-, hle⟩ := Char.isDigit_iff_toNat.1 h
  exact Nat.lt_of_le_of_lt hle (by decide)

/-- What Lean takes for a digit is one for `net/url`, below 128. -/
theorem isDigit_ofNat : ∀ n < 128, (Char.ofNat n).isDigit = true →
    URL.isDigit (UInt8.ofNat n) = true := by
  decide +kernel

/-- And the other way round, for every byte. -/
theorem isDigit_char : ∀ b : UInt8, URL.isDigit b = true → (Char.ofNat b.toNat).isDigit = true :=
  forall_byte (by decide +kernel)

section

variable {n : ℤ} (hn : 0 ≤ n)
include hn

/-- A port is written in digits. -/
theorem utf8_itoa : ∃ cs : List Char, (∀ c ∈ cs, c.isDigit = true) ∧ cs ≠ [] ∧
    itoa n = String.ofList cs := by
  obtain ⟨m, rfl⟩ := Int.eq_ofNat_of_zero_le hn
  refine ⟨Nat.toDigits 10 m, fun c hc => ?_, Nat.toDigits_ne_nil, rfl⟩
  exact Nat.isDigit_of_mem_toDigits (by decide) (by decide) hc

/-- A port as `Itoa` writes it is made of digits. -/
theorem isDigit_itoa : (utf8 (itoa n)).all URL.isDigit = true := by
  obtain ⟨cs, hcs, -, he⟩ := utf8_itoa hn
  rw [he, utf8_ofList fun c hc => lt_of_isDigit (hcs c hc)]
  refine List.all_eq_true.2 fun b hb => ?_
  obtain ⟨c, hc, rfl⟩ := List.mem_map.1 hb
  have hdigit := isDigit_ofNat c.toNat (lt_of_isDigit (hcs c hc))
  rw [Char.ofNat_toNat] at hdigit
  exact hdigit (hcs c hc)

/-- **A port is read as it was written.** -/
theorem databasePort_itoa (hlt : n < 2 ^ 63) : databasePort (utf8 (itoa n)) = .ok n := by
  have hread := atoi_itoa (n := n) ⟨Int.le_trans (by decide) hn, hlt⟩
  obtain ⟨cs, hcs, hne, he⟩ := utf8_itoa hn
  have hascii : ∀ c ∈ cs, c.toNat < 128 := fun c hc => lt_of_isDigit (hcs c hc)
  have hnil : utf8 (String.ofList cs) ≠ [] := by
    rw [utf8_ofList hascii]
    exact fun h => hne (List.map_eq_nil_iff.1 h)
  rw [he] at hread ⊢
  rw [databasePort, if_pos hnil, ofASCII_utf8 hascii, hread]

end

/-- A port that was read is no negative number. -/
theorem databasePort_bounds {p : Bytes} {n : ℤ} (hp : p.all URL.isDigit = true)
    (h : databasePort p = .ok n) : 0 ≤ n ∧ n < 2 ^ 63 := by
  unfold databasePort at h
  split_ifs at h with hne
  · split at h
    · cases h
    · rename_i m hm
      obtain rfl := Except.ok.inj h
      have hdigits : ∀ c ∈ p.map fun b => Char.ofNat b.toNat, c.isDigit = true := by
        intro c hc
        obtain ⟨b, hb, rfl⟩ := List.mem_map.1 hc
        exact isDigit_char b (List.all_eq_true.1 hp b hb)
      rw [ofASCII, atoi_ofList fun c hc => hdigits c (List.mem_of_mem_head? hc)] at hm
      obtain ⟨hsome, hbounds⟩ := Option.filter_eq_some_iff.1 hm
      obtain ⟨k, -, rfl⟩ := Option.map_eq_some_iff.1 hsome
      exact ⟨Int.natCast_nonneg k, (of_decide_eq_true hbounds).2⟩
  · obtain rfl := Except.ok.inj h
    decide

/-! ### What is written -/

namespace DatabaseConfig

variable (c : DatabaseConfig)

/-- The authority of the URL. -/
def authority : Bytes :=
  (queryEscape c.user ++ byte ':' :: queryEscape c.password) ++
    byte '@' :: (c.host ++ byte ':' :: utf8 (itoa c.port))

/-- The query of the URL. -/
def query : Bytes := utf8 "sslmode" ++ byte '=' :: c.sslMode

/-- What follows the authority. -/
def rest : Bytes := byte '/' :: (c.name ++ byte '?' :: c.query)

variable {c} in
/-- A byte of the query stands in its key or in the `sslmode`. -/
theorem mem_query {b : UInt8} (h : b ∈ c.query) : b ∈ utf8 "sslmode=" ∨ b ∈ c.sslMode := by
  rcases List.mem_append.1 h with h | h
  · exact .inl (List.mem_append_left (utf8 "=") h)
  · refine (List.mem_cons.1 h).imp_left fun he => ?_
    rw [he]
    decide

variable {c} in
/-- A byte after the authority stands in the signs between the parts, in the name of the
database or in the `sslmode`. -/
theorem mem_rest {b : UInt8} (h : b ∈ c.rest) :
    b ∈ utf8 "/?sslmode=" ∨ b ∈ c.name ∨ b ∈ c.sslMode := by
  rcases List.mem_cons.1 h with rfl | h
  · exact .inl (by decide)
  · rcases List.mem_append.1 h with h | h
    · exact .inr (.inl h)
    · rcases List.mem_cons.1 h with rfl | h
      · exact .inl (by decide)
      · refine (mem_query h).imp (fun hk => ?_) .inr
        exact List.mem_append_right (utf8 "/?") hk

/-- The URL is its scheme, the two slashes, the authority and what follows it. -/
theorem url_eq : c.url = lead (utf8 "postgres") ++ utf8 "//" ++ (c.authority ++ c.rest) := by
  have hscheme : utf8 "postgres://" = lead (utf8 "postgres") ++ utf8 "//" := by decide
  have hquery : utf8 "?sslmode=" = byte '?' :: (utf8 "sslmode" ++ [byte '=']) := by decide
  have hone : utf8 ":" = [byte ':'] ∧ utf8 "@" = [byte '@'] ∧ utf8 "/" = [byte '/'] := by decide
  rw [url, authority, rest, query, hscheme, hquery, hone.1, hone.2.1, hone.2.2]
  simp only [List.append_assoc, List.cons_append, List.nil_append]

/-- **The fields that are read as they are written.** -/
structure UrlSafe : Prop where
  user : byte ' ' ∉ c.user
  password : byte ' ' ∉ c.password
  host : PlainHost c.host
  name : ∀ b ∈ c.name, b ∉ utf8 "%?#" ∧ isCTL b = false
  sslMode : ∀ b ∈ c.sslMode, b ∉ utf8 "&;%+#" ∧ isCTL b = false

/-- What `Load` gives for a `DATABASE_URL`. -/
structure FromURL : Prop where
  host : ∀ b ∈ c.host, HostByte b
  port : 0 ≤ c.port ∧ c.port < 2 ^ 63
  sslMode : c.sslMode ≠ []

end DatabaseConfig

/-- What a URL was accepted for has been taken from it. -/
theorem fromURL_of_apply {base c : DatabaseConfig} {raw : Bytes}
    (h : applyDatabaseURL base raw = .ok c) : c.FromURL := by
  obtain ⟨u, hu, hport, hhost, -, -, -, hssl⟩ := applyDatabaseURL_eq_ok h
  refine ⟨fun b hb => ?_, databasePort_bounds (isDigit_port u) hport, ?_⟩
  · rw [hhost] at hb
    exact hostByte_of_parse hu b (mem_hostname hb)
  · rw [hssl, databaseSSLMode]
    split_ifs with hv
    · exact hv
    · decide

/-! ### Reading it again -/

section

variable {c : DatabaseConfig} (hc : c.FromURL)
include hc

/-- There is no `@` in host and port, so the one before them is the last. -/
theorem at_notMem_hostPort : byte '@' ∉ c.host ++ byte ':' :: utf8 (itoa c.port) := by
  intro hm
  rcases List.mem_append.1 hm with hm | hm
  · exact absurd (hc.host _ hm) (by decide)
  · rcases List.mem_cons.1 hm with he | hm
    · exact absurd he (by decide)
    · exact absurd (List.all_eq_true.1 (isDigit_itoa hc.port.1) _ hm) (by decide)

/-- No byte of the authority ends it, and none is a control character. -/
theorem authority_bytes : ∀ b ∈ c.authority, ¬EndsAuthority b ∧ isCTL b = false := by
  have hescaped : ∀ b : UInt8, Escaped b → ¬EndsAuthority b ∧ isCTL b = false :=
    forall_byte (by decide +kernel)
  have hhost : ∀ b : UInt8, HostByte b → ¬EndsAuthority b ∧ isCTL b = false :=
    forall_byte (by decide +kernel)
  have hdigit : ∀ b : UInt8, URL.isDigit b = true → ¬EndsAuthority b ∧ isCTL b = false :=
    forall_byte (by decide +kernel)
  intro b hb
  rcases List.mem_append.1 hb with hb | hb
  · rcases List.mem_append.1 hb with hb | hb
    · exact hescaped b (escaped_queryEscape _ b hb)
    · rcases List.mem_cons.1 hb with rfl | hb
      · decide
      · exact hescaped b (escaped_queryEscape _ b hb)
  · rcases List.mem_cons.1 hb with rfl | hb
    · decide
    · rcases List.mem_append.1 hb with hb | hb
      · exact hhost b (hc.host b hb)
      · rcases List.mem_cons.1 hb with rfl | hb
        · decide
        · exact hdigit b (List.all_eq_true.1 (isDigit_itoa hc.port.1) b hb)

/-- What `Parse` does with the URL. -/
theorem parse_url : parse c.url =
    if (c.authority ++ (cut (byte '#') c.rest).1).any isCTL then .error .controlCharacter
    else
      (parseHost (c.host ++ byte ':' :: utf8 (itoa c.port))).bind fun host =>
        (unescape .path (cut (byte '?') (cut (byte '#') c.rest).1).1).bind fun path =>
          (unescape .fragment (cut (byte '#') c.rest).2).map fun _ =>
            ⟨utf8 "postgres",
              some ⟨c.user.map plusForSpace, some (c.password.map plusForSpace)⟩, host, path,
              (cut (byte '?') (cut (byte '#') c.rest).1).2⟩ := by
  have hscheme : ValidScheme (utf8 "postgres") := by
    refine ⟨by decide, ?_⟩
    decide
  have hlower : toLower (utf8 "postgres") = utf8 "postgres" := by decide
  have hauth : parseAuthority c.authority =
      (parseHost (c.host ++ byte ':' :: utf8 (itoa c.port))).map fun host =>
        (some ⟨c.user.map plusForSpace, some (c.password.map plusForSpace)⟩, host) := by
    rw [DatabaseConfig.authority, parseAuthority_append _ (at_notMem_hostPort hc),
      parseUserinfo_queryEscape]
    cases parseHost (c.host ++ byte ':' :: utf8 (itoa c.port)) <;> rfl
  have hrest : ∀ b ∈ c.rest.head?, EndsAuthority b := by
    intro b hb
    obtain rfl : byte '/' = b := Option.some.inj hb
    exact .inl rfl
  rw [c.url_eq, parse_authority hscheme (.inl (by decide))
    (fun b hb => (authority_bytes hc b hb).1) hrest, hauth, hlower]
  cases parseHost (c.host ++ byte ':' :: utf8 (itoa c.port)) <;> rfl

end

/-- Nothing is cut off a name before the query, and nothing in it is decoded. -/
theorem name_of_path {name tail path : Bytes}
    (hpath : unescape .path
      (cut (byte '?') (cut (byte '#') (byte '/' :: (name ++ byte '?' :: tail))).1).1 = .ok path)
    (hname : trimPrefix (utf8 "/") path = name) :
    (∀ b ∈ name, b ∉ utf8 "%?#") ∧
      (cut (byte '#') (byte '/' :: (name ++ byte '?' :: tail))).1 =
        byte '/' :: (name ++ byte '?' :: (cut (byte '#') tail).1) := by
  have hslash : ∀ {sep : UInt8}, byte '/' ≠ sep → ∀ s : Bytes,
      (cut sep (byte '/' :: s)).1 = byte '/' :: (cut sep s).1 := fun hne s =>
    congrArg Prod.fst (cut_append_of_notMem (fun hm => hne (List.mem_singleton.1 hm).symm) s)
  rw [hslash (by decide), hslash (by decide),
    unescape_cons (show Plain .path (byte '/') by decide)] at hpath
  obtain ⟨p, hp, rfl⟩ := ok_of_map hpath
  obtain rfl : p = name := (trimPrefix_append (utf8 "/") p).symm.trans hname
  -- a decoder makes nothing longer, so all of the name stands before the cuts
  have hle := (length_unescape hp).1
  have hhash : byte '#' ∉ p := by
    intro hm
    have hlt := length_cut_lt hm (byte '?' :: tail)
    have hcut := length_cut_le (byte '?') (cut (byte '#') (p ++ byte '?' :: tail)).1
    omega
  have hfirst : (cut (byte '#') (p ++ byte '?' :: tail)).1 =
      p ++ byte '?' :: (cut (byte '#') tail).1 := by
    rw [cut_append_of_notMem hhash]
    refine congrArg (p ++ ·) ?_
    exact congrArg Prod.fst
      (cut_append_of_notMem (fun hm => absurd (List.mem_singleton.1 hm) (by decide)) tail)
  rw [hfirst] at hp hle
  have hquest : byte '?' ∉ p := by
    intro hm
    have hlt := length_cut_lt hm (byte '?' :: (cut (byte '#') tail).1)
    omega
  rw [cut_append hquest] at hp
  refine ⟨fun b hb hmem => ?_, by rw [hslash (by decide), hfirst]⟩
  have hplain := unescape_eq_self_iff.1 hp b hb
  have hthree : ∀ d ∈ utf8 "%?#", d = byte '%' ∨ d = byte '?' ∨ d = byte '#' := by decide
  rcases hthree b hmem with rfl | rfl | rfl
  · exact hplain.1 rfl
  · exact hquest hb
  · exact hhash hb

/-- What a pair of a query was read from. -/
theorem queryPair_eq_some {piece key value : Bytes} (h : queryPair piece = some (key, value)) :
    byte ';' ∉ piece ∧ unescape .queryComponent (cut (byte '=') piece).1 = .ok key ∧
      unescape .queryComponent (cut (byte '=') piece).2 = .ok value := by
  unfold queryPair at h
  split_ifs at h with hskip
  split at h
  · rename_i k v hk hv
    obtain ⟨rfl, rfl⟩ := Prod.mk.inj (Option.some.inj h)
    exact ⟨fun hm => hskip (.inl hm), hk, hv⟩
  · cases h

/-- A query that gives an SSL mode as it was written is one piece, with nothing in it
to be decoded. -/
theorem sslMode_of_pair {ssl : Bytes} (hne : ssl ≠ [])
    (h : (utf8 "sslmode", ssl) ∈
      parseQuery (cut (byte '#') (utf8 "sslmode" ++ byte '=' :: ssl)).1) :
    ∀ b ∈ ssl, b ∉ utf8 "&;%+#" := by
  obtain ⟨piece, hpiece, hpair⟩ := List.mem_filterMap.1 h
  obtain ⟨hamp, hsub⟩ := mem_splitOn hpiece
  obtain ⟨hsemi, hkey, hvalue⟩ := queryPair_eq_some hpair
  have hfirst : (cut (byte '#') (utf8 "sslmode" ++ byte '=' :: ssl)).1 =
      utf8 "sslmode" ++ byte '=' :: (cut (byte '#') ssl).1 := by
    have hno : byte '#' ∉ utf8 "sslmode" ++ [byte '='] := by decide
    have := congrArg Prod.fst (cut_append_of_notMem hno ssl)
    rwa [List.append_assoc, List.append_assoc] at this
  rw [hfirst] at hsub
  have hcut := length_cut_le (byte '#') ssl
  have hseven : (utf8 "sslmode").length = 7 := by decide
  have hqlen : (utf8 "sslmode" ++ byte '=' :: (cut (byte '#') ssl).1).length =
      8 + (cut (byte '#') ssl).1.length := by
    rw [List.length_append, List.length_cons, hseven]
    omega
  -- the piece is at least as long as the key, the equals sign and the value
  have hlen : 8 + ssl.length ≤ piece.length := by
    rcases cut_spec (byte '=') piece with ⟨-, he⟩ | he
    · rw [he] at hvalue
      exact absurd (Except.ok.inj hvalue).symm hne
    · have hk := (length_unescape hkey).1
      have hv := (length_unescape hvalue).1
      rw [he, List.length_append, List.length_cons]
      omega
  have hle := hsub.length_le
  have hhash : byte '#' ∉ ssl := by
    intro hm
    have hlt := length_cut_lt hm []
    rw [List.append_nil] at hlt
    omega
  obtain rfl : piece = utf8 "sslmode" ++ byte '=' :: (cut (byte '#') ssl).1 :=
    hsub.eq_of_length_le (by omega)
  rw [cut_of_notMem hhash] at hamp hsemi hkey hvalue
  rw [cut_append (by decide)] at hvalue
  have hplain := unescape_eq_self_iff.1 hvalue
  have hfive : ∀ d ∈ utf8 "&;%+#",
      d = byte '&' ∨ d = byte ';' ∨ ¬Plain .queryComponent d ∨ d = byte '#' := by decide
  intro b hb hmem
  have hin : b ∈ utf8 "sslmode" ++ byte '=' :: ssl :=
    List.mem_append_right _ (List.mem_cons_of_mem _ hb)
  rcases hfive b hmem with rfl | rfl | hnot | rfl
  · exact hamp hin
  · exact hsemi hin
  · exact hnot (hplain b hb)
  · exact hhash hb

/-- An SSL mode that is read as it was written is safe: it was found in the query, or
it is the default. -/
theorem sslMode_of_query {u : URL} {ssl : Bytes} (hne : ssl ≠ [])
    (hu : u.rawQuery = (cut (byte '#') (utf8 "sslmode" ++ byte '=' :: ssl)).1)
    (h : ssl = databaseSSLMode (u.queryGet (utf8 "sslmode"))) : ∀ b ∈ ssl, b ∉ utf8 "&;%+#" := by
  rw [queryGet, hu, databaseSSLMode] at h
  split_ifs at h with hv
  · cases hf : (parseQuery (cut (byte '#') (utf8 "sslmode" ++ byte '=' :: ssl)).1).find?
        fun p => decide (p.1 = utf8 "sslmode") with
    | none =>
      rw [hf] at hv
      exact absurd rfl hv
    | some p =>
      rw [hf] at h
      have hkey : p.1 = utf8 "sslmode" := by simpa using List.find?_some hf
      have hpair : p = (utf8 "sslmode", ssl) := Prod.ext hkey h.symm
      have hmem := List.mem_of_find?_eq_some hf
      rw [hpair] at hmem
      exact sslMode_of_pair hne hmem
  · rw [h]
    decide

section

variable {c : DatabaseConfig} (hc : c.FromURL)
include hc

/-- What is read again as it was is safe. -/
theorem urlSafe_of_apply {base : DatabaseConfig} (h : applyDatabaseURL base c.url = .ok c) :
    c.UrlSafe := by
  obtain ⟨u, hu, -, hhost, huser, hpassword, hname, hssl⟩ := applyDatabaseURL_eq_ok h
  rw [parse_url hc] at hu
  split_ifs at hu with hctl
  obtain ⟨host, hparse, hrest⟩ := ok_of_bind hu
  obtain ⟨path, hpath, hmap⟩ := ok_of_bind hrest
  obtain ⟨_, -, rfl⟩ := ok_of_map hmap
  obtain ⟨hnames, hcut⟩ := name_of_path hpath hname.symm
  have hquest : byte '?' ∉ byte '/' :: c.name := by
    intro hm
    rcases List.mem_cons.1 hm with he | hm
    · exact absurd he (by decide)
    · exact hnames _ hm (by decide)
  have hquery : (cut (byte '?') (cut (byte '#') c.rest).1).2 = (cut (byte '#') c.query).1 := by
    rw [DatabaseConfig.rest, hcut]
    exact congrArg Prod.snd (cut_append hquest (cut (byte '#') c.query).1)
  have hsafe := sslMode_of_query hc.sslMode hquery hssl
  have hhash : byte '#' ∉ c.query := fun hm =>
    (DatabaseConfig.mem_query hm).elim (by decide) fun hm => hsafe _ hm (by decide)
  have hbytes : ∀ b ∈ byte '/' :: (c.name ++ byte '?' :: c.query), isCTL b = false := by
    rw [DatabaseConfig.rest, hcut, cut_of_notMem hhash] at hctl
    intro b hb
    have hany := List.any_eq_false.1 (Bool.not_eq_true _ ▸ hctl) b (List.mem_append_right _ hb)
    rwa [Bool.not_eq_true] at hany
  refine ⟨map_plusForSpace_eq_iff.1 huser.symm, map_plusForSpace_eq_iff.1 hpassword.symm,
    (hostname_eq_iff (isDigit_itoa hc.port.1) hc.host).1 ⟨host, hparse, hhost.symm⟩,
    fun b hb => ⟨hnames b hb, hbytes b ?_⟩, fun b hb => ⟨hsafe b hb, hbytes b ?_⟩⟩
  · exact List.mem_cons_of_mem _ (List.mem_append_left _ hb)
  · exact List.mem_cons_of_mem _ (List.mem_append_right _ (List.mem_cons_of_mem _
      (List.mem_append_right _ (List.mem_cons_of_mem _ hb))))

end

/-! ### What is safe -/

/-- The key of the query is read as it is written. -/
theorem unescape_key : unescape .queryComponent (utf8 "sslmode") = .ok (utf8 "sslmode") := by
  decide +kernel

/-- The bytes of an `sslmode` without the five signs are read as they are written. -/
theorem not_mem_sslMode : ∀ b : UInt8, b ∉ utf8 "&;%+#" →
    b ≠ byte '&' ∧ b ≠ byte ';' ∧ b ≠ byte '#' ∧ Plain .queryComponent b :=
  forall_byte (by decide +kernel)

/-- The bytes of a name without the three signs are read as they are written, and end no
path. -/
theorem not_mem_name : ∀ b : UInt8, b ∉ utf8 "%?#" →
    Plain .path b ∧ b ≠ byte '?' ∧ b ≠ byte '#' :=
  forall_byte (by decide +kernel)

section

variable {c : DatabaseConfig} (hs : c.UrlSafe)
include hs

/-- The query holds the SSL mode and nothing else. -/
theorem parseQuery_query : parseQuery c.query = [(utf8 "sslmode", c.sslMode)] := by
  have hssl := fun b hb => not_mem_sslMode b (hs.sslMode b hb).1
  have hamp : ∀ p ∈ [c.query], byte '&' ∉ p := by
    intro p hp hm
    rw [List.mem_singleton.1 hp] at hm
    exact (DatabaseConfig.mem_query hm).elim (by decide) fun hm => (hssl _ hm).1 rfl
  have hsemi : byte ';' ∉ c.query := fun hm =>
    (DatabaseConfig.mem_query hm).elim (by decide) fun hm => (hssl _ hm).2.1 rfl
  have hpiece : queryPair c.query = some (utf8 "sslmode", c.sslMode) :=
    queryPair_append (by decide) hsemi unescape_key
      (unescape_of_plain fun b hb => (hssl b hb).2.2.2)
  have hone := parseQuery_intercalate hamp
  rw [List.intercalate_singleton] at hone
  rw [hone, List.filterMap_cons_some hpiece, List.filterMap_nil]

/-- There is no fragment in such a URL. -/
theorem hash_notMem_rest : byte '#' ∉ c.rest := by
  intro hm
  rcases DatabaseConfig.mem_rest hm with hm | hm | hm
  · exact absurd hm (by decide)
  · exact (not_mem_name _ (hs.name _ hm).1).2.2 rfl
  · exact (not_mem_sslMode _ (hs.sslMode _ hm).1).2.2.1 rfl

/-- And no control byte after the authority. -/
theorem isCTL_rest : ∀ b ∈ c.rest, isCTL b = false := by
  have hsigns : ∀ b ∈ utf8 "/?sslmode=", isCTL b = false := by decide
  intro b hb
  rcases DatabaseConfig.mem_rest hb with hb | hb | hb
  · exact hsigns b hb
  · exact (hs.name b hb).2
  · exact (hs.sslMode b hb).2

/-- The name is the path, which the first `?` ends. -/
theorem cut_rest : cut (byte '?') c.rest = (byte '/' :: c.name, c.query) := by
  refine cut_append (a := byte '/' :: c.name) (fun hm => ?_) c.query
  rcases List.mem_cons.1 hm with he | hm
  · exact absurd he (by decide)
  · exact (not_mem_name _ (hs.name _ hm).1).2.1 rfl

/-- The path is read as the slash and the name. -/
theorem unescape_name : unescape .path (byte '/' :: c.name) = .ok (byte '/' :: c.name) := by
  refine unescape_of_plain fun b hb => ?_
  rcases List.mem_cons.1 hb with rfl | hb
  · decide
  · exact (not_mem_name b (hs.name b hb).1).1

variable (hc : c.FromURL)
include hc

/-- **What `Parse` gives for safe fields**: the fields. -/
theorem parse_url_of_urlSafe : parse c.url = .ok ⟨utf8 "postgres", some ⟨c.user, some c.password⟩,
    c.host ++ byte ':' :: utf8 (itoa c.port), byte '/' :: c.name, c.query⟩ := by
  have hctl : ¬(c.authority ++ c.rest).any isCTL = true := by
    rw [Bool.not_eq_true, List.any_eq_false]
    intro b hb
    rw [Bool.not_eq_true]
    rcases List.mem_append.1 hb with hb | hb
    · exact (authority_bytes hc b hb).2
    · exact isCTL_rest hs b hb
  rw [parse_url hc, cut_of_notMem (hash_notMem_rest hs)]
  simp only
  rw [if_neg hctl, parseHost_of_plainHost (isDigit_itoa hc.port.1) hc.host hs.host, cut_rest hs,
    map_plusForSpace_eq_iff.2 hs.user, map_plusForSpace_eq_iff.2 hs.password]
  simp only [Except.bind, unescape_name hs]
  rfl

/-- What is safe is read again as it was, whatever it is read over. -/
theorem apply_of_urlSafe (base : DatabaseConfig) : applyDatabaseURL base c.url = .ok c := by
  have hsplit := splitHostPort_append c.host (isDigit_itoa hc.port.1)
  rw [unbracket, if_neg fun hb => hs.host.2.2 hb.1] at hsplit
  have hname : trimPrefix (utf8 "/") (byte '/' :: c.name) = c.name :=
    trimPrefix_append (utf8 "/") c.name
  have hfind : [(utf8 "sslmode", c.sslMode)].find? (fun p => decide (p.1 = utf8 "sslmode")) =
      some (utf8 "sslmode", c.sslMode) := List.find?_cons_of_pos (decide_eq_true rfl)
  rw [applyDatabaseURL, parse_url_of_urlSafe hs hc]
  simp only [hostname, URL.port, hsplit, databasePort_itoa hc.port.1 hc.port.2, queryGet,
    parseQuery_query hs, hname, hfind, Option.map_some, Option.getD_some, databaseSSLMode]
  rw [if_neg fun h => h.1 rfl, if_pos hc.sslMode]
  rfl

end

/-! ### The round trip -/

/-- `applyDatabaseURL` gives the fields back from what `DatabaseConfig.URL` writes. -/
def DatabaseConfig.RoundTrips (c : DatabaseConfig) : Prop :=
  ∀ base, applyDatabaseURL base c.url = .ok c

/-- **When the URL is a faithful encoding.**  The configuration that `Load` makes of a
`DATABASE_URL` is given back by `applyDatabaseURL` from its own URL, in all six fields,
exactly when the fields are safe: no space in the user and the password, neither a space
nor a percent sign in the host nor a bracket before it, no `%`, `?`, `#` or control
character in the name, and no `&`, `;`, `%`, `+`, `#` or control character in the SSL
mode. -/
theorem url_round_trip_iff {env : Env} {cfg : Config} (hurl : envStr env "DATABASE_URL" [] ≠ [])
    (h : load env = .ok cfg) : cfg.db.RoundTrips ↔ cfg.db.UrlSafe := by
  obtain ⟨dbPort, -, hdb⟩ := load_db h
  rw [loadDatabase, if_pos hurl] at hdb
  have hc := fromURL_of_apply hdb
  exact ⟨fun hround => urlSafe_of_apply hc (hround (databaseEnv env dbPort)),
    fun hs base => apply_of_urlSafe hs hc base⟩

/-- An environment with nothing but a `DATABASE_URL`. -/
def databaseURL (raw : String) : Env := fun key =>
  if key = "DATABASE_URL" then some (utf8 raw) else none

/-- A password with a plus sign, an IPv6 host in brackets and a port. -/
theorem url_round_trip_iff_bracketed :
    ∃ cfg, load (databaseURL "postgres://ann:a%2Bb@[2001:db8::1]:6432/shares?sslmode=disable") =
        .ok cfg ∧
      cfg.db = ⟨utf8 "2001:db8::1", 6432, utf8 "ann", utf8 "a+b", utf8 "shares", utf8 "disable"⟩ ∧
      cfg.db.RoundTrips := by
  obtain ⟨cfg, hload, hdb⟩ := ok_of_map (show
    (load (databaseURL "postgres://ann:a%2Bb@[2001:db8::1]:6432/shares?sslmode=disable")).map
      Config.db = .ok ⟨utf8 "2001:db8::1", 6432, utf8 "ann", utf8 "a+b", utf8 "shares",
        utf8 "disable"⟩ by decide +kernel)
  refine ⟨cfg, hload, hdb, (url_round_trip_iff (by decide +kernel) hload).2 ?_⟩
  rw [hdb]
  exact ⟨by decide +kernel, by decide +kernel, by decide +kernel, by decide +kernel,
    by decide +kernel⟩

/-- A password with a space, written `%20`: it comes back with a plus sign. -/
theorem not_round_trips :
    ∃ cfg, load (databaseURL "postgres://ann:a%20b@db/shares") = .ok cfg ∧
      cfg.db = ⟨utf8 "db", 5432, utf8 "ann", utf8 "a b", utf8 "shares", utf8 "require"⟩ ∧
      ¬cfg.db.RoundTrips := by
  obtain ⟨cfg, hload, hdb⟩ := ok_of_map (show
    (load (databaseURL "postgres://ann:a%20b@db/shares")).map Config.db =
      .ok ⟨utf8 "db", 5432, utf8 "ann", utf8 "a b", utf8 "shares", utf8 "require"⟩
    by decide +kernel)
  refine ⟨cfg, hload, hdb, fun hround => ?_⟩
  have hc : cfg.db.FromURL := by
    rw [hdb]
    exact ⟨by decide +kernel, by decide +kernel, by decide +kernel⟩
  have hsafe := urlSafe_of_apply hc (hround cfg.db)
  rw [hdb] at hsafe
  exact absurd hsafe.password (by decide +kernel)

end Config
end YtShare
