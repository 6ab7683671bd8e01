/-
# URLs

`Parse` of `net/url` in Go 1.23, and the parts of a URL that this code reads:
the scheme, the user, the host, the decoded path and the raw query.  An opaque
URL (`mailto:x`) has none of them but its scheme and its query.

`parse_authority` says what a URL with an authority is parsed to: the text
after the two slashes is cut at the first `#`, at the first `?` and at the
first `/`, whatever the authority is, and the authority is then parsed for
itself.
-/

import YtShare.Net.Escape

namespace YtShare

open Lib

/-- `url.Userinfo`. -/
structure Userinfo where
  username : Bytes
  password : Option Bytes
deriving DecidableEq

/-- `url.URL`, the fields that are read. -/
structure URL where
  scheme : Bytes
  user : Option Userinfo
  host : Bytes
  path : Bytes
  rawQuery : Bytes
deriving DecidableEq

namespace URL

/-! ### The authority -/

/-- `validOptionalPort`. -/
def validOptionalPort : Bytes → Bool
  | [] => true
  | c :: port => decide (c = byte ':') && port.all isDigit

/-- `s[:i]` and `s[i:]` for `i` the index of the first `w` in `s`. -/
def splitAtWord (w : Bytes) : Bytes → Option (Bytes × Bytes)
  | [] => if w = [] then some ([], []) else none
  | c :: s =>
      if w.isPrefixOf (c :: s) then some ([], c :: s)
      else (splitAtWord w s).map fun p => (c :: p.1, p.2)

/-- `parseHost` on an IP literal, `before` and `after` the last bracket. -/
def parseIPLiteral (before after : Bytes) : Except ParseError Bytes :=
  if validOptionalPort after then
    match splitAtWord (utf8 "%25") before with
    | some (host, zone) =>
        (unescape .host host).bind fun host => (unescape .zone zone).bind fun zone =>
          (unescape .host (byte ']' :: after)).map fun port => host ++ (zone ++ port)
    | none => unescape .host (before ++ byte ']' :: after)
  else .error (.invalidPort after)

/-- `parseHost`. -/
def parseHost (host : Bytes) : Except ParseError Bytes :=
  if host.head? = some (byte '[') then
    match cutLast (byte ']') host with
    | none => .error .missingBracket
    | some (before, after) => parseIPLiteral before after
  else
    match cutLast (byte ':') host with
    | none => unescape .host host
    | some (_, port) =>
        if validOptionalPort (byte ':' :: port) then unescape .host host
        else .error (.invalidPort (byte ':' :: port))

/-- A byte that `validUserinfo` lets through. -/
def userinfoByte (c : UInt8) : Bool :=
  isAlpha c || isDigit c || decide (c ∈ utf8 "-._:~!$&'()*+,;=%@")

/-- `validUserinfo`. -/
def validUserinfo (s : Bytes) : Bool := s.all userinfoByte

/-- The user of a userinfo: a name, or a name and a password. -/
def parseUserinfo (userinfo : Bytes) : Except ParseError Userinfo :=
  if validUserinfo userinfo then
    if byte ':' ∈ userinfo then
      (unescape .userPassword (cut (byte ':') userinfo).1).bind fun username =>
        (unescape .userPassword (cut (byte ':') userinfo).2).map fun password =>
          ⟨username, some password⟩
    else (unescape .userPassword userinfo).map fun username => ⟨username, none⟩
  else .error .invalidUserinfo

/-- `parseAuthority`. -/
def parseAuthority (authority : Bytes) : Except ParseError (Option Userinfo × Bytes) :=
  match cutLast (byte '@') authority with
  | none => (parseHost authority).map fun host => (none, host)
  | some (userinfo, host) =>
      (parseHost host).bind fun host => (parseUserinfo userinfo).map fun user => (some user, host)

/-! ### The URL -/

/-- A control character of ASCII. -/
def isCTL (c : UInt8) : Bool := decide (c < 32 ∨ c = 127)

/-- A byte that may stand in a scheme, but not first. -/
def isSchemeTail (c : UInt8) : Bool := isDigit c || decide (c ∈ utf8 "+-.")

/-- The loop of `getScheme`: what it has read, and what is left. -/
def getSchemeLoop (rawURL : Bytes) : Bytes → Bytes → Except ParseError (Bytes × Bytes)
  | _, [] => .ok ([], rawURL)
  | seen, c :: s =>
      if isAlpha c then getSchemeLoop rawURL (seen ++ [c]) s
      else if isSchemeTail c then
        if seen = [] then .ok ([], rawURL) else getSchemeLoop rawURL (seen ++ [c]) s
      else if c = byte ':' then
        if seen = [] then .error .missingScheme else .ok (seen, s)
      else .ok ([], rawURL)

/-- `getScheme`. -/
def getScheme (rawURL : Bytes) : Except ParseError (Bytes × Bytes) := getSchemeLoop rawURL [] rawURL

/-- The text before the first slash and the text from it on. -/
def splitSlash (s : Bytes) : Bytes × Bytes :=
  (s.takeWhile fun c => decide (c ≠ byte '/'), s.dropWhile fun c => decide (c ≠ byte '/'))

/-- What `parse` does after the scheme and the query have been cut off. -/
def parseRest (scheme rest rawQuery : Bytes) : Except ParseError URL :=
  if rest.head? ≠ some (byte '/') ∧ scheme ≠ [] then .ok ⟨scheme, none, [], [], rawQuery⟩
  else if rest.head? ≠ some (byte '/') ∧ byte ':' ∈ (cut (byte '/') rest).1 then
    .error .colonInFirstSegment
  else if (scheme ≠ [] ∨ ¬utf8 "///" <+: rest) ∧ utf8 "//" <+: rest then
    (parseAuthority (splitSlash (rest.drop 2)).1).bind fun authority =>
      (unescape .path (splitSlash (rest.drop 2)).2).map fun path =>
        ⟨scheme, authority.1, authority.2, path, rawQuery⟩
  else (unescape .path rest).map fun path => ⟨scheme, none, [], path, rawQuery⟩

/-- `parse`, on a URL without its fragment.  A `?` at the end is cut off alike
when it is the only one. -/
def parseURL (rawURL : Bytes) : Except ParseError URL :=
  if rawURL.any isCTL then .error .controlCharacter
  else if rawURL = utf8 "*" then .ok ⟨[], none, [], rawURL, []⟩
  else
    (getScheme rawURL).bind fun s =>
      parseRest (toLower s.1) (cut (byte '?') s.2).1 (cut (byte '?') s.2).2

/-- `Parse`. -/
def parse (rawURL : Bytes) : Except ParseError URL :=
  (parseURL (cut (byte '#') rawURL).1).bind fun url =>
    (unescape .fragment (cut (byte '#') rawURL).2).map fun _ => url

/-- `splitHostPort`. -/
def splitHostPort (hostPort : Bytes) : Bytes × Bytes :=
  let split := match cutLast (byte ':') hostPort with
    | none => (hostPort, [])
    | some (host, port) => if port.all isDigit then (host, port) else (hostPort, [])
  if split.1.head? = some (byte '[') ∧ split.1.getLast? = some (byte ']') then
    (split.1.tail.dropLast, split.2)
  else split

/-- `URL.Hostname`. -/
def hostname (u : URL) : Bytes := (splitHostPort u.host).1

/-- `URL.Port`. -/
def port (u : URL) : Bytes := (splitHostPort u.host).2

/-! ### The query -/

/-- What `ParseQuery` makes of the text between two `&`, `none` when it skips
it. -/
def queryPair (s : Bytes) : Option (Bytes × Bytes) :=
  if byte ';' ∈ s ∨ s = [] then none
  else
    match unescape .queryComponent (cut (byte '=') s).1,
        unescape .queryComponent (cut (byte '=') s).2 with
    | .ok key, .ok value => some (key, value)
    | _, _ => none

/-- `ParseQuery`: the keys and values in their order. -/
def parseQuery (query : Bytes) : List (Bytes × Bytes) :=
  (query.splitOn (byte '&')).filterMap queryPair

/-- `u.Query().Get(key)`: the first value of the key, or nothing. -/
def queryGet (u : URL) (key : Bytes) : Bytes :=
  (((parseQuery u.rawQuery).find? fun p => decide (p.1 = key)).map Prod.snd).getD []

/-! ### A URL with an authority -/

/-- What stands before the two slashes: a scheme and a colon, or nothing. -/
def lead (scheme : Bytes) : Bytes := if scheme = [] then [] else scheme ++ [byte ':']

/-- The scheme is missing, or begins with a letter and goes on with letters,
digits and three signs. -/
def ValidScheme : Bytes → Prop
  | [] => True
  | c :: s => isAlpha c = true ∧ ∀ d ∈ s, isAlpha d = true ∨ isSchemeTail d = true

/-- A byte of a scheme ends no part of a URL and is no control character. -/
theorem schemeByte : ∀ c : UInt8, isAlpha c = true ∨ isSchemeTail c = true →
    c ≠ byte '#' ∧ c ≠ byte '?' ∧ isCTL c = false :=
  forall_byte (by decide +kernel)

/-- A scheme is read up to its colon. -/
theorem getSchemeLoop_append {rawURL seen s : Bytes} (hseen : seen ≠ [])
    (hs : ∀ d ∈ s, isAlpha d = true ∨ isSchemeTail d = true) (rest : Bytes) :
    getSchemeLoop rawURL seen (s ++ byte ':' :: rest) = .ok (seen ++ s, rest) := by
  induction s generalizing seen with
  | nil =>
    rw [List.nil_append, getSchemeLoop, if_neg (by decide), if_neg (by decide), if_pos rfl,
      if_neg hseen, List.append_nil]
  | cons d s ih =>
    have htail : ∀ e ∈ s, isAlpha e = true ∨ isSchemeTail e = true := fun e he =>
      hs e (List.mem_cons_of_mem _ he)
    have hnext : (seen ++ [d]) ++ s = seen ++ d :: s := by simp
    rw [List.cons_append, getSchemeLoop]
    by_cases hd : isAlpha d = true
    · rw [if_pos hd, ih (by simp) htail, hnext]
    · rw [if_neg hd, if_pos ((hs d List.mem_cons_self).resolve_left hd), if_neg hseen,
        ih (by simp) htail, hnext]

/-- The scheme is cut off, whatever follows the slash. -/
theorem getScheme_lead {scheme : Bytes} (h : ValidScheme scheme) (rest : Bytes) :
    getScheme (lead scheme ++ byte '/' :: rest) = .ok (scheme, byte '/' :: rest) := by
  cases scheme with
  | nil =>
    show getSchemeLoop _ [] (byte '/' :: rest) = _
    rw [getSchemeLoop, if_neg (by decide), if_neg (by decide), if_neg (by decide)]
    rfl
  | cons c s =>
    have hraw : lead (c :: s) ++ byte '/' :: rest = c :: (s ++ byte ':' :: byte '/' :: rest) := by
      rw [lead, if_neg (List.cons_ne_nil c s)]
      simp
    rw [hraw, getScheme, getSchemeLoop, if_pos h.1, getSchemeLoop_append (by simp) h.2]
    rfl

/-- The bytes before the authority end no part of the URL. -/
theorem lead_slashes {scheme : Bytes} (h : ValidScheme scheme) :
    ∀ c ∈ lead scheme ++ utf8 "//", c ≠ byte '#' ∧ c ≠ byte '?' ∧ isCTL c = false := by
  intro c hc
  rcases List.mem_append.1 hc with hc | hc
  · rw [lead] at hc
    split_ifs at hc with hnil
    · exact absurd hc List.not_mem_nil
    · rcases List.mem_append.1 hc with hc | hc
      · cases scheme with
        | nil => exact absurd rfl hnil
        | cons d s =>
          rcases List.mem_cons.1 hc with rfl | hc
          · exact schemeByte c (.inl h.1)
          · exact schemeByte c (h.2 c hc)
      · rw [List.mem_singleton.1 hc]
        decide
  · have hall : ∀ d ∈ utf8 "//", d ≠ byte '#' ∧ d ≠ byte '?' ∧ isCTL d = false := by decide
    exact hall c hc

/-- A scheme that is lowered does not vanish. -/
theorem toLower_ne_nil {s : Bytes} (h : s ≠ []) : toLower s ≠ [] := by
  cases s with
  | nil => exact absurd rfl h
  | cons b s =>
    rw [toLower_eq, mapRunes, runes, runesFrom, List.flatMap_cons]
    intro hnil
    exact String.utf8EncodeChar_ne_nil (List.append_eq_nil_iff.1 hnil).1

/-- The authority ends at the first slash. -/
theorem splitSlash_append {auth path : Bytes} (ha : byte '/' ∉ auth)
    (hp : path = [] ∨ path.head? = some (byte '/')) : splitSlash (auth ++ path) = (auth, path) := by
  have hall : ∀ c ∈ auth, decide (c ≠ byte '/') = true := fun c hc =>
    decide_eq_true fun he => ha (he ▸ hc)
  rw [splitSlash, List.takeWhile_append_of_pos hall, List.dropWhile_append_of_pos hall]
  rcases hp with rfl | hp
  · simp
  · cases path with
    | nil => cases hp
    | cons c path =>
      rw [List.head?_cons] at hp
      cases hp
      simp

/-- The bytes that end an authority. -/
def EndsAuthority (c : UInt8) : Prop := c = byte '/' ∨ c = byte '?' ∨ c = byte '#'

instance (c : UInt8) : Decidable (EndsAuthority c) := inferInstanceAs (Decidable (_ ∨ _ ∨ _))

/-- What is left of the URL after the fragment and the query are cut off is
empty or begins with a slash. -/
theorem path_of_ends {rest : Bytes} (hr : ∀ c ∈ rest.head?, EndsAuthority c) :
    (cut (byte '?') (cut (byte '#') rest).1).1 = [] ∨
      (cut (byte '?') (cut (byte '#') rest).1).1.head? = some (byte '/') := by
  have hother : ∀ {sep c : UInt8}, c ≠ sep → ∀ s : Bytes,
      cut sep (c :: s) = (c :: (cut sep s).1, (cut sep s).2) := fun hne s =>
    cut_append_of_notMem (fun h => hne (List.mem_singleton.1 h).symm) s
  have hsame : ∀ (sep : UInt8) (s : Bytes), cut sep (sep :: s) = ([], s) := fun sep s =>
    cut_append List.not_mem_nil s
  cases rest with
  | nil => exact .inl rfl
  | cons c rest =>
    rcases hr c rfl with rfl | rfl | rfl
    · refine .inr ?_
      rw [hother (by decide), hother (by decide)]
      rfl
    · refine .inl ?_
      rw [hother (by decide), hsame]
    · refine .inl ?_
      rw [hsame]
      rfl

/-- What `parse` does with two slashes and an authority. -/
theorem parseRest_authority {scheme auth path : Bytes} (hne : scheme ≠ [] ∨ auth ≠ [])
    (ha : byte '/' ∉ auth) (hp : path = [] ∨ path.head? = some (byte '/')) (query : Bytes) :
    parseRest scheme (utf8 "//" ++ (auth ++ path)) query =
      (parseAuthority auth).bind fun authority =>
        (unescape .path path).map fun path => ⟨scheme, authority.1, authority.2, path, query⟩ := by
  have hthree : scheme ≠ [] ∨ ¬utf8 "///" <+: utf8 "//" ++ (auth ++ path) := by
    refine hne.imp_right fun hauth hpre => ?_
    cases auth with
    | nil => exact hauth rfl
    | cons c auth =>
      have hc : utf8 "///" <+: byte '/' :: byte '/' :: c :: (auth ++ path) := hpre
      have hslash : byte '/' = c := by
        obtain ⟨t, ht⟩ := hc
        have hthird : some (byte '/') = some c := congrArg (fun l => l[2]?) ht
        exact Option.some.inj hthird
      exact ha (hslash ▸ List.mem_cons_self)
  rw [parseRest, if_neg fun h => h.1 rfl, if_neg fun h => h.1 rfl,
    if_pos ⟨hthree, List.prefix_append _ _⟩]
  have hdrop : (utf8 "//" ++ (auth ++ path)).drop 2 = auth ++ path := rfl
  rw [hdrop, splitSlash_append ha hp]

/-- **How a URL with an authority is taken apart.**  The rest of the URL, and
what becomes of it, does not depend on the authority. -/
theorem parse_authority {scheme auth rest : Bytes} (hs : ValidScheme scheme)
    (hne : scheme ≠ [] ∨ auth ≠ []) (ha : ∀ c ∈ auth, ¬EndsAuthority c)
    (hr : ∀ c ∈ rest.head?, EndsAuthority c) :
    parse (lead scheme ++ utf8 "//" ++ (auth ++ rest)) =
      if (auth ++ (cut (byte '#') rest).1).any isCTL then .error .controlCharacter
      else
        (parseAuthority auth).bind fun authority =>
          (unescape .path (cut (byte '?') (cut (byte '#') rest).1).1).bind fun path =>
            (unescape .fragment (cut (byte '#') rest).2).map fun _ =>
              ⟨toLower scheme, authority.1, authority.2, path,
                (cut (byte '?') (cut (byte '#') rest).1).2⟩ := by
  have hlead := lead_slashes hs
  have hhash : byte '#' ∉ lead scheme ++ utf8 "//" ++ auth := by
    intro h
    rcases List.mem_append.1 h with h | h
    · exact (hlead _ h).1 rfl
    · exact ha _ h (.inr (.inr rfl))
  have hquest : byte '?' ∉ lead scheme ++ utf8 "//" ++ auth := by
    intro h
    rcases List.mem_append.1 h with h | h
    · exact (hlead _ h).2.1 rfl
    · exact ha _ h (.inr (.inl rfl))
  have hslash : byte '/' ∉ auth := fun h => ha _ h (.inl rfl)
  have hctl : (lead scheme ++ utf8 "//").any isCTL = false :=
    List.any_eq_false.2 fun c hc => by rw [(hlead c hc).2.2]; decide
  have hcut := cut_append_of_notMem hhash rest
  rw [List.append_assoc] at hcut
  rw [parse, hcut]
  simp only
  have hpath := path_of_ends hr
  generalize (cut (byte '#') rest).1 = r at hpath ⊢
  rw [parseURL, List.append_assoc, List.any_append, hctl, Bool.false_or]
  split_ifs with hany hstar
  · rfl
  · have hmem : byte '/' ∈ utf8 "*" := by
      rw [← hstar]
      exact List.mem_append_left _ (List.mem_append_right _ (by decide))
    exact absurd hmem (by decide)
  · have hscheme : getScheme (lead scheme ++ utf8 "//" ++ (auth ++ r)) =
        .ok (scheme, utf8 "//" ++ (auth ++ r)) := by
      rw [List.append_assoc]
      exact getScheme_lead hs (byte '/' :: (auth ++ r))
    have hquery : cut (byte '?') (utf8 "//" ++ (auth ++ r)) =
        (utf8 "//" ++ (auth ++ (cut (byte '?') r).1), (cut (byte '?') r).2) := by
      have hno : byte '?' ∉ utf8 "//" ++ auth := by
        rw [List.append_assoc] at hquest
        exact fun h => hquest (List.mem_append_right _ h)
      have := cut_append_of_notMem hno r
      rwa [List.append_assoc, List.append_assoc] at this
    rw [hscheme]
    show ((parseRest (toLower scheme) (cut (byte '?') (utf8 "//" ++ (auth ++ r))).1
      (cut (byte '?') (utf8 "//" ++ (auth ++ r))).2).bind _) = _
    rw [hquery, parseRest_authority (hne.imp_left toLower_ne_nil) hslash hpath]
    cases parseAuthority auth with
    | error e => rfl
    | ok a => cases unescape .path (cut (byte '?') r).1 <;> rfl

end URL
end YtShare
