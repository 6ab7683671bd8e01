/-
# Tokens

`backend/internal/modules/auth/jwt.go`.  `Issue` signs two tokens for a user,
and `verify` accepts a token of the kind it wants.

`JWT` is what the code relies on in `github.com/golang-jwt/jwt`.  A token text
splits into a signing input, which writes down the algorithm and the claims, and
a tag.  Tags are symbolic (`Lib.Tag`): that a tag under a secret comes from
`sign` alone is not a property of this code.  Two texts that split alike are the
same token here; base64 leaves room for more than one text of a tag.

`NewNumericDate` keeps whole seconds, and the library takes a token whose expiry
is later than now, or that has none.  `JWT.reference` is a library that does so.
-/

import YtShare.Core.UUID
import YtShare.Lib.Mac
import Mathlib.Algebra.Order.Ring.Int
import Mathlib.Data.Nat.Digits.Defs

namespace YtShare
namespace Auth

open Lib

/-! ### The library -/

/-- `jwt.SigningMethod`, by its name. -/
inductive Alg
  | hs256
  | hs384
  | hs512
  | other (name : String)
deriving DecidableEq

/-- The method is a `*jwt.SigningMethodHMAC`. -/
def Alg.isHMAC : Alg → Bool
  | .hs256 | .hs384 | .hs512 => true
  | .other _ => false

/-- `jwt.NumericDate`, in seconds since the zero time. -/
structure NumericDate where
  sec : ℤ
deriving DecidableEq

/-- `jwt.NewNumericDate`. -/
def NumericDate.new (t : Time) : NumericDate := ⟨t.ns / 1000000000⟩

/-- The instant. -/
def NumericDate.time (d : NumericDate) : Time := ⟨d.sec * 1000000000⟩

/-- `TokenKind`. -/
abbrev TokenKind := String

/-- `AccessKind`. -/
def accessKind : TokenKind := "access"

/-- `RefreshKind`. -/
def refreshKind : TokenKind := "refresh"

/-- `Claims`, with the registered claims that are set or checked. -/
structure Claims where
  userID : UUID
  kind : TokenKind
  subject : String
  issuedAt : Option NumericDate
  expiresAt : Option NumericDate
  notBefore : Option NumericDate
deriving DecidableEq

/-- The validator of the library: a token with an expiry has not expired, and a
token with a first instant is not too early. -/
def Claims.Valid (c : Claims) (now : Time) : Prop :=
  (∀ e ∈ c.expiresAt, now.ns < e.time.ns) ∧ ∀ n ∈ c.notBefore, n.time.ns ≤ now.ns

instance (c : Claims) (now : Time) : Decidable (c.Valid now) :=
  inferInstanceAs (Decidable ((∀ e ∈ c.expiresAt, _) ∧ ∀ n ∈ c.notBefore, _))

/-- The key of an HMAC: the hash function and the secret. -/
abbrev MacKey := Alg × String

/-- The library.  `signingInput` writes the header of HS256 and the claims, and
`encode` puts the tag of a signing input under a secret after it. -/
structure JWT where
  signingInput : Claims → Option String
  encode : String → String → String
  parse : String → Option (String × Tag MacKey String)
  decode : String → Option (Alg × Claims)
  parse_encode : ∀ c input secret, signingInput c = some input →
    parse (encode input secret) = some (input, .mac (.hs256, secret) input)
  decode_signingInput : ∀ c input, signingInput c = some input → decode input = some (.hs256, c)

namespace JWT

/-- `Token.SignedString` of a token with HS256. -/
def signedString (jwt : JWT) (claims : Claims) (secret : String) : Option String :=
  (jwt.signingInput claims).map fun input => jwt.encode input secret

/-- `jwt.ParseWithClaims`. -/
def parseWithClaims (jwt : JWT) (now : Time) (token : String) (keyfunc : Alg → Option String) :
    Option Claims :=
  match jwt.parse token with
  | none => none
  | some (input, tag) =>
      match jwt.decode input with
      | none => none
      | some (alg, claims) =>
          match keyfunc alg with
          | none => none
          | some key =>
              if tag = .mac (alg, key) input ∧ claims.Valid now then some claims else none

/-! #### A library that does so -/

/-- A number in decimal digits, the lowest first. -/
def digits (n : ℕ) : List Char := (Nat.digits 10 n).map fun d => Char.ofNat (48 + d)

/-- The number that digits write. -/
def ofDigits (cs : List Char) : ℕ := Nat.ofDigits 10 (cs.map fun c => c.toNat - 48)

/-- A number for each integer. -/
def zigzag : ℤ → ℕ
  | .ofNat n => 2 * n
  | .negSucc n => 2 * n + 1

/-- The integer of a number. -/
def zagzig (n : ℕ) : ℤ := if n % 2 = 0 then .ofNat (n / 2) else .negSucc (n / 2)

/-- A number comes back from the natural number that codes it. -/
theorem zagzig_zigzag (i : ℤ) : zagzig (zigzag i) = i := by
  unfold zagzig
  cases i with
  | ofNat n =>
    rw [zigzag, if_pos (by omega)]
    congr 1
    omega
  | negSucc n =>
    rw [zigzag, if_neg (by omega)]
    congr 1
    omega

/-- A digit is none of the signs between the parts of a token. -/
theorem char_digit : ∀ d < 10, (Char.ofNat (48 + d)).toNat = 48 + d ∧
    Char.ofNat (48 + d) ≠ ',' ∧ Char.ofNat (48 + d) ≠ '.' := by
  decide

/-- A number comes back from its digits. -/
theorem ofDigits_digits (n : ℕ) : ofDigits (digits n) = n := by
  unfold ofDigits digits
  rw [List.map_map]
  have hid : (Nat.digits 10 n).map ((fun c => c.toNat - 48) ∘ fun d => Char.ofNat (48 + d)) =
      Nat.digits 10 n := by
    refine (List.map_congr_left fun d hd => ?_).trans (List.map_id _)
    have hlt : d < 10 := Nat.digits_lt_base (by omega) hd
    show (Char.ofNat (48 + d)).toNat - 48 = d
    rw [(char_digit d hlt).1]
    omega
  rw [hid, Nat.ofDigits_digits]

/-- Which hold neither comma nor dot. -/
theorem digits_plain {n : ℕ} {c : Char} (hc : c ∈ digits n) : c ≠ ',' ∧ c ≠ '.' := by
  obtain ⟨d, hd, rfl⟩ := List.mem_map.1 hc
  exact (char_digit d (Nat.digits_lt_base (by omega) hd)).2

/-- A text that writes some numbers. -/
def numbers (ns : List ℕ) : String := String.ofList ([','].intercalate (ns.map digits))

/-- The numbers that a text writes. -/
def ofNumbers (s : String) : List ℕ := (s.toList.splitOn ',').map ofDigits

/-- Numbers come back from the text that they are written in. -/
theorem ofNumbers_numbers {ns : List ℕ} (h : ns ≠ []) : ofNumbers (numbers ns) = ns := by
  unfold ofNumbers numbers
  rw [String.toList_ofList, List.splitOn_intercalate, List.map_map]
  · exact (List.map_congr_left fun n _ => ofDigits_digits n).trans (List.map_id _)
  · intro l hl hcomma
    obtain ⟨n, -, rfl⟩ := List.mem_map.1 hl
    exact (digits_plain hcomma).1 rfl
  · exact fun hnil => h (List.map_eq_nil_iff.1 hnil)

/-- Which holds no dot. -/
theorem numbers_plain {ns : List ℕ} : '.' ∉ (numbers ns).toList := by
  rw [numbers, String.toList_ofList]
  induction ns with
  | nil => exact List.not_mem_nil
  | cons n ns ih =>
    have hn : '.' ∉ digits n := fun h => (digits_plain h).2 rfl
    cases ns with
    | nil => simpa [List.intercalate] using hn
    | cons m ns =>
      simp only [List.map_cons, List.intercalate, List.intersperse] at ih ⊢
      simp [hn, ih]

/-- A number for each of the two kinds. -/
def kindNumber (kind : TokenKind) : ℕ := if kind = accessKind then 0 else 1

/-- A library that writes the numbers of a token in decimal, and the secret for
the tag. -/
def reference : JWT where
  signingInput c :=
    match c with
    | ⟨userID, kind, subject, some issuedAt, some expiresAt, none⟩ =>
        if subject = userID.string ∧ (kind = accessKind ∨ kind = refreshKind) then
          some (numbers [userID.bits.toNat, kindNumber kind, zigzag issuedAt.sec,
            zigzag expiresAt.sec])
        else none
    | _ => none
  encode input secret := input ++ "." ++ secret
  parse token :=
    match token.toList.dropWhile fun c => decide (c ≠ '.') with
    | [] => none
    | _ :: secret =>
        let input := String.ofList (token.toList.takeWhile fun c => decide (c ≠ '.'))
        some (input, .mac (.hs256, String.ofList secret) input)
  decode input :=
    match ofNumbers input with
    | [u, k, i, e] =>
        let userID : UUID := ⟨.ofNat 128 u⟩
        some (.hs256, ⟨userID, if k = 0 then accessKind else refreshKind, userID.string,
          some ⟨zagzig i⟩, some ⟨zagzig e⟩, none⟩)
    | _ => none
  parse_encode c input secret h := by
    have hplain : ∀ x ∈ input.toList, decide (x ≠ '.') = true := by
      intro x hx
      split at h
      · split_ifs at h
        obtain rfl := Option.some.inj h
        exact decide_eq_true fun heq => numbers_plain (heq ▸ hx)
      · cases h
    have hsplit : (input ++ "." ++ secret).toList = input.toList ++ '.' :: secret.toList := by
      simp
    simp only [hsplit, List.dropWhile_append_of_pos hplain, List.takeWhile_append_of_pos hplain]
    simp [List.dropWhile, List.takeWhile]
  decode_signingInput c input h := by
    split at h
    · next userID kind subject issuedAt expiresAt =>
      split_ifs at h with hc
      obtain rfl := Option.some.inj h
      obtain ⟨rfl, hkind⟩ := hc
      rw [ofNumbers_numbers (List.cons_ne_nil _ _)]
      simp only [zagzig_zigzag, BitVec.ofNat_toNat, BitVec.setWidth_eq]
      rcases hkind with rfl | rfl <;> rfl
    · cases h

end JWT

/-! ### The issuer -/

/-- `config.JWTConfig`.  A `time.Duration` counts nanoseconds. -/
structure JWTConfig where
  accessSecret : String
  refreshSecret : String
  accessTTL : ℤ
  refreshTTL : ℤ

/-- `TokenPair`. -/
structure TokenPair where
  accessToken : String
  refreshToken : String
  expiresAt : Time
deriving DecidableEq

/-- Why `verify` refuses a token. -/
inductive VerifyError
  /-- `auth: parse token: …` -/
  | parse
  /-- `auth: expected %s token, got %s` -/
  | kind (want got : TokenKind)
deriving DecidableEq

namespace TokenIssuer

variable (jwt : JWT) (cfg : JWTConfig)

/-- The claims that `sign` signs. -/
def claims (userID : UUID) (kind : TokenKind) (now : Time) (ttl : ℤ) : Claims where
  userID := userID
  kind := kind
  subject := userID.string
  issuedAt := some (.new now)
  expiresAt := some (.new ⟨now.ns + ttl⟩)
  notBefore := none

/-- `TokenIssuer.sign`. -/
def sign (userID : UUID) (kind : TokenKind) (now : Time) (ttl : ℤ) (secret : String) :
    Option (String × Time) :=
  (jwt.signedString (claims userID kind now ttl) secret).map fun signed =>
    (signed, ⟨now.ns + ttl⟩)

/-- `TokenIssuer.Issue`. -/
def issue (now : Time) (userID : UUID) : Option TokenPair :=
  match sign jwt userID accessKind now cfg.accessTTL cfg.accessSecret with
  | none => none
  | some (access, accessExp) =>
      match sign jwt userID refreshKind now cfg.refreshTTL cfg.refreshSecret with
      | none => none
      | some (refresh, _) => some ⟨access, refresh, accessExp⟩

/-- `TokenIssuer.verify`. -/
def verify (now : Time) (token : String) (want : TokenKind) (secret : String) :
    Except VerifyError Claims :=
  match jwt.parseWithClaims now token fun alg => if alg.isHMAC then some secret else none with
  | none => .error .parse
  | some claims =>
      if claims.kind = want then .ok claims else .error (.kind want claims.kind)

/-- `TokenIssuer.VerifyAccess`. -/
def verifyAccess (now : Time) (token : String) : Except VerifyError Claims :=
  verify jwt now token accessKind cfg.accessSecret

/-- `TokenIssuer.VerifyRefresh`. -/
def verifyRefresh (now : Time) (token : String) : Except VerifyError Claims :=
  verify jwt now token refreshKind cfg.refreshSecret

/-! ### What they do -/

variable {jwt : JWT} {cfg : JWTConfig} {now : Time} {token : String} {userID : UUID}
  {kind want : TokenKind} {secret : String} {ttl : ℤ}

/-- **What is signed** splits into claims and their code under the secret. -/
theorem sign_eq_some {signed : String} {expires : Time}
    (h : sign jwt userID kind now ttl secret = some (signed, expires)) :
    expires = ⟨now.ns + ttl⟩ ∧ ∃ input,
      jwt.parse signed = some (input, .mac (.hs256, secret) input) ∧
        jwt.decode input = some (.hs256, claims userID kind now ttl) := by
  obtain ⟨text, htext, heq⟩ := Option.map_eq_some_iff.1 h
  obtain ⟨rfl, rfl⟩ := Prod.mk.inj heq
  obtain ⟨input, hinput, rfl⟩ := Option.map_eq_some_iff.1 htext
  exact ⟨rfl, input, jwt.parse_encode _ _ _ hinput, jwt.decode_signingInput _ _ hinput⟩

/-- **What is issued:** one signed token of each kind. -/
theorem issue_eq_some {pair : TokenPair} (h : issue jwt cfg now userID = some pair) :
    sign jwt userID accessKind now cfg.accessTTL cfg.accessSecret =
        some (pair.accessToken, pair.expiresAt) ∧
      ∃ expires, sign jwt userID refreshKind now cfg.refreshTTL cfg.refreshSecret =
        some (pair.refreshToken, expires) := by
  unfold issue at h
  split at h
  · cases h
  · next access accessExp haccess =>
    split at h
    · cases h
    · next refresh refreshExp hrefresh =>
      obtain rfl := Option.some.inj h
      exact ⟨haccess, refreshExp, hrefresh⟩

/-- The access token of a pair, taken apart. -/
theorem issue_access {pair : TokenPair} (h : issue jwt cfg now userID = some pair) :
    ∃ input, jwt.parse pair.accessToken = some (input, .mac (.hs256, cfg.accessSecret) input) ∧
      jwt.decode input = some (.hs256, claims userID accessKind now cfg.accessTTL) :=
  (sign_eq_some (issue_eq_some h).1).2

/-- The refresh token of a pair, taken apart. -/
theorem issue_refresh {pair : TokenPair} (h : issue jwt cfg now userID = some pair) :
    ∃ input, jwt.parse pair.refreshToken = some (input, .mac (.hs256, cfg.refreshSecret) input) ∧
      jwt.decode input = some (.hs256, claims userID refreshKind now cfg.refreshTTL) := by
  obtain ⟨-, expires, hrefresh⟩ := issue_eq_some h
  exact (sign_eq_some hrefresh).2

/-- What `ParseWithClaims` gives: the claims of a token whose tag is the code of its
signing input under the key, if they are valid now. -/
theorem parseWithClaims_eq_some {keyfunc : Alg → Option String} {c : Claims} :
    jwt.parseWithClaims now token keyfunc = some c ↔
      ∃ input alg key, jwt.parse token = some (input, .mac (alg, key) input) ∧
        jwt.decode input = some (alg, c) ∧ keyfunc alg = some key ∧ c.Valid now := by
  constructor
  · intro h
    unfold JWT.parseWithClaims at h
    split at h
    · cases h
    · next input tag hparse =>
      split at h
      · cases h
      · next alg decoded hdecode =>
        split at h
        · cases h
        · next key hkey =>
          obtain ⟨⟨rfl, hvalid⟩, hc⟩ := Option.ite_none_right_eq_some.1 h
          obtain rfl := Option.some.inj hc
          exact ⟨input, alg, key, hparse, hdecode, hkey, hvalid⟩
  · rintro ⟨input, alg, key, hparse, hdecode, hkey, hvalid⟩
    rw [JWT.parseWithClaims, hparse]
    simp only [hdecode, hkey]
    exact if_pos ⟨trivial, hvalid⟩

/-- **When a token is accepted:** its tag is the code of its signing input under the
secret, by an HMAC, and its claims are of the kind and valid now. -/
theorem verify_eq_ok_iff {c : Claims} :
    verify jwt now token want secret = .ok c ↔
      ∃ input alg, jwt.parse token = some (input, .mac (alg, secret) input) ∧
        jwt.decode input = some (alg, c) ∧ alg.isHMAC = true ∧ c.Valid now ∧ c.kind = want := by
  constructor
  · intro h
    unfold verify at h
    split at h
    · cases h
    · next claims hclaims =>
      split_ifs at h with hkind
      obtain rfl := Except.ok.inj h
      obtain ⟨input, alg, key, hparse, hdecode, hkey, hvalid⟩ := parseWithClaims_eq_some.1 hclaims
      obtain ⟨hmac, hkey⟩ := Option.ite_none_right_eq_some.1 hkey
      obtain rfl := Option.some.inj hkey
      exact ⟨input, alg, hparse, hdecode, hmac, hvalid, hkind⟩
  · rintro ⟨input, alg, hparse, hdecode, hmac, hvalid, hkind⟩
    have hclaims : jwt.parseWithClaims now token
        (fun alg => if alg.isHMAC then some secret else none) = some c :=
      parseWithClaims_eq_some.2 ⟨input, alg, secret, hparse, hdecode, if_pos hmac, hvalid⟩
    rw [verify, hclaims]
    exact if_pos hkind

/-- **What is accepted:** a token whose tag is the code of its signing input
under the secret, with claims of the kind that are valid now. -/
theorem verify_eq_ok {c : Claims} (h : verify jwt now token want secret = .ok c) :
    ∃ input alg, jwt.parse token = some (input, .mac (alg, secret) input) ∧
      jwt.decode input = some (alg, c) ∧ c.Valid now ∧ c.kind = want := by
  obtain ⟨input, alg, hparse, hdecode, -, hvalid, hkind⟩ := verify_eq_ok_iff.1 h
  exact ⟨input, alg, hparse, hdecode, hvalid, hkind⟩

/-- A token has the claims of what it signs. -/
theorem claims_unique {input input' : String} {tag tag' : Tag MacKey String}
    {alg alg' : Alg} {c c' : Claims} (hparse : jwt.parse token = some (input, tag))
    (hdecode : jwt.decode input = some (alg, c)) (hparse' : jwt.parse token = some (input', tag'))
    (hdecode' : jwt.decode input' = some (alg', c')) : c = c' := by
  obtain ⟨rfl, -⟩ := Prod.mk.inj (Option.some.inj (hparse.symm.trans hparse'))
  exact (Prod.mk.inj (Option.some.inj (hdecode.symm.trans hdecode'))).2

/-- An expiry is cut to whole seconds, so it never comes late. -/
theorem lt_of_valid {t : Time} (h : (claims userID kind now ttl).Valid t) :
    t.ns < now.ns + ttl := by
  have hlt := h.1 _ rfl
  simp only [NumericDate.new, NumericDate.time] at hlt
  omega

end TokenIssuer

end Auth
end YtShare
