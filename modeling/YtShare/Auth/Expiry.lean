/-
# When an issued token expires

`Issue` tells the client an instant to the nanosecond, `ExpiresAt`, and writes the same
instant into the token, where only its whole seconds are kept.  `verify` reads the
token.  So from the last whole second before `ExpiresAt` on, the token is refused while
the client takes it for good.
-/

import YtShare.Auth.Jwt

namespace YtShare
namespace Auth
namespace TokenIssuer

/-- The whole seconds of an instant, which `NewNumericDate` keeps. -/
def wholeSeconds (t : Time) : Time := (NumericDate.new t).time

/-- Cutting to whole seconds makes no instant later. -/
theorem wholeSeconds_le (t : Time) : (wholeSeconds t).ns ≤ t.ns := by
  simp only [wholeSeconds, NumericDate.new, NumericDate.time]
  omega

/-- Less than a second is lost. -/
theorem lt_wholeSeconds (t : Time) : t.ns - 1000000000 < (wholeSeconds t).ns := by
  simp only [wholeSeconds, NumericDate.new, NumericDate.time]
  omega

/-- And leaves the instants of whole seconds only. -/
theorem wholeSeconds_eq_iff {t : Time} : (wholeSeconds t).ns = t.ns ↔ t.ns % 1000000000 = 0 := by
  simp only [wholeSeconds, NumericDate.new, NumericDate.time]
  omega

variable {jwt : JWT} {cfg : JWTConfig} {now t : Time} {userID : UUID} {pair : TokenPair}

/-- The access token is accepted at an instant. -/
def AccessAccepted (jwt : JWT) (cfg : JWTConfig) (t : Time) (pair : TokenPair) : Prop :=
  ∃ c, verifyAccess jwt cfg t pair.accessToken = .ok c

/-- The refresh token is accepted at an instant. -/
def RefreshAccepted (jwt : JWT) (cfg : JWTConfig) (t : Time) (pair : TokenPair) : Prop :=
  ∃ c, verifyRefresh jwt cfg t pair.refreshToken = .ok c

/-- A signed token of the kind that is wanted is accepted while its claims are valid. -/
theorem verify_signed_iff {token input secret : String} {want : TokenKind} {c : Claims}
    (hparse : jwt.parse token = some (input, .mac (.hs256, secret) input))
    (hdecode : jwt.decode input = some (.hs256, c)) (hkind : c.kind = want) :
    (∃ d, verify jwt t token want secret = .ok d) ↔ c.Valid t := by
  constructor
  · rintro ⟨d, hd⟩
    obtain ⟨input', alg, hparse', hdecode', -, hvalid, -⟩ := verify_eq_ok_iff.1 hd
    obtain rfl := claims_unique hparse hdecode hparse' hdecode'
    exact hvalid
  · intro hvalid
    exact ⟨c, verify_eq_ok_iff.2 ⟨input, .hs256, hparse, hdecode, rfl, hvalid, hkind⟩⟩

/-- What is signed is valid until the whole seconds of its expiry. -/
theorem claims_valid_iff {kind : TokenKind} {ttl : ℤ} :
    (claims userID kind now ttl).Valid t ↔ t.ns < (wholeSeconds ⟨now.ns + ttl⟩).ns := by
  constructor
  · intro h
    exact h.1 _ rfl
  · intro h
    refine ⟨fun e he => ?_, nofun⟩
    obtain rfl := Option.some.inj he
    exact h

/-- **When the access token of a pair is accepted.** -/
theorem accessAccepted_iff (h : issue jwt cfg now userID = some pair) :
    AccessAccepted jwt cfg t pair ↔ t.ns < (wholeSeconds ⟨now.ns + cfg.accessTTL⟩).ns := by
  obtain ⟨input, hparse, hdecode⟩ := issue_access h
  exact (verify_signed_iff hparse hdecode rfl).trans claims_valid_iff

/-- **When the refresh token of a pair is accepted.** -/
theorem refreshAccepted_iff (h : issue jwt cfg now userID = some pair) :
    RefreshAccepted jwt cfg t pair ↔ t.ns < (wholeSeconds ⟨now.ns + cfg.refreshTTL⟩).ns := by
  obtain ⟨input, hparse, hdecode⟩ := issue_refresh h
  exact (verify_signed_iff hparse hdecode rfl).trans claims_valid_iff

/-- The expiry that the pair tells of. -/
theorem expiresAt_eq (h : issue jwt cfg now userID = some pair) :
    pair.expiresAt = ⟨now.ns + cfg.accessTTL⟩ :=
  (sign_eq_some (issue_eq_some h).1).1

/-- **When the advertised expiry is the enforced one.**  At one instant the access token
of a pair is accepted just when `ExpiresAt` is still to come, unless it is the last
instants before `ExpiresAt`, after its whole seconds; and so it is at all instants from
the issue on exactly when `ExpiresAt` is a whole second. -/
theorem expiry_enforced_iff (h : issue jwt cfg now userID = some pair) (hpos : 0 < cfg.accessTTL) :
    (∀ t : Time, (AccessAccepted jwt cfg t pair ↔ t.ns < pair.expiresAt.ns) ↔
        t.ns < (wholeSeconds ⟨now.ns + cfg.accessTTL⟩).ns ∨ now.ns + cfg.accessTTL ≤ t.ns) ∧
      ((∀ t : Time, now.ns ≤ t.ns → (AccessAccepted jwt cfg t pair ↔ t.ns < pair.expiresAt.ns)) ↔
        (now.ns + cfg.accessTTL) % 1000000000 = 0) := by
  have hle := wholeSeconds_le ⟨now.ns + cfg.accessTTL⟩
  have hone : ∀ t : Time, (AccessAccepted jwt cfg t pair ↔ t.ns < pair.expiresAt.ns) ↔
      t.ns < (wholeSeconds ⟨now.ns + cfg.accessTTL⟩).ns ∨ now.ns + cfg.accessTTL ≤ t.ns := by
    intro t
    rw [accessAccepted_iff h, expiresAt_eq h]
    simp only at hle ⊢
    omega
  refine ⟨hone, ?_⟩
  rw [← wholeSeconds_eq_iff (t := ⟨now.ns + cfg.accessTTL⟩)]
  constructor
  · intro hall
    -- the later one of the issue and the whole seconds comes before `ExpiresAt`
    have hat := (hone ⟨max now.ns (wholeSeconds ⟨now.ns + cfg.accessTTL⟩).ns⟩).1
      (hall _ (le_max_left _ _))
    simp only at hle hat ⊢
    omega
  · intro heq t _
    refine (hone t).2 ?_
    simp only at heq
    omega

/-- Secrets and times to live of two seconds. -/
def twoSeconds : JWTConfig := ⟨"access", "refresh", 2000000000, 2000000000⟩

/-- A token that is issued on a whole second. -/
theorem expiry_enforced_wholeSecond : ∃ pair, issue .reference twoSeconds ⟨0⟩ ⟨7⟩ = some pair ∧
    ∀ t : Time, 0 ≤ t.ns →
      (AccessAccepted .reference twoSeconds t pair ↔ t.ns < pair.expiresAt.ns) := by
  obtain ⟨pair, hpair⟩ : ∃ pair, issue .reference twoSeconds ⟨0⟩ ⟨7⟩ = some pair :=
    Option.isSome_iff_exists.1 (by decide)
  exact ⟨pair, hpair, (expiry_enforced_iff hpair (by decide)).2.2 (by decide)⟩

/-- A token that is issued half a second later: it is refused half a second early. -/
theorem not_expiry_enforced : ¬∀ (jwt : JWT) (cfg : JWTConfig) (now t : Time) (userID : UUID)
    (pair : TokenPair), issue jwt cfg now userID = some pair → 0 < cfg.accessTTL →
      now.ns ≤ t.ns → (AccessAccepted jwt cfg t pair ↔ t.ns < pair.expiresAt.ns) := by
  intro h
  obtain ⟨pair, hpair⟩ : ∃ pair, issue .reference twoSeconds ⟨500000000⟩ ⟨7⟩ = some pair :=
    Option.isSome_iff_exists.1 (by decide)
  have hsame := h .reference twoSeconds ⟨500000000⟩ ⟨2200000000⟩ ⟨7⟩ pair hpair (by decide)
    (by decide)
  rw [accessAccepted_iff hpair, expiresAt_eq hpair] at hsame
  exact absurd (hsame.2 (by decide)) (by decide)

end TokenIssuer
end Auth
end YtShare
