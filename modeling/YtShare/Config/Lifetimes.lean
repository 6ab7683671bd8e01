/-
# The lifetimes of tokens

`Load` takes the times to live as integers, in minutes and in hours, and multiplies them
into nanoseconds with 64 bits.  `validate` looks at the secrets and the port of the
server and not at the times to live, so a configuration may be accepted whose tokens are
born expired, or live for another time than was configured.

`usable_iff` says which integers are safe.
-/

import YtShare.Auth.Expiry
import YtShare.Config.Load

namespace YtShare
namespace Config

open Lib Auth.TokenIssuer

/-- The configuration as `NewTokenIssuer` gets it.  Its secrets are texts with a
character for each byte. -/
def JWTConfig.tokenIssuer (c : JWTConfig) : Auth.JWTConfig where
  accessSecret := ofASCII c.accessSecret
  refreshSecret := ofASCII c.refreshSecret
  accessTTL := c.accessTTL
  refreshTTL := c.refreshTTL

/-- **The tokens are usable:** the times to live are the configured integers of minutes
and hours, and positive, and the tokens of a pair are accepted from their issue until a
second before they have lived that long. -/
structure UsableTokens (c : JWTConfig) (minutes hours : ℤ) : Prop where
  accessTTL : c.accessTTL = minutes * minute
  refreshTTL : c.refreshTTL = hours * hour
  accessTTL_pos : 0 < c.accessTTL
  refreshTTL_pos : 0 < c.refreshTTL
  accepted : ∀ (jwt : Auth.JWT) (now : Time) (userID : UUID) (pair : Auth.TokenPair),
    issue jwt c.tokenIssuer now userID = some pair → ∀ t : Time, now.ns ≤ t.ns →
      (t.ns ≤ now.ns + minutes * minute - 1000000000 →
        AccessAccepted jwt c.tokenIssuer t pair) ∧
      (t.ns ≤ now.ns + hours * hour - 1000000000 → RefreshAccepted jwt c.tokenIssuer t pair)

/-- `Load` takes the times to live from two integers of the environment. -/
theorem load_jwt {env : Env} {cfg : Config} {minutes hours : ℤ} (h : load env = .ok cfg)
    (hminutes : envInt env "JWT_ACCESS_TTL_MIN" 15 = .ok minutes)
    (hhours : envInt env "JWT_REFRESH_TTL_HOURS" (24 * 7) = .ok hours) :
    cfg.jwt.accessTTL = duration minutes minute ∧ cfg.jwt.refreshTTL = duration hours hour := by
  obtain ⟨httpPort, -, h⟩ := ok_of_bind h
  obtain ⟨dbPort, -, h⟩ := ok_of_bind h
  obtain ⟨redisDB, -, h⟩ := ok_of_bind h
  obtain ⟨m, hm, h⟩ := ok_of_bind h
  obtain ⟨n, hn, h⟩ := ok_of_bind h
  obtain ⟨db, -, h⟩ := ok_of_bind h
  obtain ⟨_, -, h⟩ := ok_of_bind h
  obtain rfl := Except.ok.inj h
  obtain rfl := Except.ok.inj (hm.symm.trans hminutes)
  obtain rfl := Except.ok.inj (hn.symm.trans hhours)
  exact ⟨rfl, rfl⟩

/-- **When a product is exact** and positive. -/
theorem duration_exact_iff {n unit : ℤ} (hunit : 0 < unit) :
    duration n unit = n * unit ∧ 0 < duration n unit ↔ 0 < n ∧ n * unit < 2 ^ 63 := by
  constructor
  · rintro ⟨hexact, hpos⟩
    have hlt : duration n unit < 2 ^ 63 := Int.bmod_lt (m := 2 ^ 64) (by decide)
    rw [hexact] at hpos hlt
    exact ⟨pos_of_mul_pos_left hpos hunit.le, hlt⟩
  · rintro ⟨hpos, hlt⟩
    have hprod : 0 < n * unit := Int.mul_pos hpos hunit
    have hexact : duration n unit = n * unit :=
      Int.bmod_eq_of_le (m := 2 ^ 64) (by omega) (by omega)
    exact ⟨hexact, hexact ▸ hprod⟩

theorem minute_pos : 0 < minute := by decide

theorem hour_pos : 0 < hour := by decide

/-- **When the tokens of an accepted configuration are usable:** exactly when both
integers are positive and, in nanoseconds, less than `2 ^ 63`. -/
theorem usable_iff {env : Env} {cfg : Config} {minutes hours : ℤ} (h : load env = .ok cfg)
    (hminutes : envInt env "JWT_ACCESS_TTL_MIN" 15 = .ok minutes)
    (hhours : envInt env "JWT_REFRESH_TTL_HOURS" (24 * 7) = .ok hours) :
    UsableTokens cfg.jwt minutes hours ↔
      (0 < minutes ∧ minutes * minute < 2 ^ 63) ∧ 0 < hours ∧ hours * hour < 2 ^ 63 := by
  obtain ⟨haccess, hrefresh⟩ := load_jwt h hminutes hhours
  rw [← duration_exact_iff minute_pos, ← duration_exact_iff hour_pos, ← haccess, ← hrefresh]
  constructor
  · intro hu
    exact ⟨⟨hu.accessTTL, hu.accessTTL_pos⟩, hu.refreshTTL, hu.refreshTTL_pos⟩
  · rintro ⟨⟨hexact, hpos⟩, hexact', hpos'⟩
    refine ⟨hexact, hexact', hpos, hpos', fun jwt now userID pair hpair t _ => ⟨fun ht => ?_,
      fun ht => ?_⟩⟩
    · have hcut := lt_wholeSeconds ⟨now.ns + cfg.jwt.accessTTL⟩
      rw [accessAccepted_iff hpair]
      rw [← hexact] at ht
      exact lt_of_le_of_lt ht hcut
    · have hcut := lt_wholeSeconds ⟨now.ns + cfg.jwt.refreshTTL⟩
      rw [refreshAccepted_iff hpair]
      rw [← hexact'] at ht
      exact lt_of_le_of_lt ht hcut

/-- An environment with nothing but the two times to live. -/
def lifetimes (minutes hours : String) : Env := fun key =>
  if key = "JWT_ACCESS_TTL_MIN" then some (utf8 minutes)
  else if key = "JWT_REFRESH_TTL_HOURS" then some (utf8 hours) else none

/-- Half an hour and a day. -/
theorem usable_iff_halfHour : ∃ cfg, load (lifetimes "30" "24") = .ok cfg ∧
    UsableTokens cfg.jwt 30 24 := by
  obtain ⟨cfg, hload, -⟩ := ok_of_map (show
    (load (lifetimes "30" "24")).map (fun cfg => cfg.http.port) = .ok 8080 by decide +kernel)
  exact ⟨cfg, hload, (usable_iff hload (by decide) (by decide)).2 (by decide)⟩

/-- A time to live of no minutes is accepted. -/
theorem not_usable : ∃ cfg, load (lifetimes "0" "24") = .ok cfg ∧
    envInt (lifetimes "0" "24") "JWT_ACCESS_TTL_MIN" 15 = .ok 0 ∧ ¬UsableTokens cfg.jwt 0 24 := by
  obtain ⟨cfg, hload, httl⟩ := ok_of_map (show
    (load (lifetimes "0" "24")).map (fun cfg => cfg.jwt.accessTTL) = .ok 0 by decide +kernel)
  refine ⟨cfg, hload, by decide, fun hu => ?_⟩
  have hpos := hu.accessTTL_pos
  rw [httl] at hpos
  exact absurd hpos (by decide)

end Config
end YtShare
