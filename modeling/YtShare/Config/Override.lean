/-
# `DATABASE_URL` over the `DB_*` variables

`Load` reads the `DB_*` variables first and puts `DATABASE_URL` over them, field by
field.  Host, port, name and SSL mode are always set, to a default where the URL has
none; the user and the password only where the URL has them.  And `DB_PORT` has to be
a number, even if its value is not used.

So two environments that differ in the `DB_*` variables alone give one database exactly
when they agree on what is left (`overrides_iff`).
-/

import YtShare.Config.Load

namespace YtShare
namespace Config

open Lib URL

/-- The variable is one of `DB_*`. -/
def IsDatabaseKey (key : String) : Prop := "DB_".toList <+: key.toList

instance (key : String) : Decidable (IsDatabaseKey key) :=
  inferInstanceAs (Decidable (_ <+: _))

/-- The environments agree on all but the `DB_*` variables. -/
def AgreeOutside (env env' : Env) : Prop := ∀ key, ¬IsDatabaseKey key → env key = env' key

/-- `Load` succeeds on both or on neither, and what it gives has one database. -/
def SameDatabase (env env' : Env) : Prop :=
  ((∃ cfg, load env = .ok cfg) ↔ ∃ cfg, load env' = .ok cfg) ∧
    ∀ cfg cfg', load env = .ok cfg → load env' = .ok cfg' → cfg.db = cfg'.db

/-- The variables other than `DB_*` and `DATABASE_URL` are accepted. -/
structure OthersAccepted (env : Env) : Prop where
  httpPort : ∃ n, envInt env "HTTP_PORT" 8080 = .ok n ∧ 0 < n
  redisDB : ∃ n, envInt env "REDIS_DB" 0 = .ok n
  accessTTL : ∃ n, envInt env "JWT_ACCESS_TTL_MIN" 15 = .ok n
  refreshTTL : ∃ n, envInt env "JWT_REFRESH_TTL_HOURS" (24 * 7) = .ok n

/-- `DB_PORT` is missing, empty or a number. -/
def PortAccepted (env : Env) : Prop := ∃ n, envInt env "DB_PORT" 5432 = .ok n

/-- The value of `DATABASE_URL` is empty, or a URL that `applyDatabaseURL` accepts. -/
def URLAccepted (raw : Bytes) : Prop :=
  raw = [] ∨ ∃ u, parse raw = .ok u ∧ (u.scheme = utf8 "postgres" ∨ u.scheme = utf8 "postgresql") ∧
    ∃ n, databasePort u.port = .ok n

/-- Two configurations agree on the fields that the value of `DATABASE_URL` does not
set: on all of them if it is empty, on user and password if the URL has no user, and on
the password if it has a user alone. -/
def AgreeOnKept (raw : Bytes) (c c' : DatabaseConfig) : Prop :=
  if raw = [] then c = c'
  else
    match parse raw with
    | .error _ => True
    | .ok u =>
        match u.user with
        | none => c.user = c'.user ∧ c.password = c'.password
        | some user => user.password = none → c.password = c'.password

/-! ### What `Load` accepts -/

/-- **What `validate` wants:** a positive port.  The secrets are never missing, since
they have a default. -/
theorem validate_eq_ok_iff {c : Config} {env : Env}
    (haccess : c.jwt.accessSecret = envStr env "JWT_ACCESS_SECRET" (utf8 "dev-access-secret"))
    (hrefresh : c.jwt.refreshSecret = envStr env "JWT_REFRESH_SECRET" (utf8 "dev-refresh-secret")) :
    c.validate = .ok () ↔ 0 < c.http.port := by
  have hsecrets : ¬(c.jwt.accessSecret = [] ∨ c.jwt.refreshSecret = []) := by
    rw [haccess, hrefresh]
    exact not_or.2 ⟨envStr_ne_nil (by decide), envStr_ne_nil (by decide)⟩
  rw [validate, if_neg hsecrets]
  split_ifs with hport
  · exact iff_of_false nofun (Int.not_lt.2 hport)
  · exact iff_of_true rfl (Int.not_le.1 hport)

/-- **When `Load` succeeds**, and the database it gives then. -/
theorem load_eq_ok_iff {env : Env} {c : DatabaseConfig} :
    (∃ cfg, load env = .ok cfg ∧ cfg.db = c) ↔
      OthersAccepted env ∧
        ∃ dbPort, envInt env "DB_PORT" 5432 = .ok dbPort ∧ loadDatabase env dbPort = .ok c := by
  constructor
  · rintro ⟨cfg, h, rfl⟩
    obtain ⟨httpPort, hhttp, h⟩ := ok_of_bind h
    obtain ⟨dbPort, hport, h⟩ := ok_of_bind h
    obtain ⟨redisDB, hredis, h⟩ := ok_of_bind h
    obtain ⟨accessTTLMin, haccess, h⟩ := ok_of_bind h
    obtain ⟨refreshTTLHours, hrefresh, h⟩ := ok_of_bind h
    obtain ⟨db, hdb, h⟩ := ok_of_bind h
    obtain ⟨_, hvalid, h⟩ := ok_of_bind h
    obtain rfl := Except.ok.inj h
    exact ⟨⟨⟨httpPort, hhttp, (validate_eq_ok_iff rfl rfl).1 hvalid⟩, ⟨redisDB, hredis⟩,
      ⟨accessTTLMin, haccess⟩, ⟨refreshTTLHours, hrefresh⟩⟩, dbPort, hport, hdb⟩
  · rintro ⟨⟨⟨httpPort, hhttp, hpos⟩, ⟨redisDB, hredis⟩, ⟨accessTTLMin, haccess⟩,
      ⟨refreshTTLHours, hrefresh⟩⟩, dbPort, hport, hdb⟩
    unfold load
    rw [hhttp, hport, hredis, haccess, hrefresh]
    exact ⟨_, (bind_of_ok hdb _).trans (bind_of_ok ((validate_eq_ok_iff rfl rfl).2 hpos) _), rfl⟩

section

variable {env env' : Env} {raw : Bytes} (hset : env "DATABASE_URL" = some raw)
include hset

/-- The URL is what `DATABASE_URL` says. -/
theorem envStr_databaseURL : envStr env "DATABASE_URL" [] = raw := by
  rw [envStr, hset]
  simp only
  split_ifs with hraw
  · rfl
  · exact (not_not.1 hraw).symm

/-- **Whether `DATABASE_URL` is accepted** does not depend on the `DB_*` variables. -/
theorem loadDatabase_isOk (dbPort : ℤ) :
    (∃ c, loadDatabase env dbPort = .ok c) ↔ URLAccepted raw := by
  rw [loadDatabase, envStr_databaseURL hset]
  split_ifs with hraw
  · constructor
    · rintro ⟨c, h⟩
      unfold applyDatabaseURL at h
      split at h
      · cases h
      · next u hu =>
        split_ifs at h with hscheme
        obtain ⟨n, hn, -⟩ := ok_of_map h
        refine .inr ⟨u, hu, ?_, n, hn⟩
        rwa [not_and_or, not_not, not_not] at hscheme
    · rintro (hnil | ⟨u, hu, hscheme, n, hn⟩)
      · exact absurd hnil hraw
      · have hok : ¬(u.scheme ≠ utf8 "postgres" ∧ u.scheme ≠ utf8 "postgresql") := by
          rwa [not_and_or, not_not, not_not]
        rw [applyDatabaseURL, hu]
        simp only
        rw [if_neg hok, hn]
        exact ⟨_, rfl⟩
  · exact iff_of_true ⟨_, rfl⟩ (.inl (not_not.1 hraw))

/-- **What is left of the `DB_*` variables:** two databases for one `DATABASE_URL` are
the same when they agree on what it does not set. -/
theorem loadDatabase_eq_iff (hset' : env' "DATABASE_URL" = some raw) {dbPort dbPort' : ℤ}
    {c c' : DatabaseConfig} (h : loadDatabase env dbPort = .ok c)
    (h' : loadDatabase env' dbPort' = .ok c') :
    c = c' ↔ AgreeOnKept raw (databaseEnv env dbPort) (databaseEnv env' dbPort') := by
  rw [loadDatabase, envStr_databaseURL hset] at h
  rw [loadDatabase, envStr_databaseURL hset'] at h'
  unfold AgreeOnKept
  by_cases hraw : raw = []
  · rw [if_neg (not_not.2 hraw)] at h h'
    rw [if_pos hraw, Except.ok.inj h, Except.ok.inj h']
  · rw [if_pos hraw] at h h'
    rw [if_neg hraw]
    obtain ⟨u, hu, hport, hhost, huser, hpassword, hname, hssl⟩ := applyDatabaseURL_eq_ok h
    obtain ⟨v, hv, hport', hhost', huser', hpassword', hname', hssl'⟩ := applyDatabaseURL_eq_ok h'
    obtain rfl := Except.ok.inj (hu.symm.trans hv)
    have hsame : c = c' ↔ c.user = c'.user ∧ c.password = c'.password := by
      refine ⟨fun he => he ▸ ⟨rfl, rfl⟩, fun ⟨hu, hp⟩ => ?_⟩
      obtain ⟨host, port, user, password, name, sslMode⟩ := c
      obtain ⟨host', port', user', password', name', sslMode'⟩ := c'
      simp only at hhost hhost' hport hport' hname hname' hssl hssl' hu hp
      rw [hhost, hhost', Except.ok.inj (hport.symm.trans hport'), hu, hp, hname, hname', hssl,
        hssl']
    rw [hsame, hu, huser, huser', hpassword, hpassword']
    simp only
    cases u.user with
    | none => exact Iff.rfl
    | some user =>
      cases hp : user.password with
      | none => simp [hp]
      | some password => simp [hp]

end

/-! ### Two environments -/

/-- **The condition:** if the rest of the environments is accepted, so is `DB_PORT` in
both or in neither, and the `DB_*` variables agree on what `DATABASE_URL` does not set. -/
def Overridden (env env' : Env) (raw : Bytes) : Prop :=
  OthersAccepted env → URLAccepted raw →
    (PortAccepted env ↔ PortAccepted env') ∧
      ∀ dbPort dbPort', envInt env "DB_PORT" 5432 = .ok dbPort →
        envInt env' "DB_PORT" 5432 = .ok dbPort' →
          AgreeOnKept raw (databaseEnv env dbPort) (databaseEnv env' dbPort')

section

variable {env env' : Env} (hagree : AgreeOutside env env')
include hagree

/-- Where two environments agree, the numbers that are read from them do. -/
theorem AgreeOutside.envInt_eq (key : String) (hkey : ¬IsDatabaseKey key) (fallback : ℤ) :
    envInt env key fallback = envInt env' key fallback := by
  rw [envInt, envInt, hagree key hkey]

/-- And so does whether the variables other than those of the database are accepted. -/
theorem AgreeOutside.othersAccepted_iff : OthersAccepted env ↔ OthersAccepted env' := by
  have hhttp := hagree.envInt_eq "HTTP_PORT" (by decide) 8080
  have hredis := hagree.envInt_eq "REDIS_DB" (by decide) 0
  have haccess := hagree.envInt_eq "JWT_ACCESS_TTL_MIN" (by decide) 15
  have hrefresh := hagree.envInt_eq "JWT_REFRESH_TTL_HOURS" (by decide) (24 * 7)
  constructor
  · rintro ⟨h1, h2, h3, h4⟩
    exact ⟨hhttp ▸ h1, hredis ▸ h2, haccess ▸ h3, hrefresh ▸ h4⟩
  · rintro ⟨h1, h2, h3, h4⟩
    exact ⟨hhttp ▸ h1, hredis ▸ h2, haccess ▸ h3, hrefresh ▸ h4⟩

end

/-- When `Load` succeeds with this `DATABASE_URL`. -/
theorem load_isOk_iff {env : Env} {raw : Bytes} (hset : env "DATABASE_URL" = some raw) :
    (∃ cfg, load env = .ok cfg) ↔ OthersAccepted env ∧ URLAccepted raw ∧ PortAccepted env := by
  constructor
  · rintro ⟨cfg, h⟩
    obtain ⟨hothers, dbPort, hport, hdb⟩ := load_eq_ok_iff.1 ⟨cfg, h, rfl⟩
    exact ⟨hothers, (loadDatabase_isOk hset dbPort).1 ⟨_, hdb⟩, dbPort, hport⟩
  · rintro ⟨hothers, hurl, dbPort, hport⟩
    obtain ⟨c, hdb⟩ := (loadDatabase_isOk hset dbPort).2 hurl
    obtain ⟨cfg, h, -⟩ := load_eq_ok_iff.2 ⟨hothers, dbPort, hport, hdb⟩
    exact ⟨cfg, h⟩

/-- **When `DATABASE_URL` overrides the `DB_*` variables.**  Two environments that agree
on everything else and have one `DATABASE_URL` are both accepted or both refused, and
give one database then, exactly when both or neither have a `DB_PORT` that is a number
and they agree on what the URL leaves to the `DB_*` variables. -/
theorem overrides_iff {env env' : Env} {raw : Bytes} (hagree : AgreeOutside env env')
    (hset : env "DATABASE_URL" = some raw) :
    SameDatabase env env' ↔ Overridden env env' raw := by
  have hset' : env' "DATABASE_URL" = some raw :=
    (hagree "DATABASE_URL" (by decide)).symm.trans hset
  have hothers := hagree.othersAccepted_iff
  constructor
  · rintro ⟨hiff, hsame⟩ hrest hurl
    rw [load_isOk_iff hset, load_isOk_iff hset', ← hothers] at hiff
    refine ⟨⟨fun hp => (hiff.1 ⟨hrest, hurl, hp⟩).2.2, fun hp => (hiff.2 ⟨hrest, hurl, hp⟩).2.2⟩,
      fun dbPort dbPort' hport hport' => ?_⟩
    obtain ⟨c, hdb⟩ := (loadDatabase_isOk hset dbPort).2 hurl
    obtain ⟨c', hdb'⟩ := (loadDatabase_isOk hset' dbPort').2 hurl
    obtain ⟨cfg, h, rfl⟩ := load_eq_ok_iff.2 ⟨hrest, dbPort, hport, hdb⟩
    obtain ⟨cfg', h', rfl⟩ := load_eq_ok_iff.2 ⟨hothers.1 hrest, dbPort', hport', hdb'⟩
    exact (loadDatabase_eq_iff hset hset' hdb hdb').1 (hsame cfg cfg' h h')
  · intro hover
    refine ⟨?_, fun cfg cfg' h h' => ?_⟩
    · rw [load_isOk_iff hset, load_isOk_iff hset', ← hothers]
      exact and_congr_right fun hrest => and_congr_right fun hurl => (hover hrest hurl).1
    · obtain ⟨hrest, dbPort, hport, hdb⟩ := load_eq_ok_iff.1 ⟨cfg, h, rfl⟩
      obtain ⟨-, dbPort', hport', hdb'⟩ := load_eq_ok_iff.1 ⟨cfg', h', rfl⟩
      have hurl := (loadDatabase_isOk hset dbPort).1 ⟨_, hdb⟩
      exact (loadDatabase_eq_iff hset hset' hdb hdb').2
        ((hover hrest hurl).2 dbPort dbPort' hport hport')

/-- An environment with a `DATABASE_URL` and a `DB_PASSWORD`. -/
def withPassword (raw password : String) : Env := fun key =>
  if key = "DATABASE_URL" then some (utf8 raw)
  else if key = "DB_PASSWORD" then some (utf8 password) else none

/-- The password is one of the settings of the database. -/
theorem agreeOutside_withPassword (raw password password' : String) :
    AgreeOutside (withPassword raw password) (withPassword raw password') := by
  intro key hkey
  unfold withPassword
  split_ifs with hurl hpassword
  · rfl
  · exact absurd (show IsDatabaseKey key by rw [hpassword]; decide) hkey
  · rfl

/-- A URL with user and password leaves nothing to the `DB_PASSWORD`. -/
theorem overrides_iff_complete :
    SameDatabase (withPassword "postgres://ann:secret@db/shares" "one")
      (withPassword "postgres://ann:secret@db/shares" "two") := by
  refine (overrides_iff (agreeOutside_withPassword _ _ _) rfl).2 fun _ _ => ⟨Iff.rfl, ?_⟩
  intro dbPort dbPort' _ _
  have hparse : parse (utf8 "postgres://ann:secret@db/shares") = .ok ⟨utf8 "postgres",
      some ⟨utf8 "ann", some (utf8 "secret")⟩, utf8 "db", utf8 "/shares", []⟩ := by decide +kernel
  rw [AgreeOnKept, if_neg (by decide), hparse]
  exact nofun

/-- A URL with a user alone takes the password from `DB_PASSWORD`. -/
theorem not_overrides : ¬∀ (env env' : Env) (raw : Bytes), AgreeOutside env env' →
    env "DATABASE_URL" = some raw → env' "DATABASE_URL" = some raw → SameDatabase env env' := by
  intro h
  have hsame := h (withPassword "postgres://ann@db/shares" "one")
    (withPassword "postgres://ann@db/shares" "two") _ (agreeOutside_withPassword _ _ _) rfl rfl
  have hone : (load (withPassword "postgres://ann@db/shares" "one")).map (·.db.password) =
      .ok (utf8 "one") := by decide +kernel
  have htwo : (load (withPassword "postgres://ann@db/shares" "two")).map (·.db.password) =
      .ok (utf8 "two") := by decide +kernel
  obtain ⟨cfg, hload, hpassword⟩ := ok_of_map hone
  obtain ⟨cfg', hload', hpassword'⟩ := ok_of_map htwo
  rw [hsame.2 cfg cfg' hload hload', hpassword'] at hpassword
  exact absurd hpassword (by decide)

end Config
end YtShare
