/-
# The configuration

`backend/internal/config/config.go`: what `Load` makes of the environment.  The
values of the environment are Go strings, that is `Bytes`, and what they write in
decimal is an `int`, so an `ℤ` that `Atoi` accepted.

A `DATABASE_URL` overrides the six `DB_*` variables (`applyDatabaseURL`).  `url` and
`dsn` write the six down again, the one for the migration tool and the other for the
server.
-/

import YtShare.Core.Strconv
import YtShare.Net.URL

namespace YtShare
namespace Config

/-- `AppConfig`. -/
structure AppConfig where
  env : Bytes
  logLevel : Bytes

/-- `HTTPConfig`. -/
structure HTTPConfig where
  port : ℤ

/-- `DatabaseConfig`. -/
structure DatabaseConfig where
  host : Bytes
  port : ℤ
  user : Bytes
  password : Bytes
  name : Bytes
  sslMode : Bytes
deriving DecidableEq

/-- `RedisConfig`. -/
structure RedisConfig where
  url : Bytes
  addr : Bytes
  password : Bytes
  db : ℤ

/-- `JWTConfig`, the times to live in nanoseconds. -/
structure JWTConfig where
  accessSecret : Bytes
  refreshSecret : Bytes
  accessTTL : ℤ
  refreshTTL : ℤ

/-- `CORSConfig`. -/
structure CORSConfig where
  allowedOrigins : List Bytes

/-- `MigrationsConfig`. -/
structure MigrationsConfig where
  dir : Bytes

end Config

open Config in
/-- `Config`. -/
structure Config where
  app : AppConfig
  http : HTTPConfig
  db : DatabaseConfig
  redis : RedisConfig
  jwt : JWTConfig
  cors : CORSConfig
  migrations : MigrationsConfig

namespace Config

open Lib URL

/-- The errors of `Load`. -/
inductive LoadError
  /-- `config: invalid integer for %s: %w` -/
  | invalidInteger (key : String)
  /-- `config: invalid DATABASE_URL: %w` -/
  | invalidURL (err : ParseError)
  /-- `config: DATABASE_URL must use postgres:// scheme, got %q` -/
  | wrongScheme (scheme : Bytes)
  /-- `config: invalid DATABASE_URL port: %w` -/
  | invalidPort (port : Bytes)
  /-- `config: JWT secrets must be set` -/
  | jwtSecrets
  /-- `config: HTTP_PORT must be positive` -/
  | httpPort
deriving DecidableEq

/-- `os.LookupEnv`, after `godotenv.Load`. -/
abbrev Env := String → Option Bytes

/-- `envStr`. -/
def envStr (env : Env) (key : String) (fallback : Bytes) : Bytes :=
  match env key with
  | some v => if v ≠ [] then v else fallback
  | none => fallback

/-- A setting with a fallback is never empty. -/
theorem envStr_ne_nil {env : Env} {key : String} {fallback : Bytes} (h : fallback ≠ []) :
    envStr env key fallback ≠ [] := by
  unfold envStr
  split
  · split_ifs with hv
    · exact hv
    · exact h
  · exact h

/-- `envInt`. -/
def envInt (env : Env) (key : String) (fallback : ℤ) : Except LoadError ℤ :=
  match env key with
  | none => .ok fallback
  | some v =>
      if v = [] then .ok fallback
      else
        match atoi (ofASCII v) with
        | none => .error (.invalidInteger key)
        | some n => .ok n

/-- `splitAndTrim`. -/
def splitAndTrim (s : Bytes) : List Bytes :=
  ((s.splitOn (byte ',')).map trimSpaceBytes).filter fun v => decide (v ≠ [])

/-- `time.Duration(n) * unit`, a product of two `int64`. -/
def duration (n unit : ℤ) : ℤ := (n * unit).bmod (2 ^ 64)

/-- `time.Minute`. -/
def minute : ℤ := 60 * 1000000000

/-- `time.Hour`. -/
def hour : ℤ := 60 * minute

/-! ### The database -/

/-- The port that `applyDatabaseURL` sets. -/
def databasePort (p : Bytes) : Except LoadError ℤ :=
  if p ≠ [] then
    match atoi (ofASCII p) with
    | none => .error (.invalidPort p)
    | some n => .ok n
  else .ok 5432

/-- The SSL mode that `applyDatabaseURL` sets. -/
def databaseSSLMode (v : Bytes) : Bytes := if v ≠ [] then v else utf8 "require"

/-- `applyDatabaseURL`. -/
def applyDatabaseURL (cfg : DatabaseConfig) (raw : Bytes) : Except LoadError DatabaseConfig :=
  match parse raw with
  | .error err => .error (.invalidURL err)
  | .ok u =>
      if u.scheme ≠ utf8 "postgres" ∧ u.scheme ≠ utf8 "postgresql" then
        .error (.wrongScheme u.scheme)
      else
        (databasePort u.port).map fun n =>
          { host := u.hostname
            port := n
            user := match u.user with
              | some user => user.username
              | none => cfg.user
            password := match u.user with
              | some user => user.password.getD cfg.password
              | none => cfg.password
            name := trimPrefix (utf8 "/") u.path
            sslMode := databaseSSLMode (u.queryGet (utf8 "sslmode")) }

/-- `DatabaseConfig.URL`. -/
def DatabaseConfig.url (c : DatabaseConfig) : Bytes :=
  utf8 "postgres://" ++ queryEscape c.user ++ utf8 ":" ++ queryEscape c.password ++ utf8 "@" ++
    c.host ++ utf8 ":" ++ utf8 (itoa c.port) ++ utf8 "/" ++ c.name ++ utf8 "?sslmode=" ++ c.sslMode

/-- `DatabaseConfig.DSN`. -/
def DatabaseConfig.dsn (c : DatabaseConfig) : Bytes :=
  utf8 "host=" ++ c.host ++ utf8 " port=" ++ utf8 (itoa c.port) ++ utf8 " user=" ++ c.user ++
    utf8 " password=" ++ c.password ++ utf8 " dbname=" ++ c.name ++ utf8 " sslmode=" ++ c.sslMode

/-! ### Load -/

/-- `Config.validate`. -/
def validate (c : Config) : Except LoadError Unit :=
  if c.jwt.accessSecret = [] ∨ c.jwt.refreshSecret = [] then .error .jwtSecrets
  else if c.http.port ≤ 0 then .error .httpPort
  else .ok ()

/-- The `DB_*` variables. -/
def databaseEnv (env : Env) (dbPort : ℤ) : DatabaseConfig where
  host := envStr env "DB_HOST" (utf8 "localhost")
  port := dbPort
  user := envStr env "DB_USER" (utf8 "ytshare")
  password := envStr env "DB_PASSWORD" (utf8 "ytshare")
  name := envStr env "DB_NAME" (utf8 "ytshare")
  sslMode := envStr env "DB_SSLMODE" (utf8 "disable")

/-- `DATABASE_URL` over the `DB_*` variables. -/
def loadDatabase (env : Env) (dbPort : ℤ) : Except LoadError DatabaseConfig :=
  if envStr env "DATABASE_URL" [] ≠ [] then
    applyDatabaseURL (databaseEnv env dbPort) (envStr env "DATABASE_URL" [])
  else .ok (databaseEnv env dbPort)

/-- `Load`. -/
def load (env : Env) : Except LoadError Config := do
  let httpPort ← envInt env "HTTP_PORT" 8080
  let dbPort ← envInt env "DB_PORT" 5432
  let redisDB ← envInt env "REDIS_DB" 0
  let accessTTLMin ← envInt env "JWT_ACCESS_TTL_MIN" 15
  let refreshTTLHours ← envInt env "JWT_REFRESH_TTL_HOURS" (24 * 7)
  let db ← loadDatabase env dbPort
  let cfg : Config :=
    { app := ⟨envStr env "APP_ENV" (utf8 "development"), envStr env "LOG_LEVEL" (utf8 "info")⟩
      http := ⟨httpPort⟩
      db := db
      redis :=
        { url := envStr env "REDIS_URL" []
          addr := envStr env "REDIS_ADDR" (utf8 "localhost:6379")
          password := envStr env "REDIS_PASSWORD" []
          db := redisDB }
      jwt :=
        { accessSecret := envStr env "JWT_ACCESS_SECRET" (utf8 "dev-access-secret")
          refreshSecret := envStr env "JWT_REFRESH_SECRET" (utf8 "dev-refresh-secret")
          accessTTL := duration accessTTLMin minute
          refreshTTL := duration refreshTTLHours hour }
      cors := ⟨splitAndTrim (envStr env "CORS_ALLOWED_ORIGINS"
        (utf8 "http://localhost:5173,http://localhost:3000"))⟩
      migrations := ⟨envStr env "MIGRATIONS_DIR" (utf8 "./migrations")⟩ }
  cfg.validate
  return cfg

/-! ### What `Load` accepts -/

/-- `Load` takes the database from `loadDatabase`, for the port that `DB_PORT` writes. -/
theorem load_db {env : Env} {cfg : Config} (h : load env = .ok cfg) :
    ∃ dbPort, envInt env "DB_PORT" 5432 = .ok dbPort ∧ loadDatabase env dbPort = .ok cfg.db := by
  obtain ⟨httpPort, -, h⟩ := ok_of_bind h
  obtain ⟨dbPort, hport, h⟩ := ok_of_bind h
  obtain ⟨redisDB, -, h⟩ := ok_of_bind h
  obtain ⟨accessTTLMin, -, h⟩ := ok_of_bind h
  obtain ⟨refreshTTLHours, -, h⟩ := ok_of_bind h
  obtain ⟨db, hdb, h⟩ := ok_of_bind h
  obtain ⟨_, -, h⟩ := ok_of_bind h
  obtain rfl := Except.ok.inj h
  exact ⟨dbPort, hport, hdb⟩

/-- What an accepted `DATABASE_URL` is taken apart into. -/
theorem applyDatabaseURL_eq_ok {base c : DatabaseConfig} {raw : Bytes}
    (h : applyDatabaseURL base raw = .ok c) :
    ∃ u, parse raw = .ok u ∧ databasePort u.port = .ok c.port ∧ c.host = u.hostname ∧
      c.user = (match u.user with | some user => user.username | none => base.user) ∧
      c.password = (match u.user with
        | some user => user.password.getD base.password
        | none => base.password) ∧
      c.name = trimPrefix (utf8 "/") u.path ∧
      c.sslMode = databaseSSLMode (u.queryGet (utf8 "sslmode")) := by
  unfold applyDatabaseURL at h
  split at h
  · cases h
  · rename_i u hu
    split_ifs at h
    obtain ⟨n, hn, rfl⟩ := ok_of_map h
    exact ⟨u, hu, hn, rfl, rfl, rfl, rfl, rfl⟩

end Config
end YtShare
