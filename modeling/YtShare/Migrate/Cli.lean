/-
# The migrate CLI

`backend/cmd/migrate/main.go` and `backend/internal/database/migrate.go`.  One run of the
binary reads the configuration and its arguments, and works on a directory of migrations
and on the version that the database keeps of its schema.

`GolangMigrate` is what the code relies on in `github.com/golang-migrate/migrate`: `Up`
applies all that is pending, `Steps(-1)` reverts one, `Force` sets the version.  What
else decides whether a call succeeds is a world of its own.  `GolangMigrate.reference`
is a library that does so.
-/

import YtShare.Config.Load
import Mathlib.Data.List.Dedup
import Mathlib.Data.List.Infix

namespace YtShare
namespace Migrate

open Lib

/-! ### Paths -/

/-- One element of a path in `filepath.Clean`, after those before it. -/
def cleanPart (rooted : Bool) (out : List Bytes) (part : Bytes) : List Bytes :=
  if part = [] ∨ part = utf8 "." then out
  else if part = utf8 ".." then
    match out.getLast? with
    | some last => if last = utf8 ".." then out ++ [part] else out.dropLast
    | none => if rooted then out else out ++ [part]
  else out ++ [part]

/-- `filepath.Clean`. -/
def clean (path : Bytes) : Bytes :=
  let rooted := decide (path.head? = some (byte '/'))
  let body := [byte '/'].intercalate ((path.splitOn (byte '/')).foldl (cleanPart rooted) [])
  if rooted then byte '/' :: body else if body = [] then utf8 "." else body

/-- `filepath.Join` of two elements. -/
def join (dir name : Bytes) : Bytes :=
  if dir = [] then if name = [] then [] else clean name
  else if name = [] then clean dir
  else clean (dir ++ byte '/' :: name)

/-! ### The library -/

/-- What the database keeps of its schema; no version before the first migration. -/
structure Schema where
  version : Option ℕ
  dirty : Bool
deriving DecidableEq

/-- The errors of the library: `ErrNoChange`, `ErrNilVersion`, and any other. -/
inductive MigrateErr
  | noChange
  | nilVersion
  | other (text : String)
deriving DecidableEq

/-- The greatest version below another one. -/
def below (versions : List ℕ) (v : ℕ) : Option ℕ := (versions.filter fun u => decide (u < v)).max?

/-- The version that `Force` sets; `-1` is none. -/
def forced (v : ℤ) : Option ℕ := if v = -1 then none else some v.toNat

/-- The library, on the versions of a source, in some world. -/
structure GolangMigrate (ω : Type) where
  versions : Bytes → List Bytes → List ℕ
  new : ω → Bytes → Bytes → Option MigrateErr
  up : ω → List ℕ → Schema → Option MigrateErr × Schema
  steps : ω → ℤ → List ℕ → Schema → Option MigrateErr × Schema
  force : ω → ℤ → Schema → Option MigrateErr × Schema
  version : ω → Schema → Except MigrateErr (ℕ × Bool)
  up_applies : ∀ w vs s, (up w vs s).1 = none → (up w vs s).2.version = vs.max?
  up_noChange : ∀ w vs s, (up w vs s).1 = some .noChange →
    s.version = vs.max? ∧ (up w vs s).2 = s
  steps_reverts : ∀ w vs s, (steps w (-1) vs s).1 = none →
    ∃ v, s.version = some v ∧ (steps w (-1) vs s).2.version = below vs v
  steps_changes : ∀ w vs s, (steps w (-1) vs s).1 ≠ some .noChange
  force_sets : ∀ w v s, (force w v s).1 = none → (force w v s).2.version = forced v
  version_reads : ∀ w s v dirty, version w s = .ok (v, dirty) → s.version = some v
  version_nil : ∀ w s, version w s = .error .nilVersion → s.version = none

/-- The version of a file of the source, where the name says one:
`^([0-9]+)_(.*)\.(down|up)\.(.*)$`. -/
def fileVersion (name : Bytes) : Option ℕ :=
  match name.span fun b => decide (byte '0' ≤ b ∧ b ≤ byte '9') with
  | (digits, mark :: rest) =>
      if mark = byte '_' ∧ (utf8 ".up." <:+: rest ∨ utf8 ".down." <:+: rest) then
        decimal (digits.map fun b => Char.ofNat b.toNat)
      else none
  | (_, []) => none

/-- A library that does so, where nothing fails but what has to. -/
def GolangMigrate.reference : GolangMigrate Unit where
  versions source files :=
    let dir := clean (source.drop (utf8 "file://").length) ++ [byte '/']
    (files.filterMap fun path =>
      if dir <+: path then fileVersion (path.drop dir.length) else none).dedup
  new _ _ _ := none
  up _ vs s :=
    if s.dirty ∨ vs = [] then (some (.other "Dirty database version, or no file"), s)
    else if s.version = vs.max? then (some .noChange, s)
    else if ∀ v ∈ s.version, v ∈ vs then (none, ⟨vs.max?, false⟩)
    else (some (.other "no migration found"), s)
  steps _ _ vs s :=
    match s.version.filter fun v => decide (s.dirty = false ∧ v ∈ vs) with
    | some v => (none, ⟨below vs v, false⟩)
    | none => (some (.other "no migration found"), s)
  force _ v s :=
    if v < -1 then (some (.other "version must be >= -1"), s) else (none, ⟨forced v, false⟩)
  version _ s :=
    match s.version with
    | some v => .ok (v, s.dirty)
    | none => .error .nilVersion
  up_applies _ vs s h := by
    split_ifs at h ⊢
    rfl
  up_noChange _ vs s h := by
    split_ifs at h ⊢ with hdirty hlatest hfound
    · cases h
    · exact ⟨hlatest, rfl⟩
    · cases h
  steps_reverts _ vs s h := by
    split at h
    · next v hv => exact ⟨v, (Option.filter_eq_some_iff.1 hv).1, rfl⟩
    · cases h
  steps_changes _ vs s h := by
    split at h
    · cases h
    · cases h
  force_sets _ v s h := by
    split_ifs at h ⊢
    rfl
  version_reads _ s v dirty h := by
    split at h
    · next u hu =>
      obtain ⟨rfl, -⟩ := Prod.mk.inj (Except.ok.inj h)
      exact hu
    · cases h
  version_nil _ s h := by
    split at h
    · cases h
    · next hnone => exact hnone

/-! ### `internal/database` -/

/-- `MigrateAction`. -/
abbrev MigrateAction := String

/-- `MigrateUp`. -/
def migrateUp : MigrateAction := "up"

/-- `MigrateDown`. -/
def migrateDown : MigrateAction := "down"

/-- `MigrationResult`. -/
structure MigrationResult where
  version : ℕ
  dirty : Bool
  noOp : Bool
deriving DecidableEq

/-- The errors of `run`. -/
inductive CliError
  /-- `missing subcommand: up | down | status | force <v> | create <name>` -/
  | missingSubcommand
  /-- what `config.Load` says -/
  | load (err : Config.LoadError)
  /-- `database: open migrator: %w` -/
  | openMigrator (err : MigrateErr)
  /-- `database: unknown migrate action %q` -/
  | unknownAction (action : MigrateAction)
  /-- `database: migrate %s: %w` -/
  | migrate (action : MigrateAction) (err : MigrateErr)
  /-- `database: read version: %w` -/
  | readVersion (err : MigrateErr)
  /-- `force: missing <version>` -/
  | missingVersion
  /-- `force: %w` -/
  | parseVersion (arg : Bytes)
  /-- `database: force version %d: %w` -/
  | forceVersion (v : ℤ) (err : MigrateErr)
  /-- `create: missing <name>` -/
  | missingName
  /-- what `os.MkdirAll` says -/
  | mkdirAll (dir : Bytes)
  /-- `create %s: %w` -/
  | create (path : Bytes)
  /-- `unknown subcommand %q` -/
  | unknownSubcommand (arg : Bytes)
deriving DecidableEq

variable {ω : Type} (lib : GolangMigrate ω)

/-- The end of `RunMigrations`: the version that it reads back. -/
def readVersion (w : ω) (noOp : Bool) (s : Schema) : Except CliError MigrationResult :=
  match lib.version w s with
  | .ok (version, dirty) => .ok ⟨version, dirty, noOp⟩
  | .error .nilVersion => .ok ⟨0, false, noOp⟩
  | .error err => .error (.readVersion err)

/-- `RunMigrations` after the action: what it makes of the error. -/
def migrationResult (w : ω) (action : MigrateAction) (ran : Option MigrateErr × Schema) :
    Except CliError MigrationResult × Schema :=
  match ran.1 with
  | none => (readVersion lib w false ran.2, ran.2)
  | some .noChange => (readVersion lib w true ran.2, ran.2)
  | some err => (.error (.migrate action err), ran.2)

/-- The source of a directory. -/
def source (dir : Bytes) : Bytes := utf8 "file://" ++ dir

/-- `RunMigrations`. -/
def runMigrations (w : ω) (databaseURL dir : Bytes) (action : MigrateAction) (files : List Bytes)
    (s : Schema) : Except CliError MigrationResult × Schema :=
  match lib.new w (source dir) databaseURL with
  | some err => (.error (.openMigrator err), s)
  | none =>
      if action = migrateUp then
        migrationResult lib w action (lib.up w (lib.versions (source dir) files) s)
      else if action = migrateDown then
        migrationResult lib w action (lib.steps w (-1) (lib.versions (source dir) files) s)
      else (.error (.unknownAction action), s)

/-- `ForceMigrationVersion`. -/
def forceMigrationVersion (w : ω) (databaseURL dir : Bytes) (v : ℤ) (s : Schema) :
    Option CliError × Schema :=
  match lib.new w (source dir) databaseURL with
  | some err => (some (.openMigrator err), s)
  | none =>
      match lib.force w v s with
      | (some err, s) => (some (.forceVersion v err), s)
      | (none, s) => (none, s)

/-! ### `cmd/migrate` -/

/-- One run of the binary: its arguments, the time as `20060102150405` writes it, what the
file system refuses, and the world of the library. -/
structure Invocation (ω : Type) where
  args : List Bytes
  seq : Bytes
  mkdirFails : Bool
  openFails : Bytes → Bool
  world : ω

/-- What the runs work on: the files, by their paths, and the schema. -/
structure Host where
  files : List Bytes
  schema : Schema

/-- What is printed: `version=%d dirty=%t no_op=%t`, `forced version=%d`, `created …`. -/
inductive Output
  | result (r : MigrationResult)
  | forced (v : ℤ)
  | created (path : Bytes)
deriving DecidableEq

/-- How a run ends. -/
structure Outcome where
  err : Option CliError
  printed : List Output
  host : Host

/-- The loop of `scaffold`. -/
def scaffoldFiles (inv : Invocation ω) (dir name : Bytes) :
    List Bytes → List Output → Host → Outcome
  | [], printed, h => ⟨none, printed, h⟩
  | suffix :: suffixes, printed, h =>
      let path := join dir (inv.seq ++ byte '_' :: (name ++ byte '.' :: suffix))
      if h.files.contains path || inv.openFails path then ⟨some (.create path), printed, h⟩
      else scaffoldFiles inv dir name suffixes (printed ++ [.created path])
        { h with files := h.files ++ [path] }

/-- `scaffold`. -/
def scaffold (inv : Invocation ω) (dir name : Bytes) (h : Host) : Outcome :=
  if inv.mkdirFails then ⟨some (.mkdirAll dir), [], h⟩
  else scaffoldFiles inv dir name [utf8 "up.sql", utf8 "down.sql"] [] h

/-- A subcommand that prints what `RunMigrations` says. -/
def runAction (inv : Invocation ω) (cfg : Config) (action : MigrateAction) (h : Host) : Outcome :=
  match runMigrations lib inv.world cfg.db.url cfg.migrations.dir action h.files h.schema with
  | (.error err, schema) => ⟨some err, [], { h with schema := schema }⟩
  | (.ok r, schema) => ⟨none, [.result r], { h with schema := schema }⟩

/-- `run`. -/
def run (env : Config.Env) (inv : Invocation ω) (h : Host) : Outcome :=
  match inv.args with
  | [] => ⟨some .missingSubcommand, [], h⟩
  | sub :: args =>
      match Config.load env with
      | .error err => ⟨some (.load err), [], h⟩
      | .ok cfg =>
          if sub = utf8 "up" then runAction lib inv cfg migrateUp h
          else if sub = utf8 "down" then runAction lib inv cfg migrateDown h
          else if sub = utf8 "status" then runAction lib inv cfg migrateUp h
          else if sub = utf8 "force" then
            match args with
            | [] => ⟨some .missingVersion, [], h⟩
            | arg :: _ =>
                match atoi (ofASCII arg) with
                | none => ⟨some (.parseVersion arg), [], h⟩
                | some v =>
                    match forceMigrationVersion lib inv.world cfg.db.url cfg.migrations.dir v
                      h.schema with
                    | (some err, schema) => ⟨some err, [], { h with schema := schema }⟩
                    | (none, schema) => ⟨none, [.forced v], { h with schema := schema }⟩
          else if sub = utf8 "create" then
            match args with
            | [] => ⟨some .missingName, [], h⟩
            | name :: _ => scaffold inv cfg.migrations.dir name h
          else ⟨some (.unknownSubcommand sub), [], h⟩

end Migrate
end YtShare
