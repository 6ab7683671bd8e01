/-
# What the subcommands are documented to do

`up` applies all pending migrations, `down` rolls back the most recent one, `force` marks
a version applied, `status` prints the current version, and `create` makes two files.
So each has a meaning for the version of the schema (`documented`), and a sequence of
subcommands that succeed should leave the schema at what these meanings add up to.

`run` hands `status` to `RunMigrations` with `MigrateUp`, the action of `up`.  So the
sequence follows its documentation exactly when `status` is run only while nothing is
pending (`follows_documented_iff`), and no other subcommand is at fault.
-/

import YtShare.Lib.Machine
import YtShare.Migrate.Cli

namespace YtShare
namespace Migrate

open Lib

variable {ω : Type} (lib : GolangMigrate ω) (env : Config.Env)

/-- The versions in the directory of the configuration. -/
def versionsIn (files : List Bytes) : List ℕ :=
  match Config.load env with
  | .error _ => []
  | .ok cfg => lib.versions (source cfg.migrations.dir) files

/-- The documented meaning of the arguments for the version of the schema. -/
def documented (versions : List ℕ) (version : Option ℕ) : List Bytes → Option ℕ
  | [] => version
  | sub :: args =>
      if sub = utf8 "up" then versions.max?
      else if sub = utf8 "down" then version.bind (below versions)
      else if sub = utf8 "force" then
        (args.head?.bind fun arg => atoi (ofASCII arg)).elim version forced
      else version

/-- The host between two subcommands, with the version that the documentation of those
so far adds up to, and what the last one printed. -/
structure Session where
  host : Host
  expected : Option ℕ
  printed : List Output

/-- Subcommands that succeed, one after the other. -/
def session : Machine Session (Invocation ω) where
  init s := ∃ host, s = ⟨host, host.schema.version, []⟩
  step s inv :=
    let outcome := run lib env inv s.host
    match outcome.err with
    | some _ => none
    | none => some
        { host := outcome.host
          expected := documented (versionsIn lib env s.host.files) s.expected inv.args
          printed := outcome.printed }

/-- The schema has the documented version, and so has what is printed; a schema without
a version is printed as `0`. -/
structure Follows (s : Session) : Prop where
  version : s.host.schema.version = s.expected
  printed : ∀ r, .result r ∈ s.printed → r.version = s.expected.getD 0

/-- `status` is run while nothing is pending. -/
def StatusIdle (s : Session) (inv : Invocation ω) : Prop :=
  inv.args.head? = some (utf8 "status") →
    s.host.schema.version = (versionsIn lib env s.host.files).max?

instance (s : Session) (inv : Invocation ω) : Decidable (StatusIdle lib env s inv) :=
  inferInstanceAs (Decidable (_ = _ → _ = _))

variable {lib env}

/-- **The version that is read back** is that of the schema. -/
theorem readVersion_eq_ok {w : ω} {noOp : Bool} {s : Schema} {r : MigrationResult}
    (h : readVersion lib w noOp s = .ok r) : r.version = s.version.getD 0 := by
  unfold readVersion at h
  split at h
  · next version dirty hread =>
    obtain rfl := Except.ok.inj h
    rw [lib.version_reads _ _ _ _ hread]
    rfl
  · next hnil =>
    obtain rfl := Except.ok.inj h
    rw [lib.version_nil _ _ hnil]
    rfl
  · cases h

/-- An action that succeeds has ended without an error, or changed nothing. -/
theorem migrationResult_eq_ok {w : ω} {action : MigrateAction} {ran : Option MigrateErr × Schema}
    {r : MigrationResult} {t : Schema} (h : migrationResult lib w action ran = (.ok r, t)) :
    t = ran.2 ∧ (ran.1 = none ∨ ran.1 = some .noChange) ∧ r.version = t.version.getD 0 := by
  unfold migrationResult at h
  split at h
  · next hran =>
    obtain ⟨hread, rfl⟩ := Prod.mk.inj h
    exact ⟨rfl, .inl hran, readVersion_eq_ok hread⟩
  · next hran =>
    obtain ⟨hread, rfl⟩ := Prod.mk.inj h
    exact ⟨rfl, .inr hran, readVersion_eq_ok hread⟩
  · cases (Prod.mk.inj h).1

section RunMigrations

variable {w : ω} {url dir : Bytes} {action : MigrateAction} {files : List Bytes} {s t : Schema}
  {r : MigrationResult}

/-- What `RunMigrations` says is read back from the schema. -/
theorem runMigrations_reads (h : runMigrations lib w url dir action files s = (.ok r, t)) :
    r.version = t.version.getD 0 := by
  unfold runMigrations at h
  split at h
  · cases (Prod.mk.inj h).1
  · split_ifs at h
    · exact (migrationResult_eq_ok h).2.2
    · exact (migrationResult_eq_ok h).2.2
    · cases (Prod.mk.inj h).1

/-- **`RunMigrations` with `MigrateUp`** leads to the latest version. -/
theorem runMigrations_up (h : runMigrations lib w url dir migrateUp files s = (.ok r, t)) :
    t.version = (lib.versions (source dir) files).max? := by
  unfold runMigrations at h
  split at h
  · cases (Prod.mk.inj h).1
  · rw [if_pos rfl] at h
    obtain ⟨rfl, hran | hran, -⟩ := migrationResult_eq_ok h
    · exact lib.up_applies _ _ _ hran
    · obtain ⟨hlatest, hsame⟩ := lib.up_noChange _ _ _ hran
      rw [hsame, hlatest]

/-- **`RunMigrations` with `MigrateDown`** leads to the version before. -/
theorem runMigrations_down (h : runMigrations lib w url dir migrateDown files s = (.ok r, t)) :
    t.version = s.version.bind (below (lib.versions (source dir) files)) := by
  unfold runMigrations at h
  split at h
  · cases (Prod.mk.inj h).1
  · rw [if_neg (by decide), if_pos rfl] at h
    obtain ⟨rfl, hran | hran, -⟩ := migrationResult_eq_ok h
    · obtain ⟨v, hv, hbelow⟩ := lib.steps_reverts _ _ _ hran
      rw [hbelow, hv]
      rfl
    · exact absurd hran (lib.steps_changes _ _ _)

/-- **`ForceMigrationVersion`** sets the version. -/
theorem forceMigrationVersion_eq_none {v : ℤ}
    (h : forceMigrationVersion lib w url dir v s = (none, t)) : t.version = forced v := by
  unfold forceMigrationVersion at h
  split at h
  · cases (Prod.mk.inj h).1
  · split at h
    · cases (Prod.mk.inj h).1
    · next u hforce =>
      obtain ⟨-, rfl⟩ := Prod.mk.inj h
      have hsets := lib.force_sets w v s
      rw [hforce] at hsets
      exact hsets rfl

end RunMigrations

/-- A subcommand for an action that succeeds prints the version that there is then. -/
theorem runAction_spec {inv : Invocation ω} {cfg : Config} {action : MigrateAction} {h : Host}
    (hok : (runAction lib inv cfg action h).err = none) :
    (∃ r, runMigrations lib inv.world cfg.db.url cfg.migrations.dir action h.files h.schema =
        (.ok r, (runAction lib inv cfg action h).host.schema)) ∧
      ∀ r, .result r ∈ (runAction lib inv cfg action h).printed →
        r.version = (runAction lib inv cfg action h).host.schema.version.getD 0 := by
  unfold runAction at hok ⊢
  split at hok
  · cases hok
  · next r schema hrun =>
    refine ⟨⟨r, hrun⟩, fun r' hr' => ?_⟩
    obtain rfl := Output.result.inj (List.mem_singleton.1 hr')
    exact runMigrations_reads hrun

/-- Files are created without touching the schema. -/
theorem scaffoldFiles_spec (inv : Invocation ω) (dir name : Bytes) (suffixes : List Bytes)
    (printed : List Output) (h : Host) (hp : ∀ r, .result r ∉ printed) :
    (scaffoldFiles inv dir name suffixes printed h).host.schema = h.schema ∧
      ∀ r, .result r ∉ (scaffoldFiles inv dir name suffixes printed h).printed := by
  induction suffixes generalizing printed h with
  | nil => exact ⟨rfl, hp⟩
  | cons suffix suffixes ih =>
    unfold scaffoldFiles
    simp only
    split_ifs
    · exact ⟨rfl, hp⟩
    · refine ih _ _ fun r hr => ?_
      rcases List.mem_append.1 hr with hr | hr
      · exact hp r hr
      · cases List.mem_singleton.1 hr

/-- Making the files of a migration leaves the schema alone, and is not a migration. -/
theorem scaffold_spec (inv : Invocation ω) (dir name : Bytes) (h : Host) :
    (scaffold inv dir name h).host.schema = h.schema ∧
      ∀ r, .result r ∉ (scaffold inv dir name h).printed := by
  unfold scaffold
  split_ifs
  · exact ⟨rfl, fun _ => List.not_mem_nil⟩
  · exact scaffoldFiles_spec inv dir name _ [] h fun _ => List.not_mem_nil

/-- What a subcommand that succeeds does: `status` leads to the latest version, and every
other one where its documentation says; what it prints of a version is the schema's. -/
structure Does (lib : GolangMigrate ω) (env : Config.Env) (inv : Invocation ω) (h : Host)
    (o : Outcome) : Prop where
  version : o.host.schema.version =
    if inv.args.head? = some (utf8 "status") then (versionsIn lib env h.files).max?
    else documented (versionsIn lib env h.files) h.schema.version inv.args
  printed : ∀ r, .result r ∈ o.printed → r.version = o.host.schema.version.getD 0

/-- **One run of the binary.** -/
theorem run_does {inv : Invocation ω} {h : Host} (hok : (run lib env inv h).err = none) :
    Does lib env inv h (run lib env inv h) := by
  unfold run at hok ⊢
  cases hargs : inv.args with
  | nil =>
    rw [hargs] at hok
    cases hok
  | cons sub args =>
    rw [hargs] at hok
    cases hload : Config.load env with
    | error err =>
      rw [hload] at hok
      cases hok
    | ok cfg =>
      rw [hload] at hok
      have hvs : versionsIn lib env h.files = lib.versions (source cfg.migrations.dir) h.files := by
        rw [versionsIn, hload]
      -- what is left to show of an outcome, by its subcommand
      have hdoes : ∀ o : Outcome, o.host.schema.version =
          (if sub = utf8 "status" then (lib.versions (source cfg.migrations.dir) h.files).max?
            else documented (lib.versions (source cfg.migrations.dir) h.files) h.schema.version
              (sub :: args)) →
          (∀ r, .result r ∈ o.printed → r.version = o.host.schema.version.getD 0) →
          Does lib env inv h o := by
        intro o hversion hprinted
        rw [← hvs] at hversion
        exact ⟨by simpa only [hargs, List.head?_cons, Option.some.injEq] using hversion, hprinted⟩
      simp only at hok ⊢
      split_ifs at hok ⊢ with hup hdown hstatus hforce hcreate
      · obtain ⟨⟨r, hrun⟩, hprinted⟩ := runAction_spec hok
        refine hdoes _ ?_ hprinted
        rw [runMigrations_up hrun, hup, if_neg (by decide), documented, if_pos rfl]
      · obtain ⟨⟨r, hrun⟩, hprinted⟩ := runAction_spec hok
        refine hdoes _ ?_ hprinted
        rw [runMigrations_down hrun, hdown, if_neg (by decide), documented, if_neg (by decide),
          if_pos rfl]
      · obtain ⟨⟨r, hrun⟩, hprinted⟩ := runAction_spec hok
        refine hdoes _ ?_ hprinted
        rw [runMigrations_up hrun, if_pos hstatus]
      · cases args with
        | nil => cases hok
        | cons arg args =>
          simp only at hok ⊢
          split at hok
          · cases hok
          · next v hv =>
            split at hok
            · cases hok
            · next schema hforced =>
              refine hdoes _ ?_ fun r hr => ?_
              · rw [forceMigrationVersion_eq_none hforced, if_neg hstatus, documented, if_neg hup,
                  if_neg hdown, if_pos hforce, List.head?_cons, Option.bind_some, hv,
                  Option.elim_some]
              · cases List.mem_singleton.1 hr
      · cases args with
        | nil => cases hok
        | cons name args =>
          obtain ⟨hschema, hprinted⟩ := scaffold_spec inv cfg.migrations.dir name h
          refine hdoes _ ?_ fun r hr => absurd hr (hprinted r)
          rw [hschema, if_neg hstatus, documented, if_neg hup, if_neg hdown, if_neg hforce]

/-- **The step lemma**: a subcommand follows its documentation unless it is `status`
while something is pending. -/
theorem follows_step {s t : Session} {inv : Invocation ω} (hs : Follows s)
    (h : (session lib env).step s inv = some t) : Follows t ↔ StatusIdle lib env s inv := by
  obtain ⟨o, ho, hok, rfl⟩ : ∃ o, run lib env inv s.host = o ∧ o.err = none ∧
      t = ⟨o.host, documented (versionsIn lib env s.host.files) s.expected inv.args,
        o.printed⟩ := by
    refine ⟨_, rfl, ?_⟩
    simp only [session] at h
    split at h
    · cases h
    · next hnone => exact ⟨hnone, (Option.some.inj h).symm⟩
  obtain ⟨hversion, hprinted⟩ := ho ▸ run_does (ho ▸ hok)
  by_cases hstatus : inv.args.head? = some (utf8 "status")
  · rw [if_pos hstatus] at hversion
    have hsame : documented (versionsIn lib env s.host.files) s.expected inv.args = s.expected := by
      obtain ⟨args, hargs⟩ := List.head?_eq_some_iff.1 hstatus
      rw [hargs, documented, if_neg (by decide), if_neg (by decide), if_neg (by decide)]
    rw [hsame]
    constructor
    · rintro ⟨hv, -⟩ -
      exact hs.version.trans (hv.symm.trans hversion)
    · intro hidle
      have hv : o.host.schema.version = s.expected :=
        hversion.trans ((hidle hstatus).symm.trans hs.version)
      exact ⟨hv, fun r hr => hv ▸ hprinted r hr⟩
  · rw [if_neg hstatus, hs.version] at hversion
    exact iff_of_true ⟨hversion, fun r hr => hversion ▸ hprinted r hr⟩ fun h => absurd h hstatus

/-- **When the subcommands follow their documentation**: a sequence of subcommands that
succeed keeps the schema and what is printed at the documented version exactly when
`status` is run only while nothing is pending. -/
theorem follows_documented_iff (lib : GolangMigrate ω) (env : Config.Env) (host : Host)
    (run : List (Invocation ω)) :
    (session lib env).Always Follows ⟨host, host.schema.version, []⟩ run ↔
      (session lib env).Steps (StatusIdle lib env) ⟨host, host.schema.version, []⟩ run :=
  Machine.always_iff_steps (I := fun _ => True)
    (fun _ _ _ _ hs h => ⟨follows_step hs h, fun _ => trivial⟩) trivial
    ⟨rfl, fun _ hr => absurd hr List.not_mem_nil⟩

/-! ### A pending migration -/

/-- Two migrations in the directory, and a schema at the first of them. -/
def pendingHost : Host :=
  ⟨[utf8 "migrations/000001_init.up.sql", utf8 "migrations/000001_init.down.sql",
    utf8 "migrations/000002_seen.up.sql", utf8 "migrations/000002_seen.down.sql"], ⟨some 1, false⟩⟩

/-- A run of the binary that nothing hinders. -/
def invoke (args : List String) : Invocation Unit :=
  ⟨args.map utf8, utf8 "20240101000000", false, fun _ => false, ()⟩

/-- **With nothing pending** `status` may be asked: what is forced and rolled back in
between is followed, too. -/
theorem follows_documented_iff_idle : (session .reference fun _ => none).Always Follows
    ⟨pendingHost, some 1, []⟩
    [invoke ["up"], invoke ["status"], invoke ["down"], invoke ["force", "2"], invoke ["status"]] :=
  (follows_documented_iff .reference (fun _ => none) pendingHost _).2 (by decide +kernel)

/-- **With a migration pending** `status` applies it. -/
theorem not_follows_documented : ¬∀ (lib : GolangMigrate Unit) (env : Config.Env) (host : Host)
    (run : List (Invocation Unit)),
    (session lib env).Always Follows ⟨host, host.schema.version, []⟩ run := by
  intro h
  have hrun := h .reference (fun _ => none) pendingHost [invoke ["status"]]
  have hmoved : ((session .reference fun _ => none).exec ⟨pendingHost, some 1, []⟩
      [invoke ["status"]]).any (fun t => decide (t.host.schema.version ≠ t.expected)) = true := by
    decide +kernel
  obtain ⟨t, ht, hne⟩ := (Option.any_eq_true _ _).1 hmoved
  exact of_decide_eq_true hne (hrun.exec ht).version

end Migrate
end YtShare
