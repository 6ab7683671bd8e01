/-
# The database written as a connection string

`DatabaseConfig.DSN` splices the fields into `host=… port=… user=… password=… dbname=…
sslmode=…` as they are, and the driver that `NewPostgres` opens reads it by the
keyword/value grammar (`Conninfo`).  Nothing is quoted there, so the fields decide what
is read: a password with a space in it ends at the space, one that begins with a quote
takes all up to the next one, and an empty field takes the next setting for its value.

Of what `Load` gives, the port is always a number and the SSL mode never empty.  The
other fields, and the SSL mode too, have to stand for themselves (`DSNSafe`).
-/

import YtShare.Config.DatabaseURL
import YtShare.Net.Conninfo

namespace YtShare
namespace Config

open Lib Conninfo

namespace DatabaseConfig

variable (c : DatabaseConfig)

/-- The six settings of the configuration. -/
def settings : List (Bytes × Bytes) :=
  [(utf8 "host", c.host), (utf8 "port", utf8 (itoa c.port)), (utf8 "user", c.user),
    (utf8 "password", c.password), (utf8 "dbname", c.name), (utf8 "sslmode", c.sslMode)]

/-- The connection string sets what the configuration says and nothing else. -/
def FaithfulDSN : Prop :=
  ∃ ps, Conninfo.parse c.dsn = .ok ps ∧ ∀ k, setting ps k = setting c.settings k

/-- **The fields that can stand for themselves.** -/
def DSNSafe : Prop :=
  ∀ v ∈ [c.host, c.user, c.password, c.name, c.sslMode], v ≠ [] ∧ Bare v

instance : Decidable c.DSNSafe :=
  inferInstanceAs (Decidable (∀ v ∈ [c.host, c.user, c.password, c.name, c.sslMode], _ ∧ _))

/-- The connection string is its settings, one after another. -/
theorem dsn_eq : c.dsn = spell c.settings := by
  have hhost : utf8 "host=" = utf8 "host" ++ [byte '='] := by decide
  have hport : utf8 " port=" = byte ' ' :: (utf8 "port" ++ [byte '=']) := by decide
  have huser : utf8 " user=" = byte ' ' :: (utf8 "user" ++ [byte '=']) := by decide
  have hpassword : utf8 " password=" = byte ' ' :: (utf8 "password" ++ [byte '=']) := by decide
  have hname : utf8 " dbname=" = byte ' ' :: (utf8 "dbname" ++ [byte '=']) := by decide
  have hsslMode : utf8 " sslmode=" = byte ' ' :: (utf8 "sslmode" ++ [byte '=']) := by decide
  rw [dsn, hhost, hport, huser, hpassword, hname, hsslMode]
  simp only [settings, spell, assign, List.append_assoc, List.cons_append, List.nil_append]

/-- There is some setting. -/
theorem settings_ne_nil : c.settings ≠ [] := List.cons_ne_nil _ _

/-- Each has a keyword that is read as it is written. -/
theorem isKeyword_settings : ∀ p ∈ c.settings, IsKeyword p.1 := by
  have hkeys : ∀ k ∈ c.settings.map Prod.fst, IsKeyword k := by
    show ∀ k ∈ [utf8 "host", utf8 "port", utf8 "user", utf8 "password", utf8 "dbname",
      utf8 "sslmode"], IsKeyword k
    decide
  exact fun p hp => hkeys p.1 (List.mem_map_of_mem hp)

/-- And no keyword comes twice. -/
theorem nodup_settings : (c.settings.map Prod.fst).Nodup := by
  show [utf8 "host", utf8 "port", utf8 "user", utf8 "password", utf8 "dbname",
    utf8 "sslmode"].Nodup
  decide

end DatabaseConfig

/-! ### What `Load` gives -/

/-- A number can stand for itself. -/
theorem bare_itoa (n : ℤ) : utf8 (itoa n) ≠ [] ∧ Bare (utf8 (itoa n)) := by
  have hsign : ∀ n < 128, (Char.ofNat n).isDigit = true ∨ Char.ofNat n = '-' →
      (Conninfo.isSpace (UInt8.ofNat n) = false ∧ UInt8.ofNat n ≠ byte '\\') ∧
        UInt8.ofNat n ≠ byte '\'' := by decide +kernel
  obtain ⟨cs, hcs, hne, he⟩ := itoa_eq n
  have hlt : ∀ c ∈ cs, c.toNat < 128 := by
    intro c hc
    rcases hcs c hc with h | rfl
    · exact lt_of_isDigit h
    · decide
  have hbyte : ∀ b ∈ cs.map fun c => UInt8.ofNat c.toNat,
      (Conninfo.isSpace b = false ∧ b ≠ byte '\\') ∧ b ≠ byte '\'' := by
    intro b hb
    obtain ⟨c, hc, rfl⟩ := List.mem_map.1 hb
    refine hsign c.toNat (hlt c hc) ?_
    rw [Char.ofNat_toNat]
    exact hcs c hc
  rw [he, utf8_ofList hlt]
  refine ⟨fun h => hne (List.map_eq_nil_iff.1 h), fun b hb => (hbyte b hb).1, fun hquote => ?_⟩
  exact (hbyte _ (List.mem_of_mem_head? hquote)).2 rfl

/-- The SSL mode is never empty. -/
theorem sslMode_ne_nil {env : Env} {cfg : Config} (h : load env = .ok cfg) :
    cfg.db.sslMode ≠ [] := by
  obtain ⟨dbPort, -, hdb⟩ := load_db h
  unfold loadDatabase at hdb
  split_ifs at hdb with hurl
  · exact (fromURL_of_apply hdb).sslMode
  · rw [← Except.ok.inj hdb]
    exact envStr_ne_nil (by decide)

/-! ### When it is read as it was meant -/

/-- **When the connection string is a faithful encoding.**  What `Load` gives is read
from its connection string as exactly the six settings with their values when none of
host, user, password, name and SSL mode is empty, holds white space or a backslash, or
begins with a quote, and otherwise never. -/
theorem dsn_faithful_iff {env : Env} {cfg : Config} (h : load env = .ok cfg) :
    cfg.db.FaithfulDSN ↔ cfg.db.DSNSafe := by
  have hport := bare_itoa cfg.db.port
  have hssl := sslMode_ne_nil h
  rw [DatabaseConfig.FaithfulDSN, cfg.db.dsn_eq, parse_spell_iff cfg.db.settings_ne_nil
    cfg.db.isKeyword_settings cfg.db.nodup_settings]
  simp only [DatabaseConfig.settings, DatabaseConfig.DSNSafe, List.dropLast, List.forall_mem_cons]
  constructor
  · rintro ⟨⟨hhost, -, huser, hpassword, hname, hsslMode, -⟩, hhost', -, huser', hpassword',
      hname', -⟩
    exact ⟨⟨hhost', hhost⟩, ⟨huser', huser⟩, ⟨hpassword', hpassword⟩, ⟨hname', hname⟩,
      ⟨hssl, hsslMode⟩, nofun⟩
  · rintro ⟨hhost, huser, hpassword, hname, hsslMode, -⟩
    exact ⟨⟨hhost.2, hport.2, huser.2, hpassword.2, hname.2, hsslMode.2, nofun⟩,
      hhost.1, hport.1, huser.1, hpassword.1, hname.1, nofun⟩

/-- An IPv6 host, and a password that the URL had to escape. -/
theorem dsn_faithful_iff_escaped :
    ∃ cfg, load (databaseURL "postgres://ann:a%2Fb@[2001:db8::1]:6432/shares") = .ok cfg ∧
      cfg.db = ⟨utf8 "2001:db8::1", 6432, utf8 "ann", utf8 "a/b", utf8 "shares",
        utf8 "require"⟩ ∧
      cfg.db.FaithfulDSN := by
  obtain ⟨cfg, hload, hdb⟩ := ok_of_map (show
    (load (databaseURL "postgres://ann:a%2Fb@[2001:db8::1]:6432/shares")).map Config.db =
      .ok ⟨utf8 "2001:db8::1", 6432, utf8 "ann", utf8 "a/b", utf8 "shares", utf8 "require"⟩
    by decide +kernel)
  refine ⟨cfg, hload, hdb, (dsn_faithful_iff hload).2 ?_⟩
  rw [hdb]
  decide +kernel

/-- An empty password: it takes the setting that follows, and there is no database name. -/
theorem not_faithful_dsn :
    ∃ cfg, load (databaseURL "postgres://ann:@db/shares") = .ok cfg ∧
      Conninfo.parse cfg.db.dsn = .ok [(utf8 "host", utf8 "db"), (utf8 "port", utf8 "5432"),
        (utf8 "user", utf8 "ann"), (utf8 "password", utf8 "dbname=shares"),
        (utf8 "sslmode", utf8 "require")] ∧
      ¬cfg.db.FaithfulDSN := by
  obtain ⟨cfg, hload, hdb⟩ := ok_of_map (show
    (load (databaseURL "postgres://ann:@db/shares")).map Config.db =
      .ok ⟨utf8 "db", 5432, utf8 "ann", [], utf8 "shares", utf8 "require"⟩ by decide +kernel)
  have hparse : Conninfo.parse cfg.db.dsn = .ok [(utf8 "host", utf8 "db"),
      (utf8 "port", utf8 "5432"), (utf8 "user", utf8 "ann"),
      (utf8 "password", utf8 "dbname=shares"), (utf8 "sslmode", utf8 "require")] := by
    rw [hdb]
    decide +kernel
  refine ⟨cfg, hload, hparse, fun ⟨ps, hps, hset⟩ => ?_⟩
  obtain rfl := Except.ok.inj (hparse.symm.trans hps)
  have hname := hset (utf8 "dbname")
  rw [hdb] at hname
  exact absurd hname (by decide +kernel)

end Config
end YtShare
