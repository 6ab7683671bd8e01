/-
# Connection strings of keywords and values

The keyword/value grammar of `libpq`: `<keyword>=<value>` after one another, with white
space between them and around the equals sign.  A value ends at white space, unless it
is quoted, and a backslash takes the next byte as it is.  A keyword that is given again
takes the later value.

`parse` reads a text byte by byte.  What it has read so far of a pair is the state of
the scan (`Scan`), and each state is worth at least what its pair will be worth
(`worth_step`).  A pair is worth its own length and two signs, and one more when its
value has to be quoted or escaped (`worth`), so a text gives no pairs worth more than
its length (`worth_le`).

A program that writes the pairs without quotes and escapes (`spell`) leaves no room for
that.  So what it wrote is read as it was meant exactly when no value has to be quoted
and none but the last is empty (`parse_spell_iff`).
-/

import YtShare.Core.Bytes
import YtShare.Lib.Except
import Mathlib.Algebra.Order.BigOperators.Group.List
import Mathlib.Algebra.Order.Group.Nat
import Mathlib.Algebra.Order.Ring.Int
import Mathlib.Data.List.Nodup
import Mathlib.Data.List.Perm.Subperm

namespace YtShare
namespace Conninfo

open Lib

/-! ### The grammar -/

/-- `isspace`. -/
def isSpace (c : UInt8) : Bool := decide (c ∈ utf8 " \t\n\x0b\x0c\r")

/-- The errors of the grammar. -/
inductive Error
  /-- `missing "=" after "%s" in connection info string` -/
  | missingEquals (keyword : Bytes)
  /-- `unterminated quoted string in connection info string` -/
  | unterminatedQuote
deriving DecidableEq

/-- How far the scan has got in a pair. -/
inductive Scan
  /-- before a keyword -/
  | start
  /-- in a keyword -/
  | keyword (k : Bytes)
  /-- after a keyword and white space -/
  | afterKeyword (k : Bytes)
  /-- after the equals sign -/
  | afterEquals (k : Bytes)
  /-- in a value -/
  | value (k v : Bytes)
  /-- in a value, after a backslash -/
  | valueEscape (k v : Bytes)
  /-- in a quoted value -/
  | quoted (k v : Bytes)
  /-- in a quoted value, after a backslash -/
  | quotedEscape (k v : Bytes)

/-- One byte: the pairs that it ends, and how far the scan is. -/
def step : Scan → UInt8 → Except Error (List (Bytes × Bytes) × Scan)
  | .start, c =>
      if isSpace c then .ok ([], .start)
      else if c = byte '=' then .ok ([], .afterEquals [])
      else .ok ([], .keyword [c])
  | .keyword k, c =>
      if c = byte '=' then .ok ([], .afterEquals k)
      else if isSpace c then .ok ([], .afterKeyword k)
      else .ok ([], .keyword (k ++ [c]))
  | .afterKeyword k, c =>
      if isSpace c then .ok ([], .afterKeyword k)
      else if c = byte '=' then .ok ([], .afterEquals k)
      else .error (.missingEquals k)
  | .afterEquals k, c =>
      if isSpace c then .ok ([], .afterEquals k)
      else if c = byte '\'' then .ok ([], .quoted k [])
      else if c = byte '\\' then .ok ([], .valueEscape k [])
      else .ok ([], .value k [c])
  | .value k v, c =>
      if isSpace c then .ok ([(k, v)], .start)
      else if c = byte '\\' then .ok ([], .valueEscape k v)
      else .ok ([], .value k (v ++ [c]))
  | .valueEscape k v, c => .ok ([], .value k (v ++ [c]))
  | .quoted k v, c =>
      if c = byte '\\' then .ok ([], .quotedEscape k v)
      else if c = byte '\'' then .ok ([(k, v)], .start)
      else .ok ([], .quoted k (v ++ [c]))
  | .quotedEscape k v, c => .ok ([], .quoted k (v ++ [c]))

/-- The end of the text: the pair that it ends. -/
def finish : Scan → Except Error (List (Bytes × Bytes))
  | .start => .ok []
  | .keyword k => .error (.missingEquals k)
  | .afterKeyword k => .error (.missingEquals k)
  | .afterEquals k => .ok [(k, [])]
  | .value k v => .ok [(k, v)]
  | .valueEscape k v => .ok [(k, v)]
  | .quoted _ _ => .error .unterminatedQuote
  | .quotedEscape _ _ => .error .unterminatedQuote

/-- The rest of a text. -/
def run : Bytes → Scan → Except Error (List (Bytes × Bytes))
  | [], σ => finish σ
  | c :: s, σ => (step σ c).bind fun r => (run s r.2).map (r.1 ++ ·)

/-- `conninfo_parse`: the pairs of a text. -/
def parse (s : Bytes) : Except Error (List (Bytes × Bytes)) := run s .start

/-- What the pairs set a keyword to: the last one counts. -/
def setting (ps : List (Bytes × Bytes)) (k : Bytes) : Option Bytes :=
  (ps.reverse.find? fun p => decide (p.1 = k)).map Prod.snd

/-! ### What a text is worth -/

/-- A value that can stand for itself: without white space, backslash and, at its
beginning, a quote. -/
def Bare (v : Bytes) : Prop :=
  (∀ c ∈ v, isSpace c = false ∧ c ≠ byte '\\') ∧ v.head? ≠ some (byte '\'')

instance (v : Bytes) : Decidable (Bare v) := inferInstanceAs (Decidable ((∀ c ∈ v, _ ∧ _) ∧ _))

/-- One, when the value has to be quoted or escaped. -/
def excess (v : Bytes) : ℕ := if Bare v then 0 else 1

/-- What a pair is worth: at least this much of a text. -/
def worth (p : Bytes × Bytes) : ℕ := p.1.length + p.2.length + 2 + excess p.2

/-- What the pair that is being read is worth so far. -/
def Scan.worth : Scan → ℕ
  | .start => 0
  | .keyword k | .afterKeyword k => k.length
  | .afterEquals k => k.length + 1
  | .value k v => k.length + 1 + v.length + excess v
  | .valueEscape k v | .quoted k v | .quotedEscape k v => k.length + 2 + v.length

/-- A value that is being read has begun. -/
def Scan.Begun : Scan → Prop
  | .value _ v => v ≠ []
  | _ => True

/-- Quoting is worth one at most. -/
theorem excess_le (v : Bytes) : excess v ≤ 1 := by
  unfold excess
  split_ifs <;> omega

/-- The empty value can stand for itself. -/
theorem bare_nil : Bare [] := by decide

/-- A byte that ends no value is no reason to quote it. -/
theorem excess_concat {v : Bytes} (hv : v ≠ []) {c : UInt8} (hspace : isSpace c = false)
    (hc : c ≠ byte '\\') : excess (v ++ [c]) = excess v := by
  have hiff : Bare (v ++ [c]) ↔ Bare v := by
    simp [Bare, List.head?_append_of_ne_nil _ hv, or_imp, forall_and, hspace, hc]
  simp only [excess, hiff]

/-- So can one byte that is no white space, no quote and no backslash. -/
theorem excess_singleton {c : UInt8} (hspace : isSpace c = false) (hquote : c ≠ byte '\'')
    (hc : c ≠ byte '\\') : excess [c] = 0 := by
  simp [excess, Bare, hspace, hquote, hc]

/-- **What a byte adds.**  A byte is worth one, and no more than that: what a quote or a
backslash lets into a value has been paid by the quote or the backslash. -/
theorem worth_step {σ σ' : Scan} {c : UInt8} {ps : List (Bytes × Bytes)} (hb : σ.Begun)
    (h : step σ c = .ok (ps, σ')) :
    σ'.Begun ∧ (ps.map worth).sum + σ'.worth ≤ σ.worth + 1 := by
  cases σ <;> simp only [step] at h
  case start =>
    split_ifs at h <;>
    · obtain ⟨rfl, rfl⟩ := Prod.mk.inj (Except.ok.inj h)
      simp [Scan.Begun, Scan.worth]
  case keyword k =>
    split_ifs at h <;>
    · obtain ⟨rfl, rfl⟩ := Prod.mk.inj (Except.ok.inj h)
      simp [Scan.Begun, Scan.worth]
  case afterKeyword k =>
    split_ifs at h <;>
    · obtain ⟨rfl, rfl⟩ := Prod.mk.inj (Except.ok.inj h)
      simp [Scan.Begun, Scan.worth]
  case afterEquals k =>
    split_ifs at h with hspace hquote hslash <;>
      obtain ⟨rfl, rfl⟩ := Prod.mk.inj (Except.ok.inj h)
    · simp [Scan.Begun, Scan.worth]
    · simp [Scan.Begun, Scan.worth]
    · simp [Scan.Begun, Scan.worth]
    · have := excess_singleton (Bool.eq_false_iff.2 hspace) hquote hslash
      simp [Scan.Begun, Scan.worth, this]
  case value k v =>
    split_ifs at h with hspace hslash <;>
      obtain ⟨rfl, rfl⟩ := Prod.mk.inj (Except.ok.inj h)
    · simp [Scan.Begun, Scan.worth, worth]
      omega
    · simp [Scan.Begun, Scan.worth]
      omega
    · have := excess_concat hb (Bool.eq_false_iff.2 hspace) hslash
      simp [Scan.Begun, Scan.worth, this]
      omega
  case valueEscape k v =>
    obtain ⟨rfl, rfl⟩ := Prod.mk.inj (Except.ok.inj h)
    have := excess_le (v ++ [c])
    simp [Scan.Begun, Scan.worth]
    omega
  case quoted k v =>
    split_ifs at h <;> obtain ⟨rfl, rfl⟩ := Prod.mk.inj (Except.ok.inj h)
    · simp [Scan.Begun, Scan.worth]
    · have := excess_le v
      simp [Scan.Begun, Scan.worth, worth]
      omega
    · simp [Scan.Begun, Scan.worth]
      omega
  case quotedEscape k v =>
    obtain ⟨rfl, rfl⟩ := Prod.mk.inj (Except.ok.inj h)
    simp [Scan.Begun, Scan.worth]
    omega

/-- What the end of the text gives is worth no more than what was being read, and one. -/
theorem worth_finish {σ : Scan} {ps : List (Bytes × Bytes)} (h : finish σ = .ok ps) :
    (ps.map worth).sum ≤ σ.worth + 1 := by
  cases σ <;> simp only [finish] at h <;> cases h
  case start => simp
  case afterEquals k => simp [worth, Scan.worth, excess, bare_nil]
  case value k v =>
    simp [worth, Scan.worth]
    omega
  case valueEscape k v =>
    have := excess_le v
    simp [worth, Scan.worth]
    omega

/-- **The pairs of a text are worth no more than the text.** -/
theorem worth_run {s : Bytes} {σ : Scan} {ps : List (Bytes × Bytes)} (hb : σ.Begun)
    (h : run s σ = .ok ps) : (ps.map worth).sum ≤ s.length + σ.worth + 1 := by
  induction s generalizing σ ps with
  | nil =>
    have := worth_finish h
    simpa using this
  | cons c s ih =>
    rw [run] at h
    obtain ⟨⟨out, σ'⟩, hstep, hmap⟩ := ok_of_bind h
    obtain ⟨qs, hqs, rfl⟩ := ok_of_map hmap
    obtain ⟨hb', hone⟩ := worth_step hb hstep
    have hrest : (qs.map worth).sum ≤ s.length + σ'.worth + 1 := ih hb' hqs
    have hsum : ((out ++ qs).map worth).sum = (out.map worth).sum + (qs.map worth).sum := by
      rw [List.map_append, List.sum_append]
    show ((out ++ qs).map worth).sum ≤ _
    rw [hsum, List.length_cons]
    omega

/-! ### What the pairs set -/

/-- A setting is one of the pairs. -/
theorem mem_of_setting {ps : List (Bytes × Bytes)} {k v : Bytes} (h : setting ps k = some v) :
    (k, v) ∈ ps := by
  obtain ⟨p, hp, rfl⟩ := Option.map_eq_some_iff.1 h
  have hk : p.1 = k := by simpa using List.find?_some hp
  rw [← hk]
  exact List.mem_reverse.1 (List.mem_of_find?_eq_some hp)

/-- Keywords that are given once are set to what they are given. -/
theorem setting_of_mem {ps : List (Bytes × Bytes)} (hnodup : (ps.map Prod.fst).Nodup)
    {p : Bytes × Bytes} (hp : p ∈ ps) : setting ps p.1 = some p.2 := by
  have hsome : (ps.reverse.find? fun q => decide (q.1 = p.1)).isSome = true :=
    List.find?_isSome.2 ⟨p, List.mem_reverse.2 hp, decide_eq_true rfl⟩
  obtain ⟨q, hq⟩ := Option.isSome_iff_exists.1 hsome
  have hkey : q.1 = p.1 := by simpa using List.find?_some hq
  have hmem := List.mem_reverse.1 (List.mem_of_find?_eq_some hq)
  rw [setting, hq, List.inj_on_of_nodup_map hnodup hmem hp hkey, Option.map_some]

/-- Pairs that set all that these set are worth as much. -/
theorem worth_le_of_setting {ps qs : List (Bytes × Bytes)} (hnodup : (ps.map Prod.fst).Nodup)
    (h : ∀ k, setting qs k = setting ps k) : (ps.map worth).sum ≤ (qs.map worth).sum := by
  have hsub : ps ⊆ qs := fun p hp => mem_of_setting ((h p.1).trans (setting_of_mem hnodup hp))
  obtain ⟨rs, hperm, hrs⟩ := List.subperm_of_subset (List.Nodup.of_map Prod.fst hnodup) hsub
  rw [← (hperm.map worth).sum_eq]
  exact (hrs.map worth).sum_le_sum fun _ _ => Nat.zero_le _

/-! ### Pairs that are written without quotes -/

/-- `<keyword>=<value>`. -/
def assign (p : Bytes × Bytes) : Bytes := p.1 ++ byte '=' :: p.2

/-- The pairs after one another, with a space between them. -/
def spell : List (Bytes × Bytes) → Bytes
  | [] => []
  | [p] => assign p
  | p :: q :: ps => assign p ++ byte ' ' :: spell (q :: ps)

/-- A keyword that is read as it is written. -/
def IsKeyword (k : Bytes) : Prop := k ≠ [] ∧ ∀ c ∈ k, isSpace c = false ∧ c ≠ byte '='

instance (k : Bytes) : Decidable (IsKeyword k) := inferInstanceAs (Decidable (_ ∧ ∀ c ∈ k, _ ∧ _))

/-- What is written is worth its length, and one more for each value that should have
been quoted. -/
theorem worth_spell {ps : List (Bytes × Bytes)} (hne : ps ≠ []) :
    (ps.map worth).sum = (spell ps).length + 1 + (ps.map fun p => excess p.2).sum := by
  induction ps using spell.induct with
  | case1 => exact absurd rfl hne
  | case2 p =>
    simp [spell, assign, worth]
    omega
  | case3 p q ps ih =>
    have hrest := ih (List.cons_ne_nil q ps)
    have hsum : ∀ f : Bytes × Bytes → ℕ,
        ((p :: q :: ps).map f).sum = f p + ((q :: ps).map f).sum := fun f => by
      rw [List.map_cons, List.sum_cons]
    rw [hsum, hsum, hrest, spell, worth, assign]
    simp only [List.length_append, List.length_cons]
    omega

/-- A byte that ends no pair leads to the next state of the scanner. -/
theorem run_cons {σ σ' : Scan} {c : UInt8} (h : step σ c = .ok ([], σ')) (s : Bytes) :
    run (c :: s) σ = run s σ' := by
  rw [run, h]
  show (run s σ').map ([] ++ ·) = run s σ'
  cases run s σ' <;> rfl

/-- A byte that ends one gives the pair, before those of the rest. -/
theorem run_end {σ σ' : Scan} {c : UInt8} {p : Bytes × Bytes} (h : step σ c = .ok ([p], σ'))
    (s : Bytes) : run (c :: s) σ = (run s σ').map (p :: ·) := by
  rw [run, h]
  rfl

/-- A keyword is read up to its equals sign. -/
theorem run_keyword {w : Bytes} (hw : ∀ c ∈ w, isSpace c = false ∧ c ≠ byte '=') (k s : Bytes) :
    run (w ++ byte '=' :: s) (.keyword k) = run s (.afterEquals (k ++ w)) := by
  induction w generalizing k with
  | nil =>
    have hstep : step (.keyword k) (byte '=') = .ok ([], .afterEquals k) := by simp [step]
    rw [List.nil_append, run_cons hstep, List.append_nil]
  | cons c w ih =>
    obtain ⟨hspace, hc⟩ := hw c List.mem_cons_self
    have hstep : step (.keyword k) c = .ok ([], .keyword (k ++ [c])) := by simp [step, hspace, hc]
    rw [List.cons_append, run_cons hstep, ih fun d hd => hw d (List.mem_cons_of_mem _ hd),
      List.append_assoc]
    rfl

/-- A keyword is read as it is written, with its sign. -/
theorem run_isKeyword {k : Bytes} (hk : IsKeyword k) (s : Bytes) :
    run (k ++ byte '=' :: s) .start = run s (.afterEquals k) := by
  obtain ⟨hne, hk⟩ := hk
  cases k with
  | nil => exact absurd rfl hne
  | cons c w =>
    obtain ⟨hspace, hc⟩ := hk c List.mem_cons_self
    have hstep : step .start c = .ok ([], .keyword [c]) := by simp [step, hspace, hc]
    rw [List.cons_append, run_cons hstep, run_keyword fun d hd => hk d (List.mem_cons_of_mem _ hd)]
    rfl

/-- A value that can stand for itself is read as it is. -/
theorem run_value {w : Bytes} (hw : ∀ c ∈ w, isSpace c = false ∧ c ≠ byte '\\') (k v s : Bytes) :
    run (w ++ s) (.value k v) = run s (.value k (v ++ w)) := by
  induction w generalizing v with
  | nil => rw [List.nil_append, List.append_nil]
  | cons c w ih =>
    obtain ⟨hspace, hc⟩ := hw c List.mem_cons_self
    have hstep : step (.value k v) c = .ok ([], .value k (v ++ [c])) := by simp [step, hspace, hc]
    rw [List.cons_append, run_cons hstep, ih fun d hd => hw d (List.mem_cons_of_mem _ hd),
      List.append_assoc]
    rfl

/-- A value that can stand for itself is read as it is written. -/
theorem run_bare {v : Bytes} (hv : Bare v) (hne : v ≠ []) (k s : Bytes) :
    run (v ++ s) (.afterEquals k) = run s (.value k v) := by
  obtain ⟨hall, hquote⟩ := hv
  cases v with
  | nil => exact absurd rfl hne
  | cons c w =>
    obtain ⟨hspace, hc⟩ := hall c List.mem_cons_self
    have hc' : c ≠ byte '\'' := fun he => hquote (congrArg some he)
    have hstep : step (.afterEquals k) c = .ok ([], .value k [c]) := by
      simp [step, hspace, hc, hc']
    rw [List.cons_append, run_cons hstep, run_value fun d hd => hall d (List.mem_cons_of_mem _ hd)]
    rfl

/-- The pair before the rest: the keyword, the sign, the value. -/
theorem assign_append (p : Bytes × Bytes) (s : Bytes) :
    assign p ++ s = p.1 ++ byte '=' :: (p.2 ++ s) := by
  rw [assign, List.append_assoc, List.cons_append]

/-- White space ends a value without quotes. -/
theorem step_space (k v : Bytes) : step (.value k v) (byte ' ') = .ok ([(k, v)], .start) := rfl

/-- One pair is read, and the rest of the text for itself. -/
theorem run_pair {p : Bytes × Bytes} (hk : IsKeyword p.1) (hv : Bare p.2) (hne : p.2 ≠ [])
    (s : Bytes) :
    run (assign p ++ byte ' ' :: s) .start = (run s .start).map (p :: ·) := by
  rw [assign_append, run_isKeyword hk, run_bare hv hne, run_end (step_space p.1 p.2)]

/-- **What needs no quotes is read as it is written.** -/
theorem parse_spell {ps : List (Bytes × Bytes)} (hne : ps ≠ []) (hkeys : ∀ p ∈ ps, IsKeyword p.1)
    (hbare : ∀ p ∈ ps, Bare p.2) (hfull : ∀ p ∈ ps.dropLast, p.2 ≠ []) :
    parse (spell ps) = .ok ps := by
  induction ps using spell.induct with
  | case1 => exact absurd rfl hne
  | case2 p =>
    have hassign := assign_append p []
    rw [List.append_nil] at hassign
    rw [parse, spell, hassign, run_isKeyword (hkeys p List.mem_cons_self)]
    by_cases hv : p.2 = []
    · rw [hv, List.nil_append, run, finish, ← hv]
    · rw [run_bare (hbare p List.mem_cons_self) hv, run, finish]
  | case3 p q ps ih =>
    have hrest : parse (spell (q :: ps)) = .ok (q :: ps) :=
      ih (List.cons_ne_nil q ps) (fun r hr => hkeys r (List.mem_cons_of_mem p hr))
        (fun r hr => hbare r (List.mem_cons_of_mem p hr))
        fun r hr => hfull r (List.mem_cons_of_mem p hr)
    have hp : p.2 ≠ [] := hfull p List.mem_cons_self
    rw [parse] at hrest
    rw [parse, spell, run_pair (hkeys p List.mem_cons_self) (hbare p List.mem_cons_self) hp, hrest]
    rfl

/-- An empty value before the last pair takes what follows it: the space is skipped, so
the text gives less than it is long. -/
theorem worth_lt_of_empty {ps qs : List (Bytes × Bytes)} (hkeys : ∀ p ∈ ps, IsKeyword p.1)
    (hbare : ∀ p ∈ ps, Bare p.2) (hempty : ∃ p ∈ ps.dropLast, p.2 = [])
    (h : parse (spell ps) = .ok qs) : (qs.map worth).sum < (spell ps).length + 1 := by
  induction ps using spell.induct generalizing qs with
  | case1 =>
    obtain ⟨p, hp, -⟩ := hempty
    cases hp
  | case2 p =>
    obtain ⟨q, hq, -⟩ := hempty
    cases hq
  | case3 p q ps ih =>
    rw [parse, spell] at h
    by_cases hv : p.2 = []
    · have hstep : step (.afterEquals p.1) (byte ' ') = .ok ([], .afterEquals p.1) := rfl
      rw [assign_append, run_isKeyword (hkeys p List.mem_cons_self), hv, List.nil_append,
        run_cons hstep] at h
      have hle := worth_run (show Scan.Begun (.afterEquals p.1) from trivial) h
      simp only [Scan.worth] at hle
      rw [spell, assign_append, hv]
      simp only [List.length_append, List.length_cons, List.nil_append]
      omega
    · rw [run_pair (hkeys p List.mem_cons_self) (hbare p List.mem_cons_self) hv] at h
      obtain ⟨rs, hrs, rfl⟩ := ok_of_map h
      have hlt := ih (fun r hr => hkeys r (List.mem_cons_of_mem p hr))
        (fun r hr => hbare r (List.mem_cons_of_mem p hr)) (by
          obtain ⟨r, hr, hnil⟩ := hempty
          rcases List.mem_cons.1 hr with rfl | hr
          · exact absurd hnil hv
          · exact ⟨r, hr, hnil⟩) hrs
      have hexcess : excess p.2 = 0 := if_pos (hbare p List.mem_cons_self)
      rw [List.map_cons, List.sum_cons, spell, worth, hexcess, assign]
      simp only [List.length_append, List.length_cons]
      omega

/-- **When pairs that are written without quotes are read as they were meant**: no value
has to be quoted, and none but the last is empty. -/
theorem parse_spell_iff {ps : List (Bytes × Bytes)} (hne : ps ≠ [])
    (hkeys : ∀ p ∈ ps, IsKeyword p.1) (hnodup : (ps.map Prod.fst).Nodup) :
    (∃ qs, parse (spell ps) = .ok qs ∧ ∀ k, setting qs k = setting ps k) ↔
      (∀ p ∈ ps, Bare p.2) ∧ ∀ p ∈ ps.dropLast, p.2 ≠ [] := by
  constructor
  · rintro ⟨qs, hqs, hset⟩
    have hle := worth_run (show Scan.Begun .start from trivial) hqs
    have hge := worth_le_of_setting hnodup hset
    have hspell := worth_spell hne
    simp only [Scan.worth] at hle
    have hbare : ∀ p ∈ ps, Bare p.2 := by
      have hzero : (ps.map fun p => excess p.2).sum = 0 := by omega
      intro p hp
      have hp0 : excess p.2 = 0 :=
        List.sum_eq_zero_iff.1 hzero _ (List.mem_map_of_mem hp)
      by_contra hnot
      rw [excess, if_neg hnot] at hp0
      cases hp0
    refine ⟨hbare, fun p hp hnil => ?_⟩
    have hlt := worth_lt_of_empty hkeys hbare ⟨p, hp, hnil⟩ hqs
    omega
  · rintro ⟨hbare, hfull⟩
    exact ⟨ps, parse_spell hne hkeys hbare hfull, fun _ => rfl⟩

end Conninfo
end YtShare
