/-
# One winner per video

Any number of `Share`s of one video at the same time.  The lookup, the sharer
and the insert are three calls of the database, and only the last one is safe
against the others: the index `idx_videos_youtube_id` lets one insert in.

So there is one row and one success in every interleaving (`RaceInv`).  What
depends on the interleaving is the answer of the others.  One that looks the
video up after the insert is told `ErrAlreadyShared`; one that looked it up
before goes on to `Create`, and the error of the index is passed on as it is.
`one_winner_iff` says that this is the only way to miss.
-/

import YtShare.Videos.Calls

namespace YtShare
namespace Videos

open Lib Service Users

namespace Server

/-- The rows of a video. -/
def rows (s : Server) (y : String) : List Video := s.backend.store.rows y

/-- What a call of `Share` has returned. -/
def result (s : Server) (k : ℕ) : Option (Except ShareError VideoView) :=
  match s.calls k with
  | some (.share _ _ (.done r)) => some r
  | _ => none

end Server

/-- The steps of a race for the video `y`: every call is a `Share` of `y` by a
user there is, and no call of the repositories or the cache fails by itself. -/
def Entrant (extract : String → Option String) (y : String) (s : Server) : Server.Label → Prop
  | .share _ sharerID req =>
      extract req.url = some y ∧ (s.backend.store.findUser sharerID).isSome = true
  | .list .. => False
  | .step _ env => env.fails = false
  | .expire => True

instance (extract : String → Option String) (y : String) (s : Server) (l : Server.Label) :
    Decidable (Entrant extract y s l) :=
  match l with
  | .share .. => inferInstanceAs (Decidable (_ ∧ _))
  | .list .. => inferInstanceAs (Decidable False)
  | .step .. => inferInstanceAs (Decidable (_ = _))
  | .expire => inferInstanceAs (Decidable True)

/-- A race for the video `y`, from a store without it. -/
def race (extract : String → Option String) (y : String) : Machine Server Server.Label where
  init s := (server extract).init s ∧ s.rows y = []
  step := ((server extract).restrict (Entrant extract y)).step

/-- One row and one success at most, and no other error than `ErrAlreadyShared`,
which is answered by 409; the row is there when the first call has returned,
and once all have, one of them succeeded. -/
structure OneWinner (y : String) (s : Server) : Prop where
  oneRow : (s.rows y).length ≤ 1
  oneSuccess : ∀ j k v w, s.result j = some (.ok v) → s.result k = some (.ok w) → j = k
  others : ∀ k e, s.result k = some (.error e) →
    e = .alreadyShared ∧ (writeError e.failure).1 = 409
  stored : ∀ k r, s.result k = some r → (s.rows y).length = 1
  settled : (∃ k, s.calls k ≠ none) → (∀ k, s.calls k ≠ none → s.result k ≠ none) →
    ∃ k v, s.result k = some (.ok v)

/-- **The condition on a step:** when a call comes to `Create`, the video is
not there yet. -/
def InTime (y : String) (s : Server) : Server.Label → Prop
  | .step k _ =>
      match s.calls k with
      | some (.share _ _ (.create _)) => s.rows y = []
      | _ => True
  | _ => True

/-- The calls past their insert. -/
def SharePc.won : SharePc → Bool
  | .lookup _ | .loadSharer _ | .create _ | .done (.error _) => false
  | .invalidate _ | .submit _ | .done (.ok _) => true

/-- What a call in a race for `y` holds at each place, `stored` telling whether
the row is there. -/
def SharePc.Fits (y : String) (stored : Prop) : SharePc → Prop
  | .lookup x | .loadSharer x => x = y
  | .create v => v.youTubeID = y
  | .done (.error e) => e = .alreadyShared ∧ stored
  | .invalidate _ | .submit _ | .done (.ok _) => True

/-- What a call needs to have happened may be anything that follows from it. -/
theorem SharePc.Fits.mono {y : String} {p q : Prop} {pc : SharePc} (h : pc.Fits y p)
    (hpq : p → q) : pc.Fits y q := by
  unfold Fits at h ⊢
  split
  · exact h
  · exact h
  · exact h
  · exact ⟨h.1, hpq h.2⟩
  · trivial
  · trivial
  · trivial

namespace Server

/-- The call `k` is past its insert. -/
def Won (s : Server) (k : ℕ) : Prop :=
  ∃ sharerID req pc, s.calls k = some (.share sharerID req pc) ∧ pc.won = true

/-- The invariant of a race: the row is there exactly when one call, and no
other, is past its insert. -/
structure RaceInv (y : String) (s : Server) : Prop where
  entrant : ∀ k c, s.calls k = some c → ∃ sharerID req pc, c = .share sharerID req pc ∧
    (s.backend.store.findUser sharerID).isSome = true ∧ pc.Fits y (s.rows y ≠ [])
  oneRow : (s.rows y).length ≤ 1
  winner : s.rows y ≠ [] ↔ ∃ k, s.Won k
  unique : ∀ j k, s.Won j → s.Won k → j = k

variable {y : String} {s t : Server} {k j : ℕ} {sharerID : UUID} {req : ShareRequest}

/-- The result of a call is what its `Share` has returned. -/
theorem result_eq_some {r : Except ShareError VideoView} :
    s.result k = some r ↔ ∃ sharerID req, s.calls k = some (.share sharerID req (.done r)) := by
  unfold result
  constructor
  · intro h
    split at h
    · next hc => exact ⟨_, _, (Option.some.inj h) ▸ hc⟩
    · cases h
  · rintro ⟨sharerID, req, h⟩
    rw [h]

/-- A call that returns a video has won. -/
theorem won_of_ok {v : VideoView} (h : s.result k = some (.ok v)) : s.Won k := by
  obtain ⟨sharerID, req, hc⟩ := result_eq_some.1 h
  exact ⟨sharerID, req, _, hc, rfl⟩

/-- A change of call `k` changes only whether `k` is past its insert. -/
theorem won_setCall {b : Backend} {pc : SharePc} :
    ({ s.setCall k (.share sharerID req pc) with backend := b } : Server).Won j ↔
      if j = k then pc.won = true else s.Won j := by
  unfold Won
  split_ifs with hj
  · subst hj
    rw [setCall_self]
    constructor
    · rintro ⟨_, _, _, hc, hwon⟩
      obtain ⟨-, -, rfl⟩ := Call.share.inj (Option.some.inj hc)
      exact hwon
    · intro hwon
      exact ⟨sharerID, req, pc, rfl, hwon⟩
  · rw [setCall_of_ne s _ hj]

end Server

namespace Call

/-- **What one step of an entrant can do:** it leaves the rows and whether the
call is past its insert; or it inserts the first row; or it is refused. -/
theorem entrant_cases {y : String} {env : StepEnv} {b b' : Backend} {c' : Call} {sharerID : UUID}
    {req : ShareRequest} {pc : SharePc} (henv : env.fails = false)
    (hsharer : (b.store.findUser sharerID).isSome = true) (hpc : pc.Fits y (b.store.rows y ≠ []))
    (h : (Call.share sharerID req pc).advance env b = some (b', c')) :
    ∃ pc', c' = .share sharerID req pc' ∧ b'.store.users = b.store.users ∧
      ((b'.store.rows y = b.store.rows y ∧ pc'.won = pc.won ∧
          pc'.Fits y (b.store.rows y ≠ []) ∧ ∀ v, pc ≠ .create v) ∨
        (∃ v w, pc = .create v ∧ b.store.rows y = [] ∧ b'.store.rows y = [w] ∧
          pc' = .invalidate w) ∨
        (∃ v, pc = .create v ∧ b.store.rows y ≠ [] ∧ pc' = .done (.error .repository))) := by
  obtain ⟨⟨b₁, pc'⟩, hadv, h⟩ := Option.map_eq_some_iff.1 h
  obtain ⟨rfl, rfl⟩ := Prod.mk.inj h
  refine ⟨pc', rfl, ?_⟩
  cases pc with
  | lookup x =>
    obtain rfl : x = y := hpc
    simp only [advanceShare, Service.lookup, henv, Bool.false_eq_true, if_false] at hadv
    cases hfind : b.store.findByYouTubeID x with
    | none =>
      rw [hfind] at hadv
      obtain ⟨rfl, rfl⟩ := Prod.mk.inj (Option.some.inj hadv)
      exact ⟨rfl, .inl ⟨rfl, rfl, rfl, fun _ h => by cases h⟩⟩
    | some w =>
      rw [hfind] at hadv
      obtain ⟨rfl, rfl⟩ := Prod.mk.inj (Option.some.inj hadv)
      have hrows : b.store.rows x ≠ [] := by
        rw [ne_eq, Store.rows_eq_nil, ← Store.findByYouTubeID_eq_none, hfind]
        exact Option.some_ne_none w
      exact ⟨rfl, .inl ⟨rfl, rfl, ⟨rfl, hrows⟩, fun _ h => by cases h⟩⟩
  | loadSharer x =>
    obtain rfl : x = y := hpc
    obtain ⟨sharer, hs⟩ := Option.isSome_iff_exists.1 hsharer
    simp only [advanceShare, Service.loadSharer, henv, Bool.false_eq_true, if_false, hs] at hadv
    obtain ⟨rfl, rfl⟩ := Prod.mk.inj (Option.some.inj hadv)
    exact ⟨rfl, .inl ⟨rfl, rfl, rfl, fun _ h => by cases h⟩⟩
  | create v =>
    obtain rfl : v.youTubeID = y := hpc
    simp only [advanceShare, Service.insert, henv, Bool.false_eq_true, if_false] at hadv
    cases hcreate : b.store.create env.newID env.now v with
    | none =>
      -- the unique index refuses the row, and `Share` passes the error on
      rw [hcreate] at hadv
      obtain ⟨rfl, rfl⟩ := Prod.mk.inj (Option.some.inj hadv)
      have hrows : b.store.rows v.youTubeID ≠ [] := by
        rw [ne_eq, Store.rows_eq_nil]
        intro hnew
        obtain ⟨w, hw, heq⟩ := Store.create_eq_none.1 hcreate
        exact hnew w hw heq
      exact ⟨rfl, .inr (.inr ⟨v, rfl, hrows, rfl⟩)⟩
    | some created =>
      obtain ⟨store, w⟩ := created
      rw [hcreate] at hadv
      obtain ⟨rfl, rfl⟩ := Prod.mk.inj (Option.some.inj hadv)
      obtain ⟨hbefore, hafter, husers⟩ := Store.rows_create hcreate
      exact ⟨husers, .inr (.inl ⟨v, w, rfl, hbefore, hafter, rfl⟩)⟩
  | invalidate v =>
    simp only [advanceShare, Service.invalidate, henv, Bool.false_eq_true, if_false] at hadv
    obtain ⟨rfl, rfl⟩ := Prod.mk.inj (Option.some.inj hadv)
    exact ⟨rfl, .inl ⟨rfl, rfl, trivial, fun _ h => by cases h⟩⟩
  | submit v =>
    obtain ⟨rfl, rfl⟩ := Prod.mk.inj (Option.some.inj hadv)
    exact ⟨rfl, .inl ⟨rfl, rfl, trivial, fun _ h => by cases h⟩⟩
  | done r => cases hadv

end Call

namespace Server

variable {extract : String → Option String} {y : String} {s t : Server} {l : Label}

/-- **The invariant of the race gives one winner.** -/
theorem RaceInv.oneWinner (hi : s.RaceInv y) : OneWinner y s := by
  have hone : s.rows y ≠ [] → (s.rows y).length = 1 := by
    intro h
    have hpos := List.length_pos_iff.2 h
    have hle := hi.oneRow
    omega
  -- what a call that failed has to say
  have herror : ∀ k e, s.result k = some (.error e) → e = .alreadyShared ∧ s.rows y ≠ [] := by
    intro k e hk
    obtain ⟨sharerID, req, hc⟩ := result_eq_some.1 hk
    obtain ⟨_, _, _, heq, -, hfits⟩ := hi.entrant k _ hc
    obtain ⟨-, -, rfl⟩ := Call.share.inj heq
    exact hfits
  have hstored : ∀ k r, s.result k = some r → s.rows y ≠ [] := by
    intro k r hk
    cases r with
    | error e => exact (herror k e hk).2
    | ok v => exact hi.winner.2 ⟨k, won_of_ok hk⟩
  constructor
  · exact hi.oneRow
  · intro j k v w hj hk
    exact hi.unique j k (won_of_ok hj) (won_of_ok hk)
  · intro k e hk
    obtain ⟨rfl, -⟩ := herror k e hk
    exact ⟨rfl, rfl⟩
  · intro k r hk
    exact hone (hstored k r hk)
  · rintro ⟨k, hk⟩ hall
    obtain ⟨r, hr⟩ := Option.ne_none_iff_exists'.1 (hall k hk)
    obtain ⟨j, sharerID, req, pc, hc, hwon⟩ := hi.winner.1 (hstored k r hr)
    obtain ⟨r', hr'⟩ := Option.ne_none_iff_exists'.1 (hall j (by rw [hc]; exact nofun))
    obtain ⟨_, _, hdone⟩ := result_eq_some.1 hr'
    obtain ⟨-, -, rfl⟩ := Call.share.inj (Option.some.inj (hc.symm.trans hdone))
    cases r' with
    | error e => cases hwon
    | ok v => exact ⟨j, v, hr'⟩

/-- The user of a call exists. -/
theorem RaceInv.sharer (hi : s.RaceInv y) {k : ℕ} {sharerID : UUID} {req : ShareRequest}
    {pc : SharePc} (hk : s.calls k = some (.share sharerID req pc)) :
    (s.backend.store.findUser sharerID).isSome = true := by
  obtain ⟨_, _, _, heq, hsharer, -⟩ := hi.entrant k _ hk
  obtain ⟨rfl, -, -⟩ := Call.share.inj heq
  exact hsharer

/-- One call moves, and the others still fit a store that keeps its users and
the row of `y`. -/
theorem RaceInv.entrants (hi : s.RaceInv y) {k : ℕ} {sharerID : UUID} {req : ShareRequest}
    {pc : SharePc} {b : Backend} (hsharer : (s.backend.store.findUser sharerID).isSome = true)
    (husers : b.store.users = s.backend.store.users)
    (hrows : s.rows y ≠ [] → b.store.rows y ≠ []) (hfits : pc.Fits y (b.store.rows y ≠ [])) :
    ∀ j c, (s.setCall k (.share sharerID req pc)).calls j = some c →
      ∃ sharerID req pc, c = .share sharerID req pc ∧
        (b.store.findUser sharerID).isSome = true ∧ pc.Fits y (b.store.rows y ≠ []) := by
  intro j c hc
  simp only [Store.findUser_congr husers]
  rcases setCall_eq_some hc with ⟨-, rfl⟩ | ⟨-, hc⟩
  · exact ⟨sharerID, req, pc, rfl, hsharer, hfits⟩
  · obtain ⟨a, r, pc', heq, hsharer', hfits'⟩ := hi.entrant j c hc
    exact ⟨a, r, pc', heq, hsharer', hfits'.mono hrows⟩

/-- A call that begins is not past its insert. -/
theorem RaceInv.begin (hi : s.RaceInv y) {k : ℕ} {sharerID : UUID} {req : ShareRequest}
    (hk : s.calls k = none) (hurl : extract req.url = some y)
    (hsharer : (s.backend.store.findUser sharerID).isSome = true) :
    (s.setCall k (.startShare extract sharerID req)).RaceInv y := by
  have hstart : Call.startShare extract sharerID req = .share sharerID req (.lookup y) := by
    unfold Call.startShare
    rw [hurl]
  rw [hstart]
  have hwon : ∀ j, (s.setCall k (.share sharerID req (.lookup y))).Won j ↔ s.Won j := by
    intro j
    rw [show s.setCall k (.share sharerID req (.lookup y)) =
      { s.setCall k (.share sharerID req (.lookup y)) with backend := s.backend } from rfl,
      won_setCall]
    split_ifs with hj
    · subst hj
      refine iff_of_false nofun ?_
      rintro ⟨_, _, _, hc, -⟩
      rw [hk] at hc
      cases hc
    · rfl
  constructor
  · exact hi.entrants hsharer rfl id rfl
  · exact hi.oneRow
  · exact hi.winner.trans (exists_congr fun j => (hwon j).symm)
  · intro i j hi' hj'
    exact hi.unique i j ((hwon i).1 hi') ((hwon j).1 hj')

/-- A call goes on without touching the rows of `y`. -/
theorem RaceInv.move (hi : s.RaceInv y) {k : ℕ} {sharerID : UUID} {req : ShareRequest}
    {pc pc' : SharePc} {b : Backend} (hk : s.calls k = some (.share sharerID req pc))
    (husers : b.store.users = s.backend.store.users) (hrows : b.store.rows y = s.rows y)
    (hwon : pc'.won = pc.won) (hfits : pc'.Fits y (s.rows y ≠ [])) :
    ({ s.setCall k (.share sharerID req pc') with backend := b } : Server).RaceInv y := by
  have hiff : ∀ j, ({ s.setCall k (.share sharerID req pc') with backend := b } : Server).Won j ↔
      s.Won j := by
    intro j
    rw [won_setCall]
    split_ifs with hj
    · subst hj
      rw [hwon]
      constructor
      · intro h
        exact ⟨sharerID, req, pc, hk, h⟩
      · rintro ⟨_, _, _, hc, h⟩
        obtain ⟨-, -, rfl⟩ := Call.share.inj (Option.some.inj (hk.symm.trans hc))
        exact h
    · rfl
  constructor
  · exact hi.entrants (hi.sharer hk) husers (hrows ▸ id) (hrows ▸ hfits)
  · exact (congrArg List.length hrows).le.trans hi.oneRow
  · rw [show ({ s.setCall k (.share sharerID req pc') with backend := b } : Server).rows y =
      s.rows y from hrows]
    exact hi.winner.trans (exists_congr fun j => (hiff j).symm)
  · intro i j hi' hj'
    exact hi.unique i j ((hiff i).1 hi') ((hiff j).1 hj')

/-- A call inserts the first row of `y`. -/
theorem RaceInv.insert (hi : s.RaceInv y) {k : ℕ} {sharerID : UUID} {req : ShareRequest}
    {v w : Video} {b : Backend} (hk : s.calls k = some (.share sharerID req (.create v)))
    (husers : b.store.users = s.backend.store.users) (hbefore : s.rows y = [])
    (hafter : b.store.rows y = [w]) :
    ({ s.setCall k (.share sharerID req (.invalidate w)) with backend := b } : Server).RaceInv
      y := by
  have hnone : ∀ j, ¬s.Won j := fun j hj => hi.winner.2 ⟨j, hj⟩ hbefore
  have hiff : ∀ j, ({ s.setCall k (.share sharerID req (.invalidate w)) with
      backend := b } : Server).Won j ↔ j = k := by
    intro j
    rw [won_setCall]
    split_ifs with hj
    · exact iff_of_true rfl hj
    · exact iff_of_false (hnone j) hj
  constructor
  · exact hi.entrants (hi.sharer hk) husers (fun h => absurd hbefore h) trivial
  · exact (congrArg List.length hafter).le
  · refine iff_of_true ?_ ⟨k, (hiff k).2 rfl⟩
    intro h
    exact absurd (hafter.symm.trans h) nofun
  · intro i j hi' hj'
    rw [(hiff i).1 hi', (hiff j).1 hj']

/-- **The step lemma.**  A step keeps one winner exactly when it meets the
condition, and then it keeps the invariant. -/
theorem RaceInv.step (hi : s.RaceInv y) (h : (race extract y).step s l = some t) :
    (OneWinner y t ↔ InTime y s l) ∧ (InTime y s l → t.RaceInv y) := by
  obtain ⟨hentrant, h⟩ := Machine.restrict_step.1 h
  -- a step that keeps the invariant keeps the property too
  have hkeep : t.RaceInv y → InTime y s l →
      (OneWinner y t ↔ InTime y s l) ∧ (InTime y s l → t.RaceInv y) := fun hi' hl =>
    ⟨iff_of_true hi'.oneWinner hl, fun _ => hi'⟩
  rcases step_cases h with ⟨k, sharerID, req, rfl, hk, rfl⟩ | ⟨k, limit, offset, rfl, -, -⟩ |
    ⟨k, env, c, b, c', rfl, hk, hadv, rfl⟩ | ⟨rfl, rfl⟩
  · exact hkeep (hi.begin hk hentrant.1 hentrant.2) trivial
  · exact hentrant.elim
  · obtain ⟨sharerID, req, pc, rfl, hsharer, hfits⟩ := hi.entrant k c hk
    obtain ⟨pc', rfl, husers, hcases⟩ := Call.entrant_cases hentrant hsharer hfits hadv
    rcases hcases with ⟨hrows, hwon, hfits', hpc⟩ | ⟨v, w, rfl, hbefore, hafter, rfl⟩ |
      ⟨v, rfl, hrows, rfl⟩
    · refine hkeep (hi.move hk husers hrows hwon hfits') ?_
      simp only [InTime, hk]
      split
      · next v hv =>
        obtain ⟨-, -, rfl⟩ := Call.share.inj (Option.some.inj hv)
        exact absurd rfl (hpc _)
      · trivial
    · refine hkeep (hi.insert hk husers hbefore hafter) ?_
      simp only [InTime, hk]
      exact hbefore
    · -- refused by the index: neither the property nor the condition holds
      have hlate : ¬InTime y s (.step k env) := by
        simp only [InTime, hk]
        exact hrows
      refine ⟨iff_of_false (fun ht => ?_) hlate, fun hl => absurd hl hlate⟩
      have hresult : ({ s.setCall k (.share sharerID req (.done (.error .repository))) with
          backend := b } : Server).result k = some (.error .repository) :=
        result_eq_some.2 ⟨sharerID, req, setCall_self s k _⟩
      cases (ht.others k _ hresult).1
  · exact hkeep ⟨hi.entrant, hi.oneRow, hi.winner, hi.unique⟩ trivial

end Server

/-- Before any call, with no row of `y`. -/
theorem raceInv_init {extract : String → Option String} {y : String} {s : Server}
    (hs : (race extract y).init s) : s.RaceInv y := by
  have hnone : ∀ k, s.calls k = none := hs.1
  have hwon : ∀ k, ¬s.Won k := by
    rintro k ⟨_, _, _, hc, -⟩
    rw [hnone k] at hc
    cases hc
  constructor
  · intro k c hc
    rw [hnone k] at hc
    cases hc
  · rw [hs.2]
    exact Nat.zero_le 1
  · exact iff_of_false (fun h => h hs.2) fun ⟨k, hk⟩ => hwon k hk
  · intro j k hj
    exact absurd hj (hwon j)

/-- **When there is one winner.**  In every run of a race, there is one row and
one success at most and every other answer is `ErrAlreadyShared`, at every
moment, exactly when no call comes to `Create` while the row is there. -/
theorem one_winner_iff (extract : String → Option String) (y : String) {s : Server}
    (hs : (race extract y).init s) (run : List Server.Label) :
    (race extract y).Always (OneWinner y) s run ↔ (race extract y).Steps (InTime y) s run :=
  Machine.always_iff_steps (M := race extract y) (I := Server.RaceInv y)
    (fun _ _ _ hi _ ht => hi.step ht) (raceInv_init hs) (raceInv_init hs).oneWinner

/-- Call 1 begins while call 0 runs, and looks the video up after the insert. -/
def lateLookup : List Server.Label :=
  [.share 0 ⟨7⟩ ⟨"v", "", ""⟩, .share 1 ⟨7⟩ ⟨"v", "", ""⟩, go 0, go 0, go 0, go 1, go 0, go 0]

/-- In `lateLookup` there is one winner. -/
theorem one_winner_iff_lateLookup :
    (race some "v").Always (OneWinner "v") quietServer lateLookup := by
  refine (one_winner_iff some "v" ⟨fun _ => rfl, rfl⟩ lateLookup).2 ?_
  exact .cons rfl trivial (.cons rfl trivial (.cons rfl trivial (.cons rfl trivial
    (.cons rfl rfl (.cons rfl trivial (.cons rfl trivial (.cons rfl trivial trivial)))))))

/-- Call 1 looks the video up before call 0 inserts it. -/
def earlyLookup : List Server.Label :=
  [.share 0 ⟨7⟩ ⟨"v", "", ""⟩, .share 1 ⟨7⟩ ⟨"v", "", ""⟩, go 0, go 1, go 0, go 1, go 0, go 1]

/-- In `earlyLookup` call 1 is refused by the index, and its answer is 500. -/
theorem two_lookups_before_insert : ¬(race some "v").Always (OneWinner "v") quietServer
    earlyLookup := by
  intro h
  have hend : ((race some "v").exec quietServer earlyLookup).map (fun t => t.result 1) =
      some (some (.error .repository)) := by
    decide
  obtain ⟨t, ht, hresult⟩ := Option.map_eq_some_iff.1 hend
  exact absurd ((h.exec ht).others 1 _ hresult).1 nofun

end Videos
end YtShare
