/-
# The cached list after a share

`Service.Share` inserts its row and then deletes the cached list, so that the
next `List` counts the row.  An observer (`Watch`) notes which row each call
inserted, which calls have deleted the entry and which have returned, and, for
a `List`, which had returned when it began.

Deleting once is not enough.  A `List` that counted before the insert may come
to its `Set` after the delete, and its total is then in the cache for the whole
time to live.  `list_counts_shared` says that nothing else can go wrong: when
no `List` writes an answer older than a delete, every `List` counts every video
whose `Share` had returned when it began.
-/

import YtShare.Videos.Calls

namespace YtShare
namespace Videos

open Lib Service Users

/-- What the observer has noted: the row that a call inserts, counted from 0;
the `Share`s that have deleted the entry; the `Share`s that have returned
successfully, now and when a call of `List` began; and the rows there were when
a call of `List` counted them. -/
structure Watch where
  row : ℕ → ℕ
  deleted : List ℕ
  returned : List ℕ
  before : ℕ → List ℕ
  counted : ℕ → ℕ

namespace Watch

/-- Nothing noted. -/
def start : Watch := ⟨fun _ => 0, [], [], fun _ => [], fun _ => 0⟩

/-- What is noted when the call `k`, being `c`, takes its next step, with
`count` rows in the table. -/
def note (w : Watch) (count k : ℕ) : Call → Watch
  | .share _ _ (.create _) => { w with row := Function.update w.row k count }
  | .share _ _ (.invalidate _) => { w with deleted := k :: w.deleted }
  | .share _ _ (.submit _) => { w with returned := k :: w.returned }
  | .list _ _ .count => { w with counted := Function.update w.counted k count }
  | _ => w

/-- What is noted about a step. -/
def record (w : Watch) (s : Server) : Server.Label → Watch
  | .list k _ _ => { w with before := Function.update w.before k w.returned }
  | .step k _ =>
      match s.calls k with
      | some c => w.note s.backend.store.count k c
      | none => w
  | .share .. | .expire => w

/-- The notes differ only in what they say about `k`. -/
structure Apart (w w' : Watch) (k : ℕ) : Prop where
  row : ∀ j, j ≠ k → w'.row j = w.row j
  deleted : ∀ j, j ≠ k → (j ∈ w'.deleted ↔ j ∈ w.deleted)
  returned : ∀ j, j ≠ k → (j ∈ w'.returned ↔ j ∈ w.returned)
  before : ∀ j, j ≠ k → w'.before j = w.before j
  counted : ∀ j, j ≠ k → w'.counted j = w.counted j

/-- Nothing is noted of a call that does not move. -/
theorem Apart.refl (w : Watch) (k : ℕ) : w.Apart w k :=
  ⟨fun _ _ => rfl, fun _ _ => Iff.rfl, fun _ _ => Iff.rfl, fun _ _ => rfl, fun _ _ => rfl⟩

/-- A note on one call is none on the others. -/
theorem apart_note (w : Watch) (count k : ℕ) (c : Call) : w.Apart (w.note count k c) k := by
  have hcons : ∀ (l : List ℕ) j, j ≠ k → (j ∈ k :: l ↔ j ∈ l) := by
    intro l j hj
    rw [List.mem_cons]
    exact or_iff_right hj
  unfold note
  split
  · exact { Apart.refl w k with row := fun j hj => Function.update_of_ne hj .. }
  · exact { Apart.refl w k with deleted := hcons w.deleted }
  · exact { Apart.refl w k with returned := hcons w.returned }
  · exact { Apart.refl w k with counted := fun j hj => Function.update_of_ne hj .. }
  · exact Apart.refl w k

/-- `n` rows, or more, count every video whose `Share` had returned when the
call `k` began. -/
def Covers (w : Watch) (k n : ℕ) : Prop := ∀ j ∈ w.before k, w.row j < n

end Watch

/-- A working cache: none of its calls fails. -/
def CacheWorks (s : Server) : Server.Label → Prop
  | .step k env =>
      match s.calls k with
      | some (.share _ _ (.invalidate _)) | some (.list _ _ .get) | some (.list _ _ (.set _)) =>
          env.fails = false
      | _ => True
  | _ => True

instance (s : Server) (l : Server.Label) : Decidable (CacheWorks s l) := by
  unfold CacheWorks
  split
  · split <;> infer_instance
  · infer_instance

/-- The server with a working cache, observed. -/
def watchedServer (extract : String → Option String) : Machine (Server × Watch) Server.Label where
  init p := (server extract).init p.1 ∧ p.2 = .start
  step p l := (((server extract).restrict CacheWorks).step p.1 l).map fun t => (t, p.2.record p.1 l)

/-- When a `List` of the first page has answered, every video whose `Share` had
returned when it began is among the first `total` rows of the table. -/
def CountsShared (p : Server × Watch) : Prop :=
  ∀ k limit resp, p.1.calls k = some (.list limit 0 (.done (.ok resp))) → ∀ j ∈ p.2.before k,
    ∃ sharerID req v, p.1.calls j = some (.share sharerID req (.done (.ok (toView v)))) ∧
      v ∈ p.1.backend.store.videos.take resp.total

/-- **The condition on a step:** when a `List` writes its answer, every `Share`
that has deleted the entry had inserted its row when the `List` counted. -/
def Fresh (p : Server × Watch) : Server.Label → Prop
  | .step k _ =>
      match p.1.calls k with
      | some (.list _ _ (.set _)) => ∀ j ∈ p.2.deleted, p.2.row j < p.2.counted k
      | _ => True
  | _ => True

instance (p : Server × Watch) (l : Server.Label) : Decidable (Fresh p l) := by
  unfold Fresh
  split
  · split <;> infer_instance
  · infer_instance

/-- What the call `k` holds at each place, for the rows and the notes. -/
def Call.Fits (videos : List Video) (w : Watch) (k : ℕ) : Call → Prop
  | .share _ _ (.invalidate v) => videos[w.row k]? = some v
  | .share _ _ (.submit v) => videos[w.row k]? = some v ∧ k ∈ w.deleted
  | .share _ _ (.done (.ok view)) =>
      k ∈ w.deleted ∧ ∃ v, videos[w.row k]? = some v ∧ toView v = view
  | .share _ _ (.lookup _) | .share _ _ (.loadSharer _) | .share _ _ (.create _)
  | .share _ _ (.done (.error _)) => k ∉ w.deleted
  | .list _ _ (.find total) => w.counted k = total ∧ w.Covers k total
  | .list _ _ (.set resp) => w.counted k = resp.total ∧ w.Covers k resp.total
  | .list _ _ (.done (.ok resp)) => w.Covers k resp.total
  | .list .. => True

/-- The invariant: the cached total counts every video whose `Share` has
deleted the entry. -/
structure WatchInv (p : Server × Watch) : Prop where
  fits : ∀ k c, p.1.calls k = some c → c.Fits p.1.backend.store.videos p.2 k
  deleted : ∀ j ∈ p.2.deleted, p.1.calls j ≠ none ∧ p.2.row j < p.1.backend.store.videos.length
  returned : ∀ j ∈ p.2.returned, j ∈ p.2.deleted ∧
    ∃ sharerID req view, p.1.calls j = some (.share sharerID req (.done (.ok view)))
  before : ∀ k, ∀ j ∈ p.2.before k, j ∈ p.2.returned
  cache : ∀ r, p.1.backend.cache = some r → ∀ j ∈ p.2.deleted, p.2.row j < r.total

namespace WatchInv

variable {s : Server} {w w' : Watch} {k : ℕ}

/-- A video keeps its place when the table grows. -/
theorem getElem?_extends {videos videos' : List Video} (h : videos <+: videos') {i : ℕ}
    {v : Video} (hv : videos[i]? = some v) : videos'[i]? = some v := by
  obtain ⟨rest, rfl⟩ := h
  exact List.getElem?_append_left (List.getElem?_eq_some_iff.1 hv).1 ▸ hv

/-- Nothing changes for the calls that a step is not about. -/
theorem fits_other {videos videos' : List Video} (hpre : videos <+: videos')
    (hap : w.Apart w' k) {j : ℕ} (hj : j ≠ k) (hb : ∀ i ∈ w.before j, i ≠ k) {c : Call}
    (h : c.Fits videos w j) : c.Fits videos' w' j := by
  have hcovers : ∀ n, w.Covers j n → w'.Covers j n := by
    intro n hn i hi
    rw [hap.before j hj] at hi
    rw [hap.row i (hb i hi)]
    exact hn i hi
  have hrow := hap.row j hj
  have hdel := hap.deleted j hj
  unfold Call.Fits at h ⊢
  split
  · rw [hrow]
    exact getElem?_extends hpre h
  · rw [hrow, hdel]
    exact ⟨getElem?_extends hpre h.1, h.2⟩
  · rw [hrow, hdel]
    obtain ⟨hmem, v, hv, heq⟩ := h
    exact ⟨hmem, v, getElem?_extends hpre hv, heq⟩
  · rw [hdel]
    exact h
  · rw [hdel]
    exact h
  · rw [hdel]
    exact h
  · rw [hdel]
    exact h
  · rw [hap.counted j hj]
    exact ⟨h.1, hcovers _ h.2⟩
  · rw [hap.counted j hj]
    exact ⟨h.1, hcovers _ h.2⟩
  · exact hcovers _ h
  · trivial

/-- **A step of the call `k`,** which has not returned yet, keeps the invariant
if it does so where `k` and the cache are concerned. -/
theorem set (hi : WatchInv (s, w)) (hk : k ∉ w.returned) {b : Backend} {c : Call}
    (hpre : s.backend.store.videos <+: b.store.videos) (hap : w.Apart w' k)
    (hfits : c.Fits b.store.videos w' k)
    (hdeleted : k ∈ w'.deleted → w'.row k < b.store.videos.length)
    (hreturned : k ∈ w'.returned → k ∈ w'.deleted ∧
      ∃ sharerID req view, c = .share sharerID req (.done (.ok view)))
    (hbefore : ∀ j ∈ w'.before k, j ∈ w'.returned)
    (hcache : ∀ r, b.cache = some r → ∀ j ∈ w'.deleted, w'.row j < r.total) :
    WatchInv ({ s.setCall k c with backend := b }, w') := by
  have hne : ∀ j, ∀ i ∈ w.before j, i ≠ k := by
    rintro j i hi' rfl
    exact hk (hi.before j i hi')
  constructor
  · intro j c' hc
    rcases Server.setCall_eq_some hc with ⟨rfl, rfl⟩ | ⟨hj, hc⟩
    · exact hfits
    · exact fits_other hpre hap hj (hne j) (hi.fits j c' hc)
  · intro j hj
    rcases eq_or_ne j k with rfl | hjk
    · refine ⟨?_, hdeleted hj⟩
      rw [Server.setCall_self]
      exact nofun
    · obtain ⟨hcall, hlt⟩ := hi.deleted j ((hap.deleted j hjk).1 hj)
      refine ⟨?_, ?_⟩
      · rw [Server.setCall_of_ne s _ hjk]
        exact hcall
      · rw [hap.row j hjk]
        exact hlt.trans_le hpre.length_le
  · intro j hj
    rcases eq_or_ne j k with rfl | hjk
    · rw [Server.setCall_self]
      obtain ⟨hdel, sharerID, req, view, rfl⟩ := hreturned hj
      exact ⟨hdel, sharerID, req, view, rfl⟩
    · rw [Server.setCall_of_ne s _ hjk, hap.deleted j hjk]
      exact hi.returned j ((hap.returned j hjk).1 hj)
  · intro j i hi'
    rcases eq_or_ne j k with rfl | hjk
    · exact hbefore i hi'
    · rw [hap.before j hjk] at hi'
      exact (hap.returned i (hne j i hi')).2 (hi.before j i hi')
  · exact hcache

/-- A step of the call `k` that leaves the backend and the notes. -/
theorem stay (hi : WatchInv (s, w)) (hk : k ∉ w.returned) {c : Call}
    (hfits : c.Fits s.backend.store.videos w k) : WatchInv (s.setCall k c, w) :=
  hi.set hk (List.prefix_refl _) (Watch.Apart.refl w k) hfits (fun hj => (hi.deleted k hj).2)
    (fun hj => absurd hj hk) (hi.before k) hi.cache

/-- Every video whose `Share` had returned when a `List` began is in the table. -/
theorem covers (hi : WatchInv (s, w)) : w.Covers k s.backend.store.videos.length :=
  fun j hj => (hi.deleted j (hi.returned j (hi.before k j hj)).1).2

/-- A `Share` takes its next step. -/
theorem share (hi : WatchInv (s, w)) {env : StepEnv} {b : Backend} {sharerID : UUID}
    {req : ShareRequest} {pc : SharePc} {c' : Call}
    (hk : s.calls k = some (.share sharerID req pc)) (hworks : CacheWorks s (.step k env))
    (hadv : (Call.share sharerID req pc).advance env s.backend = some (b, c')) :
    WatchInv ({ s.setCall k c' with backend := b },
      w.note s.backend.store.count k (.share sharerID req pc)) := by
  have hfits := hi.fits k _ hk
  have hfresh : k ∉ w.returned := by
    intro hj
    obtain ⟨-, _, _, view, hc⟩ := hi.returned k hj
    obtain ⟨-, -, rfl⟩ := Call.share.inj (Option.some.inj (hk.symm.trans hc))
    cases hadv
  obtain ⟨⟨b₁, pc'⟩, hstep, h⟩ := Option.map_eq_some_iff.1 hadv
  obtain ⟨rfl, rfl⟩ := Prod.mk.inj h
  have hap := w.apart_note s.backend.store.count k (.share sharerID req pc)
  cases pc with
  | lookup x =>
    simp only [Call.advanceShare] at hstep
    split at hstep
    · obtain ⟨rfl, rfl⟩ := Prod.mk.inj (Option.some.inj hstep)
      exact hi.stay hfresh hfits
    · obtain ⟨rfl, rfl⟩ := Prod.mk.inj (Option.some.inj hstep)
      exact hi.stay hfresh hfits
  | loadSharer x =>
    simp only [Call.advanceShare] at hstep
    split at hstep
    · obtain ⟨rfl, rfl⟩ := Prod.mk.inj (Option.some.inj hstep)
      exact hi.stay hfresh hfits
    · obtain ⟨rfl, rfl⟩ := Prod.mk.inj (Option.some.inj hstep)
      exact hi.stay hfresh hfits
  | create v =>
    have hdel : k ∉ w.deleted := hfits
    -- the rows of the others keep their numbers
    have hrow : ∀ j ∈ w.deleted, Function.update w.row k s.backend.store.count j = w.row j := by
      intro j hj
      exact Function.update_of_ne (ne_of_mem_of_not_mem hj hdel) ..
    have hcache : ∀ r, s.backend.cache = some r → ∀ j ∈ w.deleted,
        Function.update w.row k s.backend.store.count j < r.total := by
      intro r hr j hj
      rw [hrow j hj]
      exact hi.cache r hr j hj
    simp only [Call.advanceShare, Service.insert] at hstep
    split at hstep
    · obtain ⟨rfl, rfl⟩ := Prod.mk.inj (Option.some.inj hstep)
      exact hi.set hfresh (List.prefix_refl _) hap hdel (fun hj => absurd hj hdel)
        (fun hj => absurd hj hfresh) (hi.before k) hcache
    · next store x hins =>
      obtain ⟨rfl, rfl⟩ := Prod.mk.inj (Option.some.inj hstep)
      split_ifs at hins
      cases hcreate : s.backend.store.create env.newID env.now v with
      | none =>
        rw [hcreate] at hins
        cases hins
      | some created =>
        rw [hcreate] at hins
        obtain rfl := Except.ok.inj hins
        obtain ⟨-, -, rfl⟩ := Store.create_eq_some hcreate
        refine hi.set hfresh (List.prefix_append _ _) hap ?_ (fun hj => absurd hj hdel)
          (fun hj => absurd hj hfresh) (hi.before k) hcache
        show (s.backend.store.videos ++ [x])[Function.update w.row k s.backend.store.count k]? =
          some x
        rw [Function.update_self, Store.count, List.getElem?_concat_length]
  | invalidate v =>
    have hfails : env.fails = false := by
      simp only [CacheWorks, hk] at hworks
      exact hworks
    simp only [Call.advanceShare, Service.invalidate, hfails, Bool.false_eq_true, if_false]
      at hstep
    obtain ⟨rfl, rfl⟩ := Prod.mk.inj (Option.some.inj hstep)
    have hv : s.backend.store.videos[w.row k]? = some v := hfits
    exact hi.set hfresh (List.prefix_refl _) hap ⟨hv, List.mem_cons_self⟩
      (fun _ => (List.getElem?_eq_some_iff.1 hv).1) (fun hj => absurd hj hfresh) (hi.before k)
      fun _ h => by cases h
  | submit v =>
    obtain ⟨rfl, rfl⟩ := Prod.mk.inj (Option.some.inj hstep)
    obtain ⟨hv, hdel⟩ : s.backend.store.videos[w.row k]? = some v ∧ k ∈ w.deleted := hfits
    exact hi.set hfresh (List.prefix_refl _) hap ⟨hdel, v, hv, rfl⟩
      (fun hj => (hi.deleted k hj).2) (fun _ => ⟨hdel, sharerID, req, toView v, rfl⟩)
      (fun j hj => List.mem_cons_of_mem k (hi.before k j hj)) hi.cache
  | done r => cases hstep

/-- A `List` takes its next step. -/
theorem list (hi : WatchInv (s, w)) {env : StepEnv} {b : Backend} {limit offset : ℤ} {pc : ListPc}
    {c' : Call} (hk : s.calls k = some (.list limit offset pc))
    (hfresh : Fresh (s, w) (.step k env))
    (hadv : (Call.list limit offset pc).advance env s.backend = some (b, c')) :
    WatchInv ({ s.setCall k c' with backend := b },
      w.note s.backend.store.count k (.list limit offset pc)) := by
  have hfits := hi.fits k _ hk
  have hret : k ∉ w.returned := by
    intro hj
    obtain ⟨-, _, _, view, hc⟩ := hi.returned k hj
    cases hk.symm.trans hc
  obtain ⟨⟨b₁, pc'⟩, hstep, h⟩ := Option.map_eq_some_iff.1 hadv
  obtain ⟨rfl, rfl⟩ := Prod.mk.inj h
  cases pc with
  | get =>
    simp only [Call.advanceList] at hstep
    split at hstep
    · -- a hit: the entry counts what has been deleted for, so what has returned
      next cached hget =>
      obtain ⟨rfl, rfl⟩ := Prod.mk.inj (Option.some.inj hstep)
      have hcache : s.backend.cache = some cached := by
        unfold cacheGet at hget
        split_ifs at hget
        exact hget
      refine hi.stay hret fun j hj => ?_
      exact hi.cache cached hcache j (hi.returned j (hi.before k j hj)).1
    · obtain ⟨rfl, rfl⟩ := Prod.mk.inj (Option.some.inj hstep)
      exact hi.stay hret trivial
  | count =>
    obtain ⟨rfl, rfl⟩ := Prod.mk.inj (Option.some.inj hstep)
    refine hi.set hret (List.prefix_refl _)
      (w.apart_note s.backend.store.count k (.list limit offset .count)) ?_
      (fun hj => (hi.deleted k hj).2) (fun hj => absurd hj hret) (hi.before k) hi.cache
    split_ifs
    · trivial
    · exact ⟨Function.update_self .., hi.covers⟩
  | find total =>
    obtain ⟨rfl, rfl⟩ := Prod.mk.inj (Option.some.inj hstep)
    refine hi.stay hret ?_
    split_ifs
    · trivial
    · exact hfits
    · exact hfits.2
  | set resp =>
    obtain ⟨rfl, rfl⟩ := Prod.mk.inj (Option.some.inj hstep)
    obtain ⟨hcounted, hcovers⟩ : w.counted k = resp.total ∧ w.Covers k resp.total := hfits
    simp only [Fresh, hk] at hfresh
    have hstore : (cacheSet s.backend env.fails resp).store = s.backend.store := by
      unfold cacheSet
      split_ifs <;> rfl
    refine hi.set hret (hstore ▸ List.prefix_refl _) (Watch.Apart.refl w k) hcovers ?_
      (fun hj => absurd hj hret) (hi.before k) ?_
    · intro hj
      rw [hstore]
      exact (hi.deleted k hj).2
    · intro r hr j hj
      unfold cacheSet at hr
      split_ifs at hr
      · exact hi.cache r hr j hj
      · obtain rfl := Option.some.inj hr
        rw [← hcounted]
        exact hfresh j hj
  | done r => cases hstep

/-- **The step lemma.** -/
theorem step {extract : String → Option String} {p q : Server × Watch} {l : Server.Label}
    (hi : WatchInv p) (hl : Fresh p l) (h : (watchedServer extract).step p l = some q) :
    WatchInv q := by
  obtain ⟨s, w⟩ := p
  obtain ⟨t, hstep, rfl⟩ := Option.map_eq_some_iff.1 h
  obtain ⟨hworks, hstep⟩ := Machine.restrict_step.1 hstep
  -- a call that is not there yet has not returned
  have hnew : ∀ k, s.calls k = none → k ∉ w.returned ∧ k ∉ w.deleted := by
    intro k hk
    have hdel : k ∉ w.deleted := fun hj => (hi.deleted k hj).1 hk
    exact ⟨fun hj => hdel (hi.returned k hj).1, hdel⟩
  rcases Server.step_cases hstep with ⟨k, sharerID, req, rfl, hk, rfl⟩ |
    ⟨k, limit, offset, rfl, hk, rfl⟩ | ⟨k, env, c, b, c', rfl, hk, hadv, rfl⟩ | ⟨rfl, rfl⟩
  · refine hi.stay (hnew k hk).1 ?_
    unfold Call.startShare
    split
    · exact (hnew k hk).2
    · exact (hnew k hk).2
  · refine hi.set (hnew k hk).1 (List.prefix_refl _) ?_ ?_ (fun hj => absurd hj (hnew k hk).2)
      (fun hj => absurd hj (hnew k hk).1) (fun j hj => ?_) hi.cache
    · exact { Watch.Apart.refl w k with before := fun j hj => Function.update_of_ne hj .. }
    · unfold Call.startList
      split_ifs
      · trivial
      · trivial
    · change j ∈ Function.update w.before k w.returned k at hj
      rw [Function.update_self] at hj
      exact hj
  · have hrecord : w.record s (.step k env) = w.note s.backend.store.count k c := by
      simp only [Watch.record, show s.calls k = some c from hk]
    rw [hrecord]
    cases c with
    | share sharerID req pc => exact hi.share hk hworks hadv
    | list limit offset pc => exact hi.list hk hl hadv
  · exact ⟨hi.fits, hi.deleted, hi.returned, hi.before, nofun⟩

/-- **The invariant of the watch** makes every list count what it has to. -/
theorem countsShared {p : Server × Watch} (hi : WatchInv p) : CountsShared p := by
  intro k limit resp hk j hj
  obtain ⟨-, sharerID, req, view, hc⟩ := hi.returned j (hi.before k j hj)
  obtain ⟨-, v, hv, rfl⟩ := hi.fits j _ hc
  have hlt : p.2.row j < resp.total := hi.fits k _ hk j hj
  refine ⟨sharerID, req, v, hc, List.mem_of_getElem? (i := p.2.row j) ?_⟩
  rw [List.getElem?_take_of_lt hlt]
  exact hv

end WatchInv

/-- **A `List` counts what was shared before it.**  In every run with a working
cache in which no `List` writes an answer counted before the insert of a
`Share` that has already deleted the entry, every `List` of the first page that
answers counts every video whose `Share` had returned when it began. -/
theorem list_counts_shared (extract : String → Option String) {p : Server × Watch}
    (hp : (watchedServer extract).init p) {run : List Server.Label}
    (hrun : (watchedServer extract).Steps Fresh p run) :
    (watchedServer extract).Always CountsShared p run := by
  have hinv : WatchInv p := by
    obtain ⟨s, w⟩ := p
    obtain ⟨hcalls, rfl⟩ : (∀ k, s.calls k = none) ∧ w = .start := hp
    constructor
    · intro k c hc
      exact absurd ((hcalls k).symm.trans hc) nofun
    · exact nofun
    · exact nofun
    · exact nofun
    · exact nofun
  exact (Machine.always_of_steps (fun _ _ _ hi hl h => hi.step hl h) hinv hrun).mono
    fun _ hi => hi.countsShared

/-- A `List` misses, a `Share` runs, and then the `List` counts and writes. -/
def freshSet : List Server.Label :=
  [.list 0 20 0, go 0, .share 1 ⟨7⟩ ⟨"v", "", ""⟩, go 1, go 1, go 1, go 1, go 1, go 0, go 0, go 0,
    .list 2 20 0, go 2]

/-- In `freshSet` the second `List` counts the video. -/
theorem list_counts_shared_freshSet :
    (watchedServer some).Always CountsShared (quietServer, .start) freshSet := by
  refine list_counts_shared some ⟨fun _ => rfl, rfl⟩ ?_
  exact .cons rfl trivial (.cons rfl trivial (.cons rfl trivial (.cons rfl trivial
    (.cons rfl trivial (.cons rfl trivial (.cons rfl trivial (.cons rfl trivial
    (.cons rfl trivial (.cons rfl trivial (.cons rfl (by decide) (.cons rfl trivial
    (.cons rfl trivial trivial))))))))))))

/-- A `List` counts before a `Share` runs, and writes after it has returned. -/
def staleSet : List Server.Label :=
  [.list 0 20 0, go 0, go 0, .share 1 ⟨7⟩ ⟨"v", "", ""⟩, go 1, go 1, go 1, go 1, go 1, go 0, go 0,
    .list 2 20 0, go 2]

/-- The total that a `List` of the first page has answered with. -/
def answeredTotal : Option Call → Option ℕ
  | some (.list 20 0 (.done (.ok resp))) => some resp.total
  | _ => none

/-- In `staleSet` the second `List` answers with the total of the first. -/
theorem list_misses_shared :
    ¬(watchedServer some).Always CountsShared (quietServer, .start) staleSet := by
  intro h
  have hend : ((watchedServer some).exec (quietServer, .start) staleSet).map (fun p =>
      (answeredTotal (p.1.calls 2), p.2.before 2)) = some (some 0, [1]) := by
    decide
  obtain ⟨p, hp, heq⟩ := Option.map_eq_some_iff.1 hend
  obtain ⟨hcall, hbefore⟩ := Prod.mk.inj heq
  unfold answeredTotal at hcall
  split at hcall
  · next resp hresp =>
    obtain htotal : resp.total = 0 := Option.some.inj hcall
    obtain ⟨_, _, v, -, hv⟩ := (h.exec hp) 2 20 resp hresp 1 (by rw [hbefore]; exact .head _)
    rw [htotal, List.take_zero] at hv
    cases hv
  · cases hcall

end Videos
end YtShare
