/-
# The cached first page

`Service.List` keeps one answer under one key, whatever limit it was asked
with, and gives it to every request for the first page with a limit up to 20.

The entry is always the uncached answer of some limit on the current rows
(`CacheInv`): `List` writes it so, and a `Share` that adds a row deletes it.
Answers for two limits are prefixes of one sequence, so they are the same when
they are of the same length.  That is the condition under which the cache does
not show (`list_transparent_iff`).
-/

import YtShare.Lib.Machine
import YtShare.Videos.Service

namespace YtShare
namespace Videos

open Lib Service Users

/-- A completed call, or the end of the entry's time to live. -/
inductive ServiceCall
  | share (sharerID : UUID) (req : ShareRequest) (env : ShareEnv)
  | list (limit offset : ℤ) (env : ListEnv)
  | expire

/-- One call.  The cache's `Delete` succeeds and no two rows are created at the
same time. -/
def callStep (extract : String → Option String) (b : Backend) : ServiceCall → Option Backend
  | .share sharerID req env =>
      if env.deleteFails = false ∧ ∀ w ∈ b.store.videos, w.createdAt ≠ env.now then
        some (share extract env b sharerID req).1
      else none
  | .list limit offset env => some (list env b limit offset).1
  | .expire => some { b with cache := none }

/-- The service, called one call at a time, from an empty cache. -/
def service (extract : String → Option String) : Machine Backend ServiceCall where
  init b := b.cache = none ∧ (b.store.videos.map Video.createdAt).Nodup
  step := callStep extract

/-- What the uncached path answers: `ToView` over `repo.List`. -/
def uncached (b : Backend) (limit offset : ℤ) : ListResponse :=
  listResponse (b.store.list limit offset).1 (b.store.list limit offset).2

/-- A `List` that succeeds answers what the uncached path would. -/
def Transparent (b : Backend) : ServiceCall → Prop
  | .list limit offset env => ∀ resp, (list env b limit offset).2 = .ok resp →
      resp = uncached b limit offset
  | _ => True

/-- **The condition on a call:** an entry that answers a `List` has as many
items as the `List` is to have. -/
def CacheFits (b : Backend) : ServiceCall → Prop
  | .list limit offset env => ∀ cached, firstPage limit offset = true →
      cacheGet b env.getFails = some cached →
      cached.items.length = min (Store.clampLimit limit) b.store.videos.length
  | _ => True

/-- The entry is the uncached answer of some limit. -/
def CacheInv (b : Backend) : Prop :=
  ∀ cached, b.cache = some cached → ∃ lim, cached = uncached b lim 0

/-- A first page has as many items as there are videos, up to the limit. -/
theorem length_uncached (b : Backend) (lim : ℤ) :
    (uncached b lim 0).items.length = min (Store.clampLimit lim) b.store.videos.length := by
  simp only [uncached, listResponse, Store.list, Store.find, Store.clampOffset, Int.toNat_zero,
    List.drop_zero, List.length_map, List.length_take, Store.length_newestFirst]

/-- **First pages of the same length are the same.** -/
theorem uncached_eq_iff (b : Backend) (lim lim' : ℤ) :
    uncached b lim 0 = uncached b lim' 0 ↔
      (uncached b lim 0).items.length = (uncached b lim' 0).items.length := by
  constructor
  · intro h
    rw [h]
  · intro h
    rw [length_uncached, length_uncached, ← b.store.length_newestFirst] at h
    have htake := List.take_eq_take_iff.2 h
    simp only [uncached, listResponse, Store.list, Store.find, Store.clampOffset, Int.toNat_zero,
      List.drop_zero, htake]

/-- The three ways a `List` can go. -/
theorem list_cases (env : ListEnv) (b : Backend) (limit offset : ℤ) :
    (∃ cached, firstPage limit offset = true ∧ cacheGet b env.getFails = some cached ∧
      list env b limit offset = (b, .ok cached)) ∨
    (¬∃ cached, firstPage limit offset = true ∧ cacheGet b env.getFails = some cached) ∧
      (list env b limit offset = (b, .error .other) ∨
        list env b limit offset =
          (if firstPage limit offset then cacheSet b env.setFails (uncached b limit offset) else b,
            .ok (uncached b limit offset))) := by
  by_cases hfirst : firstPage limit offset = true
  · cases hget : cacheGet b env.getFails with
    | some cached =>
      refine .inl ⟨cached, hfirst, rfl, ?_⟩
      rw [list, if_pos hfirst, hget]
    | none =>
      refine .inr ⟨fun h => ?_, ?_⟩
      · obtain ⟨cached, -, hc⟩ := h
        cases hc
      · rw [list, if_pos hfirst, hget]
        simp only [listUncached]
        split_ifs
        · exact .inl rfl
        · exact .inr rfl
  · refine .inr ⟨fun h => ?_, ?_⟩
    · obtain ⟨cached, hc, -⟩ := h
      exact hfirst hc
    · rw [list, if_neg hfirst]
      simp only [listUncached]
      split_ifs
      · exact .inl rfl
      · exact .inr rfl

/-- A `Share` that adds no row leaves everything as it was, and one that does
deletes the entry. -/
theorem share_cases (extract : String → Option String) (env : ShareEnv) (b : Backend)
    (sharerID : UUID) (req : ShareRequest) :
    (share extract env b sharerID req).1 = b ∨
      ∃ b' v, (share extract env b sharerID req).1 = submit (invalidate b' env.deleteFails) v := by
  unfold share
  split
  · exact .inl rfl
  · split
    · exact .inl rfl
    · split
      · exact .inl rfl
      · split
        · exact .inl rfl
        · exact .inr ⟨_, _, rfl⟩

/-- **The step lemma.**  A call keeps the invariant, and is transparent exactly
when it meets the condition. -/
theorem CacheInv.step {extract : String → Option String} {b b' : Backend} {c : ServiceCall}
    (hi : CacheInv b) (hs : callStep extract b c = some b') :
    CacheInv b' ∧ (Transparent b c ↔ CacheFits b c) := by
  cases c with
  | share sharerID req env =>
    refine ⟨?_, Iff.rfl⟩
    simp only [callStep] at hs
    split_ifs at hs with henv
    obtain rfl := Option.some.inj hs
    rcases share_cases extract env b sharerID req with h | ⟨b₁, v, h⟩
    · rw [h]
      exact hi
    · rw [h, invalidate, henv.1]
      exact nofun
  | expire =>
    obtain rfl := Option.some.inj hs
    exact ⟨nofun, Iff.rfl⟩
  | list limit offset env =>
    obtain rfl := Option.some.inj hs
    rcases list_cases env b limit offset with ⟨cached, hfirst, hget, h⟩ | ⟨hmiss, h⟩
    · -- answered from the cache: the entry is a first page of some limit
      obtain rfl : offset = 0 := (of_decide_eq_true hfirst).1
      have hcache : b.cache = some cached := by
        unfold cacheGet at hget
        split_ifs at hget
        exact hget
      obtain ⟨lim, rfl⟩ := hi cached hcache
      rw [h]
      refine ⟨hi, ?_⟩
      simp only [Transparent, CacheFits, h]
      constructor
      · intro ht c _ hc
        obtain rfl := Option.some.inj (hget.symm.trans hc)
        rw [ht _ rfl, length_uncached]
      · intro hf resp hresp
        obtain rfl := Except.ok.inj hresp
        rw [uncached_eq_iff, length_uncached b limit]
        exact hf _ hfirst hget
    · have hfits : CacheFits b (.list limit offset env) := fun cached hfirst hget =>
        absurd ⟨cached, hfirst, hget⟩ hmiss
      rcases h with h | h
      · rw [h]
        refine ⟨hi, iff_of_true (fun resp hresp => ?_) hfits⟩
        rw [h] at hresp
        cases hresp
      · rw [h]
        refine ⟨?_, iff_of_true (fun resp hresp => ?_) hfits⟩
        · split_ifs with hfirst
          · unfold cacheSet
            split_ifs
            · exact hi
            · intro cached hc
              have hoffset : offset = 0 := (of_decide_eq_true hfirst).1
              exact ⟨limit, by rw [← Option.some.inj hc, hoffset]; rfl⟩
          · exact hi
        · rw [h] at hresp
          exact (Except.ok.inj hresp).symm

/-- **When the cache does not show.**  In every run of completed calls, every
`List` that succeeds answers what the uncached path would exactly when every
`List` that is answered from the cache finds an entry with as many items as its
own limit asks for. -/
theorem list_transparent_iff (extract : String → Option String) {b : Backend}
    (hb : (service extract).init b) (calls : List ServiceCall) :
    (service extract).Steps Transparent b calls ↔ (service extract).Steps CacheFits b calls := by
  refine Machine.steps_congr (M := service extract) (I := CacheInv)
    (fun _ _ _ hi hs => hi.step hs) fun cached hc => ?_
  rw [hb.1] at hc
  cases hc

/-- Two videos of one user, and an empty cache. -/
def twoVideos : Backend :=
  let u : User := ⟨⟨7⟩, "a@example.com", "A"⟩
  let video (n : ℕ) : Video :=
    ⟨⟨n⟩, toString n, watchURL (toString n), "", "", thumbnailURL (toString n), u.id, u, ⟨n⟩⟩
  ⟨⟨[u], [video 1, video 2]⟩, none, []⟩

/-- The first page is asked for twice, with the default limit and with `0`. -/
def sameLimits : List ServiceCall :=
  [.list 20 0 ⟨false, false, false, false⟩, .list 0 0 ⟨false, false, false, false⟩]

/-- In `sameLimits` the cache does not show. -/
theorem list_transparent_iff_sameLimits :
    (service some).Steps Transparent twoVideos sameLimits := by
  refine (list_transparent_iff some ⟨rfl, by decide⟩ sameLimits).2 ?_
  refine .cons rfl (fun cached _ hget => ?_) (.cons rfl (fun cached _ hget => ?_) trivial)
  · cases hget
  · obtain rfl : uncached twoVideos 20 0 = cached := Option.some.inj hget
    exact length_uncached twoVideos 20

/-- The first page is asked for with limit 1, and then with limit 2. -/
def growingLimits : List ServiceCall :=
  [.list 1 0 ⟨false, false, false, false⟩, .list 2 0 ⟨false, false, false, false⟩]

/-- In `growingLimits` the second answer has one video, where there are two. -/
theorem list_not_transparent : ¬(service some).Steps Transparent twoVideos growingLimits := by
  intro h
  obtain ⟨-, hrest⟩ := h _ rfl
  obtain ⟨hsecond, -⟩ := hrest _ rfl
  have hone : uncached twoVideos 1 0 = uncached twoVideos 2 0 := hsecond _ rfl
  have hlen := (uncached_eq_iff twoVideos 1 2).1 hone
  rw [length_uncached, length_uncached] at hlen
  exact absurd hlen (by decide)

end Videos
end YtShare
