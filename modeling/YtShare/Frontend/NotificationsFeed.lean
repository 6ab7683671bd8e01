/-
# The notifications feed

`useNotificationsFeed` of `frontend/src/modules/notifications/hooks` asks for the
videos a page at a time.  The first page starts at 0, and `getNextPageParam` puts
the next one after all items that came, until as many came as the last page says
there are.  The server's side is `Service.List`, whose first page may come from the
list cache, over `gormRepo.List`, which clamps the limit and sorts by
`created_at DESC` alone.  Rows created at the same time may come in any order
(`InOrder`), in another one for each query.

What the client counts is what came, so neither the clamp nor a cached page of
another limit gets it out of step: the offsets are the cuts of `Lib.pages`
(`query_spec`, `loadAll_spec`), and the feed always ends and is always in order.  It
has each video once exactly when no page ends between two videos of one creation
time (`feeds_once_iff`).
-/

import YtShare.Lib.Paging
import YtShare.Videos.ListCache

namespace YtShare
namespace Frontend

open Lib Videos Videos.Service

/-! ### The server -/

/-- A creation time as the `TIMESTAMPTZ` column `created_at` holds it. -/
def created (v : Video) : ℤ := v.createdAt.timestamptz.ns

/-- An order in which `ORDER BY created_at DESC` may give the rows. -/
abbrev InOrder (s : Store) (rows : List Video) : Prop := IsSorting created s.videos rows

/-- `Find` of `gormRepo.List` when the rows come in this order. -/
def findIn (s : Store) (rows : List Video) (limit offset : ℤ) : List Video :=
  ((rows.drop (Store.clampOffset offset)).take (Store.clampLimit limit)).map s.preload

/-- `Service.List` with no query that fails: `cached` is what the cache has under
`listCacheKey`, and the rows come in this order. -/
def listIn (s : Store) (cached : Option ListResponse) (rows : List Video) (limit offset : ℤ) :
    ListResponse :=
  match (if firstPage limit offset then cached else none) with
  | some resp => resp
  | none => listResponse (findIn s rows limit offset) s.count

/-- What the cache may have: nothing, or what some limit's first page was. -/
def CacheEntry (s : Store) (cached : Option ListResponse) : Prop :=
  ∀ resp ∈ cached, ∃ lim rows, InOrder s rows ∧ resp = listResponse (findIn s rows lim 0) s.count

/-- An empty cache is right about every table. -/
theorem cacheEntry_none (s : Store) : CacheEntry s none := by
  intro resp hresp
  cases hresp

/-- The order of the model is one that the query may answer in. -/
theorem newestFirst_inOrder (s : Store) : InOrder s s.newestFirst := by
  refine ⟨List.mergeSort_perm _ _, ?_⟩
  refine (List.pairwise_mergeSort (fun a b c hab hbc => ?_) (fun a b => ?_) s.videos).imp ?_
  · rw [decide_eq_true_eq] at hab hbc ⊢
    exact hbc.trans hab
  · rw [Bool.or_eq_true, decide_eq_true_eq, decide_eq_true_eq]
    exact le_total _ _
  · intro a b hab
    exact Time.timestamptz_mono (of_decide_eq_true hab)

/-- `Service.List` is `listIn` for one of the orders. -/
theorem list_eq_listIn (env : ListEnv) (b : Backend) (limit offset : ℤ)
    (hcount : env.countFails = false) (hfind : env.findFails = false) :
    (Service.list env b limit offset).2 =
      .ok (listIn b.store (cacheGet b env.getFails) b.store.newestFirst limit offset) := by
  cases hc : (if firstPage limit offset then cacheGet b env.getFails else none) with
  | some resp => rw [Service.list, listIn, hc]
  | none =>
    rw [Service.list, listIn, hc]
    simp only [listUncached, hcount, hfind, Bool.false_eq_true, or_self, if_false]
    rfl

/-! ### The client -/

/-- `getNextPageParam`, `none` for `undefined`. -/
def getNextPageParam (lastPage : ListResponse) (allPages : List ListResponse) : Option ℕ :=
  let loaded := allPages.foldl (fun n p => n + p.items.length) 0
  if loaded < lastPage.total then some loaded else none

/-- `useInfiniteQuery`, asked for the next page as long as there is one: `query k`
answers the `k`th request, `none` when the fuel runs out. -/
def loadAll (query : ℕ → ℕ → ListResponse) :
    ℕ → List ListResponse → ℕ → Option (List ListResponse)
  | 0, _, _ => none
  | fuel + 1, pages, pageParam =>
    let lastPage := query pages.length pageParam
    let allPages := pages ++ [lastPage]
    match getNextPageParam lastPage allPages with
    | none => some allPages
    | some next => loadAll query fuel allPages next

/-- `queryFn`, where the rows come in the order `rows k` for the `k`th request. -/
def query (s : Store) (limit : ℤ) (cached : Option ListResponse) (rows : ℕ → List Video)
    (k pageParam : ℕ) : ListResponse :=
  listIn s cached (rows k) limit pageParam

/-- The items of the pages. -/
def items (pages : List ListResponse) : List VideoView := pages.flatMap ListResponse.items

/-- The view of a row. -/
def view (s : Store) (v : Video) : VideoView := toView (s.preload v)

/-- The feed comes to its end, has every video once, and is newest first. -/
def FeedOnce (s : Store) (limit : ℤ) (cached : Option ListResponse) (rows : ℕ → List Video) :
    Prop :=
  ∃ fuel pages, loadAll (query s limit cached rows) fuel [] 0 = some pages ∧
    (items pages).Perm (s.videos.map (view s)) ∧
    (items pages).Pairwise fun v w => w.sharedAt.timestamptz.ns ≤ v.sharedAt.timestamptz.ns

/-- So it is whatever order the rows come in, request by request. -/
def FeedsOnce (s : Store) (limit : ℤ) (cached : Option ListResponse) : Prop :=
  ∀ rows : ℕ → List Video, (∀ k, InOrder s (rows k)) → FeedOnce s limit cached rows

/-- The length of the first page: that of the entry that answers it, or the limit. -/
def firstSize (limit : ℤ) (cached : Option ListResponse) : ℕ :=
  match (if firstPage limit 0 then cached else none) with
  | some resp => resp.items.length
  | none => Store.clampLimit limit

/-- **The condition:** no page ends between two videos of one creation time. -/
def CleanPages (s : Store) (limit : ℤ) (cached : Option ListResponse) : Prop :=
  ∀ k, CleanCut created s.newestFirst (firstSize limit cached + k * Store.clampLimit limit)

/-- Where the pages start. -/
def cut (first size : ℕ) : ℕ → ℕ
  | 0 => 0
  | k + 1 => first + k * size

/-- The first page starts at the top. -/
@[simp]
theorem cut_zero (first size : ℕ) : cut first size 0 = 0 := rfl

/-- The second starts where the first, which may come from the cache, ends. -/
@[simp]
theorem cut_one (first size : ℕ) : cut first size 1 = first := by
  rw [cut, Nat.zero_mul, Nat.add_zero]

/-- No page starts before the one above it. -/
theorem cut_le_succ (first size k : ℕ) : cut first size k ≤ cut first size (k + 1) := by
  cases k with
  | zero => exact Nat.zero_le _
  | succ k => exact Nat.add_le_add_left (Nat.mul_le_mul_right _ (Nat.le_succ k)) _

/-- From the second on each starts below the one above it. -/
theorem cut_lt_succ {first size : ℕ} (hsize : 0 < size) (k : ℕ) :
    cut first size (k + 1) < cut first size (k + 2) := by
  simp only [cut, Nat.add_mul, Nat.one_mul]
  omega

/-- After enough pages every row has been passed. -/
theorem le_cut_succ (first : ℕ) {size : ℕ} (hsize : 0 < size) (k : ℕ) :
    k ≤ cut first size (k + 1) :=
  Nat.le_add_left_of_le (Nat.le_mul_of_pos_right k hsize)

/-- The limit of a page is positive, whatever was asked for. -/
theorem clampLimit_pos (limit : ℤ) : 0 < Store.clampLimit limit := by
  unfold Store.clampLimit
  split_ifs with h
  · decide
  · omega

/-! ### A run of the client -/

/-- The requests at the cuts are answered with the pages of these sortings. -/
structure Answers (s : Store) (q : ℕ → ℕ → ListResponse) (first size : ℕ)
    (seen : ℕ → List Video) : Prop where
  inOrder : ∀ k, InOrder s (seen k)
  items : ∀ k, (q k (cut first size k)).items = (Lib.page (cut first size) seen k).map (view s)
  total : ∀ k, (q k (cut first size k)).total = s.count

/-- The answers to the first `n` requests. -/
def answers (q : ℕ → ℕ → ListResponse) (first size n : ℕ) : List ListResponse :=
  (List.range n).map fun k => q k (cut first size k)

/-- One more answer, for the offset at which the page above it ends. -/
theorem answers_succ (q : ℕ → ℕ → ListResponse) (first size n : ℕ) :
    answers q first size (n + 1) = answers q first size n ++ [q n (cut first size n)] := by
  rw [answers, answers, List.range_succ, List.map_append, List.map_singleton]

/-- The pages are as many as were asked for. -/
theorem length_answers (q : ℕ → ℕ → ListResponse) (first size n : ℕ) :
    (answers q first size n).length = n := by
  rw [answers, List.length_map, List.length_range]

/-- `allPages.reduce` counts the items. -/
theorem loaded_eq (pages : List ListResponse) (n : ℕ) :
    pages.foldl (fun n p => n + p.items.length) n = n + (items pages).length := by
  induction pages generalizing n with
  | nil => rfl
  | cons p pages ih =>
    rw [List.foldl_cons, ih, items, items, List.flatMap_cons, List.length_append, Nat.add_assoc]

section

variable {s : Store} {q : ℕ → ℕ → ListResponse} {first size : ℕ} {seen : ℕ → List Video}
  (ha : Answers s q first size seen)
include ha

/-- What the page shows after `n` answers: the rows of the `n` pages, one page after the
other. -/
theorem Answers.items_answers (n : ℕ) :
    Frontend.items (answers q first size n) = (pages (cut first size) seen n).map (view s) := by
  rw [Frontend.items, answers, List.flatMap_map, pages, List.map_flatMap]
  exact congrArg (List.flatMap · _) (funext ha.items)

/-- The next page starts where the pages so far end. -/
theorem Answers.getNextPageParam_eq (k : ℕ) :
    getNextPageParam (q k (cut first size k)) (answers q first size (k + 1)) =
      if cut first size (k + 1) < s.count then some (cut first size (k + 1)) else none := by
  have hloaded : (Frontend.items (answers q first size (k + 1))).length =
      min (cut first size (k + 1)) s.count := by
    rw [ha.items_answers, List.length_map,
      length_pages (cut_zero first size) (cut_le_succ first size) ha.inOrder, Store.count]
  rw [getNextPageParam, loaded_eq, Nat.zero_add, hloaded, ha.total]
  split_ifs with hmin hcut hcut
  · rw [Nat.min_eq_left (Nat.le_of_lt hcut)]
  · omega
  · omega
  · rfl

/-- **One request.** -/
theorem Answers.loadAll_succ (fuel k : ℕ) :
    loadAll q (fuel + 1) (answers q first size k) (cut first size k) =
      if cut first size (k + 1) < s.count then
        loadAll q fuel (answers q first size (k + 1)) (cut first size (k + 1))
      else some (answers q first size (k + 1)) := by
  rw [loadAll]
  simp only [length_answers, ← answers_succ, ha.getNextPageParam_eq]
  split_ifs <;> rfl

/-- A feed that has come to its end has the pages up to a cut after the last video. -/
theorem Answers.of_loadAll {fuel k : ℕ} {all : List ListResponse}
    (h : loadAll q fuel (answers q first size k) (cut first size k) = some all) :
    ∃ n, s.count ≤ cut first size n ∧ all = answers q first size n := by
  induction fuel generalizing k with
  | zero => cases h
  | succ fuel ih =>
    rw [ha.loadAll_succ] at h
    split_ifs at h with hmore
    · exact ih h
    · exact ⟨k + 1, Nat.le_of_not_lt hmore, (Option.some.inj h).symm⟩

/-- **The feed comes to its end**, after one request a video at most. -/
theorem Answers.exists_loadAll (hsize : 0 < size) {fuel k : ℕ} (hk : k ≤ s.count)
    (hfuel : s.count < k + fuel) :
    ∃ all, loadAll q fuel (answers q first size k) (cut first size k) = some all := by
  induction fuel generalizing k with
  | zero => omega
  | succ fuel ih =>
    rw [ha.loadAll_succ]
    split_ifs with hmore
    · have := le_cut_succ first hsize k
      exact ih (by omega) (by omega)
    · exact ⟨_, rfl⟩

end

/-! ### What the requests are answered with -/

section

variable {s : Store} {limit : ℤ} {cached : Option ListResponse}

/-- The items of an answer are the views of the rows from the offset on, up to the
limit. -/
theorem items_listResponse (rows : List Video) (limit : ℤ) (o total : ℕ) :
    (listResponse (findIn s rows limit o) total).items =
      ((rows.drop o).take (Store.clampLimit limit)).map (view s) := by
  rw [listResponse, findIn, List.map_map, Store.clampOffset, Int.toNat_natCast]
  rfl

/-- A page that the cache does not answer. -/
theorem listIn_of_not_firstPage {offset : ℤ} (h : ¬firstPage limit offset = true)
    (rows : List Video) :
    listIn s cached rows limit offset = listResponse (findIn s rows limit offset) s.count := by
  rw [listIn, if_neg h]

/-- From the second on all pages have the same size. -/
theorem cut_succ_sub (first size k : ℕ) :
    cut first size (k + 2) - cut first size (k + 1) = size := by
  simp only [cut, Nat.add_mul, Nat.one_mul]
  omega

/-- Without an entry for the first page every answer is read from the tables. -/
theorem answers_of_uncached (h : (if firstPage limit 0 then cached else none) = none)
    {rows : ℕ → List Video} (hrows : ∀ k, InOrder s (rows k)) :
    Answers s (query s limit cached rows) (firstSize limit cached) (Store.clampLimit limit)
      rows := by
  have hfirst : firstSize limit cached = Store.clampLimit limit := by rw [firstSize, h]
  have hquery : ∀ k o : ℕ, query s limit cached rows k o =
      listResponse (findIn s (rows k) limit o) s.count := by
    intro k o
    by_cases hp : firstPage limit o = true
    · have hzero : (o : ℤ) = 0 := (of_decide_eq_true hp).1
      rw [query, listIn, hzero, h]
    · exact listIn_of_not_firstPage hp _
  refine ⟨hrows, fun k => ?_, fun k => ?_⟩
  · rw [hquery, items_listResponse, Lib.page]
    cases k with
    | zero => rw [hfirst, cut_one, cut_zero, Nat.sub_zero]
    | succ k => rw [cut_succ_sub]
  · rw [hquery, listResponse]

/-- With one, the first answer is read from it: the first request sees the order in
which the rows came when the entry was written. -/
theorem answers_of_cached {r : List Video} {lim : ℤ} (hr : InOrder s r)
    (h : (if firstPage limit 0 then cached else none) =
      some (listResponse (findIn s r lim 0) s.count))
    {rows : ℕ → List Video} (hrows : ∀ k, InOrder s (rows k)) :
    Answers s (query s limit cached rows) (firstSize limit cached) (Store.clampLimit limit)
      (Function.update rows 0 r) := by
  have hitems : (listResponse (findIn s r lim 0) s.count).items =
      (r.take (Store.clampLimit lim)).map (view s) := items_listResponse r lim 0 s.count
  have hfirst : firstSize limit cached = min (Store.clampLimit lim) r.length := by
    rw [firstSize, h]
    simp only [hitems, List.length_map, List.length_take]
  have hzero : ∀ k, query s limit cached rows k 0 = listResponse (findIn s r lim 0) s.count := by
    intro k
    rw [query, listIn, Int.natCast_zero, h]
  have hlater : ∀ k o : ℕ, o ≠ 0 → query s limit cached rows k o =
      listResponse (findIn s (rows k) limit o) s.count := by
    intro k o ho
    refine listIn_of_not_firstPage (fun hp => ho ?_) _
    exact Int.natCast_eq_zero.1 (of_decide_eq_true hp).1
  have hinOrder : ∀ k, InOrder s (Function.update rows 0 r k) := by
    intro k
    cases k with
    | zero => rw [Function.update_self]; exact hr
    | succ k => rw [Function.update_of_ne (Nat.succ_ne_zero k)]; exact hrows _
  refine ⟨hinOrder, fun k => ?_, fun k => ?_⟩
  · cases k with
    | zero =>
      rw [Lib.page, cut_one, cut_zero, hzero, hitems, Function.update_self, hfirst, Nat.sub_zero,
        List.drop_zero, ← List.take_eq_take_min]
    | succ k =>
      rw [Lib.page, cut_succ_sub, Function.update_of_ne (Nat.succ_ne_zero k)]
      by_cases ho : cut (firstSize limit cached) (Store.clampLimit limit) (k + 1) = 0
      · -- an empty first page: there are no rows
        have hnil : r = [] := by
          have := clampLimit_pos lim
          refine List.length_eq_zero_iff.1 ?_
          rw [cut] at ho
          omega
        have hrow : rows (k + 1) = [] := by
          have := (hrows (k + 1)).length_eq.trans hr.length_eq.symm
          rwa [hnil, List.length_nil, List.length_eq_zero_iff] at this
        rw [ho, hzero, hitems, hnil, hrow, List.drop_nil, List.take_nil, List.take_nil]
      · rw [hlater _ _ ho, items_listResponse]
  · by_cases ho : cut (firstSize limit cached) (Store.clampLimit limit) k = 0
    · rw [ho, hzero, listResponse]
    · rw [hlater _ _ ho, listResponse]

/-- **What the requests are answered with**: pages of sortings, cut where the client
counts.  Only the first request may see another sorting than the tables would give
it, and it sees the same when they give it `r`. -/
theorem query_spec (limit : ℤ) (hcache : CacheEntry s cached) :
    ∃ r, InOrder s r ∧ ∀ rows : ℕ → List Video, (∀ k, InOrder s (rows k)) →
      ∃ seen, (rows 0 = r → seen = rows) ∧
        Answers s (query s limit cached rows) (firstSize limit cached) (Store.clampLimit limit)
          seen := by
  cases h : (if firstPage limit 0 then cached else none) with
  | none =>
    exact ⟨s.newestFirst, newestFirst_inOrder s, fun rows hrows =>
      ⟨rows, fun _ => rfl, answers_of_uncached h hrows⟩⟩
  | some resp =>
    have hresp : resp ∈ cached := by
      split_ifs at h
      exact h
    obtain ⟨lim, r, hr, rfl⟩ := hcache resp hresp
    refine ⟨r, hr, fun rows hrows => ⟨_, fun hzero => ?_, answers_of_cached hr h hrows⟩⟩
    rw [← hzero, Function.update_eq_self]

/-! ### When the feed has every video once -/

/-- **The feed always ends**, with as many items as there are videos, newest first. -/
theorem Answers.feed_ends {q : ℕ → ℕ → ListResponse} {first : ℕ} {seen : ℕ → List Video}
    (ha : Answers s q first (Store.clampLimit limit) seen) :
    ∃ n, s.count ≤ cut first (Store.clampLimit limit) n ∧
      loadAll q (s.count + 1) [] 0 = some (answers q first (Store.clampLimit limit) n) ∧
      (Frontend.items (answers q first (Store.clampLimit limit) n)).Pairwise
        fun v w => w.sharedAt.timestamptz.ns ≤ v.sharedAt.timestamptz.ns := by
  obtain ⟨all, hall⟩ := ha.exists_loadAll (clampLimit_pos limit) (Nat.zero_le s.count)
    (show s.count < 0 + (s.count + 1) by omega)
  obtain ⟨n, hn, rfl⟩ := ha.of_loadAll hall
  refine ⟨n, hn, hall, ?_⟩
  rw [ha.items_answers, List.pairwise_map]
  exact sorted_pages rfl (cut_le_succ _ _) ha.inOrder n

/-- With no cut between rows of one creation time, the feed has every video once. -/
theorem feedOnce_of_cleanPages {rows seen : ℕ → List Video}
    (ha : Answers s (query s limit cached rows) (firstSize limit cached) (Store.clampLimit limit)
      seen)
    (hclean : CleanPages s limit cached) : FeedOnce s limit cached rows := by
  obtain ⟨n, hn, hall, hsorted⟩ := ha.feed_ends
  refine ⟨s.count + 1, _, hall, ?_, hsorted⟩
  rw [ha.items_answers]
  refine List.Perm.map _ ?_
  have hcuts : ∀ k, CleanCut created s.newestFirst
      (cut (firstSize limit cached) (Store.clampLimit limit) k) := by
    intro k
    cases k with
    | zero => exact nofun
    | succ k => exact hclean k
  have hperm := pages_perm rfl (cut_le_succ _ _) (newestFirst_inOrder s) ha.inOrder hcuts n
  rw [List.take_of_length_le ((newestFirst_inOrder s).length_eq.le.trans hn)] at hperm
  exact hperm.trans (newestFirst_inOrder s).perm

/-- A page that ends between two rows of one creation time: the next request may see
them the other way round. -/
theorem cleanPages_of_feedsOnce (hids : (s.videos.map Video.id).Nodup)
    (hcache : CacheEntry s cached) (h : FeedsOnce s limit cached) : CleanPages s limit cached := by
  obtain ⟨r, hr, hseen⟩ := query_spec limit hcache
  intro k
  by_contra hk
  have hdirty :
      ¬CleanCut created r (cut (firstSize limit cached) (Store.clampLimit limit) (k + 1)) :=
    fun hc => hk (hc.of_map_key_eq ((newestFirst_inOrder s).map_key_eq hr))
  obtain ⟨r', hr', hdup⟩ := exists_pages_not_nodup rfl (cut_le_succ _ _) hr hdirty
    (cut_lt_succ (clampLimit_pos limit) k)
  have hrows : ∀ j, InOrder s (Function.update (fun _ => r) (k + 1) r' j) := by
    intro j
    rcases eq_or_ne j (k + 1) with rfl | hj
    · rw [Function.update_self]; exact hr'
    · rw [Function.update_of_ne hj]; exact hr
  obtain ⟨seen, hsame, ha⟩ := hseen _ hrows
  obtain rfl := hsame (Function.update_of_ne (by omega) _ _)
  obtain ⟨fuel, all, hall, hperm, -⟩ := h _ hrows
  obtain ⟨n, hn, rfl⟩ := ha.of_loadAll (k := 0) hall
  -- the run goes past the cut, so it has the page with the element that comes again
  have hlt : cut (firstSize limit cached) (Store.clampLimit limit) (k + 1) < s.count := by
    by_contra hle
    refine hdirty fun _ _ b hb => ?_
    rw [List.drop_eq_nil_of_le (hr.length_eq.le.trans (Nat.le_of_not_lt hle))] at hb
    cases hb
  have hn' : k + 2 ≤ n := by
    by_contra hle
    have := monotone_nat_of_le_succ (cut_le_succ (firstSize limit cached)
      (Store.clampLimit limit)) (show n ≤ k + 1 by omega)
    omega
  have hnodup := (hperm.map VideoView.id).nodup_iff.2 (by rwa [List.map_map])
  rw [ha.items_answers, List.map_map] at hnodup
  exact hdup (hnodup.of_map.sublist (pages_sublist _ _ hn'))

end

/-- **When the feed has every video once.**  Whatever page size is asked for, and
whether or not the first page comes from the list cache, the feed ends, is newest
first and has every video exactly once, in whatever order the tables give rows of
one creation time, exactly when no page ends between two such rows. -/
theorem feeds_once_iff (s : Store) (limit : ℤ) (cached : Option ListResponse)
    (hids : (s.videos.map Video.id).Nodup) (hcache : CacheEntry s cached) :
    FeedsOnce s limit cached ↔ CleanPages s limit cached := by
  refine ⟨cleanPages_of_feedsOnce hids hcache, fun hclean rows hrows => ?_⟩
  obtain ⟨r, -, hseen⟩ := query_spec limit hcache
  obtain ⟨seen, -, ha⟩ := hseen rows hrows
  exact feedOnce_of_cleanPages ha hclean

/-- Videos of one user, created at these times. -/
def videosAt (times : List ℤ) : Store :=
  let u : Users.User := ⟨⟨7⟩, "a@example.com", "A"⟩
  let video (n : ℕ) (ns : ℤ) : Video :=
    ⟨⟨n⟩, toString n, watchURL (toString n), "", "", thumbnailURL (toString n), u.id, u, ⟨ns⟩⟩
  ⟨[u], times.mapIdx video⟩

/-- Three videos and pages of two; the first page comes from the cache, which was
filled with a page of one. -/
theorem feeds_once_iff_videosAt :
    FeedsOnce (videosAt [3000, 2000, 1000]) 2
      (some (listResponse (findIn (videosAt [3000, 2000, 1000])
        (videosAt [3000, 2000, 1000]).newestFirst 1 0) 3)) := by
  refine (feeds_once_iff _ 2 _ (by decide) fun resp hresp => ?_).2 fun k => ?_
  · exact ⟨1, _, newestFirst_inOrder _, (Option.some.inj hresp).symm⟩
  · refine CleanCut.of_nodup ?_ _
    rw [((newestFirst_inOrder _).perm.map created).nodup_iff]
    decide

/-- Two videos created at the same time and pages of one: the second request may
bring the first video again. -/
theorem not_feedsOnce : ¬FeedsOnce (videosAt [1000, 1000]) 1 none := by
  intro h
  have hclean := cleanPages_of_feedsOnce (by decide) (cacheEntry_none _) h 0
  have hsorted : InOrder (videosAt [1000, 1000]) (videosAt [1000, 1000]).videos :=
    ⟨.refl _, by decide⟩
  have hcut := hclean.of_map_key_eq (hsorted.map_key_eq (newestFirst_inOrder _))
  exact absurd hcut (by decide)

end Frontend
end YtShare
