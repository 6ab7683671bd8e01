/-
# Reading a sorted collection page by page

A store sorts a collection by a key, largest first, and gives out one stretch of
the sorted list for each query.  Elements of one key may come in any order, and
in another one for each query: the `k`th query sees the sorting `rows k`, and its
page is the stretch from `cut k` to `cut (k + 1)`.

All sortings have one list of keys (`IsSorting.map_key_eq`), so the pages taken
together are always in order.  They hold each element once where no cut falls
between two elements of one key (`pages_perm`).  Where one does, the next query
can bring an element again (`exists_pages_not_nodup`).
-/

import Mathlib.Data.List.Sort

namespace YtShare
namespace Lib

variable {α β : Type} {key : α → β} {all r r' : List α} {o : ℕ}

/-! ### Clean cuts -/

/-- The cut at `o` separates no two elements of one key. -/
def CleanCut (key : α → β) (l : List α) (o : ℕ) : Prop :=
  ∀ a ∈ l.take o, ∀ b ∈ l.drop o, key b ≠ key a

instance [DecidableEq β] (key : α → β) (l : List α) (o : ℕ) : Decidable (CleanCut key l o) :=
  inferInstanceAs (Decidable (∀ a ∈ l.take o, ∀ b ∈ l.drop o, key b ≠ key a))

/-- Where no two elements have one key, every cut is clean. -/
theorem CleanCut.of_nodup (h : (r.map key).Nodup) (o : ℕ) : CleanCut key r o := by
  intro a ha b hb heq
  rw [← List.take_append_drop o r, List.map_append] at h
  refine List.disjoint_of_nodup_append h (List.mem_map_of_mem ha) ?_
  rw [← heq]
  exact List.mem_map_of_mem hb

/-- Whether a cut is clean is decided by the keys. -/
theorem CleanCut.of_map_key_eq (hc : CleanCut key r o) (hkeys : r'.map key = r.map key) :
    CleanCut key r' o := by
  intro a ha b hb heq
  have ha' : key a ∈ (r.take o).map key := by
    rw [List.map_take, ← hkeys, ← List.map_take]
    exact List.mem_map_of_mem ha
  have hb' : key b ∈ (r.drop o).map key := by
    rw [List.map_drop, ← hkeys, ← List.map_drop]
    exact List.mem_map_of_mem hb
  obtain ⟨x, hx, hxa⟩ := List.mem_map.1 ha'
  obtain ⟨y, hy, hyb⟩ := List.mem_map.1 hb'
  exact hc x hx y hy (by rw [hyb, hxa, heq])

/-! ### Sortings -/

variable [LinearOrder β]

/-- `r` is `all`, sorted by the key, largest first. -/
structure IsSorting (key : α → β) (all r : List α) : Prop where
  perm : r.Perm all
  sorted : r.Pairwise fun a b => key b ≤ key a

/-- A sorting has as many elements as what is sorted. -/
theorem IsSorting.length_eq (hr : IsSorting key all r) : r.length = all.length := hr.perm.length_eq

/-- The keys are sorted if and only if the elements are, by their keys. -/
theorem pairwise_keys :
    (r.map key).Pairwise (fun a b => b ≤ a) ↔ r.Pairwise fun a b => key b ≤ key a :=
  List.pairwise_map

/-- Sortings have the same keys in the same places. -/
theorem IsSorting.map_key_eq (hr : IsSorting key all r) (hr' : IsSorting key all r') :
    r.map key = r'.map key := by
  refine List.Perm.eq_of_pairwise ?_ (pairwise_keys.2 hr.sorted) (pairwise_keys.2 hr'.sorted)
    ((hr.perm.trans hr'.perm.symm).map key)
  intro a b _ _ hab hba
  exact le_antisymm hba hab

/-- What has the keys of a sorting in its places is one. -/
theorem IsSorting.of_map_key_eq (hr : IsSorting key all r) (hperm : r'.Perm r)
    (hkeys : r'.map key = r.map key) : IsSorting key all r' := by
  refine ⟨hperm.trans hr.perm, pairwise_keys.1 ?_⟩
  rw [hkeys]
  exact pairwise_keys.2 hr.sorted

/-! ### The pages together -/

/-- The page of the `k`th query. -/
def page (cut : ℕ → ℕ) (rows : ℕ → List α) (k : ℕ) : List α :=
  ((rows k).drop (cut k)).take (cut (k + 1) - cut k)

/-- The first `n` pages, one after the other. -/
def pages (cut : ℕ → ℕ) (rows : ℕ → List α) (n : ℕ) : List α :=
  (List.range n).flatMap (page cut rows)

/-- One more page follows those before it. -/
theorem pages_succ (cut : ℕ → ℕ) (rows : ℕ → List α) (n : ℕ) :
    pages cut rows (n + 1) = pages cut rows n ++ page cut rows n := by
  rw [pages, pages, List.range_succ, List.flatMap_append, List.flatMap_singleton]

/-- Fewer pages are part of more. -/
theorem pages_sublist (cut : ℕ → ℕ) (rows : ℕ → List α) {m n : ℕ} (h : m ≤ n) :
    (pages cut rows m).Sublist (pages cut rows n) := by
  induction n, h using Nat.le_induction with
  | base => exact .refl _
  | succ n _ ih =>
    rw [pages_succ]
    exact ih.trans (List.sublist_append_left _ _)

section

variable {cut : ℕ → ℕ} {rows : ℕ → List α} (h0 : cut 0 = 0) (hcut : ∀ k, cut k ≤ cut (k + 1))

include hcut in
/-- A page continues what was taken up to its cut. -/
theorem take_append_page (l : List α) (k : ℕ) :
    l.take (cut k) ++ (l.drop (cut k)).take (cut (k + 1) - cut k) = l.take (cut (k + 1)) := by
  rw [← List.take_add, Nat.add_sub_cancel' (hcut k)]

include h0 hcut

/-- **The pages are in order**, whatever the queries see: their keys are the keys
of one sorting up to the last cut. -/
theorem map_key_pages (hr : IsSorting key all r) (hrows : ∀ k, IsSorting key all (rows k)) (n : ℕ) :
    (pages cut rows n).map key = (r.map key).take (cut n) := by
  induction n with
  | zero => rw [h0]; rfl
  | succ n ih =>
    rw [pages_succ, List.map_append, ih, page, List.map_take, List.map_drop,
      (hrows n).map_key_eq hr, take_append_page hcut]

/-- All pages together have as many elements as there are, up to the last cut. -/
theorem length_pages (hrows : ∀ k, IsSorting key all (rows k)) (n : ℕ) :
    (pages cut rows n).length = min (cut n) all.length := by
  have hlen := congrArg List.length (map_key_pages h0 hcut (hrows 0) hrows n)
  rwa [List.length_map, List.length_take, List.length_map, (hrows 0).length_eq] at hlen

/-- **The pages are sorted**, one after another, even if each was taken from another
sorting. -/
theorem sorted_pages (hrows : ∀ k, IsSorting key all (rows k)) (n : ℕ) :
    (pages cut rows n).Pairwise fun a b => key b ≤ key a := by
  refine pairwise_keys.1 ?_
  rw [map_key_pages h0 hcut (hrows 0) hrows]
  exact (pairwise_keys.2 (hrows 0).sorted).sublist (List.take_sublist _ _)

/-- Queries that all see one sorting read it from its start. -/
theorem pages_eq_take {n : ℕ} (hrows : ∀ k < n, rows k = r) :
    pages cut rows n = r.take (cut n) := by
  induction n with
  | zero => rw [h0]; rfl
  | succ n ih =>
    rw [pages_succ, ih fun k hk => hrows k (Nat.lt_succ_of_lt hk), page,
      hrows n (Nat.lt_succ_self n), take_append_page hcut]

end

/-! ### Where every cut is clean -/

/-- What a sorting has before a clean cut: all of the elements whose keys are there. -/
theorem count_take [DecidableEq α] (hr : IsSorting key all r) (hc : CleanCut key r o) (x : α) :
    (r.take o).count x = if key x ∈ (r.map key).take o then all.count x else 0 := by
  split_ifs with hx
  · have hnot : x ∉ r.drop o := by
      intro hmem
      rw [← List.map_take] at hx
      obtain ⟨a, ha, heq⟩ := List.mem_map.1 hx
      exact hc a ha x hmem heq.symm
    rw [← hr.perm.count_eq x]
    conv_rhs => rw [← List.take_append_drop o r]
    rw [List.count_append, List.count_eq_zero.2 hnot, Nat.add_zero]
  · refine List.count_eq_zero.2 fun hmem => hx ?_
    rw [← List.map_take]
    exact List.mem_map_of_mem hmem

/-- **Before a clean cut all sortings have the same elements.** -/
theorem take_perm (hr : IsSorting key all r) (hr' : IsSorting key all r')
    (hc : CleanCut key r o) : (r.take o).Perm (r'.take o) := by
  classical
  refine List.perm_iff_count.2 fun x => ?_
  have hkeys := hr'.map_key_eq hr
  rw [count_take hr hc, count_take hr' (hc.of_map_key_eq hkeys), hkeys]

/-- **Where every cut is clean the pages hold each element once**: they are a
permutation of one sorting up to the last cut. -/
theorem pages_perm {cut : ℕ → ℕ} {rows : ℕ → List α} (h0 : cut 0 = 0)
    (hcut : ∀ k, cut k ≤ cut (k + 1)) (hr : IsSorting key all r)
    (hrows : ∀ k, IsSorting key all (rows k)) (hclean : ∀ k, CleanCut key r (cut k)) (n : ℕ) :
    (pages cut rows n).Perm (r.take (cut n)) := by
  induction n with
  | zero => rw [h0]; exact .refl _
  | succ n ih =>
    have hbefore := ih.trans (take_perm hr (hrows n) (hclean n))
    have hpage := hbefore.append_right (page cut rows n)
    rw [page, take_append_page hcut, ← page, ← pages_succ] at hpage
    exact hpage.trans (take_perm hr (hrows n) (hclean (n + 1))).symm

/-! ### Where one is not -/

/-- At a cut that is not clean the neighbours have one key. -/
theorem IsSorting.tie_of_not_cleanCut (hr : IsSorting key all r) (hc : ¬CleanCut key r o) :
    ∃ l x y t, r = l ++ x :: y :: t ∧ l.length + 1 = o ∧ key x = key y := by
  simp only [CleanCut, not_forall, not_not] at hc
  obtain ⟨a, ha, b, hb, heq⟩ := hc
  obtain ⟨l, x, hl⟩ := (r.take o).eq_nil_or_concat.resolve_left (List.ne_nil_of_mem ha)
  obtain ⟨y, t, ht⟩ := List.exists_cons_of_ne_nil (List.ne_nil_of_mem hb)
  have hsplit : r = l ++ x :: y :: t := by
    rw [← List.take_append_drop o r, hl, ht, List.concat_eq_append, List.append_assoc]
    rfl
  have ho : o < r.length := by
    by_contra hle
    rw [List.drop_eq_nil_of_le (Nat.le_of_not_lt hle)] at hb
    cases hb
  have hlen : l.length + 1 = o := by
    have := congrArg List.length hl
    rw [List.length_take, List.concat_eq_append, List.length_append] at this
    simp only [List.length_singleton] at this
    omega
  refine ⟨l, x, y, t, hsplit, hlen, ?_⟩
  -- the keys only fall from `a` over `x` and `y` to `b`
  have hsorted := hr.sorted
  rw [hsplit, List.pairwise_append, List.pairwise_cons, List.pairwise_cons] at hsorted
  obtain ⟨-, ⟨hx, hy, -⟩, hbefore⟩ := hsorted
  rw [hl, List.concat_eq_append, List.mem_append, List.mem_singleton] at ha
  rw [ht, List.mem_cons] at hb
  have hxa : key x ≤ key a := by
    rcases ha with ha | rfl
    · exact hbefore a ha x List.mem_cons_self
    · exact le_rfl
  have hby : key b ≤ key y := by
    rcases hb with rfl | hb
    · exact le_rfl
    · exact hy b hb
  refine le_antisymm ?_ (hx y List.mem_cons_self)
  calc key x ≤ key a := hxa
    _ = key b := heq.symm
    _ ≤ key y := hby

/-- **Where a cut is not clean the next query can bring an element again**: it
sees the neighbours of the cut swapped. -/
theorem exists_pages_not_nodup {cut : ℕ → ℕ} (h0 : cut 0 = 0) (hcut : ∀ k, cut k ≤ cut (k + 1))
    (hr : IsSorting key all r) {k : ℕ} (hc : ¬CleanCut key r (cut (k + 1)))
    (hlt : cut (k + 1) < cut (k + 2)) :
    ∃ r', IsSorting key all r' ∧
      ¬(pages cut (Function.update (fun _ => r) (k + 1) r') (k + 2)).Nodup := by
  obtain ⟨l, x, y, t, hsplit, hlen, heq⟩ := hr.tie_of_not_cleanCut hc
  have hswap : IsSorting key all (l ++ y :: x :: t) := by
    refine hr.of_map_key_eq ?_ ?_
    · rw [hsplit]
      exact (List.Perm.swap x y t).append_left l
    · rw [hsplit]
      simp only [List.map_append, List.map_cons, heq]
  refine ⟨l ++ y :: x :: t, hswap, fun hnodup => ?_⟩
  rw [pages_succ, pages_eq_take h0 hcut (r := r) fun j hj => Function.update_of_ne (by omega) _ _,
    page, Function.update_self, ← hlen] at hnodup
  have hbefore : x ∈ r.take (l.length + 1) := by
    rw [hsplit, List.take_length_add_append]
    exact List.mem_append_right _ List.mem_cons_self
  have hagain :
      x ∈ ((l ++ y :: x :: t).drop (l.length + 1)).take (cut (k + 2) - (l.length + 1)) := by
    rw [List.drop_length_add_append]
    obtain ⟨c, hc⟩ := Nat.exists_eq_add_of_lt hlt
    rw [hlen, hc, show cut (k + 1) + c + 1 - cut (k + 1) = c + 1 by omega]
    exact List.mem_cons_self
  exact List.disjoint_of_nodup_append hnodup hbefore hagain

end Lib
end YtShare
