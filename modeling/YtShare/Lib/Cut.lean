/-
# Cutting a list at a separator

A parser of text comes down to a few cuts: at the first separator, at the last
one, and of what surrounds a text at either end.  Each is stated with the one
fact that composes: a text put together from parts that do not hold the
separator is cut into these parts again.
-/

import Mathlib.Data.List.TakeWhile

namespace YtShare
namespace Lib

variable {α : Type*} [DecidableEq α] {sep : α} {a b s : List α}

/-! ### The first and the last separator -/

/-- What stands before the first separator and what stands after it; everything
and nothing when there is no separator. -/
def cut (sep : α) (s : List α) : List α × List α :=
  (s.takeWhile fun x => decide (x ≠ sep), (s.dropWhile fun x => decide (x ≠ sep)).tail)

/-- A text is cut at the first separator. -/
theorem cut_append (h : sep ∉ a) (b : List α) : cut sep (a ++ sep :: b) = (a, b) := by
  have hall : ∀ x ∈ a, decide (x ≠ sep) = true := fun x hx =>
    decide_eq_true fun he => h (he ▸ hx)
  rw [cut, List.takeWhile_append_of_pos hall, List.dropWhile_append_of_pos hall]
  simp

/-- Without one all of it is before the cut. -/
theorem cut_of_notMem (h : sep ∉ s) : cut sep s = (s, []) := by
  have hall : ∀ x ∈ s, decide (x ≠ sep) = true := fun x hx =>
    decide_eq_true fun he => h (he ▸ hx)
  rw [cut, List.takeWhile_eq_self_iff.2 hall, List.dropWhile_eq_nil_iff.2 hall]
  rfl

/-- What has no separator only lengthens what is before the cut. -/
theorem cut_append_of_notMem (h : sep ∉ a) (b : List α) :
    cut sep (a ++ b) = (a ++ (cut sep b).1, (cut sep b).2) := by
  have hall : ∀ x ∈ a, decide (x ≠ sep) = true := fun x hx =>
    decide_eq_true fun he => h (he ▸ hx)
  rw [cut, List.takeWhile_append_of_pos hall, List.dropWhile_append_of_pos hall]
  rfl

/-- **A text is its two parts with the separator between them**, or has none. -/
theorem cut_spec (sep : α) (s : List α) :
    sep ∉ s ∧ cut sep s = (s, []) ∨ s = (cut sep s).1 ++ sep :: (cut sep s).2 := by
  by_cases h : sep ∈ s
  · obtain ⟨a, b, rfl, ha⟩ := List.eq_append_cons_of_mem h
    rw [cut_append ha]
    exact .inr rfl
  · exact .inl ⟨h, cut_of_notMem h⟩

/-- What is before the cut is no longer than the text. -/
theorem length_cut_le (sep : α) (s : List α) : (cut sep s).1.length ≤ s.length :=
  (List.takeWhile_sublist _).length_le

/-- A part with the separator in it is not before the cut as a whole. -/
theorem length_cut_lt (h : sep ∈ a) (b : List α) : (cut sep (a ++ b)).1.length < a.length := by
  obtain ⟨c, d, rfl, hc⟩ := List.eq_append_cons_of_mem h
  rw [List.append_assoc, List.cons_append, cut_append hc, List.length_append, List.length_cons]
  exact Nat.lt_add_of_pos_right (Nat.succ_pos _)

/-- What a text is split into at the separators. -/
theorem mem_splitOn {p : List α} (h : p ∈ s.splitOn sep) : sep ∉ p ∧ p.Sublist s := by
  induction s generalizing p with
  | nil =>
    rw [List.splitOn_nil, List.mem_singleton] at h
    rw [h]
    exact ⟨List.not_mem_nil, .refl _⟩
  | cons x s ih =>
    rw [List.splitOn_cons_eq_if_modifyHead] at h
    split_ifs at h with hx
    · rcases List.mem_cons.1 h with rfl | h
      · exact ⟨List.not_mem_nil, List.nil_sublist _⟩
      · exact ⟨(ih h).1, (ih h).2.cons x⟩
    · obtain ⟨q, qs, hq⟩ := List.exists_cons_of_ne_nil (List.splitOn_ne_nil sep s)
      rw [hq, List.modifyHead_cons] at h
      rcases List.mem_cons.1 h with rfl | h
      · obtain ⟨hno, hsub⟩ := ih (hq ▸ List.mem_cons_self)
        refine ⟨fun hm => ?_, hsub.cons_cons x⟩
        rcases List.mem_cons.1 hm with rfl | hm
        · exact hx (beq_self_eq_true _)
        · exact hno hm
      · obtain ⟨hno, hsub⟩ := ih (hq ▸ List.mem_cons_of_mem _ h)
        exact ⟨hno, hsub.cons x⟩

/-- What stands before the last separator and what stands after it, `none` when
there is no separator. -/
def cutLast (sep : α) (s : List α) : Option (List α × List α) :=
  match s.reverse.dropWhile fun x => decide (x ≠ sep) with
  | [] => none
  | _ :: before => some (before.reverse, (s.reverse.takeWhile fun x => decide (x ≠ sep)).reverse)

/-- A text is cut at the last separator. -/
theorem cutLast_append (a : List α) (h : sep ∉ b) : cutLast sep (a ++ sep :: b) = some (a, b) := by
  have hall : ∀ x ∈ b.reverse, decide (x ≠ sep) = true := fun x hx =>
    decide_eq_true fun he => h (he ▸ List.mem_reverse.1 hx)
  have hrev : (a ++ sep :: b).reverse = b.reverse ++ sep :: a.reverse := by simp
  rw [cutLast, hrev, List.takeWhile_append_of_pos hall, List.dropWhile_append_of_pos hall]
  simp

/-- Without one it is not cut. -/
theorem cutLast_of_notMem (h : sep ∉ s) : cutLast sep s = none := by
  have hall : ∀ x ∈ s.reverse, decide (x ≠ sep) = true := fun x hx =>
    decide_eq_true fun he => h (he ▸ List.mem_reverse.1 hx)
  rw [cutLast, List.dropWhile_eq_nil_iff.2 hall]

/-- **A cut at the last separator**: nothing after it holds one. -/
theorem cutLast_eq_some : cutLast sep s = some (a, b) ↔ s = a ++ sep :: b ∧ sep ∉ b := by
  constructor
  · intro h
    by_cases hs : sep ∈ s
    · obtain ⟨c, d, hcd, hc⟩ := List.eq_append_cons_of_mem (List.mem_reverse.2 hs)
      have hrev : s = d.reverse ++ sep :: c.reverse := by
        rw [← List.reverse_reverse s, hcd]
        simp
      have hc' : sep ∉ c.reverse := fun hm => hc (List.mem_reverse.1 hm)
      rw [hrev, cutLast_append _ hc'] at h
      cases h
      exact ⟨hrev, hc'⟩
    · rw [cutLast_of_notMem hs] at h
      cases h
  · rintro ⟨rfl, hb⟩
    exact cutLast_append a hb

/-- And only then. -/
theorem cutLast_eq_none : cutLast sep s = none ↔ sep ∉ s := by
  refine ⟨fun h hs => ?_, cutLast_of_notMem⟩
  obtain ⟨c, d, hcd, hc⟩ := List.eq_append_cons_of_mem (List.mem_reverse.2 hs)
  have hrev : s = d.reverse ++ sep :: c.reverse := by
    rw [← List.reverse_reverse s, hcd]
    simp
  rw [hrev, cutLast_append _ fun hm => hc (List.mem_reverse.1 hm)] at h
  cases h

/-! ### The two ends -/

/-- The text without the copies of `x` at its ends. -/
def trim (x : α) (s : List α) : List α :=
  ((s.dropWhile fun y => decide (y = x)).reverse.dropWhile fun y => decide (y = x)).reverse

/-- The text without `p` at its beginning. -/
def trimPrefix (p s : List α) : List α := if p.isPrefixOf s = true then s.drop p.length else s

/-- What was padded loses its padding. -/
theorem dropWhile_replicate_append (x : α) (n : ℕ) (h : s.head? ≠ some x) :
    (List.replicate n x ++ s).dropWhile (fun y => decide (y = x)) = s := by
  have hall : ∀ y ∈ List.replicate n x, decide (y = x) = true := fun y hy =>
    decide_eq_true (List.eq_of_mem_replicate hy)
  rw [List.dropWhile_append_of_pos hall]
  cases s with
  | nil => rfl
  | cons y s =>
    rw [List.dropWhile_cons_of_neg]
    rw [decide_eq_true_iff]
    exact fun he => h (by rw [List.head?_cons, he])

/-- **The ends are trimmed and nothing else.** -/
theorem trim_replicate (x : α) (m n : ℕ) (hh : s.head? ≠ some x) (hl : s.getLast? ≠ some x) :
    trim x (List.replicate m x ++ (s ++ List.replicate n x)) = s := by
  cases s with
  | nil =>
    rw [List.nil_append, List.replicate_append_replicate, trim]
    have hnil := dropWhile_replicate_append (s := []) x (m + n) nofun
    rw [List.append_nil] at hnil
    rw [hnil]
    rfl
  | cons y s =>
    have hrev : ((y :: s) ++ List.replicate n x).reverse =
        List.replicate n x ++ (y :: s).reverse := by
      rw [List.reverse_append, List.reverse_replicate]
    have hfront := dropWhile_replicate_append (s := y :: s ++ List.replicate n x) x m hh
    rw [trim, hfront, hrev, dropWhile_replicate_append x n,
      List.reverse_reverse]
    rwa [List.head?_reverse]

/-- A prefix that is there is taken off. -/
theorem trimPrefix_append (p s : List α) : trimPrefix p (p ++ s) = s := by
  rw [trimPrefix, if_pos (List.isPrefixOf_iff_prefix.2 (List.prefix_append p s)), List.drop_left]

/-- One that is not leaves the text. -/
theorem trimPrefix_eq_self {p : List α} (h : ¬p <+: s) : trimPrefix p s = s :=
  if_neg fun hp => h (List.isPrefixOf_iff_prefix.1 hp)

end Lib
end YtShare
