/-
# Items that come in order

A consumer is handed items one at a time and keeps those it was handed.
`ready H a` says that it may be handed `a` when it has `H`, and `InOrder` that
every item of a list may be handed over when its turn comes.  Queues between a
producer and the consumer do not matter to it: what matters is the order in
which the items will come, so lists are split and joined (`inOrder_append`),
cut off (`InOrder.of_prefix`) and moved behind other items (`InOrder.shift`).
-/

import Mathlib.Data.List.Basic

namespace YtShare
namespace Lib

variable {α : Type} {ready ready' : List α → α → Prop}

/-- Every item is ready when its turn comes, after `H`. -/
def InOrder (ready : List α → α → Prop) : List α → List α → Prop
  | _, [] => True
  | H, a :: as => ready H a ∧ InOrder ready (H ++ [a]) as

/-- Elements in a row come in order if the first do, and then the others after them. -/
theorem inOrder_append {H as bs : List α} :
    InOrder ready H (as ++ bs) ↔ InOrder ready H as ∧ InOrder ready (H ++ as) bs := by
  induction as generalizing H with
  | nil => rw [List.nil_append, List.append_nil]; exact (and_iff_right trivial).symm
  | cons a as ih =>
    have hH : H ++ a :: as = H ++ [a] ++ as := by rw [List.append_assoc]; rfl
    rw [List.cons_append, InOrder, InOrder, ih, hH, and_assoc]

/-- What is cut off at the end was not needed by what comes before. -/
theorem InOrder.of_prefix {H as bs : List α} (h : InOrder ready H bs) (hp : as <+: bs) :
    InOrder ready H as := by
  obtain ⟨rest, rfl⟩ := hp
  exact (inOrder_append.1 h).1

/-- One more item at the end. -/
theorem InOrder.snoc {H as : List α} (h : InOrder ready H as) {a : α} (ha : ready (H ++ as) a) :
    InOrder ready H (as ++ [a]) :=
  inOrder_append.2 ⟨h, ha, trivial⟩

/-- **Moving items behind others.** -/
theorem InOrder.shift {G H as : List α} (hr : ∀ H a, ready H a → ready' (G ++ H) a)
    (h : InOrder ready H as) : InOrder ready' (G ++ H) as := by
  induction as generalizing H with
  | nil => trivial
  | cons a as ih =>
    refine ⟨hr H a h.1, ?_⟩
    rw [List.append_assoc]
    exact ih h.2

/-- What is ready in a stronger sense comes in order in a weaker one. -/
theorem InOrder.imp {H as : List α} (hr : ∀ H a, ready H a → ready' H a)
    (h : InOrder ready H as) : InOrder ready' H as :=
  h.shift (G := []) hr

/-- A consumer that has more is ready for the same items. -/
theorem InOrder.mono (hr : ∀ H H' a, H ⊆ H' → ready H a → ready H' a) {H H' as : List α}
    (hH : H ⊆ H') (h : InOrder ready H as) : InOrder ready H' as := by
  induction as generalizing H H' with
  | nil => trivial
  | cons a as ih =>
    refine ⟨hr H H' a hH h.1, ih ?_ h.2⟩
    exact List.append_subset.2
      ⟨List.subset_append_of_subset_left _ hH, List.subset_append_right _ _⟩

end Lib
end YtShare
