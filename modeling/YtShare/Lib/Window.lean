/-
# Sliding windows

A history to which an element is added only when it is not among the last `n`
(`Admitted`).  Its window, the last `n` elements, holds no element twice, and two
occurrences of one element are `n` other elements apart (`Admitted.apart`).

A queue that takes the new element in at one end and, when it has grown beyond
`n`, drops one at the other is the window of the longer history (`rtake_concat`).
-/

import Mathlib.Data.Finset.Card
import Mathlib.Data.List.DropRight
import Mathlib.Data.List.Nodup

namespace YtShare
namespace Lib

variable {α : Type*} {n : ℕ} {h : List α} {x : α}

/-- Every element of the history was new to the `n` before it. -/
def Admitted (n : ℕ) (h : List α) : Prop := ∀ pre x, pre ++ [x] <+: h → x ∉ pre.rtake n

/-- Nothing has been admitted twice at the start. -/
theorem admitted_nil : Admitted n ([] : List α) := by
  intro pre x hpre
  exact absurd (List.prefix_nil.1 hpre)
    (List.append_ne_nil_of_right_ne_nil _ (List.cons_ne_nil _ _))

/-- An element is admitted after the others if it is not among the last `n` of them. -/
theorem admitted_concat : Admitted n (h ++ [x]) ↔ Admitted n h ∧ x ∉ h.rtake n := by
  constructor
  · intro ha
    exact ⟨fun pre y hpre => ha pre y (hpre.trans (List.prefix_append _ _)),
      ha h x (List.prefix_refl _)⟩
  · rintro ⟨ha, hx⟩ pre y hpre
    rcases List.prefix_concat_iff.1 hpre with he | hpre
    · obtain ⟨rfl, hy⟩ := List.append_inj' he rfl
      rw [(List.cons.inj hy).1]
      exact hx
    · exact ha pre y hpre

/-- A window is full as soon as there are enough elements. -/
theorem length_rtake (n : ℕ) (h : List α) : (h.rtake n).length = min n h.length := by
  rw [List.rtake, List.length_drop]
  omega

/-- **The queue is the window** of the longer history. -/
theorem rtake_concat (n : ℕ) (h : List α) (x : α) :
    (h ++ [x]).rtake n =
      if n < (h.rtake n ++ [x]).length then (h.rtake n ++ [x]).tail else h.rtake n ++ [x] := by
  have hwindow : h.rtake n ++ [x] = (h ++ [x]).drop (h.length - n) := by
    rw [List.rtake, List.drop_append_of_le_length (Nat.sub_le _ _)]
  rw [hwindow, List.tail_drop, List.rtake, List.length_drop, List.length_append,
    List.length_singleton]
  split_ifs with hlt
  · rw [show h.length + 1 - n = h.length - n + 1 by omega]
  · rw [show h.length + 1 - n = h.length - n by omega]

namespace Admitted

/-- No element is twice in the window. -/
theorem nodup (ha : Admitted n h) : (h.rtake n).Nodup := by
  induction h using List.reverseRecOn with
  | nil => simp
  | append_singleton h x ih =>
    obtain ⟨hh, hx⟩ := admitted_concat.1 ha
    have hnew : (h.rtake n ++ [x]).Nodup := by
      rw [← List.concat_eq_append]
      exact (ih hh).concat hx
    rw [rtake_concat]
    split_ifs
    · exact hnew.sublist (List.tail_sublist _)
    · exact hnew

/-- A new element makes the window longer by one, before it slides. -/
theorem nodup_concat (ha : Admitted n h) (hx : x ∉ h.rtake n) : (h.rtake n ++ [x]).Nodup := by
  rw [← List.concat_eq_append]
  exact ha.nodup.concat hx

/-- What was admitted was so at every earlier time. -/
theorem of_prefix {p : List α} (ha : Admitted n h) (hp : p <+: h) : Admitted n p :=
  fun pre x hpre => ha pre x (hpre.trans hp)

/-- **Two occurrences of one element are `n` other elements apart.** -/
theorem apart [DecidableEq α] {a b c : List α} (ha : Admitted n (a ++ x :: (b ++ x :: c))) :
    n ≤ (b.toFinset.erase x).card := by
  have hpre : (a ++ x :: b) ++ [x] <+: a ++ x :: (b ++ x :: c) := ⟨c, by simp⟩
  obtain ⟨hbefore, hx⟩ := admitted_concat.1 (ha.of_prefix hpre)
  have hlen : (a ++ x :: b).length = a.length + (b.length + 1) := by
    rw [List.length_append, List.length_cons]
  -- the window does not reach back to the first occurrence
  have hle : n ≤ b.length := by
    by_contra hlt
    refine hx ?_
    rw [List.rtake, List.drop_append_of_le_length (by omega)]
    exact List.mem_append_right _ List.mem_cons_self
  have hwindow : (a ++ x :: b).rtake n = b.rtake n := by
    rw [List.rtake, List.rtake, List.drop_append, hlen, List.drop_eq_nil_of_le (by omega),
      List.nil_append, show a.length + (b.length + 1) - n - a.length = b.length - n + 1 by omega,
      List.drop_succ_cons]
  rw [hwindow] at hx
  have hnodup := hbefore.nodup
  rw [hwindow] at hnodup
  have hcard : (b.rtake n).toFinset.card = n := by
    rw [List.toFinset_card_of_nodup hnodup, length_rtake, Nat.min_eq_left hle]
  rw [← hcard]
  refine Finset.card_le_card fun y hy => ?_
  rw [List.mem_toFinset] at hy
  refine Finset.mem_erase.2 ⟨fun he => hx (he ▸ hy), List.mem_toFinset.2 ?_⟩
  exact List.mem_of_mem_drop hy

end Admitted

end Lib
end YtShare
