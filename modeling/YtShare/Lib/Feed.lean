/-
# What a subscriber is due

A log grows at its end.  A subscriber that joins when the log has `i` entries
and leaves when it has `n` is due the entries from `i` up to `n` that are for
it, in log order: `feed p log i n`.  `feed_snoc` says how a feed grows with the
log, `feed_append` that the entries after `n` play no part in it, and
`getElem?_feed` where in the feed an entry of the log stands, so that each
entry for the subscriber is in its feed once and in order.
-/

import Mathlib.Data.List.Basic

namespace YtShare
namespace Lib

variable {μ : Type}

/-- The entries `i ≤ k < n` of the log that meet `p`. -/
def feed (p : μ → Bool) (log : List μ) (i n : ℕ) : List μ := ((log.take n).drop i).filter p

/-- Nothing lies between a place and itself. -/
theorem feed_self (p : μ → Bool) (log : List μ) (n : ℕ) : feed p log n n = [] := by
  rw [feed, List.drop_eq_nil_of_le (by rw [List.length_take]; exact Nat.min_le_left _ _),
    List.filter_nil]

/-- Later entries are not in an earlier feed. -/
theorem feed_append (p : μ → Bool) {log : List μ} (more : List μ) (i : ℕ) {n : ℕ}
    (hn : n ≤ log.length) : feed p (log ++ more) i n = feed p log i n := by
  rw [feed, feed, List.take_append_of_le_length hn]

/-- A feed grows by a new entry that is for the subscriber, and by no other. -/
theorem feed_snoc (p : μ → Bool) {log : List μ} (m : μ) {i : ℕ} (hi : i ≤ log.length) :
    feed p (log ++ [m]) i (log.length + 1) =
      feed p log i log.length ++ if p m = true then [m] else [] := by
  have hfull : (log ++ [m]).take (log.length + 1) = log ++ [m] :=
    List.take_of_length_le (by rw [List.length_append]; exact Nat.le_refl _)
  rw [feed, feed, hfull, List.take_length, List.drop_append_of_le_length hi, List.filter_append]
  congr 1
  split_ifs with hm
  · rw [List.filter_cons_of_pos hm, List.filter_nil]
  · rw [List.filter_cons_of_neg hm, List.filter_nil]

/-- What is fed is in the log, and passes the filter. -/
theorem mem_of_mem_feed {p : μ → Bool} {log : List μ} {i n : ℕ} {m : μ} (hm : m ∈ feed p log i n) :
    m ∈ log ∧ p m = true := by
  obtain ⟨hm, hp⟩ := List.mem_filter.1 hm
  exact ⟨List.mem_of_mem_take (List.mem_of_mem_drop hm), hp⟩

/-- **An entry stands in the feed after the entries for the subscriber that came
before it.** -/
theorem getElem?_feed {p : μ → Bool} {log : List μ} {i n k : ℕ} {m : μ} (hik : i ≤ k) (hkn : k < n)
    (hm : log[k]? = some m) (hp : p m = true) :
    (feed p log i n)[(feed p log i k).length]? = some m := by
  obtain ⟨hk, hget⟩ := List.getElem?_eq_some_iff.1 hm
  have hsplit : (log.take n).drop i = (log.take k).drop i ++ m :: ((log.take n).drop (k + 1)) := by
    have htake : log.take n = log.take k ++ m :: (log.take n).drop (k + 1) := by
      have hkn' : k < (log.take n).length := by rw [List.length_take]; omega
      have hcut := (List.take_append_drop k (log.take n)).symm
      rwa [List.take_take, Nat.min_eq_left (Nat.le_of_lt hkn), List.drop_eq_getElem_cons hkn',
        List.getElem_take, hget] at hcut
    conv_lhs => rw [htake]
    rw [List.drop_append_of_le_length (by rw [List.length_take]; omega)]
  have hfeed : feed p log i n = feed p log i k ++ m :: ((log.take n).drop (k + 1)).filter p := by
    rw [feed, hsplit, List.filter_append, List.filter_cons_of_pos hp, feed]
  rw [hfeed, List.getElem?_append_right (Nat.le_refl _), Nat.sub_self, List.getElem?_cons_zero]

end Lib
end YtShare
