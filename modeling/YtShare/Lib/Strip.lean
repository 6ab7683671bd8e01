/-
# Stripping code words

A text that begins with words of a code is stripped of them, one after the
other.  When no word begins another there is one way to do so, and what is
stripped is what was put there (`strip_flatten`).
-/

import Mathlib.Data.List.Basic

namespace YtShare
namespace Lib

variable {α : Type*} [DecidableEq α] {words : List (List α)}

/-- The text without the words at its beginning, at most `n` of them. -/
def stripN (words : List (List α)) : ℕ → List α → List α
  | 0, s => s
  | n + 1, s =>
      match words.find? fun w => w.isPrefixOf s with
      | none => s
      | some w => stripN words n (s.drop w.length)

/-- The text without the words at its beginning. -/
def strip (words : List (List α)) (s : List α) : List α := stripN words s.length s

/-- No word begins another, and none is empty. -/
def PrefixFree (words : List (List α)) : Prop :=
  [] ∉ words ∧ ∀ u ∈ words, ∀ w ∈ words, u <+: w → u = w

instance (words : List (List α)) : Decidable (PrefixFree words) :=
  inferInstanceAs (Decidable (_ ∧ ∀ u ∈ words, ∀ w ∈ words, u <+: w → u = w))

/-- The word that a text begins with is the one put there. -/
theorem PrefixFree.find_append (h : PrefixFree words) {w : List α} (hw : w ∈ words) (s : List α) :
    (words.find? fun u => u.isPrefixOf (w ++ s)) = some w := by
  have hpre : w.isPrefixOf (w ++ s) = true := List.isPrefixOf_iff_prefix.2 (List.prefix_append w s)
  obtain ⟨u, hu⟩ : ∃ u, (words.find? fun u => u.isPrefixOf (w ++ s)) = some u :=
    Option.isSome_iff_exists.1 (List.find?_isSome.2 ⟨w, hw, hpre⟩)
  have hmem := List.mem_of_find?_eq_some hu
  have htrue : u.isPrefixOf (w ++ s) = true := by simpa using List.find?_some hu
  have hpre' : u <+: w ++ s := List.isPrefixOf_iff_prefix.1 htrue
  rw [hu]
  rcases List.prefix_or_prefix_of_prefix hpre' (List.prefix_append w s) with he | he
  · rw [h.2 u hmem w hw he]
  · rw [h.2 w hw u hmem he]

/-- Words in a row are stripped off, as long as none begins another one, up to where no
word stands. -/
theorem stripN_flatten (h : PrefixFree words) {ws : List (List α)} (hws : ∀ w ∈ ws, w ∈ words)
    {s : List α} (hs : ∀ w ∈ words, ¬w <+: s) {n : ℕ} (hn : ws.length ≤ n) :
    stripN words n (ws.flatten ++ s) = s := by
  induction ws generalizing n with
  | nil =>
    cases n with
    | zero => rfl
    | succ n =>
      have hnone : (words.find? fun w => w.isPrefixOf s) = none :=
        List.find?_eq_none.2 fun w hw hp => hs w hw (List.isPrefixOf_iff_prefix.1 hp)
      rw [List.flatten_nil, List.nil_append, stripN, hnone]
  | cons w ws ih =>
    obtain ⟨n, rfl⟩ : ∃ k, n = k + 1 := ⟨n - 1, by rw [List.length_cons] at hn; omega⟩
    have hfind := h.find_append (hws w List.mem_cons_self) (ws.flatten ++ s)
    rw [List.flatten_cons, List.append_assoc, stripN, hfind]
    simp only [List.drop_left]
    exact ih (fun v hv => hws v (List.mem_cons_of_mem _ hv)) (Nat.le_of_succ_le_succ hn)

/-- **What is stripped is what was put there.** -/
theorem strip_flatten (h : PrefixFree words) {ws : List (List α)} (hws : ∀ w ∈ ws, w ∈ words)
    {s : List α} (hs : ∀ w ∈ words, ¬w <+: s) : strip words (ws.flatten ++ s) = s := by
  refine stripN_flatten h hws hs ?_
  have hlen : ∀ vs : List (List α), (∀ v ∈ vs, v ∈ words) → vs.length ≤ vs.flatten.length := by
    intro vs hvs
    induction vs with
    | nil => exact Nat.le_refl _
    | cons v vs ih =>
      have hv : v ≠ [] := fun he => h.1 (he ▸ hvs v List.mem_cons_self)
      have hpos := List.length_pos_iff.2 hv
      have htail := ih fun u hu => hvs u (List.mem_cons_of_mem _ hu)
      rw [List.flatten_cons, List.length_append, List.length_cons]
      omega
  rw [List.length_append]
  exact Nat.le_trans (hlen ws hws) (Nat.le_add_right _ _)

end Lib
end YtShare
