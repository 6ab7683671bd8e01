/-
# Stores whose entries die

A store of entries that are live for a while: what it shows at a time are the
entries that are live then (`shown`).  Once dead an entry stays dead, so an entry
that is dead may stay in the store or be taken out of it.

Two stores agree from some time on when they show the same (`Agree`).  They go on
to, whatever time passes (`Agree.later`), when the same is written to both of them
(`Agree.set`, `Agree.erase`).  Taking an entry out of one of them alone goes
unnoticed exactly when it is dead (`agree_erase_iff`), as long as that one holds
no more than the other (`Below`).
-/

import Mathlib.Data.Option.Basic
import Mathlib.Logic.Function.Basic
import Mathlib.Tactic.SplitIfs

namespace YtShare
namespace Lib

/-- How long entries live: what is dead stays dead. -/
structure Lifetime (τ β : Type) [LE τ] where
  live : τ → β → Bool
  anti : ∀ {t u : τ} {x : β}, t ≤ u → live u x = true → live t x = true

namespace Lifetime

variable {κ τ β : Type} [LE τ] (L : Lifetime τ β)

/-- What the store shows under a key. -/
def shown (now : τ) (m : κ → Option β) (k : κ) : Option β := (m k).filter (L.live now)

/-- The stores show the same. -/
def Agree (now : τ) (m w : κ → Option β) : Prop := ∀ k, L.shown now m k = L.shown now w k

/-- What `m` holds `w` holds, too. -/
def Below (m w : κ → Option β) : Prop := ∀ k x, m k = some x → w k = some x

variable {L} {now now' : τ} {m w : κ → Option β} {k j : κ} {x : β}

/-- A value is shown if it is stored and alive. -/
theorem shown_eq_some : L.shown now m k = some x ↔ m k = some x ∧ L.live now x = true :=
  Option.filter_eq_some_iff

/-- Nothing is shown if what is stored there is dead. -/
theorem shown_eq_none : L.shown now m k = none ↔ ∀ x, m k = some x → L.live now x = false := by
  rw [shown, Option.filter_eq_none_iff]
  exact forall₂_congr fun _ _ => Bool.not_eq_true _ ▸ Iff.rfl

/-- **What is shown later** is what of it is still live then. -/
theorem shown_later (h : now ≤ now') :
    L.shown now' m k = (L.shown now m k).filter (L.live now') := by
  cases hx : L.shown now' m k with
  | some x =>
    obtain ⟨hm, hlive⟩ := shown_eq_some.1 hx
    have hnow : L.shown now m k = some x := shown_eq_some.2 ⟨hm, L.anti h hlive⟩
    rw [hnow]
    exact (Option.filter_eq_some_iff.2 ⟨rfl, hlive⟩).symm
  | none =>
    refine (Option.filter_eq_none_iff.2 fun x hnow => ?_).symm
    rw [shown_eq_none.1 hx x (shown_eq_some.1 hnow).1]
    exact Bool.false_ne_true

/-- **Time passes alike.** -/
theorem Agree.later (ha : L.Agree now m w) (h : now ≤ now') : L.Agree now' m w := by
  intro k
  rw [shown_later h, shown_later h, ha k]

end Lifetime

/-! ### Writing -/

section Write

variable {κ τ β : Type} [DecidableEq κ] [LE τ] {L : Lifetime τ β} {now : τ}
  {m w : κ → Option β} {k : κ} {x : β}

namespace Lifetime

/-- After a change at one key, the others show what they did. -/
theorem shown_update (o : Option β) (j : κ) :
    L.shown now (Function.update m k o) j =
      if j = k then o.filter (L.live now) else L.shown now m j := by
  rw [shown, Function.update_apply]
  split_ifs
  · rfl
  · rfl

/-- What is written to both of them both of them show. -/
theorem Agree.set (ha : L.Agree now m w) (k : κ) (o : Option β) :
    L.Agree now (Function.update m k o) (Function.update w k o) := by
  intro j
  rw [shown_update, shown_update, ha j]

/-- **Taking an entry out of one of them** goes unnoticed when it is dead. -/
theorem agree_erase_iff (ha : L.Agree now m w) :
    L.Agree now (Function.update m k none) w ↔ ∀ x, m k = some x → L.live now x = false := by
  rw [← shown_eq_none, ha k]
  constructor
  · intro h
    have hk := h k
    rw [shown_update, if_pos rfl] at hk
    exact hk.symm
  · intro h j
    rw [shown_update]
    split_ifs with hj
    · rw [hj, h]
      rfl
    · exact ha j

/-- Storing what was written keeps the store below what was written. -/
theorem Below.set (hb : Below m w) (k : κ) (o : Option β) :
    Below (Function.update m k o) (Function.update w k o) := by
  intro j y hj
  rw [Function.update_apply] at hj ⊢
  split_ifs at hj ⊢
  · exact hj
  · exact hb j y hj

/-- So does forgetting a key. -/
theorem Below.erase (hb : Below m w) (k : κ) : Below (Function.update m k none) w := by
  intro j y hj
  rw [Function.update_apply] at hj
  split_ifs at hj
  exact hb j y hj

end Lifetime

end Write

end Lib
end YtShare
