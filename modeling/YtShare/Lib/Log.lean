/-
# Logs with keys

A log whose entries carry strictly increasing keys, and the read that every
consumer of such a log makes: the entries strictly after a key, oldest first.
When the key is that of the `i`-th entry these are the entries from `i + 1` on
(`after_of_getElem?`), so a consumer that moves its key to the last entry it
was given reads on where it stopped.
-/

import Mathlib.Data.List.Sort
import Mathlib.Order.Basic

namespace YtShare
namespace Lib

variable {ε κ : Type} [LinearOrder κ] {key : ε → κ}

/-- The entries have strictly increasing keys. -/
def Ordered (key : ε → κ) (log : List ε) : Prop := log.Pairwise fun a b => key a < key b

/-- The entries strictly after `k`. -/
def after (key : ε → κ) (k : κ) (log : List ε) : List ε := log.filter fun e => decide (k < key e)

/-- After a key before all others comes the whole log. -/
theorem after_eq_self {k : κ} {log : List ε} (h : ∀ e ∈ log, k < key e) : after key k log = log :=
  List.filter_eq_self.2 fun e he => decide_eq_true (h e he)

/-- After one that none follows comes nothing. -/
theorem after_eq_nil {k : κ} {log : List ε} (h : ∀ e ∈ log, key e ≤ k) : after key k log = [] :=
  List.filter_eq_nil_iff.2 fun e he hlt => absurd (of_decide_eq_true hlt) (not_lt.2 (h e he))

/-- What comes after a key in a longer log. -/
theorem after_append (k : κ) (log more : List ε) :
    after key k (log ++ more) = after key k log ++ after key k more :=
  List.filter_append ..

/-- A new entry with a key after all others keeps the log ordered. -/
theorem Ordered.snoc {log : List ε} (h : Ordered key log) {e : ε}
    (he : ∀ d ∈ log, key d < key e) : Ordered key (log ++ [e]) := by
  refine List.pairwise_append.2 ⟨h, List.pairwise_singleton _ _, fun a ha b hb => ?_⟩
  rw [List.mem_singleton.1 hb]
  exact he a ha

/-- **Reading on.**  What comes after the key of the `i`-th entry are the
entries from `i + 1` on. -/
theorem Ordered.after_of_getElem? {log : List ε} (h : Ordered key log) {i : ℕ} {e : ε}
    (he : log[i]? = some e) : after key (key e) log = log.drop (i + 1) := by
  obtain ⟨hi, rfl⟩ := List.getElem?_eq_some_iff.1 he
  have hsplit : log = log.take i ++ log[i] :: log.drop (i + 1) := by
    rw [← List.drop_eq_getElem_cons hi, List.take_append_drop]
  have hord : ((log.take i) ++ log[i] :: log.drop (i + 1)).Pairwise fun a b => key a < key b := by
    rw [← hsplit]
    exact h
  obtain ⟨-, hright, hcross⟩ := List.pairwise_append.1 hord
  have hbefore : after key (key log[i]) (log.take i) = [] :=
    after_eq_nil fun d hd => (hcross d hd log[i] List.mem_cons_self).le
  have hself : after key (key log[i]) [log[i]] = [] :=
    after_eq_nil fun d hd => by rw [List.mem_singleton.1 hd]
  have hafter : after key (key log[i]) (log.drop (i + 1)) = log.drop (i + 1) :=
    after_eq_self (List.pairwise_cons.1 hright).1
  calc after key (key log[i]) log
      = after key (key log[i]) (log.take i ++ ([log[i]] ++ log.drop (i + 1))) :=
        congrArg _ hsplit
    _ = log.drop (i + 1) := by
        rw [after_append, after_append, hbefore, hself, hafter, List.nil_append, List.nil_append]

end Lib
end YtShare
