/-
# Buffered channels

A channel of Go with a buffer of `cap` elements, seen from outside the
scheduler: the elements sent and not yet received, oldest first, and whether
the channel is closed.  The bound on the buffer is a field, so a channel that
holds more than its capacity cannot be built.

`trySend` is the send case of a `select` with a `default`: it sends, finds the
buffer full, or panics on a closed channel.  `close` of a closed channel
panics, which is the `none` here.  A receive takes the oldest element, also
from a closed channel that still holds some.
-/

import Mathlib.Data.List.Basic

namespace YtShare
namespace Lib

/-- A channel with a buffer of `cap` elements. -/
structure Chan (α : Type) (cap : ℕ) where
  buf : List α
  closed : Bool
  fits : buf.length ≤ cap

namespace Chan

variable {α : Type} {cap : ℕ}

/-- `make(chan α, cap)`. -/
def make (α : Type) (cap : ℕ) : Chan α cap := ⟨[], false, Nat.zero_le _⟩

/-- What a send that does not block can come to. -/
inductive Sent (α : Type) (cap : ℕ)
  | sent (c : Chan α cap)
  | full
  | panic

/-- The buffer has no room left. -/
def isFull (c : Chan α cap) : Bool := decide (cap ≤ c.buf.length)

/-- A send that does not block. -/
def trySend (c : Chan α cap) (x : α) : Sent α cap :=
  if c.closed then .panic
  else if h : c.buf.length < cap then
    .sent ⟨c.buf ++ [x], c.closed, by rw [List.length_append]; exact h⟩
  else .full

/-- `close(c)`, `none` for the panic on a closed channel. -/
def close (c : Chan α cap) : Option (Chan α cap) :=
  if c.closed then none else some ⟨c.buf, true, c.fits⟩

/-- A receive that does not block: the oldest element and the rest. -/
def recv (c : Chan α cap) : Option (α × Chan α cap) :=
  match h : c.buf with
  | [] => none
  | x :: xs =>
      some (x, ⟨xs, c.closed, by have := c.fits; rw [h] at this; exact Nat.le_of_succ_le this⟩)

/-- What was sent, from the channel before and after one step. -/
def added (old new : Chan α cap) : List α := new.buf.drop old.buf.length

/-- What was received, from the channel before and after one step. -/
def removed (old new : Chan α cap) : List α := old.buf.take (old.buf.length - new.buf.length)

/-- Two channels are equal when their buffers are, and when they are both open or both
closed. -/
@[ext] theorem ext {c d : Chan α cap} (hb : c.buf = d.buf) (hc : c.closed = d.closed) : c = d := by
  cases c; cases d; cases hb; cases hc; rfl

/-- A channel is full when its buffer has as many elements as it may have. -/
theorem isFull_iff (c : Chan α cap) : c.isFull = true ↔ c.buf.length = cap := by
  rw [isFull, decide_eq_true_iff]
  exact ⟨fun h => Nat.le_antisymm c.fits h, fun h => Nat.le_of_eq h.symm⟩

/-- **What a send does.**  It appends to an open channel with room, and that
is all it does. -/
theorem trySend_eq_sent {c d : Chan α cap} {x : α} (h : c.trySend x = .sent d) :
    c.closed = false ∧ c.isFull = false ∧ d.buf = c.buf ++ [x] ∧ d.closed = false := by
  unfold trySend at h
  split_ifs at h with hc hl
  obtain rfl := Sent.sent.inj h
  have hc' : c.closed = false := Bool.eq_false_iff.2 hc
  exact ⟨hc', decide_eq_false (Nat.not_le.2 hl), rfl, hc'⟩

/-- A send is refused only by an open channel that is full. -/
theorem trySend_eq_full {c : Chan α cap} {x : α} (h : c.trySend x = .full) :
    c.closed = false ∧ c.isFull = true := by
  unfold trySend at h
  split_ifs at h with hc hl
  exact ⟨Bool.eq_false_iff.2 hc, decide_eq_true (Nat.not_lt.1 hl)⟩

/-- A send on an open channel does not panic. -/
theorem trySend_ne_panic {c : Chan α cap} {x : α} (h : c.closed = false) :
    c.trySend x ≠ .panic := by
  unfold trySend
  rw [if_neg (by rw [h]; exact Bool.false_ne_true)]
  split_ifs <;> exact nofun

/-- An open channel can be closed, and keeps what it holds. -/
theorem close_of_open {c : Chan α cap} (h : c.closed = false) :
    c.close = some ⟨c.buf, true, c.fits⟩ := by
  rw [close, h]; rfl

/-- Closing succeeds on an open channel only, which is then closed. -/
theorem close_eq_some {c d : Chan α cap} (h : c.close = some d) :
    c.closed = false ∧ d.closed = true ∧ d.buf = c.buf := by
  obtain ⟨hc, h⟩ := Option.ite_none_left_eq_some.1 h
  obtain rfl := Option.some.inj h
  exact ⟨Bool.eq_false_iff.2 hc, rfl, rfl⟩

/-- A send panics on a closed channel, and there only. -/
theorem trySend_eq_panic {c : Chan α cap} {x : α} : c.trySend x = .panic ↔ c.closed = true := by
  unfold trySend
  split_ifs with hc hl
  · exact iff_of_true rfl hc
  · exact iff_of_false nofun hc
  · exact iff_of_false nofun hc

/-- What is received is the oldest element. -/
theorem recv_eq_some {c d : Chan α cap} {x : α} (h : c.recv = some (x, d)) :
    c.buf = x :: d.buf ∧ d.closed = c.closed := by
  unfold recv at h
  split at h
  · exact absurd h (by simp)
  · rename_i y ys hb
    obtain ⟨rfl, rfl⟩ := Prod.mk.inj (Option.some.inj h)
    exact ⟨hb, rfl⟩

/-- A receive comes back with nothing from an empty channel only. -/
theorem recv_eq_none {c : Chan α cap} (h : c.recv = none) : c.buf = [] := by
  unfold recv at h
  split at h
  · assumption
  · exact absurd h (by simp)

/-- Nothing was added to a buffer that stays the same. -/
theorem added_eq_nil {c d : Chan α cap} (h : d.buf = c.buf) : c.added d = [] := by
  rw [added, h, List.drop_length]

/-- And nothing removed. -/
theorem removed_eq_nil {c d : Chan α cap} (h : d.buf = c.buf) : c.removed d = [] := by
  rw [removed, h, Nat.sub_self, List.take_zero]

/-- A channel that only grew lost nothing. -/
theorem removed_of_prefix {c d : Chan α cap} (h : c.buf <+: d.buf) : c.removed d = [] := by
  rw [removed, Nat.sub_eq_zero_of_le h.length_le, List.take_zero]

/-- What was sent is what was added. -/
theorem added_of_sent {c d : Chan α cap} {x : α} (h : d.buf = c.buf ++ [x]) : c.added d = [x] := by
  rw [added, h, List.drop_left]

/-- A send removes nothing. -/
theorem removed_of_sent {c d : Chan α cap} {x : α} (h : d.buf = c.buf ++ [x]) :
    c.removed d = [] := by
  rw [removed, h, List.length_append, Nat.sub_eq_zero_of_le (Nat.le_add_right _ _), List.take_zero]

/-- A receive adds nothing. -/
theorem added_of_recv {c d : Chan α cap} {x : α} (h : c.buf = x :: d.buf) : c.added d = [] := by
  rw [added, h]
  exact List.drop_eq_nil_of_le (Nat.le_succ _)

/-- What was received is what was removed. -/
theorem removed_of_recv {c d : Chan α cap} {x : α} (h : c.buf = x :: d.buf) :
    c.removed d = [x] := by
  rw [removed, h, List.length_cons, Nat.add_sub_cancel_left]
  rfl

end Chan

end Lib
end YtShare
