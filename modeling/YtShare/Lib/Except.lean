/-
# Computations that may fail

A chain of steps that ends well has made each of its steps well: `ok_of_bind` and
`ok_of_map` take the last step off such a chain, so that a result can be read back to
what it was made of, one step after the other.
-/

import Mathlib.Init

namespace YtShare
namespace Lib

variable {ε α β : Type}

/-- A computation that succeeds has succeeded in both its parts. -/
theorem ok_of_bind {x : Except ε α} {f : α → Except ε β} {b : β} (h : x.bind f = .ok b) :
    ∃ a, x = .ok a ∧ f a = .ok b := by
  cases x with
  | error e => cases h
  | ok a => exact ⟨a, rfl, h⟩

/-- What is made of a result needs a result. -/
theorem ok_of_map {x : Except ε α} {f : α → β} {b : β} (h : x.map f = .ok b) :
    ∃ a, x = .ok a ∧ f a = b := by
  cases x with
  | error e => cases h
  | ok a => exact ⟨a, rfl, Except.ok.inj h⟩

/-- What follows a result goes on from it. -/
theorem bind_of_ok {x : Except ε α} {a : α} (h : x = .ok a) (f : α → Except ε β) :
    (x >>= f) = f a := by
  rw [h]
  rfl

end Lib
end YtShare
