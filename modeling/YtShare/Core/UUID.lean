/-
# Identifiers and instants

`uuid.UUID` of `github.com/google/uuid` is `[16]byte`; here it is the 128-bit
number the bytes spell, most significant byte first.  `uuid.Nil` is the number
`0`, and `String` writes the 32 hexadecimal digits in groups of 8, 4, 4, 4 and
12 with a dash between groups.

`time.Time` is the number of nanoseconds since the zero time of Go, so that
`IsZero` is `ns = 0`.
-/

import Mathlib.Algebra.Order.Ring.Int
import Mathlib.Data.List.Basic

namespace YtShare

/-- `uuid.UUID`. -/
structure UUID where
  bits : BitVec 128
deriving DecidableEq

/-- `uuid.Nil`. -/
def UUID.nil : UUID := ⟨0⟩

/-- The `k`-th hexadecimal digit of the identifier, the most significant first. -/
def UUID.nibble (u : UUID) (k : ℕ) : ℕ := u.bits.toNat / 16 ^ (31 - k) % 16

/-- A hexadecimal digit, in lower case as `encoding/hex` writes it. -/
def hexDigit (n : ℕ) : Char := "0123456789abcdef".toList.getD n '0'

/-- The digits from position `k` on, `n` of them. -/
def UUID.group (u : UUID) (k n : ℕ) : List Char :=
  (List.range n).map fun i => hexDigit (u.nibble (k + i))

/-- `UUID.String`, as the list of its characters. -/
def UUID.chars (u : UUID) : List Char :=
  u.group 0 8 ++ '-' :: (u.group 8 4 ++ '-' :: (u.group 12 4 ++ '-' ::
    (u.group 16 4 ++ '-' :: u.group 20 12)))

/-- `UUID.String`. -/
def UUID.string (u : UUID) : String := String.ofList u.chars

/-- `time.Time`, as nanoseconds since the zero time. -/
structure Time where
  ns : ℤ
deriving DecidableEq

/-- `Time.IsZero`. -/
def Time.isZero (t : Time) : Bool := decide (t.ns = 0)

/-- What a `TIMESTAMPTZ` column keeps of an instant: its microseconds. -/
def Time.timestamptz (t : Time) : Time := ⟨t.ns / 1000 * 1000⟩

/-- Cutting to microseconds keeps the order of instants. -/
theorem Time.timestamptz_mono {t u : Time} (h : t.ns ≤ u.ns) :
    t.timestamptz.ns ≤ u.timestamptz.ns := by
  simp only [timestamptz]
  omega

end YtShare
