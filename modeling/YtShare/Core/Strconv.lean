/-
# Decimal numbers in text

`strconv.Atoi` of Go, and the unsigned decimal numbers inside it: one or more
of the digits `0` to `9` and nothing else.
-/

import Mathlib.Algebra.Order.Ring.Int
import Mathlib.Data.List.Basic

namespace YtShare

/-- The number that a text of one or more digits writes. -/
def decimal (cs : List Char) : Option ℕ :=
  if cs ≠ [] ∧ cs.all Char.isDigit = true then
    some (cs.foldl (fun n c => 10 * n + (c.toNat - '0'.toNat)) 0)
  else none

/-- `strconv.Atoi` with the 64-bit `int`, `none` for its error. -/
def atoi (s : String) : Option ℤ :=
  let signed : Option ℤ := match s.toList with
    | '-' :: cs => (decimal cs).map fun n => -(n : ℤ)
    | '+' :: cs => (decimal cs).map fun n => (n : ℤ)
    | cs => (decimal cs).map fun n => (n : ℤ)
  signed.filter fun n => decide (-2 ^ 63 ≤ n ∧ n < 2 ^ 63)

/-- A text that is read as a number is made of digits. -/
theorem all_isDigit_of_decimal {cs : List Char} {n : ℕ} (h : decimal cs = some n) :
    ∀ c ∈ cs, c.isDigit = true := by
  unfold decimal at h
  split_ifs at h with hd
  exact List.all_eq_true.1 hd.2

/-- `strconv.Itoa`, and `%d` of an `int`. -/
def itoa : ℤ → String
  | .ofNat n => String.ofList (Nat.toDigits 10 n)
  | .negSucc n => String.ofList ('-' :: Nat.toDigits 10 (n + 1))

/-- What `Itoa` writes: digits, and a sign before them. -/
theorem itoa_eq (n : ℤ) : ∃ cs : List Char, (∀ c ∈ cs, c.isDigit = true ∨ c = '-') ∧ cs ≠ [] ∧
    itoa n = String.ofList cs := by
  have hdigits : ∀ m : ℕ, ∀ c ∈ Nat.toDigits 10 m, c.isDigit = true := fun m c hc =>
    Nat.isDigit_of_mem_toDigits (by decide) (by decide) hc
  cases n with
  | ofNat m => exact ⟨_, fun c hc => .inl (hdigits m c hc), Nat.toDigits_ne_nil, rfl⟩
  | negSucc m =>
    refine ⟨_, fun c hc => ?_, List.cons_ne_nil '-' (Nat.toDigits 10 (m + 1)), rfl⟩
    rcases List.mem_cons.1 hc with rfl | hc
    · exact .inr rfl
    · exact .inl (hdigits (m + 1) c hc)

/-- A number comes back from its digits. -/
theorem decimal_toDigits (n : ℕ) : decimal (Nat.toDigits 10 n) = some n := by
  have hall : (Nat.toDigits 10 n).all Char.isDigit = true :=
    List.all_eq_true.2 fun c hc => Nat.isDigit_of_mem_toDigits (by decide) (by decide) hc
  have hne : Nat.toDigits 10 n ≠ [] := List.ne_nil_of_length_pos Nat.length_toDigits_pos
  rw [decimal, if_pos ⟨hne, hall⟩]
  exact congrArg some Nat.ofDigitChars_ten_toDigits

/-- `Atoi` reads a text that begins with a digit as a natural number. -/
theorem atoi_ofList {cs : List Char} (h : ∀ c ∈ cs.head?, c.isDigit = true) :
    atoi (String.ofList cs) =
      ((decimal cs).map fun n : ℕ => (n : ℤ)).filter fun n =>
        decide (-2 ^ 63 ≤ n ∧ n < 2 ^ 63) := by
  rw [atoi, String.toList_ofList]
  split
  · exact absurd (h '-' rfl) (by decide)
  · exact absurd (h '+' rfl) (by decide)
  · cases decimal cs <;> rfl

/-- **`Atoi` undoes `Itoa`.** -/
theorem atoi_itoa {n : ℤ} (h : -2 ^ 63 ≤ n ∧ n < 2 ^ 63) : atoi (itoa n) = some n := by
  cases n with
  | ofNat n =>
    rw [itoa, atoi_ofList fun c hc =>
      Nat.isDigit_of_mem_toDigits (by decide) (by decide) (List.mem_of_mem_head? hc),
      decimal_toDigits]
    exact Option.filter_some_pos (decide_eq_true h)
  | negSucc n =>
    rw [itoa, atoi, String.toList_ofList]
    simp only [decimal_toDigits]
    exact Option.filter_some_pos (decide_eq_true h)

example : atoi "100" = some 100 := by decide

example : atoi "1e3" = none := by decide

end YtShare
