/-
# Reading identifiers

`uuid.Parse` of `github.com/google/uuid` on the form that `UUID.String` writes,
five groups of hexadecimal digits with a dash between them.  It reads back what
`String` wrote (`UUID.parse_string`), so that no two identifiers are written
alike.
-/

import YtShare.Core.UUID
import Mathlib.Tactic.Ring

namespace YtShare

/-- The value of a hexadecimal digit, of either letter case. -/
def unhexDigit (c : Char) : Option ℕ :=
  if '0' ≤ c ∧ c ≤ '9' then some (c.toNat - 48)
  else if 'a' ≤ c ∧ c ≤ 'f' then some (c.toNat - 87)
  else if 'A' ≤ c ∧ c ≤ 'F' then some (c.toNat - 55)
  else none

/-- The number that hexadecimal digits write after the digits of `n`. -/
def unhex : ℕ → List Char → Option ℕ
  | n, [] => some n
  | n, c :: cs => (unhexDigit c).bind fun d => unhex (16 * n + d) cs

/-- `uuid.Parse` on a text of five groups. -/
def UUID.parse (s : String) : Option UUID :=
  match s.toList.splitOn '-' with
  | [a, b, c, d, e] =>
      if [a, b, c, d, e].map List.length = [8, 4, 4, 4, 12] then
        (unhex 0 (a ++ (b ++ (c ++ (d ++ e))))).map fun n => ⟨BitVec.ofNat 128 n⟩
      else none
  | _ => none

/-- A digit is read as the value that it was written for. -/
theorem unhexDigit_hexDigit : ∀ d < 16, unhexDigit (hexDigit d) = some d := by
  decide

/-- And is no dash. -/
theorem hexDigit_ne_dash : ∀ d < 16, hexDigit d ≠ '-' := by
  decide

/-- A digit of an id is below sixteen. -/
theorem UUID.nibble_lt (u : UUID) (k : ℕ) : u.nibble k < 16 := Nat.mod_lt _ (by omega)

/-- A group has as many digits as it is to have. -/
theorem UUID.length_group (u : UUID) (k n : ℕ) : (u.group k n).length = n := by
  rw [group, List.length_map, List.length_range]

/-- And no dash among them. -/
theorem UUID.dash_notMem_group (u : UUID) (k n : ℕ) : '-' ∉ u.group k n := by
  intro h
  obtain ⟨i, -, hi⟩ := List.mem_map.1 h
  exact hexDigit_ne_dash _ (u.nibble_lt (k + i)) hi

/-- Two groups in a row are one. -/
theorem UUID.group_append (u : UUID) (k n m : ℕ) :
    u.group k n ++ u.group (k + n) m = u.group k (n + m) := by
  unfold group
  rw [List.range_add, List.map_append, List.map_map]
  congr 1
  refine List.map_congr_left fun i _ => ?_
  simp only [Function.comp, Nat.add_assoc]

/-- Digits in a row are read one after the other. -/
theorem unhex_append (n : ℕ) (cs ds : List Char) :
    unhex n (cs ++ ds) = (unhex n cs).bind fun m => unhex m ds := by
  induction cs generalizing n with
  | nil => rfl
  | cons c cs ih =>
    rw [List.cons_append, unhex, unhex]
    cases unhexDigit c with
    | none => rfl
    | some d => exact ih _

/-- The first `n` digits write the number without its last `32 - n` digits. -/
theorem UUID.unhex_group (u : UUID) {n : ℕ} (hn : n ≤ 32) :
    unhex 0 (u.group 0 n) = some (u.bits.toNat / 16 ^ (32 - n)) := by
  induction n with
  | zero =>
    have hlt : u.bits.toNat < 16 ^ 32 := u.bits.isLt
    rw [Nat.sub_zero, Nat.div_eq_of_lt hlt]
    rfl
  | succ n ih =>
    have hdigit : u.group (0 + n) 1 = [hexDigit (u.nibble n)] := by
      simp [group]
    rw [← u.group_append 0 n 1, unhex_append, ih (by omega), hdigit]
    show (unhexDigit _).bind _ = _
    rw [unhexDigit_hexDigit _ (u.nibble_lt n)]
    have hpow : 16 ^ (32 - n) = 16 ^ (31 - n) * 16 := by
      rw [← pow_succ]
      congr 1
      omega
    have hdiv : u.bits.toNat / 16 ^ (32 - n) = u.bits.toNat / 16 ^ (31 - n) / 16 := by
      rw [hpow, Nat.div_div_eq_div_mul]
    rw [Option.bind_some, unhex, nibble, hdiv, show 32 - (n + 1) = 31 - n by omega]
    congr 1
    omega

/-- **An identifier is read back from its text.** -/
theorem UUID.parse_string (u : UUID) : UUID.parse u.string = some u := by
  have hsplit : u.string.toList.splitOn '-' =
      [u.group 0 8, u.group 8 4, u.group 12 4, u.group 16 4, u.group 20 12] := by
    have hchars : u.string.toList = ['-'].intercalate
        [u.group 0 8, u.group 8 4, u.group 12 4, u.group 16 4, u.group 20 12] := by
      rw [string, String.toList_ofList]
      simp [chars, List.intercalate]
    rw [hchars, List.splitOn_intercalate]
    · intro l hl
      simp only [List.mem_cons, List.not_mem_nil, or_false] at hl
      rcases hl with rfl | rfl | rfl | rfl | rfl <;> exact u.dash_notMem_group _ _
    · simp
  have hdigits : u.group 0 8 ++ (u.group 8 4 ++ (u.group 12 4 ++ (u.group 16 4 ++
      u.group 20 12))) = u.group 0 32 := by
    rw [u.group_append 16 4 12, u.group_append 12 4 16, u.group_append 8 4 20,
      u.group_append 0 8 24]
  rw [parse, hsplit]
  simp only [List.map_cons, List.map_nil, length_group, if_true]
  rw [hdigits, u.unhex_group (Nat.le_refl _)]
  simp

end YtShare
