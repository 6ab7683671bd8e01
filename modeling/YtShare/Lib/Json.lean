/-
# JSON

`JSON.parse` and `JSON.stringify` on the strings of JavaScript, which are lists of
UTF-16 code units.  What a number is stays open (`Numbers`): a number is read from the
literal that writes it, and not every number is written as one.

The parser descends into the value, and every step down takes one unit of fuel.  Every
step reads something (`parse_length`), so that there is always enough of it
(`parse_fuel`).
-/

import Mathlib.Data.List.Basic
import Mathlib.Data.List.Nodup

namespace YtShare
namespace Lib

/-- A string: its code units. -/
abbrev Text := List UInt16

/-- The code unit of a character of ASCII. -/
abbrev code (c : Char) : UInt16 := UInt16.ofNat c.toNat

/-- The code units of a text of ASCII. -/
def codes (s : String) : Text := s.toList.map code

/-- A value; the fields of an object stand in the order in which they were made. -/
inductive Json (ν : Type)
  | null
  | bool (b : Bool)
  | num (n : ν)
  | str (s : Text)
  | arr (items : List (Json ν))
  | obj (fields : List (Text × Json ν))

namespace Json

/-! ### Numbers -/

/-- The code units that stand in numbers. -/
def numberUnits : Text := codes "0123456789+-.eE"

/-- One of the ten digits. -/
def digit (c : UInt16) : Bool := decide (code '0' ≤ c ∧ c ≤ code '9')

/-- One or more digits, and what follows them. -/
def digits : Text → Option Text
  | [] => none
  | c :: s => if digit c then some (s.dropWhile digit) else none

/-- The digits after a point, if there is one. -/
def fraction : Text → Option Text
  | [] => some []
  | c :: s => if c = code '.' then digits s else some (c :: s)

/-- An exponent, if there is one. -/
def exponent : Text → Option Text
  | [] => some []
  | c :: s =>
      if c = code 'e' ∨ c = code 'E' then
        digits (if s.head? = some (code '+') ∨ s.head? = some (code '-') then s.tail else s)
      else some (c :: s)

/-- The digits before the point: `0`, or no `0` first. -/
def integer : Text → Option Text
  | [] => none
  | c :: s => if c = code '0' then some s else digits (c :: s)

/-- A literal of JSON: digits, with a sign, a fraction and an exponent around them. -/
def isNumber (s : Text) : Bool :=
  decide ((((integer (if s.head? = some (code '-') then s.tail else s)).bind fraction).bind
    exponent) = some [])

/-- The numbers: how one is read and written, if it is, and whether a condition takes it
for true. -/
structure Numbers (ν : Type) where
  read : Text → ν
  write : ν → Option Text
  truthy : ν → Bool
  write_units : ∀ n s, write n = some s → ∀ c ∈ s, c ∈ numberUnits
  write_isNumber : ∀ n s, write n = some s → isNumber s = true

/-! ### Writing -/

/-- The code units that are written with a letter after a backslash. -/
def escapes : List (UInt16 × UInt16) :=
  [(8, code 'b'), (9, code 't'), (10, code 'n'), (12, code 'f'), (13, code 'r'),
    (code '\x22', code '\x22'), (code '\x5c', code '\x5c')]

/-- A digit of base sixteen. -/
def hexDigit (n : ℕ) : UInt16 := UInt16.ofNat (if n < 10 then 48 + n else 87 + n)

/-- A code unit by its number. -/
def unicodeEscape (c : UInt16) : Text :=
  [code '\x5c', code 'u', hexDigit (c.toNat / 4096), hexDigit (c.toNat / 256 % 16),
    hexDigit (c.toNat / 16 % 16), hexDigit (c.toNat % 16)]

/-- The first half of a surrogate pair. -/
def isLead (c : UInt16) : Bool := decide (0xd800 ≤ c ∧ c ≤ 0xdbff)

/-- The second half of a surrogate pair. -/
def isTrail (c : UInt16) : Bool := decide (0xdc00 ≤ c ∧ c ≤ 0xdfff)

/-- A code unit that is half of no pair. -/
def quoteUnit (c : UInt16) : Text :=
  match escapes.find? fun p => decide (p.1 = c) with
  | some p => [code '\x5c', p.2]
  | none => if c < 32 ∨ isLead c ∨ isTrail c then unicodeEscape c else [c]

/-- The inside of a string. -/
def quoteUnits : Text → Text
  | [] => []
  | [c] => quoteUnit c
  | c :: d :: s =>
      if isLead c ∧ isTrail d then c :: d :: quoteUnits s else quoteUnit c ++ quoteUnits (d :: s)

/-- A string. -/
def quote (s : Text) : Text := code '\x22' :: (quoteUnits s ++ [code '\x22'])

variable {ν : Type} (N : Numbers ν)

mutual

/-- `JSON.stringify`. -/
def stringify : Json ν → Text
  | null => codes "null"
  | bool b => if b then codes "true" else codes "false"
  | num n => (N.write n).getD (codes "null")
  | str s => quote s
  | arr [] => codes "[]"
  | arr (v :: items) => code '[' :: (stringify v ++ stringifyItems items)
  | obj [] => codes "\x7b\x7d"
  | obj ((key, v) :: fields) =>
      code '\x7b' :: (quote key ++ code ':' :: (stringify v ++ stringifyFields fields))

/-- The items after the first one, and the bracket. -/
def stringifyItems : List (Json ν) → Text
  | [] => codes "]"
  | v :: items => code ',' :: (stringify v ++ stringifyItems items)

/-- The fields after the first one, and the brace. -/
def stringifyFields : List (Text × Json ν) → Text
  | [] => codes "\x7d"
  | (key, v) :: fields =>
      code ',' :: (quote key ++ code ':' :: (stringify v ++ stringifyFields fields))

end

/-! ### Reading -/

/-- The white space of JSON. -/
def blank (c : UInt16) : Bool := decide (c = 32 ∨ c = 9 ∨ c = 10 ∨ c = 13)

/-- The text after white space. -/
def skip (s : Text) : Text := s.dropWhile blank

/-- What follows a code unit, if this comes next. -/
def expect (c : UInt16) (s : Text) : Option Text :=
  match skip s with
  | [] => none
  | d :: s => if d = c then some s else none

/-- The value of a digit of base sixteen. -/
def hexValue (c : UInt16) : Option ℕ :=
  if code '0' ≤ c ∧ c ≤ code '9' then some (c.toNat - 48)
  else if code 'a' ≤ c ∧ c ≤ code 'f' then some (c.toNat - 87)
  else if code 'A' ≤ c ∧ c ≤ code 'F' then some (c.toNat - 55)
  else none

/-- The code unit of four digits. -/
def hexUnit (a b c d : UInt16) : Option UInt16 := do
  let a ← hexValue a
  let b ← hexValue b
  let c ← hexValue c
  let d ← hexValue d
  return UInt16.ofNat (((a * 16 + b) * 16 + c) * 16 + d)

/-- The code unit that a letter after a backslash stands for. -/
def unescape (e : UInt16) : Option UInt16 :=
  ((escapes ++ [(code '/', code '/')]).find? fun p => decide (p.2 = e)).map Prod.fst

/-- A string after its first quotation mark, and what follows the second one. -/
def parseString : Text → Option (Text × Text)
  | [] => none
  | c :: s =>
      if c = code '\x22' then some ([], s)
      else if c = code '\x5c' then
        match s with
        | [] => none
        | e :: s =>
            if e = code 'u' then
              match s with
              | a :: b :: c :: d :: s =>
                  match hexUnit a b c d with
                  | some x => (parseString s).map fun p => (x :: p.1, p.2)
                  | none => none
              | _ => none
            else
              match unescape e with
              | some x => (parseString s).map fun p => (x :: p.1, p.2)
              | none => none
      else if c < 32 then none
      else (parseString s).map fun p => (c :: p.1, p.2)

/-- An object with one more field, or another value in a field.  The fields stay
in the order in which they were made; JavaScript lists keys that are array
indices first. -/
def setField (key : Text) (v : Json ν) : List (Text × Json ν) → List (Text × Json ν)
  | [] => [(key, v)]
  | (k, w) :: fields => if k = key then (k, v) :: fields else (k, w) :: setField key v fields

/-- The value in a field. -/
def field (key : Text) : List (Text × Json ν) → Option (Json ν)
  | [] => none
  | (k, v) :: fields => if k = key then some v else field key fields

/-- The fields of an object from its members in order. -/
def ofMembers (members : List (Text × Json ν)) : List (Text × Json ν) :=
  members.foldl (fun fields m => setField m.1 m.2 fields) []

/-- A word that stands for a value. -/
def parseWord (word : String) (v : Json ν) (s : Text) : Option (Json ν × Text) :=
  if codes word <+: skip s then some (v, (skip s).drop word.length) else none

/-- The code units of numbers that a text begins with. -/
def literal (s : Text) : Text := s.takeWhile fun c => decide (c ∈ numberUnits)

/-- A number, or one of the three words. -/
def parseScalar (s : Text) : Option (Json ν × Text) :=
  if isNumber (literal (skip s)) then
    some (num (N.read (literal (skip s))), (skip s).drop (literal (skip s)).length)
  else (parseWord "null" null s).or <| (parseWord "true" (bool true) s).or <|
    parseWord "false" (bool false) s

mutual

/-- A value, and what follows it. -/
def parseValue : ℕ → Text → Option (Json ν × Text)
  | 0, _ => none
  | n + 1, s =>
      match expect (code '\x22') s with
      | some s => (parseString s).map fun p => (str p.1, p.2)
      | none =>
          match expect (code '[') s with
          | some s =>
              match expect (code ']') s with
              | some s => some (arr [], s)
              | none => (parseItems n s).map fun p => (arr p.1, p.2)
          | none =>
              match expect (code '\x7b') s with
              | some s =>
                  match expect (code '\x7d') s with
                  | some s => some (obj [], s)
                  | none => (parseMembers n s).map fun p => (obj (ofMembers p.1), p.2)
              | none => parseScalar N s

/-- One or more items, and what follows the bracket. -/
def parseItems : ℕ → Text → Option (List (Json ν) × Text)
  | 0, _ => none
  | n + 1, s =>
      match parseValue n s with
      | none => none
      | some (v, s) =>
          match expect (code ',') s with
          | some s => (parseItems n s).map fun p => (v :: p.1, p.2)
          | none => (expect (code ']') s).map fun s => ([v], s)

/-- One or more members, and what follows the brace. -/
def parseMembers : ℕ → Text → Option (List (Text × Json ν) × Text)
  | 0, _ => none
  | n + 1, s =>
      match (expect (code '\x22') s).bind parseString with
      | none => none
      | some (key, s) =>
          match (expect (code ':') s).bind (parseValue n) with
          | none => none
          | some (v, s) =>
              match expect (code ',') s with
              | some s => (parseMembers n s).map fun p => ((key, v) :: p.1, p.2)
              | none => (expect (code '\x7d') s).map fun s => ([(key, v)], s)

end

/-- `JSON.parse`, `none` where it throws. -/
def parse (s : Text) : Option (Json ν) :=
  match parseValue N (2 * s.length + 1) s with
  | some (v, s) => if skip s = [] then some v else none
  | none => none

/-! ### The fuel -/

variable {N} {s t : Text} {c d : UInt16}

/-- Skipping white space makes a text no longer. -/
theorem length_skip_le (s : Text) : (skip s).length ≤ s.length :=
  (List.dropWhile_sublist _).length_le

/-- What is expected is there. -/
theorem expect_length (h : expect c s = some t) : t.length < s.length := by
  unfold expect at h
  have hle := length_skip_le s
  split at h
  · cases h
  · next d u hskip =>
    split_ifs at h
    obtain rfl := Option.some.inj h
    rw [hskip, List.length_cons] at hle
    exact hle

/-- A string that is read takes some of the text. -/
theorem parseString_length {p : Text × Text} (h : parseString s = some p) :
    p.2.length < s.length := by
  fun_induction parseString s generalizing p with
  | case1 => cases h
  | case2 s =>
    obtain rfl := Option.some.inj h
    exact Nat.lt_succ_self _
  | case3 => cases h
  | case4 hquote a b c d s x hx ih =>
    obtain ⟨q, hq, rfl⟩ := Option.map_eq_some_iff.1 h
    have hlt := ih hq
    simp only [List.length_cons]
    omega
  | case5 => cases h
  | case6 => cases h
  | case7 hquote e s he x hx ih =>
    obtain ⟨q, hq, rfl⟩ := Option.map_eq_some_iff.1 h
    have hlt := ih hq
    simp only [List.length_cons]
    omega
  | case8 => cases h
  | case9 => cases h
  | case10 c s hc hbackslash hlow ih =>
    obtain ⟨q, hq, rfl⟩ := Option.map_eq_some_iff.1 h
    have hlt := ih hq
    simp only [List.length_cons]
    omega

/-- So does a word. -/
theorem parseWord_length {word : String} {v : Json ν} {p : Json ν × Text} (hw : word ≠ "")
    (h : parseWord word v s = some p) : p.2.length < s.length := by
  obtain ⟨hpre, h⟩ := Option.ite_none_right_eq_some.1 h
  obtain rfl := Option.some.inj h
  have hle := length_skip_le s
  have hword := hpre.length_le
  have hpos : 0 < word.length := Nat.pos_of_ne_zero fun h0 => hw (String.length_eq_zero_iff.1 h0)
  simp only [codes, List.length_map, String.length_toList, List.length_drop] at hword ⊢
  omega

/-- And a scalar, so that each item and each member makes the rest shorter. -/
theorem parseScalar_length {p : Json ν × Text} (h : parseScalar N s = some p) :
    p.2.length < s.length := by
  unfold parseScalar at h
  split_ifs at h with hnumber
  · obtain rfl := Option.some.inj h
    have hle := length_skip_le s
    have hpos : 0 < (literal (skip s)).length := by
      refine List.length_pos_iff.2 fun hnil => ?_
      rw [hnil] at hnumber
      cases hnumber
    have hpre : (literal (skip s)).length ≤ (skip s).length :=
      (List.takeWhile_sublist _).length_le
    simp only [List.length_drop]
    omega
  · rcases Option.or_eq_some_iff.1 h with h | ⟨-, h⟩
    · exact parseWord_length (by decide) h
    · rcases Option.or_eq_some_iff.1 h with h | ⟨-, h⟩
      · exact parseWord_length (by decide) h
      · exact parseWord_length (by decide) h

/-- What a value that was read can have been. -/
theorem parseValue_cases {n : ℕ} {p : Json ν × Text} (h : parseValue N (n + 1) s = some p) :
    (∃ u q, expect (code '\x22') s = some u ∧ parseString u = some q ∧ p = (str q.1, q.2)) ∨
      (∃ u, expect (code '[') s = some u ∧
        ((∃ w, expect (code ']') u = some w ∧ p = (arr [], w)) ∨
          ∃ q, parseItems N n u = some q ∧ p = (arr q.1, q.2))) ∨
      (∃ u, expect (code '\x7b') s = some u ∧
        ((∃ w, expect (code '\x7d') u = some w ∧ p = (obj [], w)) ∨
          ∃ q, parseMembers N n u = some q ∧ p = (obj (ofMembers q.1), q.2))) ∨
      parseScalar N s = some p := by
  unfold parseValue at h
  split at h
  · next u hu =>
    obtain ⟨q, hq, rfl⟩ := Option.map_eq_some_iff.1 h
    exact .inl ⟨u, q, hu, hq, rfl⟩
  · split at h
    · next u hu =>
      refine .inr (.inl ⟨u, hu, ?_⟩)
      split at h
      · next w hw => exact .inl ⟨w, hw, (Option.some.inj h).symm⟩
      · obtain ⟨q, hq, rfl⟩ := Option.map_eq_some_iff.1 h
        exact .inr ⟨q, hq, rfl⟩
    · split at h
      · next u hu =>
        refine .inr (.inr (.inl ⟨u, hu, ?_⟩))
        split at h
        · next w hw => exact .inl ⟨w, hw, (Option.some.inj h).symm⟩
        · obtain ⟨q, hq, rfl⟩ := Option.map_eq_some_iff.1 h
          exact .inr ⟨q, hq, rfl⟩
      · exact .inr (.inr (.inr h))

/-- Items begin with a value. -/
theorem parseItems_cases {n : ℕ} {p : List (Json ν) × Text}
    (h : parseItems N (n + 1) s = some p) :
    ∃ v u, parseValue N n s = some (v, u) ∧
      ((∃ w q, expect (code ',') u = some w ∧ parseItems N n w = some q ∧ p = (v :: q.1, q.2)) ∨
        ∃ w, expect (code ']') u = some w ∧ p = ([v], w)) := by
  unfold parseItems at h
  split at h
  · cases h
  · next v u hv =>
    refine ⟨v, u, hv, ?_⟩
    split at h
    · next w hw =>
      obtain ⟨q, hq, rfl⟩ := Option.map_eq_some_iff.1 h
      exact .inl ⟨w, q, hw, hq, rfl⟩
    · obtain ⟨w, hw, rfl⟩ := Option.map_eq_some_iff.1 h
      exact .inr ⟨w, hw, rfl⟩

/-- Members begin with a key and a value. -/
theorem parseMembers_cases {n : ℕ} {p : List (Text × Json ν) × Text}
    (h : parseMembers N (n + 1) s = some p) :
    ∃ s₁ key s₂ s₃ v u, expect (code '\x22') s = some s₁ ∧ parseString s₁ = some (key, s₂) ∧
      expect (code ':') s₂ = some s₃ ∧ parseValue N n s₃ = some (v, u) ∧
      ((∃ w q, expect (code ',') u = some w ∧ parseMembers N n w = some q ∧
          p = ((key, v) :: q.1, q.2)) ∨
        ∃ w, expect (code '\x7d') u = some w ∧ p = ([(key, v)], w)) := by
  unfold parseMembers at h
  split at h
  · cases h
  · next key s₂ hkey =>
    obtain ⟨s₁, hs₁, hkey⟩ := Option.bind_eq_some_iff.1 hkey
    split at h
    · cases h
    · next v u hv =>
      obtain ⟨s₃, hs₃, hv⟩ := Option.bind_eq_some_iff.1 hv
      refine ⟨s₁, key, s₂, s₃, v, u, hs₁, hkey, hs₃, hv, ?_⟩
      split at h
      · next w hw =>
        obtain ⟨q, hq, rfl⟩ := Option.map_eq_some_iff.1 h
        exact .inl ⟨w, q, hw, hq, rfl⟩
      · obtain ⟨w, hw, rfl⟩ := Option.map_eq_some_iff.1 h
        exact .inr ⟨w, hw, rfl⟩

/-- **Every parser moves on.** -/
theorem parse_length (n : ℕ) :
    (∀ s p, parseValue N n s = some p → p.2.length < s.length) ∧
      (∀ s p, parseItems N n s = some p → p.2.length < s.length) ∧
      ∀ s p, parseMembers N n s = some p → p.2.length < s.length := by
  induction n with
  | zero => exact ⟨fun _ _ h => (nomatch h), fun _ _ h => (nomatch h), fun _ _ h => (nomatch h)⟩
  | succ n ih =>
    obtain ⟨ihv, ihi, ihm⟩ := ih
    refine ⟨fun s p h => ?_, fun s p h => ?_, fun s p h => ?_⟩
    · obtain ⟨u, q, hu, hq, rfl⟩ | ⟨u, hu, ⟨w, hw, rfl⟩ | ⟨q, hq, rfl⟩⟩ |
        ⟨u, hu, ⟨w, hw, rfl⟩ | ⟨q, hq, rfl⟩⟩ | h := parseValue_cases h
      · exact Nat.lt_trans (parseString_length hq) (expect_length hu)
      · exact Nat.lt_trans (expect_length hw) (expect_length hu)
      · exact Nat.lt_trans (ihi _ _ hq) (expect_length hu)
      · exact Nat.lt_trans (expect_length hw) (expect_length hu)
      · exact Nat.lt_trans (ihm _ _ hq) (expect_length hu)
      · exact parseScalar_length h
    · obtain ⟨v, u, hv, ⟨w, q, hw, hq, rfl⟩ | ⟨w, hw, rfl⟩⟩ := parseItems_cases h
      · have hlast := ihi _ _ hq
        exact Nat.lt_trans (Nat.lt_trans hlast (expect_length hw)) (ihv _ _ hv)
      · exact Nat.lt_trans (expect_length hw) (ihv _ _ hv)
    · obtain ⟨s₁, key, s₂, s₃, v, u, hs₁, hkey, hs₃, hv, hend⟩ := parseMembers_cases h
      have hu : u.length < s.length := by
        have h₁ := expect_length hs₁
        have h₂ := parseString_length hkey
        have h₃ := expect_length hs₃
        have h₄ := ihv _ _ hv
        simp only at h₂ h₄
        omega
      obtain ⟨w, q, hw, hq, rfl⟩ | ⟨w, hw, rfl⟩ := hend
      · have hlast := ihm _ _ hq
        exact Nat.lt_trans (Nat.lt_trans hlast (expect_length hw)) hu
      · exact Nat.lt_trans (expect_length hw) hu

/-- A value is read with the fuel of what comes after its first code unit. -/
theorem parseValue_congr {n m : ℕ}
    (hi : ∀ u : Text, u.length < s.length → parseItems N n u = parseItems N m u)
    (hm : ∀ u : Text, u.length < s.length → parseMembers N n u = parseMembers N m u) :
    parseValue N (n + 1) s = parseValue N (m + 1) s := by
  unfold parseValue
  cases hstr : expect (code '\x22') s with
  | some u => rfl
  | none =>
    simp only
    cases harr : expect (code '[') s with
    | some u =>
      simp only
      rw [hi u (expect_length harr)]
    | none =>
      simp only
      cases hobj : expect (code '\x7b') s with
      | some u =>
        simp only
        rw [hm u (expect_length hobj)]
      | none => rfl

/-- Items are read with the fuel of the first one and of what comes after it. -/
theorem parseItems_congr {n m : ℕ} (hv : parseValue N n s = parseValue N m s)
    (hi : ∀ u : Text, u.length < s.length → parseItems N n u = parseItems N m u) :
    parseItems N (n + 1) s = parseItems N (m + 1) s := by
  unfold parseItems
  rw [hv]
  cases hfirst : parseValue N m s with
  | none => rfl
  | some p =>
    obtain ⟨v, u⟩ := p
    have hu := (parse_length m).1 _ _ hfirst
    simp only
    cases hcomma : expect (code ',') u with
    | none => rfl
    | some w =>
      simp only
      rw [hi w (Nat.lt_trans (expect_length hcomma) hu)]

/-- Members are read with the fuel of what comes after the first key. -/
theorem parseMembers_congr {n m : ℕ}
    (hv : ∀ u : Text, u.length < s.length → parseValue N n u = parseValue N m u)
    (hm : ∀ u : Text, u.length < s.length → parseMembers N n u = parseMembers N m u) :
    parseMembers N (n + 1) s = parseMembers N (m + 1) s := by
  unfold parseMembers
  cases hkey : (expect (code '\x22') s).bind parseString with
  | none => rfl
  | some p =>
    obtain ⟨key, u⟩ := p
    obtain ⟨w, hw, hstr⟩ := Option.bind_eq_some_iff.1 hkey
    have hu := Nat.lt_trans (parseString_length hstr) (expect_length hw)
    simp only at hu ⊢
    cases hcolon : expect (code ':') u with
    | none => rfl
    | some t =>
      have ht := Nat.lt_trans (expect_length hcolon) hu
      simp only [Option.bind_some]
      rw [hv t ht]
      cases hfirst : parseValue N m t with
      | none => rfl
      | some p =>
        obtain ⟨v, t'⟩ := p
        have ht' := Nat.lt_trans ((parse_length m).1 _ _ hfirst) ht
        simp only at ht' ⊢
        cases hcomma : expect (code ',') t' with
        | none => rfl
        | some x =>
          simp only
          rw [hm x (Nat.lt_trans (expect_length hcomma) ht')]

/-- **There is always enough fuel**: more of it changes nothing. -/
theorem parse_fuel (n m : ℕ) :
    (∀ s : Text, 2 * s.length + 1 ≤ n → 2 * s.length + 1 ≤ m →
        parseValue N n s = parseValue N m s) ∧
      (∀ s : Text, 2 * s.length + 2 ≤ n → 2 * s.length + 2 ≤ m →
        parseItems N n s = parseItems N m s) ∧
      ∀ s : Text, 2 * s.length + 2 ≤ n → 2 * s.length + 2 ≤ m →
        parseMembers N n s = parseMembers N m s := by
  induction n generalizing m with
  | zero => refine ⟨fun s h => ?_, fun s h => ?_, fun s h => ?_⟩ <;> omega
  | succ n ih =>
    cases m with
    | zero => refine ⟨fun s _ h => ?_, fun s _ h => ?_, fun s _ h => ?_⟩ <;> omega
    | succ m =>
      obtain ⟨ihv, ihi, ihm⟩ := ih m
      refine ⟨fun s hn hm => ?_, fun s hn hm => ?_, fun s hn hm => ?_⟩
      · exact parseValue_congr (fun u hu => ihi u (by omega) (by omega))
          fun u hu => ihm u (by omega) (by omega)
      · exact parseItems_congr (ihv s (by omega) (by omega))
          fun u hu => ihi u (by omega) (by omega)
      · exact parseMembers_congr (fun u hu => ihv u (by omega) (by omega))
          fun u hu => ihm u (by omega) (by omega)

end Json
end Lib
end YtShare
