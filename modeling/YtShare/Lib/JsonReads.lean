/-
# JSON in any spelling

What `stringify` writes is one spelling of a value among many: other writers escape other
code units and put the members of an object in another order.  `Spells t s` says that `t`
is read as the inside of the string `s`, and `Reads N t v` that `t` is read as the value
`v`, whatever follows it that is not part of a number.  A writer is shown to be read by
following its own recursion: a rule for every kind of code unit, and one for every kind of
value.

The members of an object may repeat a key; the object that is read is `ofMembers` of
them.
-/

import YtShare.Lib.JsonRoundTrip
import Mathlib.Data.List.TakeWhile

namespace YtShare
namespace Lib
namespace Json

variable {ν : Type} {N : Numbers ν} {c d : UInt16} {s t u r : Text}

/-! ### Strings -/

/-- A text that is read as these code units, inside of a string. -/
def Spells (t s : Text) : Prop :=
  ∀ rest, parseString (t ++ rest) = (parseString rest).map fun p => (s ++ p.1, p.2)

/-- A text between quotation marks. -/
def quoted (t : Text) : Text := code '\x22' :: (t ++ [code '\x22'])

namespace Spells

/-- The empty text spells nothing. -/
theorem nil : Spells [] [] := by
  intro rest
  cases h : parseString rest with
  | none => rw [List.nil_append, h]; rfl
  | some p => rw [List.nil_append, h]; rfl

/-- One text after another spells the units of both. -/
theorem append (h : Spells t s) (h' : Spells u r) : Spells (t ++ u) (s ++ r) := by
  intro rest
  rw [List.append_assoc, h, h']
  cases parseString rest with
  | none => rfl
  | some p => rw [Option.map_some, Option.map_some, Option.map_some, List.append_assoc]

/-- A writer that spells every element spells a list. -/
theorem flatMap {α : Type*} {f g : α → Text} (h : ∀ a, Spells (f a) (g a)) (as : List α) :
    Spells (as.flatMap f) (as.flatMap g) := by
  induction as with
  | nil => exact nil
  | cons a as ih =>
    rw [List.flatMap_cons, List.flatMap_cons]
    exact (h a).append ih

/-- A code unit that stands for itself. -/
theorem direct (hquote : c ≠ code '\x22') (hslash : c ≠ code '\x5c') (hlow : ¬c < 32) :
    Spells [c] [c] := fun _ => parseString_direct hquote hslash hlow

/-- A letter after a backslash. -/
theorem escape {e : UInt16} (hu : e ≠ code 'u') (he : unescape e = some c) :
    Spells [code '\x5c', e] [c] := fun _ => parseString_escape hu he

/-- Four digits of base sixteen. -/
theorem unicode (c : UInt16) : Spells (unicodeEscape c) [c] := parseString_unicode c

/-- A surrogate pair. -/
theorem pair (hlead : isLead c = true) (htrail : isTrail d = true) : Spells [c, d] [c, d] := by
  have hc : Spells [c] [c] := fun _ => parseString_half (.inl hlead)
  have hd : Spells [d] [d] := fun _ => parseString_half (.inr htrail)
  exact hc.append hd

/-- A string ends with its quotation mark. -/
theorem parseString_eq (h : Spells t s) (rest : Text) :
    parseString (t ++ code '\x22' :: rest) = some (s, rest) := by
  rw [h, parseString_quote, Option.map_some, List.append_nil]

/-- A quoted text is read as a string, up to its closing mark. -/
theorem expect_quoted (h : Spells t s) (rest : Text) :
    (expect (code '\x22') (quoted t ++ rest)).bind parseString = some (s, rest) := by
  rw [quoted, List.cons_append, expect_self rfl, List.append_assoc]
  exact h.parseString_eq rest

end Spells

/-! ### The units of numbers -/

/-- A digit is a unit of a number. -/
theorem digit_mem (h : digit c = true) : c ∈ numberUnits := by
  have hle := of_decide_eq_true h
  have hall : ∀ n < 10, UInt16.ofNat (48 + n) ∈ numberUnits := by decide
  have hlo : 48 ≤ c.toNat := hle.1
  have hhi : c.toNat ≤ 57 := hle.2
  have hmem := hall (c.toNat - 48) (by omega)
  rwa [Nat.add_sub_cancel' hlo, UInt16.ofNat_toNat] at hmem

/-- What stands before the rest of a number is made of the units of numbers. -/
def NumberText (s rest : Text) : Prop := ∃ l, s = l ++ rest ∧ ∀ c ∈ l, c ∈ numberUnits

namespace NumberText

/-- Nothing was read. -/
theorem refl (s : Text) : NumberText s s := ⟨[], rfl, fun _ h => absurd h List.not_mem_nil⟩

/-- One more unit of a number was read before the others. -/
theorem cons (hc : c ∈ numberUnits) (h : NumberText s t) : NumberText (c :: s) t := by
  obtain ⟨l, rfl, hl⟩ := h
  exact ⟨c :: l, rfl, List.forall_mem_cons.2 ⟨hc, hl⟩⟩

/-- Two parts of a number, one after the other. -/
theorem trans (h : NumberText s t) (h' : NumberText t u) : NumberText s u := by
  obtain ⟨l, rfl, hl⟩ := h
  obtain ⟨l', rfl, hl'⟩ := h'
  refine ⟨l ++ l', (List.append_assoc _ _ _).symm, fun c hc => ?_⟩
  exact (List.mem_append.1 hc).elim (hl c) (hl' c)

/-- What `digits` reads past is made of the units of numbers. -/
theorem of_digits (h : digits s = some t) : NumberText s t := by
  cases s with
  | nil => cases h
  | cons c s =>
    obtain ⟨hc, h⟩ := Option.ite_none_right_eq_some.1 h
    obtain rfl := Option.some.inj h
    refine cons (digit_mem hc) ⟨s.takeWhile digit, (List.takeWhile_append_dropWhile).symm, ?_⟩
    exact fun d hd => digit_mem (List.mem_takeWhile_imp hd)

/-- So is what the integer part reads past. -/
theorem of_integer (h : integer s = some t) : NumberText s t := by
  cases s with
  | nil => cases h
  | cons c s =>
    rw [integer] at h
    split_ifs at h with hc
    · obtain rfl := Option.some.inj h
      exact cons (hc ▸ by decide) (refl _)
    · exact of_digits h

/-- And the fraction, if there is one. -/
theorem of_fraction (h : fraction s = some t) : NumberText s t := by
  cases s with
  | nil =>
    obtain rfl := Option.some.inj h
    exact refl _
  | cons c s =>
    rw [fraction] at h
    split_ifs at h with hc
    · exact cons (hc ▸ by decide) (of_digits h)
    · obtain rfl := Option.some.inj h
      exact refl _

/-- A sign may stand before what follows it. -/
theorem of_sign (signs : Text) (hsigns : ∀ c ∈ signs, c ∈ numberUnits)
    (h : NumberText (if ∃ c ∈ signs, s.head? = some c then s.tail else s) t) : NumberText s t := by
  split_ifs at h with hs
  · obtain ⟨c, hc, hhead⟩ := hs
    obtain ⟨s', rfl⟩ := List.head?_eq_some_iff.1 hhead
    exact cons (hsigns c hc) h
  · exact h

/-- And the exponent. -/
theorem of_exponent (h : exponent s = some t) : NumberText s t := by
  cases s with
  | nil =>
    obtain rfl := Option.some.inj h
    exact refl _
  | cons c s =>
    rw [exponent] at h
    split_ifs at h with hc hsign
    · have hunit : c ∈ numberUnits := by
        rcases hc with rfl | rfl
        · decide
        · decide
      have hsigns : ∀ c ∈ [code '+', code '-'], c ∈ numberUnits :=
        List.forall_mem_cons.2 ⟨by decide, List.forall_mem_singleton.2 (by decide)⟩
      refine cons hunit (of_sign _ hsigns ?_)
      rw [if_pos]
      · exact of_digits h
      · rcases hsign with hsign | hsign
        · exact ⟨_, List.mem_cons_self, hsign⟩
        · exact ⟨_, List.mem_cons_of_mem _ List.mem_cons_self, hsign⟩
    · have hunit : c ∈ numberUnits := by
        rcases hc with rfl | rfl
        · decide
        · decide
      exact cons hunit (of_digits h)
    · obtain rfl := Option.some.inj h
      exact refl _

end NumberText

/-- **A literal of JSON is made of the units of numbers.** -/
theorem mem_numberUnits (h : isNumber s = true) : ∀ c ∈ s, c ∈ numberUnits := by
  have h := of_decide_eq_true h
  obtain ⟨u, hu, hexp⟩ := Option.bind_eq_some_iff.1 h
  obtain ⟨t, ht, hfrac⟩ := Option.bind_eq_some_iff.1 hu
  have hnumber : NumberText s [] := by
    refine .of_sign [code '-'] (List.forall_mem_singleton.2 (by decide)) ?_
    simp only [List.mem_singleton, exists_eq_left]
    exact ((NumberText.of_integer ht).trans (.of_fraction hfrac)).trans (.of_exponent hexp)
  obtain ⟨l, rfl, hl⟩ := hnumber
  rwa [List.append_nil]

/-! ### Values -/

variable (N) in
/-- A text that is read as a value, whatever follows it that is not part of a number. -/
structure Reads (t : Text) (v : Json ν) : Prop where
  begins : ∃ c u, t = c :: u ∧ blank c = false ∧ c ≠ code ']'
  reads : ∀ rest, literal rest = [] →
    parseValue N (2 * (t ++ rest).length + 1) (t ++ rest) = some (v, rest)

variable (N) in
/-- A text that is read as a member of an object. -/
def ReadsMember (t : Text) (m : Text × Json ν) : Prop :=
  ∃ k w, t = quoted k ++ code ':' :: w ∧ Spells k m.1 ∧ Reads N w m.2

section Brackets

variable {α β : Type*}

/-- Texts after a comma each, and what closes them. -/
def andThen (comma closing : α) : List (List α) → List α
  | [] => [closing]
  | t :: ts => comma :: (t ++ andThen comma closing ts)

/-- Texts with commas between them, in brackets. -/
def bracketed (comma opening closing : α) : List (List α) → List α
  | [] => [opening, closing]
  | t :: ts => opening :: (t ++ andThen comma closing ts)

variable {f : α → List β} {comma opening closing : α} {comma' opening' closing' : β}

/-- Brackets are translated with what stands in them. -/
theorem flatMap_bracketed (hcomma : f comma = [comma']) (hopening : f opening = [opening'])
    (hclosing : f closing = [closing']) (ts : List (List α)) :
    (bracketed comma opening closing ts).flatMap f =
      bracketed comma' opening' closing' (ts.map fun t => t.flatMap f) := by
  have hrest : ∀ ts : List (List α), (andThen comma closing ts).flatMap f =
      andThen comma' closing' (ts.map fun t => t.flatMap f) := by
    intro ts
    induction ts with
    | nil => simp only [andThen, List.map_nil, List.flatMap_cons, List.flatMap_nil, hclosing,
        List.append_nil]
    | cons t ts ih => simp only [andThen, List.map_cons, List.flatMap_cons, List.flatMap_append,
        hcomma, ih, List.cons_append, List.nil_append]
  cases ts with
  | nil => simp only [bracketed, List.map_nil, List.flatMap_cons, List.flatMap_nil, hopening,
      hclosing, List.append_nil, List.cons_append, List.nil_append]
  | cons t ts => simp only [bracketed, List.map_cons, List.flatMap_cons, List.flatMap_append,
      hopening, hrest, List.cons_append, List.nil_append]

end Brackets

namespace Reads

/-- A text that is read is read with more fuel, too. -/
theorem more {v : Json ν} (h : Reads N t v) {n : ℕ} {rest : Text} (hrest : literal rest = [])
    (hn : 2 * (t ++ rest).length + 1 ≤ n) : parseValue N n (t ++ rest) = some (v, rest) :=
  ((parse_fuel _ _).1 _ hn (Nat.le_refl _)).trans (h.reads rest hrest)

/-- There is fuel for one step at least. -/
theorem of_succ {v : Json ν} (hbegins : ∃ c u, t = c :: u ∧ blank c = false ∧ c ≠ code ']')
    (h : ∀ n rest, literal rest = [] → 2 * (t ++ rest).length ≤ n →
      parseValue N (n + 1) (t ++ rest) = some (v, rest)) : Reads N t v :=
  ⟨hbegins, fun rest hrest => h _ rest hrest (Nat.le_refl _)⟩

/-- The word `null` is read as null. -/
theorem null : Reads N (codes "null") (null : Json ν) :=
  of_succ ⟨_, _, rfl, rfl, by decide⟩ fun n rest _ _ =>
    (parseValue_scalar rfl (by decide) (by decide) (by decide) _).trans (parseScalar_null rest)

/-- The words `true` and `false` are read as the two truth values. -/
theorem bool (b : Bool) :
    Reads N (if b then codes "true" else codes "false") (bool b : Json ν) := by
  cases b with
  | true =>
    exact of_succ ⟨_, _, rfl, rfl, by decide⟩ fun n rest _ _ =>
      (parseValue_scalar rfl (by decide) (by decide) (by decide) _).trans
        (parseScalar_bool true rest)
  | false =>
    exact of_succ ⟨_, _, rfl, rfl, by decide⟩ fun n rest _ _ =>
      (parseValue_scalar rfl (by decide) (by decide) (by decide) _).trans
        (parseScalar_bool false rest)

/-- A literal is read as its number. -/
theorem num (h : isNumber t = true) : Reads N t (num (N.read t)) := by
  have hunits := mem_numberUnits h
  obtain ⟨c, u, rfl⟩ : ∃ c u, t = c :: u := by
    cases t with
    | nil => cases h
    | cons c u => exact ⟨c, u, rfl⟩
  obtain ⟨hblank, hquote, hopen, hclose, hbrace⟩ :=
    begins_of_numberUnits (hunits c List.mem_cons_self)
  refine of_succ ⟨c, u, rfl, hblank, hclose⟩ fun n rest hrest _ => ?_
  have hliteral : literal (c :: u ++ rest) = c :: u := by
    unfold literal at hrest ⊢
    rw [List.takeWhile_append_of_pos fun d hd => decide_eq_true (hunits d hd), hrest,
      List.append_nil]
  have hskip : skip (c :: u ++ rest) = c :: u ++ rest := by
    rw [List.cons_append, skip_cons hblank]
  rw [List.cons_append, parseValue_scalar hblank hquote hopen hbrace, ← List.cons_append,
    parseScalar, hskip, hliteral, if_pos h, List.drop_left]

/-- A string is read, in any spelling. -/
theorem str (h : Spells t s) : Reads N (quoted t) (str s : Json ν) := by
  refine of_succ ⟨_, _, rfl, rfl, by decide⟩ fun n rest _ _ => ?_
  rw [parseValue.eq_def]
  simp only [quoted, List.cons_append, expect_self (c := code '\x22') rfl, List.append_assoc,
    List.nil_append]
  rw [h.parseString_eq]
  rfl

/-! #### Arrays -/

/-- Items are read, each one like the first. -/
theorem parseItems_eq {items : List (Text × Json ν)} (hitems : ∀ p ∈ items, Reads N p.1 p.2)
    {v : Json ν} (hv : Reads N t v) (n : ℕ) (rest : Text)
    (hn : 2 * (t ++ (andThen (code ',') (code ']') (items.map Prod.fst) ++ rest)).length + 2 ≤ n) :
    parseItems N n (t ++ (andThen (code ',') (code ']') (items.map Prod.fst) ++ rest)) =
      some (v :: items.map Prod.snd, rest) := by
  induction items generalizing t v n with
  | nil =>
    obtain _ | n := n
    · omega
    rw [parseItems.eq_def]
    simp only [List.map_nil, andThen, List.cons_append, List.nil_append] at hn ⊢
    rw [hv.more rfl (Nat.le_of_succ_le_succ hn)]
    simp only
    rw [expect_ne rfl (by decide), expect_self rfl]
    rfl
  | cons p items ih =>
    obtain _ | n := n
    · omega
    rw [parseItems.eq_def]
    simp only [List.map_cons, andThen, List.cons_append, List.append_assoc] at hn ⊢
    rw [hv.more rfl (Nat.le_of_succ_le_succ hn)]
    simp only
    rw [expect_self rfl]
    simp only
    rw [ih (fun q hq => hitems q (List.mem_cons_of_mem _ hq)) (hitems p List.mem_cons_self) n]
    · rfl
    · simp only [List.length_append, List.length_cons] at hn ⊢
      omega

/-- An array is read when its items are. -/
theorem arr {items : List (Text × Json ν)} (h : ∀ p ∈ items, Reads N p.1 p.2) :
    Reads N (bracketed (code ',') (code '[') (code ']') (items.map Prod.fst))
      (arr (items.map Prod.snd)) := by
  cases items with
  | nil =>
    refine of_succ ⟨_, _, rfl, rfl, by decide⟩ fun n rest _ _ => ?_
    rw [parseValue.eq_def]
    simp only [List.map_nil, bracketed, List.cons_append, List.nil_append]
    rw [expect_ne rfl (by decide), expect_self rfl]
    simp only [expect_self (c := code ']') rfl]
  | cons p items =>
    refine of_succ ⟨_, _, rfl, rfl, by decide⟩ fun n rest _ hn => ?_
    obtain ⟨hp, hitems⟩ := List.forall_mem_cons.1 h
    rw [parseValue.eq_def]
    simp only [List.map_cons, bracketed, List.cons_append, List.append_assoc] at hn ⊢
    rw [expect_ne rfl (by decide), expect_self rfl]
    -- a value does not begin with the end of the array
    obtain ⟨c, u, hc, hblank, hclose⟩ := hp.begins
    have hnot : expect (code ']')
        (p.1 ++ (andThen (code ',') (code ']') (items.map Prod.fst) ++ rest)) = none := by
      rw [hc, List.cons_append, expect_ne hblank hclose]
    simp only [hnot]
    rw [parseItems_eq hitems hp n rest]
    · rfl
    · simp only [List.length_cons] at hn
      omega

/-! #### Objects -/

/-- Members are read, each one like the first. -/
theorem parseMembers_eq {members : List (Text × Text × Json ν)}
    (hmembers : ∀ m ∈ members, ReadsMember N m.1 m.2) {m : Text × Json ν}
    (hm : ReadsMember N t m) (n : ℕ) (rest : Text)
    (hn : 2 * (t ++
      (andThen (code ',') (code '\x7d') (members.map Prod.fst) ++ rest)).length + 2 ≤ n) :
    parseMembers N n (t ++ (andThen (code ',') (code '\x7d') (members.map Prod.fst) ++ rest)) =
      some (m :: members.map Prod.snd, rest) := by
  induction members generalizing t m n with
  | nil =>
    obtain ⟨k, w, rfl, hk, hw⟩ := hm
    obtain _ | n := n
    · omega
    rw [parseMembers.eq_def]
    simp only [List.map_nil, andThen, List.append_assoc, List.cons_append, List.nil_append,
      List.length_append, List.length_cons] at hn ⊢
    rw [hk.expect_quoted]
    simp only [expect_self (c := code ':') rfl, Option.bind_some]
    rw [hw.more rfl]
    · simp only
      rw [expect_ne rfl (by decide), expect_self rfl]
      rfl
    · simp only [List.length_append, List.length_cons]
      omega
  | cons p members ih =>
    obtain ⟨k, w, rfl, hk, hw⟩ := hm
    obtain _ | n := n
    · omega
    rw [parseMembers.eq_def]
    simp only [List.map_cons, andThen, List.append_assoc, List.cons_append] at hn ⊢
    rw [hk.expect_quoted]
    simp only [expect_self (c := code ':') rfl, Option.bind_some]
    rw [hw.more rfl]
    · simp only
      rw [expect_self rfl]
      simp only
      rw [ih (fun q hq => hmembers q (List.mem_cons_of_mem _ hq))
        (hmembers p List.mem_cons_self) n]
      · rfl
      · simp only [List.length_append, List.length_cons] at hn ⊢
        omega
    · simp only [List.length_append, List.length_cons] at hn ⊢
      omega

/-- An object is read when its members are. -/
theorem obj {members : List (Text × Text × Json ν)} (h : ∀ m ∈ members, ReadsMember N m.1 m.2) :
    Reads N (bracketed (code ',') (code '\x7b') (code '\x7d') (members.map Prod.fst))
      (obj (ofMembers (members.map Prod.snd))) := by
  cases members with
  | nil =>
    refine of_succ ⟨_, _, rfl, rfl, by decide⟩ fun n rest _ _ => ?_
    rw [parseValue.eq_def]
    simp only [List.map_nil, bracketed, List.cons_append, List.nil_append]
    rw [expect_ne rfl (by decide), expect_ne rfl (by decide), expect_self rfl]
    simp only [expect_self (c := code '\x7d') rfl]
    rfl
  | cons m members =>
    refine of_succ ⟨_, _, rfl, rfl, by decide⟩ fun n rest _ hn => ?_
    obtain ⟨hm, hmembers⟩ := List.forall_mem_cons.1 h
    rw [parseValue.eq_def]
    simp only [List.map_cons, bracketed, List.cons_append, List.append_assoc] at hn ⊢
    rw [expect_ne rfl (by decide), expect_ne rfl (by decide), expect_self rfl]
    have hnot : expect (code '\x7d')
        (m.1 ++ (andThen (code ',') (code '\x7d') (members.map Prod.fst) ++ rest)) = none := by
      obtain ⟨k, w, hkw, -⟩ := hm
      rw [hkw, quoted, List.cons_append, List.cons_append, expect_ne rfl (by decide)]
    simp only [hnot]
    rw [parseMembers_eq hmembers hm n rest]
    · rfl
    · simp only [List.length_cons] at hn
      omega

/-- What is read is what `parse` makes of the text, with white space after it. -/
theorem parse_append {v : Json ν} (h : Reads N t v) (rest : Text)
    (hrest : ∀ c ∈ rest, blank c = true) : parse N (t ++ rest) = some v := by
  have hliteral : literal rest = [] := by
    cases rest with
    | nil => rfl
    | cons c rest =>
      refine List.takeWhile_cons_of_neg fun hc => ?_
      have hblank := (begins_of_numberUnits (of_decide_eq_true hc)).1
      rw [hrest c List.mem_cons_self] at hblank
      cases hblank
  have hskip : skip rest = [] := List.dropWhile_eq_nil_iff.2 hrest
  rw [parse, h.reads rest hliteral]
  exact if_pos hskip

/-- **What is read is what `parse` makes of the text.** -/
theorem parse_eq {v : Json ν} (h : Reads N t v) : parse N t = some v := by
  have hparse := h.parse_append [] fun c hc => absurd hc List.not_mem_nil
  rwa [List.append_nil] at hparse

end Reads

end Json
end Lib
end YtShare
