/-
# JSON is read back

A value that was read has no key twice in an object (`wf_of_parse`), and such a value,
written and read again, comes back with its numbers written and read
(`parse_stringify`): unchanged exactly when each number is read back from the literal
that writes it (`reread_eq_iff`).
-/

import YtShare.Lib.Json

namespace YtShare
namespace Lib
namespace Json

variable {ν : Type} {N : Numbers ν} {s : Text} {c d : UInt16}

/-! ### Values that can be read

An object has each key once.
-/

/-- A value in which no object has a key twice. -/
inductive WF : Json ν → Prop
  | null : WF null
  | bool (b : Bool) : WF (bool b)
  | num (n : ν) : WF (num n)
  | str (s : Text) : WF (str s)
  | arr {items : List (Json ν)} (h : ∀ v ∈ items, WF v) : WF (arr items)
  | obj {fields : List (Text × Json ν)} (hkeys : (fields.map Prod.fst).Nodup)
      (h : ∀ p ∈ fields, WF p.2) : WF (obj fields)

/-- A well-formed object has each of its keys once. -/
theorem WF.nodup {fields : List (Text × Json ν)} (h : WF (.obj fields)) :
    (fields.map Prod.fst).Nodup := by
  cases h with
  | obj hkeys _ => exact hkeys

/-- A field that is not there yet becomes the last one. -/
theorem setField_of_notMem {key : Text} {fields : List (Text × Json ν)}
    (h : key ∉ fields.map Prod.fst) (v : Json ν) :
    setField key v fields = fields ++ [(key, v)] := by
  induction fields with
  | nil => rfl
  | cons p fields ih =>
    obtain ⟨k, w⟩ := p
    simp only [List.map_cons, List.mem_cons, not_or] at h
    rw [setField, if_neg (Ne.symm h.1), ih h.2, List.cons_append]

/-- A field that is there stays where it is. -/
theorem keys_setField (key : Text) (v : Json ν) (fields : List (Text × Json ν)) :
    (setField key v fields).map Prod.fst =
      if key ∈ fields.map Prod.fst then fields.map Prod.fst else fields.map Prod.fst ++ [key] := by
  induction fields with
  | nil => rfl
  | cons p fields ih =>
    obtain ⟨k, w⟩ := p
    rw [setField]
    split_ifs with hk hmem hmem
    · rfl
    · exact absurd (List.mem_cons.2 (.inl hk.symm)) hmem
    · rw [List.map_cons, ih, if_pos ((List.mem_cons.1 hmem).resolve_left (Ne.symm hk))]
      rfl
    · rw [List.map_cons, ih, if_neg fun h => hmem (List.mem_cons_of_mem _ h)]
      rfl

/-- Setting a field repeats no key. -/
theorem nodup_setField {key : Text} {fields : List (Text × Json ν)}
    (h : (fields.map Prod.fst).Nodup) (v : Json ν) :
    ((setField key v fields).map Prod.fst).Nodup := by
  rw [keys_setField]
  split_ifs with hmem
  · exact h
  · exact List.nodup_append.2 ⟨h, List.nodup_singleton _, fun a ha b hb => by
      rw [List.mem_singleton.1 hb]
      exact fun hab => hmem (hab ▸ ha)⟩

/-- A field holds what was last set. -/
theorem field_setField (key : Text) (v : Json ν) (fields : List (Text × Json ν)) (k : Text) :
    field k (setField key v fields) = if key = k then some v else field k fields := by
  induction fields with
  | nil => rfl
  | cons p fields ih =>
    obtain ⟨k', w⟩ := p
    rw [setField]
    split_ifs with hset hk hk
    · rw [field, if_pos (hset.trans hk)]
    · rw [field, field, if_neg (hset ▸ hk), if_neg (hset ▸ hk)]
    · rw [field, ih, if_pos hk, if_neg (hk ▸ hset)]
    · rw [field, field, ih, if_neg hk]

/-- The fields afterwards: the one that was set, and the others. -/
theorem mem_setField {key : Text} {v : Json ν} {fields : List (Text × Json ν)}
    (h : (fields.map Prod.fst).Nodup) (p : Text × Json ν) :
    p ∈ setField key v fields ↔ p = (key, v) ∨ p ∈ fields ∧ p.1 ≠ key := by
  induction fields with
  | nil => simp [setField]
  | cons q fields ih =>
    obtain ⟨k, w⟩ := q
    obtain ⟨hk, h⟩ := List.nodup_cons.1 h
    have hne : ∀ q ∈ fields, q.1 ≠ k := fun q hq hqk =>
      hk (List.mem_map.2 ⟨q, hq, hqk⟩)
    rw [setField]
    split_ifs with hkey
    · subst hkey
      simp only [List.mem_cons]
      constructor
      · rintro (rfl | hp)
        · exact .inl rfl
        · exact .inr ⟨.inr hp, hne p hp⟩
      · rintro (rfl | ⟨rfl | hp, hpk⟩)
        · exact .inl rfl
        · exact absurd rfl hpk
        · exact .inr hp
    · simp only [List.mem_cons, ih h]
      constructor
      · rintro (rfl | rfl | ⟨hp, hpk⟩)
        · exact .inr ⟨.inl rfl, hkey⟩
        · exact .inl rfl
        · exact .inr ⟨.inr hp, hpk⟩
      · rintro (rfl | ⟨rfl | hp, hpk⟩)
        · exact .inr (.inl rfl)
        · exact .inl rfl
        · exact .inr (.inr ⟨hp, hpk⟩)

/-- What holds of all fields afterwards. -/
theorem forall_setField {P : Text × Json ν → Prop} {key : Text} {v : Json ν}
    {fields : List (Text × Json ν)} (h : (fields.map Prod.fst).Nodup) :
    (∀ p ∈ setField key v fields, P p) ↔ P (key, v) ∧ ∀ p ∈ fields, p.1 ≠ key → P p := by
  constructor
  · intro hP
    exact ⟨hP _ ((mem_setField h _).2 (.inl rfl)),
      fun p hp hkey => hP p ((mem_setField h p).2 (.inr ⟨hp, hkey⟩))⟩
  · rintro ⟨hv, hP⟩ p hp
    obtain rfl | ⟨hp, hkey⟩ := (mem_setField h p).1 hp
    · exact hv
    · exact hP p hp hkey

/-- An object with another field is one. -/
theorem wf_setField {key : Text} {v : Json ν} {fields : List (Text × Json ν)}
    (h : WF (obj fields)) (hv : WF v) : WF (obj (setField key v fields)) := by
  cases h with
  | obj hkeys h =>
    exact .obj (nodup_setField hkeys v) ((forall_setField hkeys).2 ⟨hv, fun p hp _ => h p hp⟩)

/-- **The members of an object make one.** -/
theorem wf_ofMembers {members : List (Text × Json ν)} (h : ∀ p ∈ members, WF p.2) :
    WF (obj (ofMembers members)) := by
  suffices H : ∀ (members fields : List (Text × Json ν)), WF (obj fields) →
      (∀ p ∈ members, WF p.2) →
        WF (obj (members.foldl (fun fields m => setField m.1 m.2 fields) fields)) from
    H members [] (.obj List.nodup_nil fun _ hp => (nomatch hp)) h
  intro members
  induction members with
  | nil => exact fun fields hfields _ => hfields
  | cons m members ih =>
    intro fields hfields hmembers
    obtain ⟨hm, hmembers⟩ := List.forall_mem_cons.1 hmembers
    exact ih _ (wf_setField hfields hm) hmembers

/-- Members with different keys are the fields. -/
theorem ofMembers_eq {members : List (Text × Json ν)} (h : (members.map Prod.fst).Nodup) :
    ofMembers members = members := by
  suffices H : ∀ members fields : List (Text × Json ν),
      ((fields ++ members).map Prod.fst).Nodup →
        members.foldl (fun fields m => setField m.1 m.2 fields) fields = fields ++ members from
    H members [] h
  intro members
  induction members with
  | nil => exact fun fields _ => (List.append_nil fields).symm
  | cons m members ih =>
    intro fields hkeys
    have hm : m.1 ∉ fields.map Prod.fst := by
      rw [List.map_append, List.map_cons] at hkeys
      exact fun hmem => List.disjoint_of_nodup_append hkeys hmem List.mem_cons_self
    have happend : fields ++ [(m.1, m.2)] ++ members = fields ++ m :: members :=
      List.append_assoc _ _ _
    rw [List.foldl_cons, setField_of_notMem hm, ih _ (happend ▸ hkeys), happend]

/-- A word or a number has no keys. -/
theorem parseScalar_wf {p : Json ν × Text} (h : parseScalar N s = some p) : WF p.1 := by
  have hword : ∀ {word : String} {v : Json ν}, WF v → parseWord word v s = some p → WF p.1 := by
    intro word v hv h
    obtain ⟨-, h⟩ := Option.ite_none_right_eq_some.1 h
    obtain rfl := Option.some.inj h
    exact hv
  unfold parseScalar at h
  split_ifs at h with hnumber
  · obtain rfl := Option.some.inj h
    exact .num _
  · obtain h | ⟨-, h⟩ := Option.or_eq_some_iff.1 h
    · exact hword .null h
    · obtain h | ⟨-, h⟩ := Option.or_eq_some_iff.1 h
      · exact hword (.bool true) h
      · exact hword (.bool false) h

/-- What is read has no key twice. -/
theorem parse_wf (n : ℕ) :
    (∀ s p, parseValue N n s = some p → WF p.1) ∧
      (∀ s p, parseItems N n s = some p → ∀ v ∈ p.1, WF v) ∧
      ∀ s p, parseMembers N n s = some p → ∀ q ∈ p.1, WF q.2 := by
  induction n with
  | zero => exact ⟨fun _ _ h => (nomatch h), fun _ _ h => (nomatch h), fun _ _ h => (nomatch h)⟩
  | succ n ih =>
    obtain ⟨ihv, ihi, ihm⟩ := ih
    refine ⟨fun s p h => ?_, fun s p h => ?_, fun s p h => ?_⟩
    · obtain ⟨u, q, -, -, rfl⟩ | ⟨u, -, ⟨w, -, rfl⟩ | ⟨q, hq, rfl⟩⟩ |
        ⟨u, -, ⟨w, -, rfl⟩ | ⟨q, hq, rfl⟩⟩ | h := parseValue_cases h
      · exact .str _
      · exact .arr fun _ hv => (nomatch hv)
      · exact .arr (ihi _ _ hq)
      · exact .obj List.nodup_nil fun _ hp => (nomatch hp)
      · exact wf_ofMembers (ihm _ _ hq)
      · exact parseScalar_wf h
    · obtain ⟨v, u, hv, ⟨w, q, -, hq, rfl⟩ | ⟨w, -, rfl⟩⟩ := parseItems_cases h
      · exact List.forall_mem_cons.2 ⟨ihv _ _ hv, ihi _ _ hq⟩
      · exact List.forall_mem_singleton.2 (ihv _ _ hv)
    · obtain ⟨s₁, key, s₂, s₃, v, u, -, -, -, hv, hend⟩ := parseMembers_cases h
      obtain ⟨w, q, -, hq, rfl⟩ | ⟨w, -, rfl⟩ := hend
      · exact List.forall_mem_cons.2 ⟨ihv _ _ hv, ihm _ _ hq⟩
      · exact List.forall_mem_singleton.2 (ihv _ _ hv)

/-- **What is parsed is well formed:** a repeated key has set its field anew. -/
theorem wf_of_parse {v : Json ν} (h : parse N s = some v) : WF v := by
  unfold parse at h
  split at h
  · next w u hw =>
    obtain ⟨-, h⟩ := Option.ite_none_right_eq_some.1 h
    obtain rfl := Option.some.inj h
    exact (parse_wf _).1 _ _ hw
  · cases h

/-! ### Strings are read back -/

/-- A digit of an escape is read as its value. -/
theorem hexValue_hexDigit : ∀ n < 16, hexValue (hexDigit n) = some n := by decide

/-- Four digits of base sixteen are the code unit. -/
theorem hexUnit_digits (c : UInt16) :
    hexUnit (hexDigit (c.toNat / 4096)) (hexDigit (c.toNat / 256 % 16))
      (hexDigit (c.toNat / 16 % 16)) (hexDigit (c.toNat % 16)) = some c := by
  have hc : c.toNat < 65536 := c.toNat_lt
  have hunit : ((c.toNat / 4096 * 16 + c.toNat / 256 % 16) * 16 + c.toNat / 16 % 16) * 16 +
      c.toNat % 16 = c.toNat := by omega
  unfold hexUnit
  rw [hexValue_hexDigit _ (by omega), hexValue_hexDigit _ (by omega),
    hexValue_hexDigit _ (by omega), hexValue_hexDigit _ (by omega)]
  simp only [Option.bind_eq_bind, Option.bind_some, Option.pure_def, hunit, UInt16.ofNat_toNat]

/-- The end of a string. -/
theorem parseString_quote (t : Text) : parseString (code '\x22' :: t) = some ([], t) := by
  rw [parseString.eq_def]
  exact if_pos rfl

/-- A code unit that stands for itself. -/
theorem parseString_direct {t : Text} (hquote : c ≠ code '\x22') (hslash : c ≠ code '\x5c')
    (hlow : ¬c < 32) :
    parseString (c :: t) = (parseString t).map fun p => (c :: p.1, p.2) := by
  rw [parseString.eq_def]
  simp only [if_neg hquote, if_neg hslash, if_neg hlow]

/-- A letter after a backslash. -/
theorem parseString_escape {e x : UInt16} {t : Text} (hu : e ≠ code 'u')
    (hx : unescape e = some x) :
    parseString (code '\x5c' :: e :: t) = (parseString t).map fun p => (x :: p.1, p.2) := by
  have hslash : code '\x5c' ≠ code '\x22' := by decide
  rw [parseString.eq_def]
  simp only [if_neg hslash, if_neg hu, if_true, hx]

/-- A code unit by its number. -/
theorem parseString_unicode (c : UInt16) (t : Text) :
    parseString (unicodeEscape c ++ t) = (parseString t).map fun p => (c :: p.1, p.2) := by
  have hslash : code '\x5c' ≠ code '\x22' := by decide
  rw [parseString.eq_def]
  simp only [unicodeEscape, List.cons_append, List.nil_append, if_neg hslash, if_true,
    hexUnit_digits]

/-- Each of the short escapes is read as the unit it stands for. -/
theorem unescape_escapes {p : UInt16 × UInt16} (hp : p ∈ escapes) :
    unescape p.2 = some p.1 ∧ p.2 ≠ code 'u' := by
  have hall : escapes.all (fun p => decide (unescape p.2 = some p.1 ∧ p.2 ≠ code 'u')) = true := by
    decide
  exact of_decide_eq_true (List.all_eq_true.1 hall p hp)

/-- **A code unit is read back.** -/
theorem parseString_quoteUnit (c : UInt16) (t : Text) :
    parseString (quoteUnit c ++ t) = (parseString t).map fun p => (c :: p.1, p.2) := by
  unfold quoteUnit
  split
  · next p hp =>
    obtain ⟨hunescape, hu⟩ := unescape_escapes (List.mem_of_find?_eq_some hp)
    have hpc := of_decide_eq_true (List.find?_some hp :)
    rw [← hpc]
    exact parseString_escape hu hunescape
  · next hnone =>
    split_ifs with hc
    · exact parseString_unicode c t
    · rw [not_or] at hc
      have hne : ∀ p ∈ escapes, p.1 ≠ c := fun p hp h =>
        List.find?_eq_none.1 hnone p hp (decide_eq_true h)
      exact parseString_direct (Ne.symm (hne (code '\x22', code '\x22') (by decide)))
        (Ne.symm (hne (code '\x5c', code '\x5c') (by decide))) hc.1

/-- Half of a pair stands for itself. -/
theorem parseString_half {t : Text} (h : isLead c ∨ isTrail c) :
    parseString (c :: t) = (parseString t).map fun p => (c :: p.1, p.2) := by
  have hle : 0xd800 ≤ c := by
    rcases h with h | h
    · exact (of_decide_eq_true h).1
    · exact UInt16.le_trans (by decide) (of_decide_eq_true h).1
  have hne : ∀ d : UInt16, d < 0xd800 → c ≠ d := fun d hd h =>
    absurd (h ▸ hle) (UInt16.not_le.2 hd)
  exact parseString_direct (hne _ (by decide)) (hne _ (by decide))
    (UInt16.not_lt.2 (UInt16.le_trans (by decide) hle))

/-- **A string is read back.** -/
theorem parseString_quoteUnits (s t : Text) :
    parseString (quoteUnits s ++ code '\x22' :: t) = some (s, t) := by
  fun_induction quoteUnits s with
  | case1 => exact parseString_quote t
  | case2 c =>
    rw [parseString_quoteUnit, parseString_quote]
    rfl
  | case3 c d s hpair ih =>
    rw [List.cons_append, List.cons_append, parseString_half (.inl hpair.1),
      parseString_half (.inr hpair.2), ih]
    rfl
  | case4 c d s hpair ih =>
    rw [List.append_assoc, parseString_quoteUnit, ih]
    rfl

/-! ### Values are read back -/

variable (N)

mutual

/-- A value after it was written and read: a number may have changed. -/
def reread : Json ν → Json ν
  | null => null
  | bool b => bool b
  | num n =>
      match N.write n with
      | some l => num (N.read l)
      | none => null
  | str s => str s
  | arr items => arr (rereadItems items)
  | obj fields => obj (rereadFields fields)

/-- The items after they were written and read. -/
def rereadItems : List (Json ν) → List (Json ν)
  | [] => []
  | v :: items => reread v :: rereadItems items

/-- The fields after they were written and read. -/
def rereadFields : List (Text × Json ν) → List (Text × Json ν)
  | [] => []
  | (key, v) :: fields => (key, reread v) :: rereadFields fields

end

variable {N}

/-- White space ends where there is none. -/
theorem skip_cons (h : blank c = false) (t : Text) : skip (c :: t) = c :: t :=
  List.dropWhile_cons_of_neg (by rw [h]; exact Bool.false_ne_true)

/-- A unit that is awaited is taken. -/
theorem expect_self (h : blank c = false) (t : Text) : expect c (c :: t) = some t := by
  rw [expect, skip_cons h]
  exact if_pos rfl

/-- Any other is not. -/
theorem expect_ne (h : blank d = false) (hne : d ≠ c) (t : Text) : expect c (d :: t) = none := by
  rw [expect, skip_cons h]
  exact if_neg hne

/-- A word is read. -/
theorem parseWord_self {w : String} {u : Text} (hword : codes w = c :: u)
    (hc : blank c = false) (v : Json ν) (t : Text) :
    parseWord w v (codes w ++ t) = some (v, t) := by
  have hlen : w.length = (codes w).length := by
    rw [codes, List.length_map, String.length_toList]
  have hskip : skip (codes w ++ t) = codes w ++ t := by
    rw [hword, List.cons_append, skip_cons hc]
  rw [parseWord, hskip, if_pos (List.prefix_append _ _), hlen, List.drop_left]

/-- A word that begins otherwise is not read. -/
theorem parseWord_ne {w : String} {u : Text} (hword : codes w = c :: u)
    (hd : blank d = false) (hne : c ≠ d) (v : Json ν) (t : Text) :
    parseWord w v (d :: t) = none := by
  rw [parseWord, hword, skip_cons hd, if_neg]
  exact fun hpre => hne (List.cons_prefix_cons.1 hpre).1

/-- Without a code unit of numbers there is no number. -/
theorem parseScalar_word (hc : blank c = false) (hnumber : c ∉ numberUnits) (t : Text) :
    parseScalar N (c :: t) =
      (parseWord "null" null (c :: t)).or ((parseWord "true" (bool true) (c :: t)).or
        (parseWord "false" (bool false) (c :: t))) := by
  have hliteral : literal (skip (c :: t)) = [] := by
    rw [skip_cons hc]
    exact List.takeWhile_cons_of_neg (fun h => hnumber (of_decide_eq_true h))
  rw [parseScalar, hliteral]
  exact if_neg Bool.false_ne_true

/-- `null` is read. -/
theorem parseScalar_null (t : Text) : parseScalar N (codes "null" ++ t) = some (null, t) := by
  have hself := parseWord_self (w := "null") (c := code 'n') rfl rfl (null : Json ν) t
  rw [show codes "null" ++ t = code 'n' :: (codes "ull" ++ t) from rfl] at hself ⊢
  rw [parseScalar_word rfl (by decide), hself]
  rfl

/-- The two others are read. -/
theorem parseScalar_bool (b : Bool) (t : Text) :
    parseScalar N ((if b then codes "true" else codes "false") ++ t) = some (bool b, t) := by
  cases b with
  | true =>
    have hself := parseWord_self (w := "true") (c := code 't') rfl rfl (bool true : Json ν) t
    rw [if_pos rfl]
    rw [show codes "true" ++ t = code 't' :: (codes "rue" ++ t) from rfl] at hself ⊢
    rw [parseScalar_word rfl (by decide), hself,
      parseWord_ne (w := "null") (c := code 'n') rfl rfl (by decide)]
    rfl
  | false =>
    have hself := parseWord_self (w := "false") (c := code 'f') rfl rfl (bool false : Json ν) t
    rw [if_neg Bool.false_ne_true]
    rw [show codes "false" ++ t = code 'f' :: (codes "alse" ++ t) from rfl] at hself ⊢
    rw [parseScalar_word rfl (by decide), hself,
      parseWord_ne (w := "null") (c := code 'n') rfl rfl (by decide),
      parseWord_ne (w := "true") (c := code 't') rfl rfl (by decide)]
    rfl

/-- What a value can begin with. -/
theorem begins_of_numberUnits (hc : c ∈ numberUnits) : blank c = false ∧ c ≠ code '\x22' ∧
    c ≠ code '[' ∧ c ≠ code ']' ∧ c ≠ code '\x7b' := by
  have hall : numberUnits.all (fun c => decide (blank c = false ∧ c ≠ code '\x22' ∧
      c ≠ code '[' ∧ c ≠ code ']' ∧ c ≠ code '\x7b')) = true := by decide
  exact of_decide_eq_true (List.all_eq_true.1 hall c hc)

/-- A literal of a number has a first code unit. -/
theorem write_cons {n : ν} {l : Text} (h : N.write n = some l) :
    ∃ c u, l = c :: u ∧ c ∈ numberUnits := by
  have hnumber := N.write_isNumber n l h
  cases l with
  | nil => cases hnumber
  | cons c u => exact ⟨c, u, rfl, N.write_units n _ h c List.mem_cons_self⟩

/-- A number is read. -/
theorem parseScalar_num {n : ν} {l t : Text} (h : N.write n = some l) (ht : literal t = []) :
    parseScalar N (l ++ t) = some (num (N.read l), t) := by
  obtain ⟨c, u, hl, hc⟩ := write_cons h
  have hskip : skip (l ++ t) = l ++ t := by
    rw [hl, List.cons_append, skip_cons (begins_of_numberUnits hc).1]
  have hliteral : literal (l ++ t) = l := by
    unfold literal at ht ⊢
    rw [List.takeWhile_append_of_pos fun c hc => decide_eq_true (N.write_units n l h c hc), ht,
      List.append_nil]
  rw [parseScalar, hskip, hliteral, if_pos (N.write_isNumber n l h), List.drop_left]

/-- A value that is no string, array or object is a number or a word. -/
theorem parseValue_scalar {n : ℕ} (hc : blank c = false) (hstr : c ≠ code '\x22')
    (harr : c ≠ code '[') (hobj : c ≠ code '\x7b') (t : Text) :
    parseValue N (n + 1) (c :: t) = parseScalar N (c :: t) := by
  unfold parseValue
  simp only [expect_ne hc hstr, expect_ne hc harr, expect_ne hc hobj]

/-- A written value begins neither with white space nor with the end of an array. -/
theorem stringify_cons (v : Json ν) :
    ∃ c t, stringify N v = c :: t ∧ blank c = false ∧ c ≠ code ']' := by
  cases v with
  | null => exact ⟨_, _, rfl, rfl, by decide⟩
  | bool b =>
    cases b with
    | true => exact ⟨_, _, rfl, rfl, by decide⟩
    | false => exact ⟨_, _, rfl, rfl, by decide⟩
  | num n =>
    unfold stringify
    cases h : N.write n with
    | none => exact ⟨_, _, rfl, rfl, by decide⟩
    | some l =>
      obtain ⟨c, u, rfl, hc⟩ := write_cons h
      obtain ⟨hblank, -, -, hend, -⟩ := begins_of_numberUnits hc
      exact ⟨c, u, rfl, hblank, hend⟩
  | str s =>
    unfold stringify
    exact ⟨_, _, rfl, rfl, by decide⟩
  | arr items =>
    cases items with
    | nil =>
      unfold stringify
      exact ⟨_, _, rfl, rfl, by decide⟩
    | cons v items =>
      unfold stringify
      exact ⟨_, _, rfl, rfl, by decide⟩
  | obj fields =>
    cases fields with
    | nil =>
      unfold stringify
      exact ⟨_, _, rfl, rfl, by decide⟩
    | cons p fields =>
      obtain ⟨key, v⟩ := p
      unfold stringify
      exact ⟨_, _, rfl, rfl, by decide⟩

variable (N)

/-- A value is read back, whatever follows it that is not part of a number. -/
def ReadsBack (v : Json ν) : Prop :=
  ∀ t, literal t = [] →
    parseValue N (2 * (stringify N v ++ t).length + 1) (stringify N v ++ t) =
      some (reread N v, t)

variable {N}

/-- A value that is read back is read back with more fuel, too. -/
theorem ReadsBack.more {v : Json ν} (h : ReadsBack N v) {n : ℕ} {t : Text}
    (ht : literal t = []) (hn : 2 * (stringify N v ++ t).length + 1 ≤ n) :
    parseValue N n (stringify N v ++ t) = some (reread N v, t) :=
  ((parse_fuel _ _).1 _ hn (Nat.le_refl _)).trans (h t ht)

/-- Items are read back, each one like the first. -/
theorem parseItems_stringify {items : List (Json ν)} (hitems : ∀ v ∈ items, ReadsBack N v)
    {v : Json ν} (hv : ReadsBack N v) (n : ℕ) (t : Text)
    (hn : 2 * (stringify N v ++ (stringifyItems N items ++ t)).length + 2 ≤ n) :
    parseItems N n (stringify N v ++ (stringifyItems N items ++ t)) =
      some (reread N v :: rereadItems N items, t) := by
  induction items generalizing v n with
  | nil =>
    obtain _ | n := n
    · omega
    rw [parseItems.eq_def]
    simp only [stringifyItems, rereadItems] at hn ⊢
    rw [hv.more rfl (Nat.le_of_succ_le_succ hn)]
    simp only
    rw [show codes "]" ++ t = code ']' :: t from rfl, expect_ne rfl (by decide), expect_self rfl]
    rfl
  | cons w items ih =>
    obtain _ | n := n
    · omega
    rw [parseItems.eq_def]
    simp only [stringifyItems, rereadItems] at hn ⊢
    rw [hv.more rfl (Nat.le_of_succ_le_succ hn)]
    simp only
    rw [List.cons_append, expect_self rfl, List.append_assoc]
    simp only
    rw [ih (fun u hu => hitems u (List.mem_cons_of_mem _ hu)) (hitems w List.mem_cons_self) n]
    · rfl
    · simp only [List.length_append, List.length_cons] at hn ⊢
      omega

/-- Fields are read back. -/
theorem parseMembers_stringify {fields : List (Text × Json ν)}
    (hfields : ∀ p ∈ fields, ReadsBack N p.2) {key : Text} {v : Json ν} (hv : ReadsBack N v)
    (n : ℕ) (t : Text)
    (hn : 2 * (quote key ++
      code ':' :: (stringify N v ++ (stringifyFields N fields ++ t))).length + 2 ≤ n) :
    parseMembers N n (quote key ++
        code ':' :: (stringify N v ++ (stringifyFields N fields ++ t))) =
      some ((key, reread N v) :: rereadFields N fields, t) := by
  have hquote : ∀ (key s : Text), (expect (code '\x22') (quote key ++ s)).bind parseString =
      some (key, s) := by
    intro key s
    rw [quote, List.cons_append, expect_self rfl, List.append_assoc]
    exact parseString_quoteUnits key s
  induction fields generalizing key v n with
  | nil =>
    obtain _ | n := n
    · omega
    rw [parseMembers.eq_def]
    simp only [stringifyFields, rereadFields, List.length_append, List.length_cons] at hn ⊢
    rw [hquote]
    simp only [expect_self (c := code ':') rfl, Option.bind_some]
    rw [hv.more rfl]
    · simp only
      rw [show codes "\x7d" ++ t = code '\x7d' :: t from rfl, expect_ne rfl (by decide),
        expect_self rfl]
      rfl
    · simp only [List.length_append]
      omega
  | cons p fields ih =>
    obtain ⟨key', w⟩ := p
    obtain _ | n := n
    · omega
    rw [parseMembers.eq_def]
    simp only [stringifyFields, rereadFields] at hn ⊢
    rw [hquote]
    simp only [expect_self (c := code ':') rfl, Option.bind_some]
    rw [hv.more rfl]
    · simp only
      rw [List.cons_append, expect_self rfl, List.append_assoc, List.cons_append,
        List.append_assoc]
      simp only
      rw [ih (fun q hq => hfields q (List.mem_cons_of_mem _ hq))
        (hfields (key', w) List.mem_cons_self) n]
      · rfl
      · simp only [List.length_append, List.length_cons] at hn ⊢
        omega
    · simp only [List.length_append, List.length_cons] at hn ⊢
      omega

/-- Reading the values again leaves the keys as they are. -/
theorem keys_rereadFields (fields : List (Text × Json ν)) :
    (rereadFields N fields).map Prod.fst = fields.map Prod.fst := by
  induction fields with
  | nil => rfl
  | cons p fields ih =>
    rw [rereadFields.eq_def, List.map_cons, List.map_cons, ih]

/-- There is fuel for one step at least. -/
theorem ReadsBack.of_succ {v : Json ν}
    (h : ∀ n t, literal t = [] → 2 * (stringify N v ++ t).length ≤ n →
      parseValue N (n + 1) (stringify N v ++ t) = some (reread N v, t)) : ReadsBack N v :=
  fun t ht => h _ t ht (Nat.le_refl _)

/-- A number is read back, or `null` for a number that is not written. -/
theorem readsBack_num (x : ν) : ReadsBack N (num x) := by
  refine .of_succ fun n t ht _ => ?_
  simp only [stringify, reread]
  cases hx : N.write x with
  | none =>
    exact (parseValue_scalar rfl (by decide) (by decide) (by decide) _).trans (parseScalar_null t)
  | some l =>
    have hscalar := parseScalar_num hx ht
    obtain ⟨c, u, rfl, hc⟩ := write_cons hx
    obtain ⟨hblank, hstr, harr, -, hobj⟩ := begins_of_numberUnits hc
    exact (parseValue_scalar hblank hstr harr hobj _).trans hscalar

/-- An array is read back with its items. -/
theorem readsBack_arr {items : List (Json ν)} (h : ∀ v ∈ items, ReadsBack N v) :
    ReadsBack N (arr items) := by
  refine .of_succ fun n t _ hn => ?_
  rw [parseValue.eq_def]
  cases items with
  | nil =>
    simp only [stringify, reread, rereadItems]
    rw [show codes "[]" ++ t = code '[' :: code ']' :: t from rfl, expect_ne rfl (by decide),
      expect_self rfl]
    simp only [expect_self (c := code ']') rfl]
  | cons v items =>
    simp only [stringify, reread, rereadItems, List.cons_append, List.append_assoc] at hn ⊢
    rw [expect_ne rfl (by decide), expect_self rfl]
    -- a value does not begin with the end of the array
    obtain ⟨c, u, hc, hblank, hend⟩ := stringify_cons (N := N) v
    have hnot : expect (code ']') (stringify N v ++ (stringifyItems N items ++ t)) = none := by
      rw [hc, List.cons_append, expect_ne hblank hend]
    simp only [hnot]
    obtain ⟨hv, hitems⟩ := List.forall_mem_cons.1 h
    rw [parseItems_stringify hitems hv n t]
    · rfl
    · simp only [List.length_cons] at hn
      omega

/-- An object is read back with its fields, whose keys are different. -/
theorem readsBack_obj {fields : List (Text × Json ν)} (hkeys : (fields.map Prod.fst).Nodup)
    (h : ∀ p ∈ fields, ReadsBack N p.2) : ReadsBack N (obj fields) := by
  refine .of_succ fun n t _ hn => ?_
  rw [parseValue.eq_def]
  cases fields with
  | nil =>
    simp only [stringify, reread, rereadFields]
    rw [show codes "\x7b\x7d" ++ t = code '\x7b' :: code '\x7d' :: t from rfl,
      expect_ne rfl (by decide), expect_ne rfl (by decide), expect_self rfl]
    simp only [expect_self (c := code '\x7d') rfl]
  | cons p fields =>
    obtain ⟨key, v⟩ := p
    simp only [stringify, reread, rereadFields, List.cons_append, List.append_assoc] at hn ⊢
    rw [expect_ne rfl (by decide), expect_ne rfl (by decide), expect_self rfl]
    have hnot : expect (code '\x7d') (quote key ++
        code ':' :: (stringify N v ++ (stringifyFields N fields ++ t))) = none := by
      rw [quote, List.cons_append, expect_ne rfl (by decide)]
    simp only [hnot]
    obtain ⟨hv, hfields⟩ := List.forall_mem_cons.1 h
    rw [parseMembers_stringify hfields hv n t]
    · have hnodup : (((key, reread N v) :: rereadFields N fields).map Prod.fst).Nodup := by
        rw [List.map_cons, keys_rereadFields]
        exact hkeys
      simp only [Option.map_some, ofMembers_eq hnodup]
    · simp only [List.length_cons] at hn
      omega

/-- **A written value is read back**, with its numbers written and read. -/
theorem readsBack {v : Json ν} (h : WF v) : ReadsBack N v := by
  induction h with
  | null =>
    refine .of_succ fun n t _ _ => ?_
    exact (parseValue_scalar rfl (by decide) (by decide) (by decide) _).trans (parseScalar_null t)
  | bool b =>
    refine .of_succ fun n t _ _ => ?_
    have hscalar := parseScalar_bool (N := N) b t
    cases b with
    | true => exact (parseValue_scalar rfl (by decide) (by decide) (by decide) _).trans hscalar
    | false => exact (parseValue_scalar rfl (by decide) (by decide) (by decide) _).trans hscalar
  | num x => exact readsBack_num x
  | str s =>
    refine .of_succ fun n t _ _ => ?_
    simp only [stringify, reread]
    rw [parseValue.eq_def]
    simp only [quote, List.cons_append, expect_self (c := code '\x22') rfl, List.append_assoc,
      List.nil_append]
    rw [parseString_quoteUnits]
    rfl
  | arr _ ih => exact readsBack_arr ih
  | obj hkeys _ ih => exact readsBack_obj hkeys ih

/-- **What was written is what is read**, but for the numbers. -/
theorem parse_stringify {v : Json ν} (h : WF v) :
    parse N (stringify N v) = some (reread N v) := by
  have hread := readsBack (N := N) h [] rfl
  rw [List.append_nil] at hread
  rw [parse, hread]
  rfl

/-! ### Values that stay as they are -/

variable (N)

/-- A value whose numbers are all read back from the literals that write them. -/
inductive Kept : Json ν → Prop
  | null : Kept null
  | bool (b : Bool) : Kept (bool b)
  | num {n : ν} {l : Text} (hwrite : N.write n = some l) (hread : N.read l = n) : Kept (num n)
  | str (s : Text) : Kept (str s)
  | arr {items : List (Json ν)} (h : ∀ v ∈ items, Kept v) : Kept (arr items)
  | obj {fields : List (Text × Json ν)} (h : ∀ p ∈ fields, Kept p.2) : Kept (obj fields)

variable {N}

/-- An object is kept if and only if its values are. -/
theorem kept_obj_iff {fields : List (Text × Json ν)} :
    Kept N (obj fields) ↔ ∀ p ∈ fields, Kept N p.2 := by
  refine ⟨fun h => ?_, .obj⟩
  cases h with
  | obj h => exact h

/-- An array comes back as it was if and only if its items do. -/
theorem rereadItems_eq_iff (items : List (Json ν)) :
    rereadItems N items = items ↔ ∀ v ∈ items, reread N v = v := by
  induction items with
  | nil => exact iff_of_true rfl fun _ h => (nomatch h)
  | cons v items ih => rw [rereadItems.eq_def, List.cons.injEq, ih, List.forall_mem_cons]

/-- So do the fields of an object. -/
theorem rereadFields_eq_iff (fields : List (Text × Json ν)) :
    rereadFields N fields = fields ↔ ∀ p ∈ fields, reread N p.2 = p.2 := by
  induction fields with
  | nil => exact iff_of_true rfl fun _ h => (nomatch h)
  | cons p fields ih =>
    obtain ⟨key, v⟩ := p
    simp only [rereadFields, List.cons.injEq, ih, List.forall_mem_cons, Prod.mk.injEq, true_and]

/-- An object comes back unchanged exactly when each of its values does. -/
theorem reread_obj_iff (fields : List (Text × Json ν)) :
    reread N (obj fields) = obj fields ↔ ∀ p ∈ fields, reread N p.2 = p.2 := by
  rw [reread, obj.injEq, rereadFields_eq_iff]

/-- **A value comes back unchanged exactly when its numbers do.** -/
theorem reread_eq_iff {v : Json ν} (h : WF v) : reread N v = v ↔ Kept N v := by
  constructor
  · intro hv
    induction h with
    | null => exact .null
    | bool b => exact .bool b
    | num n =>
      rw [reread] at hv
      split at hv
      · next l hl => exact .num hl (num.inj hv)
      · cases hv
    | str s => exact .str s
    | @arr items _ ih =>
      rw [reread, arr.injEq, rereadItems_eq_iff] at hv
      exact .arr fun w hw => ih w hw (hv w hw)
    | @obj fields _ _ ih =>
      rw [reread_obj_iff] at hv
      exact .obj fun p hp => ih p hp (hv p hp)
  · intro hkept
    induction hkept with
    | null => rfl
    | bool b => rfl
    | num hwrite hread =>
      rw [reread, hwrite]
      exact congrArg num hread
    | str s => rfl
    | @arr items _ ih =>
      cases h with
      | arr h => rw [reread, (rereadItems_eq_iff items).2 fun w hw => ih w hw (h w hw)]
    | @obj fields _ ih =>
      cases h with
      | obj _ h => exact (reread_obj_iff fields).2 fun p hp => ih p hp (h p hp)

end Json
end Lib
end YtShare
