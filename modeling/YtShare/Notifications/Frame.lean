/-
# The text of an event

`json.Marshal` down to the characters, and what `JSON.parse` of a browser makes of them.
`encoding/json` escapes more than it must: beside quotation marks, backslashes and control
characters also `<`, `>` and `&`, for pages that quote the text in HTML, and the two line
separators that JavaScript once did not take.  All other characters stand for themselves,
and reach the page as its code units.

Whatever stands in a value, the page reads that value (`reads_text`): a string has the
code units of its characters, an array its items in order, an object its members.
-/

import YtShare.Lib.JsonReads
import YtShare.Lib.Utf16
import YtShare.Notifications.Wire

namespace YtShare
namespace Notifications
namespace Json

open Lib (Text code units unitsOf)
open Lib.Json (Numbers Reads ReadsMember Spells bracketed ofMembers quoted)

/-! ### Writing -/

/-- `appendString` of `encoding/json`, on one character, with `escapeHTML`. -/
def appendChar (c : Char) : List Char :=
  if c = '\x5c' ∨ c = '\x22' then ['\x5c', c]
  else if c = '\x08' then ['\x5c', 'b']
  else if c = '\x0c' then ['\x5c', 'f']
  else if c = '\n' then ['\x5c', 'n']
  else if c = '\r' then ['\x5c', 'r']
  else if c = '\t' then ['\x5c', 't']
  else if c.toNat < 0x20 ∨ c = '<' ∨ c = '>' ∨ c = '&' then
    ['\x5c', 'u', '0', '0', hexDigit (c.toNat / 16), hexDigit (c.toNat % 16)]
  else if c = '\u2028' ∨ c = '\u2029' then
    ['\x5c', 'u', '2', '0', '2', hexDigit (c.toNat % 16)]
  else [c]

/-- `appendString`. -/
def appendString (s : String) : List Char :=
  '\x22' :: (s.toList.flatMap appendChar ++ ['\x22'])

mutual

/-- `json.Marshal`, of a value. -/
def text : Json → List Char
  | .null => ['n', 'u', 'l', 'l']
  | .bool b => if b then ['t', 'r', 'u', 'e'] else ['f', 'a', 'l', 's', 'e']
  | .num literal => literal.toList
  | .str s => appendString s
  | .arr items => bracketed ',' '[' ']' (itemTexts items)
  | .obj fields => bracketed ',' '\x7b' '\x7d' (memberTexts fields)

/-- The texts of the items of an array. -/
def itemTexts : List Json → List (List Char)
  | [] => []
  | j :: js => text j :: itemTexts js

/-- The texts of the members of an object. -/
def memberTexts : List (String × Json) → List (List Char)
  | [] => []
  | (k, j) :: fs => (appendString k ++ ':' :: text j) :: memberTexts fs

end

/-! ### The value on the page -/

variable {ν : Type} (N : Numbers ν)

mutual

/-- The value as the page has it. -/
def page : Json → Lib.Json ν
  | .null => .null
  | .bool b => .bool b
  | .num literal => .num (N.read (units literal.toList))
  | .str s => .str (units s.toList)
  | .arr items => .arr (pageItems items)
  | .obj fields => .obj (ofMembers (pageMembers fields))

/-- The items of an array. -/
def pageItems : List Json → List (Lib.Json ν)
  | [] => []
  | j :: js => page j :: pageItems js

/-- The members of an object. -/
def pageMembers : List (String × Json) → List (Text × Lib.Json ν)
  | [] => []
  | (k, j) :: fs => (units k.toList, page j) :: pageMembers fs

end

/-- The literals of numbers are literals of JSON. -/
inductive Numeric : Json → Prop
  | null : Numeric .null
  | bool (b : Bool) : Numeric (.bool b)
  | num {literal : String} (h : Lib.Json.isNumber (units literal.toList) = true) :
      Numeric (.num literal)
  | str (s : String) : Numeric (.str s)
  | arr {items : List Json} (h : ∀ j ∈ items, Numeric j) : Numeric (.arr items)
  | obj {fields : List (String × Json)} (h : ∀ p ∈ fields, Numeric p.2) : Numeric (.obj fields)

variable {N}

/-- The items of an array, each as it is written. -/
theorem itemTexts_eq (js : List Json) : itemTexts js = js.map text := by
  induction js with
  | nil => rfl
  | cons j js ih => rw [itemTexts, ih, List.map_cons]

/-- The members of an object, each with its key in quotes. -/
theorem memberTexts_eq (fs : List (String × Json)) :
    memberTexts fs = fs.map fun p => appendString p.1 ++ ':' :: text p.2 := by
  induction fs with
  | nil => rfl
  | cons p fs ih => rw [memberTexts, ih, List.map_cons]

/-- The items, as the page has them. -/
theorem pageItems_eq (js : List Json) : pageItems N js = js.map (page N) := by
  induction js with
  | nil => rfl
  | cons j js ih => rw [pageItems, ih, List.map_cons]

/-- The members, as the page has them. -/
theorem pageMembers_eq (fs : List (String × Json)) :
    pageMembers N fs = fs.map fun p => (units p.1.toList, page N p.2) := by
  induction fs with
  | nil => rfl
  | cons p fs ih => rw [pageMembers, ih, List.map_cons]

/-! ### Strings are read -/

/-- A digit of an escape is one unit. -/
theorem unitsOf_hexDigit : ∀ d < 16, unitsOf (hexDigit d) = [Lib.Json.hexDigit d] := by
  decide

/-- A character with a number below 256, written by its number. -/
theorem units_numbered {c : Char} (h : c.toNat < 0x100) :
    units ['\x5c', 'u', '0', '0', hexDigit (c.toNat / 16), hexDigit (c.toNat % 16)] =
      Lib.Json.unicodeEscape (code c) := by
  obtain ⟨-, hcode, -, -⟩ := Lib.unitsOf_basic (c := c) (by omega)
  have hhigh : c.toNat / 4096 = 0 := by omega
  have hthird : c.toNat / 256 % 16 = 0 := by omega
  have hsecond : c.toNat / 16 % 16 = c.toNat / 16 := by omega
  have hhex := unitsOf_hexDigit (c.toNat / 16) (by omega)
  have hhex' := unitsOf_hexDigit (c.toNat % 16) (by omega)
  rw [Lib.Json.unicodeEscape, hcode, hhigh, hthird, hsecond]
  simp only [Lib.units_cons, Lib.units_nil, hhex, hhex']
  rfl

/-- A character that stands for itself is read, in one code unit or two. -/
theorem spells_self {c : Char} (hlow : ¬c.toNat < 0x20) (hquote : c ≠ '\x22')
    (hslash : c ≠ '\x5c') : Spells (unitsOf c) (unitsOf c) := by
  by_cases hbasic : c.toNat < 0x10000
  · obtain ⟨hunits, hcode, -, -⟩ := Lib.unitsOf_basic hbasic
    have hne : ∀ d : Char, d.toNat < 0x10000 → c ≠ d → code c ≠ code d := by
      intro d hd hcd heq
      obtain ⟨-, hcode', -, -⟩ := Lib.unitsOf_basic hd
      exact hcd (Char.toNat_inj.1 (hcode.symm.trans ((congrArg UInt16.toNat heq).trans hcode')))
    rw [hunits]
    refine .direct (hne _ (by decide) hquote) (hne _ (by decide) hslash) fun hlt => hlow ?_
    rwa [UInt16.lt_iff_toNat_lt, hcode] at hlt
  · obtain ⟨a, b, hunits, hlead, htrail, -⟩ := Lib.unitsOf_pair hbasic
    rw [hunits]
    exact .pair hlead htrail

/-- **A character is read**, however it is written. -/
theorem spells_appendChar (c : Char) : Spells (units (appendChar c)) (unitsOf c) := by
  unfold appendChar
  split_ifs with hquoted h h h h h hnumber hline
  · rcases hquoted with rfl | rfl
    · exact .escape (by decide) (by decide)
    · exact .escape (by decide) (by decide)
  · exact h ▸ .escape (by decide) (by decide)
  · exact h ▸ .escape (by decide) (by decide)
  · exact h ▸ .escape (by decide) (by decide)
  · exact h ▸ .escape (by decide) (by decide)
  · exact h ▸ .escape (by decide) (by decide)
  · have hlt : c.toNat < 0x100 := by
      rcases hnumber with hlow | rfl | rfl | rfl
      · omega
      · decide
      · decide
      · decide
    rw [units_numbered hlt, (Lib.unitsOf_basic (by omega)).1]
    exact .unicode _
  · rcases hline with rfl | rfl
    · exact .unicode (code '\u2028')
    · exact .unicode (code '\u2029')
  · rw [Lib.units_cons, Lib.units_nil, List.append_nil]
    exact spells_self (fun hlow => hnumber (.inl hlow)) (fun hq => hquoted (.inr hq))
      fun hs => hquoted (.inl hs)

/-- **A string is read**, whatever its characters are. -/
theorem units_appendString (s : String) :
    ∃ t, units (appendString s) = quoted t ∧ Spells t (units s.toList) := by
  refine ⟨units (s.toList.flatMap appendChar), ?_, ?_⟩
  · rw [appendString, Lib.units_cons, Lib.units_append]
    rfl
  · rw [units, List.flatMap_assoc]
    exact .flatMap spells_appendChar _

/-! ### Values are read -/

/-- The units of a list in brackets are those of its items in brackets. -/
theorem units_bracketed {opening closing : Char} (hopening : unitsOf opening = [code opening])
    (hclosing : unitsOf closing = [code closing]) (ts : List (List Char)) :
    units (bracketed ',' opening closing ts) =
      bracketed (code ',') (code opening) (code closing) (ts.map units) :=
  Lib.Json.flatMap_bracketed (show unitsOf ',' = [code ','] from rfl) hopening hclosing ts

/-- **Every value is read as it was written.** -/
theorem reads_text {j : Json} (h : Numeric j) : Reads N (units (text j)) (page N j) := by
  induction h with
  | null => exact .null
  | bool b =>
    rw [text, page, apply_ite units]
    exact .bool b
  | num h => exact .num h
  | str s =>
    obtain ⟨t, ht, hspells⟩ := units_appendString s
    rw [text, ht]
    exact .str hspells
  | @arr items _ ih =>
    have hitems : ∀ p ∈ items.map fun j => (units (text j), page N j), Reads N p.1 p.2 := by
      intro p hp
      obtain ⟨j, hj, rfl⟩ := List.mem_map.1 hp
      exact ih j hj
    have hread := Reads.arr hitems
    rw [List.map_map, List.map_map] at hread
    rw [text, page, units_bracketed rfl rfl, itemTexts_eq, pageItems_eq, List.map_map]
    exact hread
  | @obj fields _ ih =>
    have hmembers : ∀ m ∈ fields.map fun p =>
        (units (appendString p.1 ++ ':' :: text p.2), units p.1.toList, page N p.2),
        ReadsMember N m.1 m.2 := by
      intro m hm
      obtain ⟨p, hp, rfl⟩ := List.mem_map.1 hm
      obtain ⟨t, ht, hspells⟩ := units_appendString p.1
      refine ⟨t, _, ?_, hspells, ih p hp⟩
      rw [Lib.units_append, ht]
      rfl
    have hread := Reads.obj hmembers
    rw [List.map_map, List.map_map] at hread
    rw [text, page, units_bracketed rfl rfl, memberTexts_eq, pageMembers_eq, List.map_map]
    exact hread

end Json

/-! ### Events -/

variable {Raw : Type}

/-- The text of an event, as the hub and the replay write it on a connection. -/
def Event.frame (lib : JSONLibrary Raw) (e : Event) : Option (List Char) :=
  (e.toJSON lib).map Json.text

/-- The body of the answer of `since`; `Encode` ends it with a line. -/
def sinceBody (lib : JSONLibrary Raw) (es : List Event) : Option (List Char) :=
  (es.mapM (Event.toJSON lib)).map fun js => Json.text (.obj [("events", .arr js)]) ++ ['\n']

end Notifications
end YtShare
