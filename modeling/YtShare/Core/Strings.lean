/-
# Trimming text

`strings.TrimSpace` of Go: it cuts the white space of Unicode from both ends.
-/

namespace YtShare

/-- `unicode.IsSpace`. -/
def isSpace (c : Char) : Bool :=
  c == '\t' || c == '\n' || c == '\x0b' || c == '\x0c' || c == '\r' || c == ' ' ||
    c == '\u0085' || c == '\u00a0' || c == '\u1680' ||
    ('\u2000'.toNat ≤ c.toNat && c.toNat ≤ '\u200a'.toNat) ||
    c == '\u2028' || c == '\u2029' || c == '\u202f' || c == '\u205f' || c == '\u3000'

/-- `strings.TrimSpace`. -/
def trimSpace (s : String) : String :=
  String.ofList ((s.toList.dropWhile isSpace).reverse.dropWhile isSpace).reverse

/-- No white space is at either end. -/
def Trimmed (s : String) : Prop :=
  (∀ c ∈ s.toList.head?, isSpace c = false) ∧ ∀ c ∈ s.toList.getLast?, isSpace c = false

/-- What is left of a text begins with no white space. -/
theorem head?_dropWhile_isSpace (cs : List Char) :
    ∀ c ∈ (cs.dropWhile isSpace).head?, isSpace c = false := by
  intro c hc
  induction cs with
  | nil => cases hc
  | cons d cs ih =>
    rw [List.dropWhile_cons] at hc
    split at hc
    · exact ih hc
    · next hd =>
      cases hc
      simpa using hd

/-- **`TrimSpace` leaves no white space at either end.** -/
theorem trimmed_trimSpace (s : String) : Trimmed (trimSpace s) := by
  rw [Trimmed, trimSpace, String.toList_ofList]
  constructor
  · intro c hc
    rw [List.head?_reverse] at hc
    -- what is left at the end begins where the whole text begins
    have hsplit := List.takeWhile_append_dropWhile (p := isSpace)
      (l := (s.toList.dropWhile isSpace).reverse)
    refine head?_dropWhile_isSpace s.toList c ?_
    rw [← List.getLast?_reverse, ← hsplit, List.getLast?_append, Option.mem_def.1 hc]
    rfl
  · intro c hc
    rw [List.getLast?_reverse] at hc
    exact head?_dropWhile_isSpace _ c hc

/-- Trimming makes no text longer. -/
theorem length_trimSpace_le (s : String) : (trimSpace s).length ≤ s.length := by
  have hfront := (List.dropWhile_sublist isSpace (l := s.toList)).length_le
  have hback := (List.dropWhile_sublist isSpace
    (l := (s.toList.dropWhile isSpace).reverse)).length_le
  rw [trimSpace, String.length_ofList, List.length_reverse]
  rw [List.length_reverse] at hback
  rw [String.length_toList] at hfront
  omega

example : trimSpace "  a b\n" = "a b" := by decide

end YtShare
