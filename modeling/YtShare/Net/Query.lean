/-
# Queries that were encoded

A query is put together from pieces with a `&` between them.  `ParseQuery` takes
it apart into these pieces again (`parseQuery_intercalate`), and a piece that
writes a key and a value in `QueryEscape` is read back (`queryPair_encodePair`),
whatever bytes the two hold.
-/

import YtShare.Net.URL

namespace YtShare
namespace URL

open Lib

/-- `<key>=<value>`, both in `QueryEscape`. -/
def encodePair (p : Bytes × Bytes) : Bytes := queryEscape p.1 ++ byte '=' :: queryEscape p.2

/-- The bytes of an escaped text that mean something in a URL are not among
those that `QueryEscape` writes. -/
theorem escaped_ne : ∀ c : UInt8, Escaped c →
    c ≠ byte '&' ∧ c ≠ byte '=' ∧ c ≠ byte ';' ∧ c ≠ byte '#' ∧ c ≠ byte '?' ∧ c ≠ byte '/' ∧
      c ≠ byte '@' ∧ c ≠ byte ':' ∧ isCTL c = false :=
  forall_byte (by decide +kernel)

/-- The bytes of a pair. -/
theorem mem_encodePair {p : Bytes × Bytes} {c : UInt8} (h : c ∈ encodePair p) :
    Escaped c ∨ c = byte '=' := by
  rcases List.mem_append.1 h with h | h
  · exact .inl (escaped_queryEscape p.1 c h)
  · rcases List.mem_cons.1 h with h | h
    · exact .inr h
    · exact .inl (escaped_queryEscape p.2 c h)

/-- No encoded pair is split at an `&`. -/
theorem amp_notMem_encodePair (p : Bytes × Bytes) : byte '&' ∉ encodePair p := by
  intro h
  rcases mem_encodePair h with h | h
  · exact (escaped_ne _ h).1 rfl
  · exact absurd h (by decide)

/-- A piece with a key and a value that decode. -/
theorem queryPair_append {k v key value : Bytes} (hk : byte '=' ∉ k)
    (hs : byte ';' ∉ k ++ byte '=' :: v) (hkey : unescape .queryComponent k = .ok key)
    (hvalue : unescape .queryComponent v = .ok value) :
    queryPair (k ++ byte '=' :: v) = some (key, value) := by
  have hne : ¬(byte ';' ∈ k ++ byte '=' :: v ∨ k ++ byte '=' :: v = []) := by
    rintro (h | h)
    · exact hs h
    · exact absurd h (by simp)
  rw [queryPair, if_neg hne, cut_append hk v]
  simp only [hkey, hvalue]

/-- **An encoded pair is read back.** -/
theorem queryPair_encodePair (p : Bytes × Bytes) : queryPair (encodePair p) = some p := by
  refine queryPair_append (fun h => ?_) (fun h => ?_) (unescape_queryEscape p.1)
    (unescape_queryEscape p.2)
  · exact (escaped_ne _ (escaped_queryEscape p.1 _ h)).2.1 rfl
  · rcases mem_encodePair h with h | h
    · exact (escaped_ne _ h).2.2.1 rfl
    · exact absurd h (by decide)

/-- **A query is taken apart into its pieces.** -/
theorem parseQuery_intercalate {pieces : List Bytes} (h : ∀ p ∈ pieces, byte '&' ∉ p) :
    parseQuery ([byte '&'].intercalate pieces) = pieces.filterMap queryPair := by
  by_cases hnil : pieces = []
  · subst hnil
    rfl
  · rw [parseQuery, List.splitOn_intercalate _ h hnil]

/-- The pairs of a query that was encoded. -/
theorem filterMap_encodePair (ps : List (Bytes × Bytes)) :
    (ps.map encodePair).filterMap queryPair = ps := by
  induction ps with
  | nil => rfl
  | cons p ps ih =>
    rw [List.map_cons, List.filterMap_cons_some (queryPair_encodePair p), ih]

/-- The value of a key that no pair before it has. -/
theorem find_key {key value : Bytes} {before after : List (Bytes × Bytes)}
    (h : ∀ p ∈ before, p.1 ≠ key) :
    (before ++ (key, value) :: after).find? (fun p => decide (p.1 = key)) = some (key, value) := by
  have hnone : before.find? (fun p => decide (p.1 = key)) = none :=
    List.find?_eq_none.2 fun p hp hk => h p hp (of_decide_eq_true hk)
  rw [List.find?_append, hnone, Option.none_or, List.find?_cons_of_pos]
  exact decide_eq_true rfl

/-- Nothing is found under a key that no pair has. -/
theorem find_key_none {key : Bytes} {ps : List (Bytes × Bytes)} (h : ∀ p ∈ ps, p.1 ≠ key) :
    ps.find? (fun p => decide (p.1 = key)) = none :=
  List.find?_eq_none.2 fun p hp hk => h p hp (of_decide_eq_true hk)

/-- A byte between the pieces or of a piece. -/
theorem mem_intercalate {sep c : UInt8} {pieces : List Bytes} (h : c ∈ [sep].intercalate pieces) :
    c = sep ∨ ∃ p ∈ pieces, c ∈ p := by
  induction pieces with
  | nil => exact absurd h List.not_mem_nil
  | cons p pieces ih =>
    cases pieces with
    | nil => exact .inr ⟨p, List.mem_cons_self, by simpa [List.intercalate] using h⟩
    | cons q pieces =>
      have hcons : [sep].intercalate (p :: q :: pieces) =
          p ++ sep :: [sep].intercalate (q :: pieces) := by
        simp [List.intercalate]
      rw [hcons] at h
      rcases List.mem_append.1 h with h | h
      · exact .inr ⟨p, List.mem_cons_self, h⟩
      · rcases List.mem_cons.1 h with h | h
        · exact .inl h
        · exact (ih h).imp_right fun ⟨r, hr, hc⟩ => ⟨r, List.mem_cons_of_mem _ hr, hc⟩

end URL
end YtShare
