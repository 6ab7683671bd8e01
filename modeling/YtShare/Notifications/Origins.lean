/-
# The origins of HTTP and of the socket

`NewHandler` of `notifications/handler.go` makes a set of the allowed origins for the
upgrade to a WebSocket, and `CORS` hands the same list to `go-chi/cors` for all the rest.
The set knows the entries as they are written.  The package does not care for letter
case, reads a `*` as a wildcard, and takes an empty list for all origins.

So the upgrade never accepts an origin that HTTP refuses (`allowed_of_checkOrigin`), but
it refuses many that HTTP allows.  The two agree for the lists that are not empty, have
no `*`, and hold each entry in all its spellings (`origins_agree_iff`).
-/

import YtShare.Config.Load
import YtShare.Core.LetterCase
import YtShare.Middleware.Cors
import Mathlib.Data.Finset.Dedup

namespace YtShare
namespace Notifications

open Lib Config Middleware

/-- `CheckOrigin` of the upgrader that `NewHandler` makes. -/
def checkOrigin (allowedOrigins : List Bytes) (origin : Bytes) : Bool :=
  if origin = [] then true else decide (origin ∈ allowedOrigins.toFinset)

/-- The list is not empty, has no `*`, and holds each entry in all its spellings. -/
structure Literal (allowedOrigins : List Bytes) : Prop where
  nonempty : allowedOrigins ≠ []
  star : ∀ entry ∈ allowedOrigins, star ∉ entry
  spelled : ∀ entry ∈ allowedOrigins, ∀ origin, toLower origin = toLower entry →
    origin ∈ allowedOrigins

variable {lib : GoChiCors} {list : List Bytes} {origin entry : Bytes}

/-- An origin is accepted for the socket if it is one of the list, letter by letter. -/
theorem checkOrigin_iff (h : origin ≠ []) : checkOrigin list origin = true ↔ origin ∈ list := by
  rw [checkOrigin, if_neg h, decide_eq_true_iff, List.mem_toFinset]

/-- **What the upgrade accepts**, HTTP allows. -/
theorem allowed_of_checkOrigin (h : origin ≠ []) (hcheck : checkOrigin list origin = true) :
    lib.isOriginAllowed (cors list) origin = true :=
  lib.allowed_of_mem ((checkOrigin_iff h).1 hcheck)

/-- No entry is empty. -/
theorem ne_nil_of_mem_splitAndTrim {raw : Bytes} (h : entry ∈ splitAndTrim raw) : entry ≠ [] :=
  of_decide_eq_true (List.mem_filter.1 h).2

/-- The asterisk is no letter that a case could be changed of. -/
theorem star_not_letter : ¬LetterByte star := by decide

/-- Only an entry with a `*` has one in lower case. -/
theorem star_mem_toLower : star ∈ toLower entry ↔ star ∈ entry :=
  ⟨mem_of_mem_toLower star_not_letter, lowerByte_mem_toLower (by decide)⟩

/-- Some letters in the middle are lowered by themselves. -/
theorem toLower_append_replicate (a b : Bytes) (n : ℕ) :
    toLower (a ++ (List.replicate (n + 1) (byte 'x') ++ b)) =
      toLower a ++ (List.replicate (n + 1) (byte 'x') ++ toLower b) := by
  have hx : byte 'x' < 128 := by decide
  rw [List.replicate_succ, List.cons_append, toLower_append_cons hx]
  refine congrArg (toLower a ++ byte 'x' :: ·) ?_
  induction n with
  | zero => rfl
  | succ n ih =>
    rw [List.replicate_succ, List.cons_append, toLower_cons hx, ih]
    rfl

/-- **A wildcard matches more than is listed**: there is no end to what it matches. -/
theorem exists_unlisted (list : List Bytes) (h : star ∈ entry) :
    ∃ origin, origin ≠ [] ∧ origin ∉ list ∧ OriginMatches (toLower entry) (toLower origin) := by
  obtain ⟨a, b, rfl, ha⟩ := List.eq_append_cons_of_mem h
  refine ⟨a ++ (List.replicate (list.flatten.length + 1) (byte 'x') ++ b), ?_, fun hmem => ?_, ?_⟩
  · rw [List.replicate_succ]
    exact List.append_ne_nil_of_right_ne_nil _ (List.cons_ne_nil _ _)
  · have hle := (List.sublist_flatten_of_mem hmem).length_le
    simp only [List.length_append, List.length_replicate] at hle
    omega
  · rw [toLower_append_replicate, toLower_append_cons (by decide)]
    exact originMatches_star (mt star_mem_toLower.1 ha) _

/-- **When HTTP and the socket agree on the origins:** for every origin that a browser
may send, exactly when every entry of the list is one that the router of the HTTP
side compares letter by letter, and in no other spelling, as the socket does. -/
theorem origins_agree_iff (lib : GoChiCors) (raw : Bytes) :
    (∀ origin, origin ≠ [] → (checkOrigin (splitAndTrim raw) origin = true ↔
      lib.isOriginAllowed (cors (splitAndTrim raw)) origin = true)) ↔
    Literal (splitAndTrim raw) := by
  have hentry : ∀ entry ∈ splitAndTrim raw, entry ≠ [] := fun _ => ne_nil_of_mem_splitAndTrim
  generalize splitAndTrim raw = list at hentry ⊢
  constructor
  · intro h
    have hlisted : ∀ origin, origin ≠ [] → lib.isOriginAllowed (cors list) origin = true →
        origin ∈ list := fun origin hne hallowed =>
      (checkOrigin_iff hne).1 ((h origin hne).2 hallowed)
    have hne : list ≠ [] := by
      rintro rfl
      have hx := hlisted [byte 'x'] (List.cons_ne_nil _ _) (lib.allowed_of_nil _ _ rfl)
      exact List.not_mem_nil hx
    have hmatch : ∀ entry ∈ list, ∀ origin, origin ≠ [] →
        OriginMatches (toLower entry) (toLower origin) → origin ∈ list :=
      fun entry he origin ho hm => hlisted origin ho ((lib.allowed_iff _ _ hne).2 ⟨entry, he, hm⟩)
    refine ⟨hne, fun entry he hstar => ?_, fun entry he origin heq => ?_⟩
    · obtain ⟨origin, ho, hnot, hm⟩ := exists_unlisted list hstar
      exact hnot (hmatch entry he origin ho hm)
    · refine hmatch entry he origin ?_ (heq ▸ originMatches_self _)
      rintro rfl
      exact toLower_ne_nil (hentry entry he) heq.symm
  · rintro ⟨hne, hstar, hspelled⟩ origin ho
    rw [checkOrigin_iff ho, lib.allowed_iff _ _ hne]
    constructor
    · intro hmem
      exact ⟨origin, hmem, originMatches_self _⟩
    · rintro ⟨entry, he, hm⟩
      have hnot : star ∉ toLower entry := mt star_mem_toLower.1 (hstar entry he)
      exact hspelled entry he origin ((originMatches_iff hnot).1 hm)

/-- Two addresses without a letter. -/
def addresses : Bytes := utf8 "127.0.0.1:80, 127.0.0.1:81,"

/-- **Such a list has no other spelling**, and so the two agree on it. -/
theorem origins_agree_addresses : ∀ origin, origin ≠ [] →
    (checkOrigin (splitAndTrim addresses) origin = true ↔
      GoChiCors.reference.isOriginAllowed (cors (splitAndTrim addresses)) origin = true) := by
  have hlist : splitAndTrim addresses = [utf8 "127.0.0.1:80", utf8 "127.0.0.1:81"] := by
    decide +kernel
  have hplain : ∀ entry ∈ splitAndTrim addresses,
      star ∉ entry ∧ toLower entry = entry ∧ entry.all (fun b => decide ¬LetterByte b) = true := by
    rw [hlist]
    decide +kernel
  refine (origins_agree_iff .reference addresses).2 ⟨by rw [hlist]; exact List.cons_ne_nil _ _,
    fun entry he => (hplain entry he).1, fun entry he origin heq => ?_⟩
  obtain ⟨-, hlower, hletter⟩ := hplain entry he
  rw [hlower] at heq
  have hfix : toLower origin = origin := eq_of_toLower fun b hb =>
    of_decide_eq_true (List.all_eq_true.1 hletter b (heq ▸ hb))
  rwa [← hfix, heq]

/-- **Any origin over HTTP, none over the socket**: the list of the integration test. -/
theorem not_origins_agree : ¬∀ (lib : GoChiCors) (raw origin : Bytes), origin ≠ [] →
    (checkOrigin (splitAndTrim raw) origin = true ↔
      lib.isOriginAllowed (cors (splitAndTrim raw)) origin = true) := by
  intro h
  have hagree := h .reference (utf8 "*") (utf8 "http://localhost:5173") (by decide +kernel)
  exact absurd hagree (by decide +kernel)

end Notifications
end YtShare
