/-
# The CORS middleware

`backend/internal/middleware/cors.go` hands the list of allowed origins to
`github.com/go-chi/cors`.  `GoChiCors` is what that package does with a list: an empty
list allows every origin, and otherwise an origin has to match an entry, both in lower
case, where a `*` in the entry stands for anything.  `GoChiCors.reference` is a package
that does so.
-/

import YtShare.Core.Bytes
import Mathlib.Data.List.Infix

namespace YtShare
namespace Middleware

open Lib

/-- `cors.Options`, with the fields that are set. -/
structure CorsOptions where
  allowedOrigins : List Bytes
  allowedMethods : List String
  allowedHeaders : List String
  exposedHeaders : List String
  allowCredentials : Bool
  maxAge : ℕ

/-- `CORS`: the options of the handler. -/
def cors (allowedOrigins : List Bytes) : CorsOptions where
  allowedOrigins := allowedOrigins
  allowedMethods := ["GET", "POST", "PUT", "PATCH", "DELETE", "OPTIONS"]
  allowedHeaders := ["Authorization", "Content-Type", "Accept"]
  exposedHeaders := ["Content-Length"]
  allowCredentials := true
  maxAge := 300

/-- The sign that stands for anything. -/
abbrev star : UInt8 := byte '*'

/-- An origin matches an entry: it is the entry, or what stands before and after the
first `*` of the entry begins and ends it, one apart from the other. -/
def OriginMatches (entry origin : Bytes) : Prop :=
  if star ∈ entry then
    (cut star entry).1.length + (cut star entry).2.length ≤ origin.length ∧
      (cut star entry).1 <+: origin ∧ (cut star entry).2 <:+ origin
  else origin = entry

instance (entry origin : Bytes) : Decidable (OriginMatches entry origin) :=
  inferInstanceAs (Decidable (if star ∈ entry then
    (cut star entry).1.length + (cut star entry).2.length ≤ origin.length ∧
      (cut star entry).1 <+: origin ∧ (cut star entry).2 <:+ origin
    else origin = entry))

/-- The package: whether its handler allows an origin. -/
structure GoChiCors where
  isOriginAllowed : CorsOptions → Bytes → Bool
  allowed_of_nil : ∀ opts origin, opts.allowedOrigins = [] → isOriginAllowed opts origin = true
  allowed_iff : ∀ opts origin, opts.allowedOrigins ≠ [] → (isOriginAllowed opts origin = true ↔
    ∃ entry ∈ opts.allowedOrigins, OriginMatches (toLower entry) (toLower origin))

/-- A package that does so. -/
def GoChiCors.reference : GoChiCors where
  isOriginAllowed opts origin :=
    opts.allowedOrigins.isEmpty ||
      opts.allowedOrigins.any fun entry => decide (OriginMatches (toLower entry) (toLower origin))
  allowed_of_nil opts origin h := by rw [h]; rfl
  allowed_iff opts origin h := by
    have hempty : opts.allowedOrigins.isEmpty = false := List.isEmpty_eq_false_iff.2 h
    rw [hempty, Bool.false_or, List.any_eq_true]
    simp only [decide_eq_true_eq]

/-! ### What matches -/

variable {entry origin a b : Bytes}

/-- An entry around a `*` matches what begins and ends like it. -/
theorem originMatches_star (h : star ∉ a) (mid : Bytes) :
    OriginMatches (a ++ star :: b) (a ++ (mid ++ b)) := by
  rw [OriginMatches, if_pos (List.mem_append_right _ List.mem_cons_self), cut_append h]
  refine ⟨?_, List.prefix_append _ _, ?_⟩
  · simp only [List.length_append]
    omega
  · rw [← List.append_assoc]
    exact List.suffix_append _ _

/-- **An entry matches itself.** -/
theorem originMatches_self (entry : Bytes) : OriginMatches entry entry := by
  by_cases h : star ∈ entry
  · obtain ⟨a, b, rfl, ha⟩ := List.eq_append_cons_of_mem h
    exact originMatches_star ha [star]
  · rw [OriginMatches, if_neg h]

/-- An entry without a `*` matches itself alone. -/
theorem originMatches_iff (h : star ∉ entry) : OriginMatches entry origin ↔ origin = entry := by
  rw [OriginMatches, if_neg h]

/-- **A listed origin is allowed.** -/
theorem GoChiCors.allowed_of_mem (lib : GoChiCors) {list : List Bytes} (h : origin ∈ list) :
    lib.isOriginAllowed (cors list) origin = true :=
  (lib.allowed_iff _ _ (List.ne_nil_of_mem h)).2 ⟨origin, h, originMatches_self _⟩

end Middleware
end YtShare
