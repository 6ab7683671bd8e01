/-
# The bodies of requests

`DecodeJSON` of `backend/internal/httpx/response.go` and the `validate` tags of
the requests in `modules/auth/dto.go` and `modules/videos/dto.go`.

Every field of a request is a string.  `json.Unmarshal` stores the members of an
object one after the other into the fields that carry their names; a `null`
stores nothing, and any other value is an error.  The validator then checks the
tags of a field in their order and tells the first one that fails.  The email and
the URL it checks with expressions of its own, which are a parameter here.
-/

import YtShare.Auth.Service
import YtShare.Notifications.Wire
import YtShare.Videos.Model

namespace YtShare
namespace Api

open Auth Notifications Videos

/-! ### The tags -/

/-- A tag of a field. -/
inductive Check
  | required
  | omitempty
  | email
  | url
  | min (n : ℕ)
  | max (n : ℕ)
deriving DecidableEq

/-- The name of a tag. -/
def Check.tag : Check → String
  | .required => "required"
  | .omitempty => "omitempty"
  | .email => "email"
  | .url => "url"
  | .min _ => "min"
  | .max _ => "max"

/-- The two checks of the validator that are not of lengths. -/
structure Validator where
  isEmail : String → Bool
  isURL : String → Bool

/-- A check of a text, which is as long as it has characters. -/
def Check.holds (v : Validator) (s : String) : Check → Bool
  | .required => decide (s ≠ "")
  | .omitempty => true
  | .email => v.isEmail s
  | .url => v.isURL s
  | .min n => decide (n ≤ s.length)
  | .max n => decide (s.length ≤ n)

/-- The first check that fails.  After `omitempty` an empty text is not checked. -/
def firstFailure (v : Validator) (s : String) : List Check → Option Check
  | [] => none
  | .omitempty :: cs => if s = "" then none else firstFailure v s cs
  | c :: cs => if c.holds v s = true then firstFailure v s cs else some c

/-! ### The structs -/

/-- A field of a request: its name, the one that its `json` tag gives it, and its
`validate` tag. -/
structure Field (σ : Type) where
  name : String
  json : String
  checks : List Check
  get : σ → String
  set : String → σ → σ

/-- A struct of such fields. -/
structure Schema (σ : Type) where
  name : String
  zero : σ
  fields : List (Field σ)

namespace Schema

variable {σ : Type} (S : Schema σ)

/-- The field that a member of an object is stored into: the one of that name,
else one whose name folds alike. -/
def fieldOf (key : String) : Option (Field σ) :=
  match S.fields.find? fun f => decide (f.json = key) with
  | some f => some f
  | none => S.fields.find? fun f => decide (Event.foldName f.json = Event.foldName key)

/-- The members stored one after the other, `none` for an error. -/
def storeAll : σ → List (String × Json) → Option σ
  | x, [] => some x
  | x, (key, v) :: ms =>
      match S.fieldOf key, v with
      | none, _ => storeAll x ms
      | some _, .null => storeAll x ms
      | some f, .str s => storeAll (f.set s x) ms
      | some _, _ => none

/-- `Decoder.Decode` into a zero struct, from the first value of the body, `none`
where there is none. -/
def decode : Option Json → Option σ
  | some .null => some S.zero
  | some (.obj ms) => S.storeAll S.zero ms
  | _ => none

/-- `FieldError.Error`. -/
def fieldError (f : Field σ) (c : Check) : String :=
  "Key: '" ++ S.name ++ "." ++ f.name ++ "' Error:Field validation for '" ++ f.name ++
    "' failed on the '" ++ c.tag ++ "' tag"

/-- The errors of the fields, in their order. -/
def fieldErrors (v : Validator) (x : σ) : List String :=
  S.fields.filterMap fun f => (firstFailure v (f.get x) f.checks).map (S.fieldError f)

/-- `DecodeJSON` and `Validate.Struct`, as the handlers call them. -/
def bind (v : Validator) (body : Option Json) : Except HTTPError σ :=
  match S.decode body with
  | none => .error ⟨400, "invalid_body", "request body is not valid JSON"⟩
  | some x =>
      match S.fieldErrors v x with
      | [] => .ok x
      | errors => .error ⟨400, "validation_failed", "\n".intercalate errors⟩

variable {S}

/-- **What passes:** every check of every field. -/
theorem bind_eq_ok {v : Validator} {body : Option Json} {x : σ} :
    S.bind v body = .ok x ↔
      S.decode body = some x ∧ ∀ f ∈ S.fields, firstFailure v (f.get x) f.checks = none := by
  have hnil : ∀ y, S.fieldErrors v y = [] ↔
      ∀ f ∈ S.fields, firstFailure v (f.get y) f.checks = none := by
    intro y
    rw [fieldErrors, List.filterMap_eq_nil_iff]
    exact forall₂_congr fun f _ => Option.map_eq_none_iff
  unfold bind
  cases hdecode : S.decode body with
  | none => exact iff_of_false nofun (by rintro ⟨h, -⟩; cases h)
  | some y =>
    dsimp only
    split
    · next herrors =>
      rw [Except.ok.injEq, Option.some.injEq]
      exact ⟨fun h => ⟨h, h ▸ (hnil y).1 herrors⟩, And.left⟩
    · next herrors =>
      refine iff_of_false nofun ?_
      rintro ⟨h, hall⟩
      exact herrors ((hnil y).2 (Option.some.inj h ▸ hall))

/-- What does not pass is answered by 400. -/
theorem bind_eq_error {v : Validator} {body : Option Json} {e : HTTPError}
    (h : S.bind v body = .error e) : e.status = 400 := by
  unfold bind at h
  split at h
  · rw [← Except.error.inj h]
  · split at h
    · cases h
    · rw [← Except.error.inj h]

end Schema

/-! ### The requests -/

/-- `SignUpRequest`. -/
def signUpSchema : Schema SignUpRequest where
  name := "SignUpRequest"
  zero := ⟨"", "", ""⟩
  fields := [
    ⟨"Email", "email", [.required, .email], (·.email), fun s r => { r with email := s }⟩,
    ⟨"Name", "name", [.required, .min 1, .max 120], (·.name), fun s r => { r with name := s }⟩,
    ⟨"Password", "password", [.required, .min 6, .max 72], (·.password),
      fun s r => { r with password := s }⟩]

/-- `SignInRequest`. -/
def signInSchema : Schema SignInRequest where
  name := "SignInRequest"
  zero := ⟨"", ""⟩
  fields := [
    ⟨"Email", "email", [.required, .email], (·.email), fun s r => { r with email := s }⟩,
    ⟨"Password", "password", [.required, .min 1, .max 72], (·.password),
      fun s r => { r with password := s }⟩]

/-- `RefreshRequest`. -/
def refreshSchema : Schema RefreshRequest where
  name := "RefreshRequest"
  zero := ⟨""⟩
  fields := [
    ⟨"RefreshToken", "refreshToken", [.required], (·.refreshToken), fun s _ => ⟨s⟩⟩]

/-- `ShareRequest`. -/
def shareSchema : Schema ShareRequest where
  name := "ShareRequest"
  zero := ⟨"", "", ""⟩
  fields := [
    ⟨"URL", "url", [.required, .url], (·.url), fun s r => { r with url := s }⟩,
    ⟨"Title", "title", [.omitempty, .max 255], (·.title), fun s r => { r with title := s }⟩,
    ⟨"Description", "description", [.omitempty, .max 4096], (·.description),
      fun s r => { r with description := s }⟩]

/-- What the tags of a share leave: a title that the column holds. -/
theorem title_of_bind {v : Validator} {body : Option Json} {req : ShareRequest}
    (h : shareSchema.bind v body = .ok req) : req.title.length ≤ 255 := by
  have htitle := (Schema.bind_eq_ok.1 h).2 ⟨"Title", "title", [.omitempty, .max 255], (·.title),
    fun s r => { r with title := s }⟩ (by simp [shareSchema])
  simp only [firstFailure] at htitle
  split_ifs at htitle with hempty hmax
  · rw [hempty]
    exact Nat.zero_le _
  · exact of_decide_eq_true hmax

end Api
end YtShare
