/-
# The authenticator

`backend/internal/middleware/auth.go`.  A private handler runs with the user that
`Authenticator` has put into the context of its request, or not at all.
-/

import YtShare.Auth.Jwt
import YtShare.Core.Http
import YtShare.Core.Strings

namespace YtShare
namespace Middleware

open Auth

/-- What the authenticator reads of a request: the header `Authorization` and the
query parameter `access_token`, empty when they are missing. -/
structure Request where
  authorization : String
  accessToken : String

/-- `stripBearer`. -/
def stripBearer (raw : String) : String :=
  if "Bearer ".toList <+: raw.toList then
    trimSpace (String.ofList (raw.toList.drop "Bearer ".toList.length))
  else trimSpace raw

/-- The token of a request, with the query parameter as the fallback. -/
def Request.token (r : Request) : String :=
  stripBearer (if r.authorization = "" then r.accessToken else r.authorization)

/-- `Authenticator`: the user that the handler finds by `UserIDFromContext`. -/
def authenticator (jwt : JWT) (cfg : JWTConfig) (now : Time) (r : Request) :
    Except HTTPError UUID :=
  if r.token = "" then .error ⟨401, "unauthorized", "missing access token"⟩
  else
    match TokenIssuer.verifyAccess jwt cfg now r.token with
    | .error _ => .error ⟨401, "unauthorized", "invalid access token"⟩
    | .ok claims => .ok claims.userID

/-- A request that is let through has a token that `VerifyAccess` accepts. -/
theorem authenticator_eq_ok {jwt : JWT} {cfg : JWTConfig} {now : Time} {r : Request}
    {userID : UUID} (h : authenticator jwt cfg now r = .ok userID) :
    ∃ claims, TokenIssuer.verifyAccess jwt cfg now r.token = .ok claims ∧
      claims.userID = userID := by
  unfold authenticator at h
  split_ifs at h
  split at h
  · cases h
  · next claims hclaims => exact ⟨claims, hclaims, Except.ok.inj h⟩

end Middleware
end YtShare
