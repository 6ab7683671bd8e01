/-
# The auth store

`frontend/src/modules/auth/stores/auth.store.ts` and `types`: who is signed in,
in memory and in `localStorage`.
-/

namespace YtShare
namespace Frontend

/-- `SessionUser`. -/
structure SessionUser where
  id : String
  email : String
  name : String
deriving DecidableEq

/-- `AuthSession`. -/
structure AuthSession where
  user : SessionUser
  accessToken : String
  refreshToken : String
  expiresAt : String
deriving DecidableEq

/-- `AuthState`, with the session that `writeSession` left in `localStorage`. -/
structure AuthStore where
  session : Option AuthSession
  isAuthenticated : Bool
  stored : Option AuthSession

namespace AuthStore

/-- The store of a page that finds the session in `localStorage`. -/
def load (stored : Option AuthSession) : AuthStore := ⟨stored, stored.isSome, stored⟩

/-- `signIn`. -/
def signIn (session : AuthSession) : AuthStore := ⟨some session, true, some session⟩

/-- `signOut`. -/
def signOut : AuthStore := ⟨none, false, none⟩

/-- `updateTokens`: it merges the tokens into the session there is. -/
def updateTokens (s : AuthStore) (accessToken refreshToken expiresAt : String) : AuthStore :=
  match s.session with
  | none => s
  | some current =>
      let next := { current with
        accessToken := accessToken
        refreshToken := refreshToken
        expiresAt := expiresAt }
      { s with session := some next, stored := some next }

/-- The hook `getAccessToken`, `none` for a token that is missing or empty. -/
def getAccessToken (s : AuthStore) : Option String :=
  (s.session.map AuthSession.accessToken).filter fun t => decide (t ≠ "")

/-- The hook `getRefreshToken`, `none` for a token that is missing or empty. -/
def getRefreshToken (s : AuthStore) : Option String :=
  (s.session.map AuthSession.refreshToken).filter fun t => decide (t ≠ "")

/-- The session after a refresh: the same user with the new tokens. -/
theorem session_updateTokens (s : AuthStore) (a r e : String) :
    (s.updateTokens a r e).session = s.session.map fun x =>
      { x with accessToken := a, refreshToken := r, expiresAt := e } := by
  unfold updateTokens
  cases hs : s.session with
  | none => exact hs
  | some x => rfl

/-- After a refresh there is no access token but the new one. -/
theorem getAccessToken_updateTokens {s : AuthStore} {a r e x : String}
    (h : (s.updateTokens a r e).getAccessToken = some x) : x = a := by
  unfold getAccessToken at h
  rw [session_updateTokens] at h
  obtain ⟨hx, -⟩ := Option.filter_eq_some_iff.1 h
  rw [Option.map_map] at hx
  obtain ⟨y, -, rfl⟩ := Option.map_eq_some_iff.1 hx
  rfl

end AuthStore

end Frontend
end YtShare
