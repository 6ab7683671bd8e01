/-
# The HTTP client

`httpClient` of `frontend/src/shared/constants/http-client.ts` with its two
interceptors, on the auth store that `bootstrapAuth` hooks it up to.

One step is one turn of the event loop, with the promise callbacks it triggers:
a user action on the store, a request sent, an answer or a refresh answer
arriving.  A request that fails with 401 waits for `refreshPromise`, which the
first one starts and which is reset when its answer arrives; then all that wait
are sent again, or rejected.

Which user a token was issued for is a fact of the server, `owner`.  What the
server and the sign-in form are trusted with is part of the steps
(`HttpClient.Trusted`): a session given to `signIn` is consistent, and a refresh
is answered with tokens for the owner of the refresh token that was sent.

`updateTokens` merges the answer of a refresh into the session there is when it
arrives, and nothing ties that session to the one the refresh was started for.
`session_owned_iff` says when that goes well.
-/

import YtShare.Frontend.AuthStore
import YtShare.Lib.Machine

namespace YtShare
namespace Frontend

open Lib

/-- A request made through `httpClient`: the token it was last sent with, and
`_retried`. -/
structure Request where
  key : ℕ
  authorization : Option String
  retried : Bool
deriving DecidableEq

/-- The store and `httpClient`: the refresh token that `refreshPromise` was
started with, the requests on their way and those that wait for the promise. -/
structure HttpClient where
  store : AuthStore
  refreshPromise : Option String
  inFlight : List Request
  waiting : List Request

namespace HttpClient

/-- What happens next. -/
inductive Label
  /-- `signIn(session)` of the store -/
  | signIn (session : AuthSession)
  /-- `signOut()` of the store -/
  | signOut
  /-- a new request is sent -/
  | request (key : ℕ)
  /-- a request is answered, by anything but 401 -/
  | respond (r : Request)
  /-- a request is answered by 401 -/
  | unauthorized (r : Request)
  /-- the refresh is answered with new tokens -/
  | refreshed (accessToken refreshToken expiresAt : String)
  /-- the refresh fails -/
  | refreshFailed

/-- The request interceptor. -/
def authorize (c : HttpClient) (r : Request) : Request :=
  match c.store.getAccessToken with
  | some token => { r with authorization := some token }
  | none => r

/-- The response interceptor on a 401. -/
def onUnauthorized (c : HttpClient) (r : Request) : HttpClient :=
  let c := { c with inFlight := c.inFlight.erase r }
  if r.retried then c
  else
    match c.store.getRefreshToken with
    | none => { c with store := .signOut }
    | some refreshToken =>
        { c with
          refreshPromise := some (c.refreshPromise.getD refreshToken)
          waiting := c.waiting ++ [{ r with retried := true }] }

/-- The answer of the refresh arrives: the tokens go to the store, and every
request that waits is sent again. -/
def onRefreshed (c : HttpClient) (accessToken refreshToken expiresAt : String) : HttpClient :=
  let c := { c with
    store := c.store.updateTokens accessToken refreshToken expiresAt
    refreshPromise := none }
  { c with
    inFlight := c.inFlight ++
      c.waiting.map fun r => c.authorize { r with authorization := some accessToken }
    waiting := [] }

/-- The refresh fails: every request that waits is rejected, and the user is
signed out. -/
def onRefreshFailed (c : HttpClient) : HttpClient :=
  { c with store := .signOut, refreshPromise := none, waiting := [] }

/-- Both tokens of a session were issued for its user. -/
def Consistent (owner : String → String) (s : AuthSession) : Prop :=
  owner s.accessToken = s.user.id ∧ owner s.refreshToken = s.user.id

instance (owner : String → String) (s : AuthSession) : Decidable (Consistent owner s) :=
  inferInstanceAs (Decidable (_ ∧ _))

/-- One step. -/
def step (owner : String → String) (c : HttpClient) : Label → Option HttpClient
  | .signIn session =>
      if Consistent owner session then some { c with store := .signIn session } else none
  | .signOut => some { c with store := .signOut }
  | .request key => some { c with inFlight := c.inFlight ++ [c.authorize ⟨key, none, false⟩] }
  | .respond r => if r ∈ c.inFlight then some { c with inFlight := c.inFlight.erase r } else none
  | .unauthorized r => if r ∈ c.inFlight then some (c.onUnauthorized r) else none
  | .refreshed accessToken refreshToken expiresAt =>
      match c.refreshPromise with
      | some sent =>
          if owner accessToken = owner sent ∧ owner refreshToken = owner sent then
            some (c.onRefreshed accessToken refreshToken expiresAt)
          else none
      | none => none
  | .refreshFailed =>
      match c.refreshPromise with
      | some _ => some c.onRefreshFailed
      | none => none

end HttpClient

/-- A page, from its load on. -/
def httpClient (owner : String → String) : Machine HttpClient HttpClient.Label where
  init c := ∃ stored, c = ⟨.load stored, none, [], []⟩
  step := HttpClient.step owner

namespace HttpClient

variable {owner : String → String} {c d : HttpClient}

/-- The tokens of the session, if there is one, are its user's. -/
def SessionOwned (owner : String → String) (c : HttpClient) : Prop :=
  ∀ s, c.store.session = some s → Consistent owner s

/-- **The condition on a step:** when the answer of a refresh arrives, nobody is
signed in, or the user whose refresh token was sent. -/
def Guard (owner : String → String) (c : HttpClient) : Label → Prop
  | .refreshed _ _ _ => ∀ s sent, c.store.session = some s → c.refreshPromise = some sent →
      owner sent = s.user.id
  | _ => True

/-- A step that keeps the session or ends it keeps the property. -/
theorem SessionOwned.of_session (h : SessionOwned owner c)
    (hs : d.store.session = c.store.session ∨ d.store.session = none) : SessionOwned owner d := by
  intro s hd
  rcases hs with hs | hs
  · exact h s (hs.symm.trans hd)
  · rw [hs] at hd
    cases hd

/-- A refused request leaves the session, or ends it. -/
theorem session_onUnauthorized (c : HttpClient) (r : Request) :
    (c.onUnauthorized r).store.session = c.store.session ∨
      (c.onUnauthorized r).store.session = none := by
  unfold onUnauthorized
  cases r.retried with
  | true => exact .inl rfl
  | false =>
    cases hr : c.store.getRefreshToken with
    | none => right; simp [hr, AuthStore.signOut]
    | some token => left; simp [hr]

/-- **The step lemma.**  From a session with its own tokens, a step keeps the
property exactly when it meets the condition. -/
theorem step_owned_iff {l : Label} (h : SessionOwned owner c) (hs : c.step owner l = some d) :
    SessionOwned owner d ↔ Guard owner c l := by
  cases l <;> simp only [step] at hs
  case signIn session =>
    split_ifs at hs with hc
    cases hs
    refine iff_of_true (fun s hd => ?_) trivial
    obtain rfl := Option.some.inj hd
    exact hc
  case signOut =>
    cases hs
    exact iff_of_true (h.of_session (.inr rfl)) trivial
  case request key =>
    cases hs
    exact iff_of_true (h.of_session (.inl rfl)) trivial
  case respond r =>
    split_ifs at hs
    cases hs
    exact iff_of_true (h.of_session (.inl rfl)) trivial
  case unauthorized r =>
    split_ifs at hs
    cases hs
    exact iff_of_true (h.of_session (session_onUnauthorized c r)) trivial
  case refreshFailed =>
    split at hs
    case h_1 =>
      cases hs
      exact iff_of_true (h.of_session (.inr rfl)) trivial
    case h_2 => cases hs
  case refreshed a r e =>
    split at hs
    case h_2 => cases hs
    case h_1 sent hsent =>
      split_ifs at hs with howner
      cases hs
      have hsession : (c.onRefreshed a r e).store.session = c.store.session.map fun x =>
          { x with accessToken := a, refreshToken := r, expiresAt := e } :=
        c.store.session_updateTokens a r e
      constructor
      · intro hd s sent' hs hsent'
        obtain rfl := Option.some.inj (hsent.symm.trans hsent')
        have hcons := hd { s with accessToken := a, refreshToken := r, expiresAt := e }
          (by rw [hsession, hs]; rfl)
        exact howner.1.symm.trans hcons.1
      · intro hg s hd
        rw [hsession] at hd
        obtain ⟨x, hx, rfl⟩ := Option.map_eq_some_iff.1 hd
        have hsame := hg x sent hx hsent
        exact ⟨howner.1.trans hsame, howner.2.trans hsame⟩

end HttpClient

/-- **When the session and its tokens belong together.**  In every run from a
page that finds no session or a consistent one, the session's tokens are its
user's in every state exactly when every refresh is answered while nobody is
signed in, or the user whose refresh token was sent. -/
theorem session_owned_iff {owner : String → String} {c : HttpClient}
    (h : HttpClient.SessionOwned owner c) (ls : List HttpClient.Label) :
    (httpClient owner).Always (HttpClient.SessionOwned owner) c ls ↔
      (httpClient owner).Steps (HttpClient.Guard owner) c ls :=
  @Machine.always_iff_steps _ _ (httpClient owner) (fun _ => True)
    (HttpClient.SessionOwned owner) (HttpClient.Guard owner)
    (fun _ _ _ _ hP hs => ⟨HttpClient.step_owned_iff hP hs, fun _ => trivial⟩) _ trivial h ls

/-- The server of the runs below: the owner of a token is its text. -/
def textOwner (token : String) : String := token

/-- A session of user `u` under `textOwner`. -/
def sessionOf (u : String) : AuthSession := ⟨⟨u, "", ""⟩, u, u, ""⟩

/-- A page without a session. -/
def signedOutPage : HttpClient := ⟨.load none, none, [], []⟩

/-- A user signs in, a request of theirs is refused, and the refresh succeeds. -/
def refreshRun : List HttpClient.Label :=
  [.signIn (sessionOf "a"), .request 1, .unauthorized ⟨1, some "a", false⟩, .refreshed "a" "a" ""]

/-- The tokens stay the user's throughout `refreshRun`. -/
theorem session_owned_iff_refreshRun :
    (httpClient textOwner).Always (HttpClient.SessionOwned textOwner) signedOutPage refreshRun := by
  refine (session_owned_iff (fun s hs => by cases hs) refreshRun).2 ?_
  refine .cons rfl trivial (.cons rfl trivial (.cons rfl trivial (.cons rfl ?_ trivial)))
  intro s sent hs hsent
  obtain rfl := Option.some.inj hs
  obtain rfl := Option.some.inj hsent
  rfl

/-- User `a`'s refresh is under way when `a` signs out and `b` signs in. -/
def switchRun : List HttpClient.Label :=
  [.signIn (sessionOf "a"), .request 1, .unauthorized ⟨1, some "a", false⟩, .signOut,
    .signIn (sessionOf "b"), .refreshed "a" "a" ""]

/-- At the end of `switchRun`, `b` is signed in with the tokens of `a`. -/
theorem session_mixed :
    ((httpClient textOwner).exec signedOutPage switchRun).map (·.store.session) =
        some (some ⟨⟨"b", "", ""⟩, "a", "a", ""⟩) ∧
      ¬(httpClient textOwner).Always (HttpClient.SessionOwned textOwner) signedOutPage
        switchRun := by
  have hend : ((httpClient textOwner).exec signedOutPage switchRun).map (·.store.session) =
      some (some ⟨⟨"b", "", ""⟩, "a", "a", ""⟩) := by decide
  refine ⟨hend, fun h => ?_⟩
  obtain ⟨t, ht, hsession⟩ := Option.map_eq_some_iff.1 hend
  have hcons := h.exec ht _ hsession
  exact absurd hcons (by decide)

end Frontend
end YtShare
