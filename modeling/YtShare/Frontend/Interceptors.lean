/-
# The interceptors, microtask by microtask

The two interceptors of `frontend/src/shared/constants/http-client.ts`, on the
auth store that `bootstrapAuth` hooks them up to, where `HttpClient` has one step
for a turn of the event loop and all that it triggers.

A request is a promise chain, and between the turns it rests: in flight, or
waiting for the promise of a refresh.  An answer starts a turn, which needs the
microtask queue to be empty.  What the answer makes ready to go on, one request
after a 401 and every waiting one after a refresh, is in that queue (`tasks`),
and so is a request that is about to be sent.  A `run` is one microtask, up to
the next `await` or the next transmission.  The order of the queue is left open,
and `signIn`, `signOut` and new requests may come between any two microtasks.

A refresh is the promise that `refreshPromise` names, and lives on when that
variable is reset.  An answer that cannot be stored rejects it too.  `sent` and
`awaited` record what the code does and decide nothing.
-/

import YtShare.Frontend.AuthStore
import YtShare.Lib.Machine

namespace YtShare
namespace Frontend

open Lib

/-- Where a request is.  `authorization` is the token in its header, `retried`
its flag `_retried`. -/
inductive Phase
  /-- the request interceptor is to run -/
  | sending (authorization : Option String) (retried : Bool)
  | inFlight (authorization : Option String) (retried : Bool)
  /-- answered by 401, and the response interceptor is to run -/
  | intercepting (authorization : Option String) (retried : Bool)
  /-- the response interceptor awaits a refresh -/
  | waiting (p : ℕ)
  /-- the refresh has settled, and the response interceptor is to go on -/
  | resuming (newAccess : Option String)
  /-- the promise that `httpClient.request` returned is settled -/
  | done (resolved : Bool)

namespace Phase

/-- The request is in the microtask queue. -/
def queued : Phase → Bool
  | sending .. | intercepting .. | resuming _ => true
  | inFlight .. | waiting _ | done _ => false

end Phase

/-- The promise of a refresh: the refresh token it sent, the requests that await
it, and its outcome, `some none` when it is rejected. -/
structure Refresh where
  refreshToken : String
  reactions : List ℕ
  outcome : Option (Option String)

/-- The page.  Refreshes are numbered in the order in which they are started:
`refreshes` tells of those below `started`. -/
structure Page where
  store : AuthStore
  refreshPromise : Option ℕ
  refreshes : ℕ → Refresh
  started : ℕ
  phase : ℕ → Option Phase
  tasks : List ℕ
  sent : ℕ → List (Option String)
  awaited : ℕ → Option ℕ

namespace Page

/-- What happens next. -/
inductive Label
  /-- `signIn(session)` of the store -/
  | signIn (session : AuthSession)
  /-- `signOut()` of the store -/
  | signOut
  /-- `httpClient.request` is called -/
  | request (k : ℕ)
  /-- a request is answered, by anything but 401 -/
  | respond (k : ℕ) (ok : Bool)
  /-- a request is answered by 401 -/
  | unauthorized (k : ℕ)
  /-- a refresh is answered with new tokens -/
  | refreshed (p : ℕ) (accessToken refreshToken expiresAt : String)
  /-- a refresh fails -/
  | refreshFailed (p : ℕ)
  /-- a microtask runs -/
  | run (k : ℕ)

/-- The page after its load, which finds this session in `localStorage`. -/
def load (stored : Option AuthSession) : Page :=
  ⟨.load stored, none, fun _ => ⟨"", [], some none⟩, 0, fun _ => none, [], fun _ => [],
    fun _ => none⟩

/-- A request goes to a phase, and is queued if the phase is one of a microtask. -/
def enter (s : Page) (k : ℕ) (phase : Phase) : Page :=
  { s with
    phase := Function.update s.phase k (some phase)
    tasks := s.tasks.filter (fun j => decide (j ≠ k)) ++ if phase.queued then [k] else [] }

/-- The request interceptor. -/
def authorize (s : Page) (authorization : Option String) : Option String :=
  match s.store.getAccessToken with
  | some token => some token
  | none => authorization

/-- The request interceptor runs, and the request is sent. -/
def send (s : Page) (k : ℕ) (authorization : Option String) (retried : Bool) : Page :=
  let authorization := s.authorize authorization
  { s with sent := Function.update s.sent k (s.sent k ++ [authorization]) }.enter k
    (.inFlight authorization retried)

/-- `refreshPromise ??= ..`: the refresh there is, or a new one. -/
def startRefresh (s : Page) (refreshToken : String) : ℕ × Page :=
  match s.refreshPromise with
  | some p => (p, s)
  | none =>
      (s.started,
        { s with
          refreshPromise := some s.started
          refreshes := Function.update s.refreshes s.started ⟨refreshToken, [], none⟩
          started := s.started + 1 })

/-- `await`: a request waits for a refresh, and goes on at once if it has settled. -/
def await (s : Page) (k p : ℕ) : Page :=
  let s := { s with awaited := Function.update s.awaited k (some p) }
  match (s.refreshes p).outcome with
  | none =>
      { s with
        refreshes := Function.update s.refreshes p
          { s.refreshes p with reactions := (s.refreshes p).reactions ++ [k] } }.enter k
        (.waiting p)
  | some newAccess => s.enter k (.resuming newAccess)

/-- The response interceptor on a 401. -/
def onUnauthorized (s : Page) (k : ℕ) (retried : Bool) : Page :=
  if retried then s.enter k (.done false)
  else
    match s.store.getRefreshToken with
    | none => { s with store := .signOut }.enter k (.done false)
    | some refreshToken =>
        let (p, s) := s.startRefresh refreshToken
        s.await k p

/-- The response interceptor after its `await`: the request is sent again, or
rejected. -/
def resume (s : Page) (k : ℕ) : Option String → Page
  | some newAccess => { s with refreshPromise := none }.enter k (.sending (some newAccess) true)
  | none => { s with refreshPromise := none, store := .signOut }.enter k (.done false)

/-- A refresh is settled, and all that await it are queued. -/
def settle (s : Page) (p : ℕ) (outcome : Option String) : Page :=
  { s with
    refreshes := Function.update s.refreshes p { s.refreshes p with outcome := some outcome }
    phase := fun k => if k ∈ (s.refreshes p).reactions then some (.resuming outcome) else s.phase k
    tasks := (s.refreshes p).reactions }

/-- The refresh that has settled has this outcome. -/
theorem settle_self (s : Page) (p : ℕ) (o : Option String) :
    (s.settle p o).refreshes p = { s.refreshes p with outcome := some o } :=
  Function.update_self ..

/-- The others are as they were. -/
theorem settle_of_ne (s : Page) {p q : ℕ} (h : q ≠ p) (o : Option String) :
    (s.settle p o).refreshes q = s.refreshes q :=
  Function.update_of_ne h ..

/-- The refresh has not been answered. -/
def Outstanding (s : Page) (p : ℕ) : Prop := (s.refreshes p).outcome = none

instance (s : Page) (p : ℕ) : Decidable (s.Outstanding p) :=
  inferInstanceAs (Decidable (_ = none))

/-- One microtask. -/
def runTask (s : Page) (k : ℕ) : Option Page :=
  match s.phase k with
  | some (.sending authorization retried) => some (s.send k authorization retried)
  | some (.intercepting _ retried) => some (s.onUnauthorized k retried)
  | some (.resuming newAccess) => some (s.resume k newAccess)
  | _ => none

/-- One answer, which comes when the microtask queue is empty. -/
def answer (s : Page) : Label → Option Page
  | .respond k ok =>
      match s.phase k with
      | some (.inFlight _ _) => some (s.enter k (.done ok))
      | _ => none
  | .unauthorized k =>
      match s.phase k with
      | some (.inFlight authorization retried) =>
          some (s.enter k (.intercepting authorization retried))
      | _ => none
  | .refreshed p accessToken refreshToken expiresAt =>
      if s.Outstanding p then
        some ({ s with store := s.store.updateTokens accessToken refreshToken expiresAt }.settle p
          (some accessToken))
      else none
  | .refreshFailed p => if s.Outstanding p then some (s.settle p none) else none
  | _ => none

/-- One step. -/
def step (s : Page) : Label → Option Page
  | .signIn session => some { s with store := .signIn session }
  | .signOut => some { s with store := .signOut }
  | .request k => if (s.phase k).isNone then some (s.enter k (.sending none false)) else none
  | .run k => if k ∈ s.tasks then s.runTask k else none
  | l => if s.tasks = [] then s.answer l else none

end Page

/-- A page, from its load on. -/
def page : Machine Page Page.Label where
  init s := ∃ stored, s = .load stored
  step := Page.step

end Frontend
end YtShare
