/-
# The API

The router of `Build` in `backend/internal/server/server.go`, the handlers of
`modules/auth/handler.go`, `modules/videos/handler.go` and
`modules/notifications/handler.go`, and the services that they call, over one
database, one cache and one queue of jobs.

A request is routed, authenticated, decoded and validated when it comes in: none
of this asks the outside.  Then its call of a service takes its steps, between
which any other request may take some, and the handler answers when the call has
returned.  `State.journal` remembers which request wrote which row, in order.

CORS, with its preflight requests, and the connection that follows an upgrade are
in modules of their own.  When a `Submit` panics, since the queue is closed, is
the subject of `Main.Shutdown`; here it may do so at any time.
-/

import YtShare.Api.Requests
import YtShare.Middleware.Auth
import YtShare.Notifications.Handler
import YtShare.Notifications.Service
import YtShare.Videos.Calls
import YtShare.Videos.ShareOutcome

namespace YtShare
namespace Api

open Auth Middleware Notifications Users Videos

/-! ### Requests and answers -/

/-- The method of a request. -/
inductive Method
  | get
  | post
  | other
deriving DecidableEq

/-- A request.  `query` is `URL.Query().Get`, and `body` the first JSON value of
the body, `none` where there is none. -/
structure Request where
  method : Method
  path : String
  authorization : String
  query : String → String
  body : Option Json

/-- What an answer holds. -/
inductive Body
  | empty
  | error (e : APIError)
  | health
  | session (resp : Auth.Response)
  | video (view : VideoView)
  | list (resp : ListResponse)
  | events (events : List Event)
  | count (n : ℕ)
  | seenAt (now : Time)

/-- An answer. -/
structure Answer where
  status : ℕ
  body : Body

/-- `WriteError`. -/
def Answer.ofFailure (e : Failure) : Answer := ⟨(writeError e).1, .error (writeError e).2⟩

/-! ### The router -/

/-- The handlers. -/
inductive Endpoint
  | healthz
  | signUp
  | signIn
  | refresh
  | list
  | share
  | ws
  | unreadCount
  | markSeen
  | since
deriving DecidableEq

/-- The routes that `Build` registers. -/
def routes : List (Method × String × Endpoint) :=
  [(.get, "/healthz", .healthz),
    (.post, "/api/v1/auth/signup", .signUp),
    (.post, "/api/v1/auth/signin", .signIn),
    (.post, "/api/v1/auth/refresh", .refresh),
    (.get, "/api/v1/videos", .list),
    (.post, "/api/v1/videos", .share),
    (.get, "/api/v1/notifications/ws", .ws),
    (.get, "/api/v1/notifications/unread-count", .unreadCount),
    (.post, "/api/v1/notifications/mark-seen", .markSeen),
    (.get, "/api/v1/notifications/since", .since)]

/-- The routes of the group that has the authenticator. -/
def Endpoint.isPrivate : Endpoint → Bool
  | .share | .ws | .unreadCount | .markSeen | .since => true
  | .healthz | .signUp | .signIn | .refresh | .list => false

/-- The answer to a path that is not there. -/
def notFound : Answer := .ofFailure (.http ⟨404, "not_found", "route not found"⟩)

/-- The answer of `Recoverer` to a handler that panics. -/
def recovered : Answer := ⟨500, .empty⟩

/-- The answer of the router to a path that has other methods. -/
def methodNotAllowed : Answer := ⟨405, .empty⟩

/-- The router. -/
def route (r : Request) : Except Answer Endpoint :=
  match routes.find? fun p => decide (p.1 = r.method ∧ p.2.1 = r.path) with
  | some (_, _, e) => .ok e
  | none =>
      if (routes.any fun p => decide (p.2.1 = r.path)) = true then .error methodNotAllowed
      else .error notFound

/-! ### Calls -/

/-- A call of a service on behalf of a request. -/
inductive Call
  | auth (c : Auth.Call)
  | videos (c : Videos.Call)
  | notifications (c : Service.Call)
  | replay (id : String) (limit : ℤ)

/-- Where a request is: its call goes on, or it is answered. -/
inductive Pc
  | running (c : Call)
  | answered (a : Answer)

/-- A request that has come in at this instant. -/
structure Exchange where
  request : Request
  now : Time
  pc : Pc

/-- What a request writes: an account, a video, or the marker of a user. -/
inductive Write
  | account (row : Account)
  | video (row : Video)
  | seen (userID : UUID) (now : Time)

/-- The database, the cached list, the jobs, the requests by number, and who wrote
what. -/
structure State (lower : String → String) where
  users : Table lower
  videos : List Video
  cache : Option ListResponse
  jobs : List VideoSharedPayload
  exchanges : ℕ → Option Exchange
  journal : List (ℕ × Write)

/-- What the server stands on. -/
structure Deps where
  lib : Library
  jwt : JWTConfig
  validator : Validator
  hasReplayer : Bool

/-- What the outside decides about a step.  `events` is what `Replay` returns,
`none` for an error. -/
structure StepEnv where
  fails : Bool
  newID : UUID
  now : Time
  salt : ℕ
  events : Option (List Event)

/-! ### The handlers -/

/-- The number that `Atoi` leaves when its error is ignored: zero for a text that
is no number, and the nearest `int` for one that is too large. -/
def atoiIgnored (s : String) : ℤ :=
  let clamp (n : ℤ) : ℤ := max (-2 ^ 63) (min n (2 ^ 63 - 1))
  match s.toList with
  | '-' :: cs => ((decimal cs).map fun n => clamp (-(n : ℤ))).getD 0
  | '+' :: cs => ((decimal cs).map fun n => clamp (n : ℤ)).getD 0
  | cs => ((decimal cs).map fun n => clamp (n : ℤ)).getD 0

variable (deps : Deps)

/-- What the authenticator reads of a request. -/
def Request.credentials (r : Request) : Middleware.Request :=
  ⟨r.authorization, r.query "access_token"⟩

/-- The user of a request to this endpoint, `uuid.Nil` where there is no
authenticator. -/
def userOf (now : Time) (e : Endpoint) (r : Request) : Except HTTPError UUID :=
  if e.isPrivate then authenticator deps.lib.jwt deps.jwt now r.credentials else .ok UUID.nil

/-- A handler up to its call of a service. -/
def start (now : Time) (userID : UUID) (r : Request) : Endpoint → Pc
  | .healthz => .answered ⟨200, .health⟩
  | .signUp =>
      match signUpSchema.bind deps.validator r.body with
      | .error e => .answered (.ofFailure (.http e))
      | .ok req => .running (.auth (Auth.Service.startSignUp deps.lib req))
  | .signIn =>
      match signInSchema.bind deps.validator r.body with
      | .error e => .answered (.ofFailure (.http e))
      | .ok req => .running (.auth (Auth.Service.startSignIn deps.lib req))
  | .refresh =>
      match refreshSchema.bind deps.validator r.body with
      | .error e => .answered (.ofFailure (.http e))
      | .ok req => .running (.auth (Auth.Service.startRefresh deps.lib deps.jwt req now))
  | .list =>
      .running (.videos
        (.startList (atoiIgnored (r.query "limit")) (atoiIgnored (r.query "offset"))))
  | .share =>
      match shareSchema.bind deps.validator r.body with
      | .error e => .answered (.ofFailure (.http e))
      | .ok req => .running (.videos (.startShare extract userID req))
  | .ws => .answered ⟨101, .empty⟩
  | .unreadCount => .running (.notifications (.unreadCount userID .load))
  | .markSeen => .running (.notifications (.markSeen userID .clock))
  | .since =>
      if deps.hasReplayer then
        .running (.replay (r.query "id") (Handler.sinceLimit (r.query "limit")))
      else .answered (.ofFailure (.http Handler.replayUnsupported))

/-- The answer of a handler whose call has returned. -/
def Call.answer : Call → Option Answer
  | .auth (.signUp _ (.done (.ok resp))) => some ⟨201, .session resp⟩
  | .auth (.signIn _ (.done (.ok resp))) | .auth (.refresh _ _ (.done (.ok resp))) =>
      some ⟨200, .session resp⟩
  | .auth (.signUp _ (.done (.error e))) | .auth (.signIn _ (.done (.error e)))
  | .auth (.refresh _ _ (.done (.error e))) =>
      some ⟨(writeAuthError e).1, .error (writeAuthError e).2⟩
  | .videos (.share _ _ (.done (.ok view))) => some ⟨201, .video view⟩
  | .videos (.share _ _ (.done (.error e))) => some (.ofFailure e.failure)
  | .videos (.list _ _ (.done (.ok resp))) => some ⟨200, .list resp⟩
  | .videos (.list _ _ (.done (.error e))) => some (.ofFailure e)
  | .notifications (.unreadCount _ (.done (.ok n))) => some ⟨200, .count n⟩
  | .notifications (.markSeen _ (.done (.ok now))) => some ⟨200, .seenAt now⟩
  | .notifications (.unreadCount _ (.done (.error _)))
  | .notifications (.markSeen _ (.done (.error _))) => some (.ofFailure .other)
  | _ => none

/-- The handler answers as soon as its call has returned. -/
def Pc.settle : Pc → Pc
  | .running c => match c.answer with
    | some a => .answered a
    | none => .running c
  | .answered a => .answered a

/-- A request as it comes in. -/
def receive (now : Time) (r : Request) : Pc :=
  match route r with
  | .error a => .answered a
  | .ok e =>
      match userOf deps now e r with
      | .error err => .answered (.ofFailure (.http err))
      | .ok userID => (start deps now userID r e).settle

/-! ### Steps -/

variable {lower : String → String}

/-- The step of a call that writes a row. -/
def Call.wrote : Call → Call → Option Write
  | .auth (.signUp _ (.create _)), .auth (.signUp _ (.session row)) => some (.account row)
  | .videos (.share _ _ (.create _)), .videos (.share _ _ (.invalidate row)) => some (.video row)
  | .notifications (.markSeen userID (.update _)), .notifications (.markSeen _ (.done (.ok now))) =>
      some (.seen userID now)
  | _, _ => none

namespace State

/-- The tables, the cache and the jobs, as the service of the videos sees them. -/
def backend (s : State lower) : Backend :=
  ⟨⟨s.users.rows.map fun u => u.toUser, s.videos⟩, s.cache, s.jobs⟩

/-- One step of a call, with the state that it leaves. -/
def advance (env : StepEnv) (s : State lower) : Call → Option (State lower × Call)
  | .auth c =>
      (Auth.Service.advance deps.lib deps.jwt ⟨env.fails, env.newID, env.now, env.salt⟩ s.users
        c).map fun (users, c) => ({ s with users := users }, .auth c)
  | .videos c =>
      (c.advance ⟨env.fails, env.newID, env.now⟩ s.backend).map fun (b, c) =>
        ({ s with videos := b.store.videos, cache := b.cache, jobs := b.jobs }, .videos c)
  | .notifications (.markSeen userID pc) =>
      (Service.advanceMarkSeen ⟨env.now, env.fails, env.newID⟩ s.users userID pc).map
        fun (users, pc) => ({ s with users := users }, .notifications (.markSeen userID pc))
  | .notifications (.unreadCount userID pc) =>
      (Service.advanceUnreadCount ⟨env.now, env.fails, env.newID⟩ s.users s.videos userID pc).map
        fun pc => (s, .notifications (.unreadCount userID pc))
  | .notifications (.create _) => none
  | .replay .. => none

/-- A request moves on. -/
def setExchange (s : State lower) (k : ℕ) (x : Exchange) : State lower :=
  { s with exchanges := Function.update s.exchanges k (some x) }

/-- What happens next. -/
inductive Label
  /-- a request comes in -/
  | receive (k : ℕ) (now : Time) (r : Request)
  /-- the call of a request takes its next step -/
  | step (k : ℕ) (env : StepEnv)
  /-- the `Submit` of a share panics -/
  | panic (k : ℕ)
  /-- the cached list expires -/
  | expire

/-- The next step of a running call. -/
def stepCall (s : State lower) (k : ℕ) (x : Exchange) (env : StepEnv) : Call → Option (State lower)
  | .replay .. =>
      let a := match env.events with
        | none => Answer.ofFailure .other
        | some events => ⟨200, .events events⟩
      some (s.setExchange k { x with pc := .answered a })
  | c =>
      (s.advance deps env c).map fun (t, c') =>
        { t.setExchange k { x with pc := (Pc.running c').settle } with
          journal := t.journal ++ ((c.wrote c').map fun w => (k, w)).toList }

/-- One step. -/
def step (s : State lower) : Label → Option (State lower)
  | .receive k now r =>
      match s.exchanges k with
      | none => some (s.setExchange k ⟨r, now, Api.receive deps now r⟩)
      | some _ => none
  | .step k env =>
      match s.exchanges k with
      | some ⟨r, now, .running c⟩ => s.stepCall deps k ⟨r, now, .running c⟩ env c
      | _ => none
  | .panic k =>
      match s.exchanges k with
      | some ⟨r, now, .running (.videos (.share _ _ (.submit _)))⟩ =>
          some (s.setExchange k ⟨r, now, .answered recovered⟩)
      | _ => none
  | .expire => some { s with cache := none }

end State

/-- A server that has begun to serve on this database. -/
def State.fresh (users : Table lower) (videos : List Video) (cache : Option ListResponse) :
    State lower :=
  ⟨users, videos, cache, [], fun _ => none, []⟩

/-- The API. -/
def api (lower : String → String) : Lib.Machine (State lower) State.Label where
  init s := ∃ users videos cache, s = .fresh users videos cache
  step := State.step deps

end Api
end YtShare
