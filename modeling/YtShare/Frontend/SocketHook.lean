/-
# The socket of the page, callback by callback

The effect of `useNotificationsSocket` with all that it sets going.  A run of the
effect makes a closure with a session and a flag `cancelled` of its own; its sockets
and timers call that closure back, in any order and also long after its cleanup.  The
refs are shared by all runs of one mount.

Effects, sockets and timers are numbered in the order in which they are made:
`effects` tells of those below `effectCount`, and so on.  `current` is the run whose
cleanup React has not called.  React may run the effect again with any session.

What the server takes a token for is a parameter.  `trace` records the connections,
the requests and the changes of the store, the newest first, and decides nothing.
-/

import YtShare.Core.UUID
import YtShare.Frontend.AuthStore
import YtShare.Frontend.SeenEvents
import YtShare.Lib.Machine

namespace YtShare
namespace Frontend

open Lib

/-- A run of the effect: the mount it belongs to, and what its closure holds. -/
structure Effect where
  mount : ℕ
  session : AuthSession
  cancelled : Bool

/-- A `WebSocket`: the effect whose closure it calls back, when it was made, the
variable `opened` of that closure, whether `close()` was called, and whether it has
reported its close. -/
structure Socket where
  effect : ℕ
  created : Time
  opened : Bool
  closing : Bool
  reported : Bool

/-- A timer for `connect`. -/
structure Timer where
  effect : ℕ
  pending : Bool

/-- A connection attempt: its access token, its instant, and the session in the store
then. -/
structure Attempt where
  accessToken : String
  instant : Time
  store : Option AuthSession

/-- What is recorded. -/
inductive Entry
  | attempt (a : Attempt)
  /-- a request through `httpClient`, with the token in its header -/
  | request (authorization : Option String)
  /-- the store has another session -/
  | store (session : Option AuthSession)

/-- The hook and what it runs on: the clock, the auth store and the stored cursor. -/
structure SocketHook where
  now : Time
  store : Option AuthSession
  stored : Option String
  mounted : Bool
  mounts : ℕ
  seen : ℕ → SeenEvents
  socketRef : Option ℕ
  reconnectTimerRef : Option ℕ
  current : Option ℕ
  effects : ℕ → Effect
  effectCount : ℕ
  sockets : ℕ → Socket
  socketCount : ℕ
  timers : ℕ → Timer
  timerCount : ℕ
  recoveries : List ℕ
  trace : List Entry

namespace SocketHook

/-- What happens next. -/
inductive Label
  | tick (d : ℕ)
  /-- the store has another session -/
  | set (session : Option AuthSession)
  /-- the component is mounted, and its effect runs -/
  | mount (session : Option AuthSession)
  /-- React calls the cleanup and runs the effect again -/
  | rerun (session : Option AuthSession)
  | unmount
  /-- a socket opens; the server took its request at `t` -/
  | opened (i : ℕ) (t : Time)
  | error (i : ℕ)
  | message (i : ℕ) (id : String) (writes : Bool)
  | closed (i : ℕ)
  /-- a timer fires -/
  | fire (j : ℕ)
  /-- a recovery of this mount is answered with events, or fails -/
  | recovered (m : ℕ) (events : Option (List (String × Bool)))
  /-- another request of the page -/
  | request

/-- A page before the hook is mounted. -/
def load (now : Time) (store : Option AuthSession) (stored : Option String) : SocketHook where
  now := now
  store := store
  stored := stored
  mounted := false
  mounts := 0
  seen _ := .load none
  socketRef := none
  reconnectTimerRef := none
  current := none
  effects _ := ⟨0, ⟨⟨"", "", ""⟩, "", "", ""⟩, true⟩
  effectCount := 0
  sockets _ := ⟨0, now, false, true, true⟩
  socketCount := 0
  timers _ := ⟨0, false⟩
  timerCount := 0
  recoveries := []
  trace := []

/-- The request interceptor: the token that a request is sent with. -/
def accessToken (s : SocketHook) : Option String :=
  (s.store.map AuthSession.accessToken).filter fun t => decide (t ≠ "")

/-- The access token that an effect connects with. -/
def effectToken (s : SocketHook) (e : ℕ) : String := (s.effects e).session.accessToken

/-- The access token of a socket. -/
def socketToken (s : SocketHook) (i : ℕ) : String := s.effectToken (s.sockets i).effect

/-- `connect`. -/
def connect (s : SocketHook) (e : ℕ) : SocketHook :=
  if (s.effects e).cancelled then s
  else
    { s with
      sockets := Function.update s.sockets s.socketCount ⟨e, s.now, false, false, false⟩
      socketCount := s.socketCount + 1
      socketRef := some s.socketCount
      trace := .attempt ⟨s.effectToken e, s.now, s.store⟩ :: s.trace }

/-- The effect runs. -/
def runEffect (s : SocketHook) : Option AuthSession → SocketHook
  | none => s
  | some session =>
      let e := s.effectCount
      { s with
        effects := Function.update s.effects e ⟨s.mounts, session, false⟩
        effectCount := e + 1
        current := some e }.connect e

/-- `window.clearTimeout`. -/
def clearTimeout (s : SocketHook) : Option ℕ → SocketHook
  | none => s
  | some j => { s with timers := Function.update s.timers j { s.timers j with pending := false } }

/-- `socket.close()`. -/
def close (s : SocketHook) : Option ℕ → SocketHook
  | none => s
  | some i => { s with sockets := Function.update s.sockets i { s.sockets i with closing := true } }

/-- The cleanup of the effect. -/
def cleanup (s : SocketHook) : SocketHook :=
  match s.current with
  | none => s
  | some e =>
      let s := { s with
        effects := Function.update s.effects e { s.effects e with cancelled := true }
        current := none }
      let s := s.clearTimeout s.reconnectTimerRef
      let s := s.close s.socketRef
      { s with socketRef := none }

/-- `handleEvent` in a mount. -/
def handleEvent (s : SocketHook) (m : ℕ) (id : String) (writes : Bool) : SocketHook :=
  let (accepted, refs) := (s.seen m).handleEvent id
  { s with
    seen := Function.update s.seen m refs
    stored := if accepted && writes then some id else s.stored }

/-- `recoverViaHttp`, up to its `await`. -/
def recoverViaHttp (s : SocketHook) (m : ℕ) : SocketHook :=
  if (s.seen m).lastEventId = "" then s
  else
    { s with
      recoveries := s.recoveries ++ [m]
      trace := .request s.accessToken :: s.trace }

/-- `setTimeout(connect, RECONNECT_DELAY_MS)`. -/
def setTimeout (s : SocketHook) (e : ℕ) : SocketHook :=
  { s with
    timers := Function.update s.timers s.timerCount ⟨e, true⟩
    timerCount := s.timerCount + 1
    reconnectTimerRef := some s.timerCount }

/-- `onclose`. -/
def onclose (s : SocketHook) (i : ℕ) : SocketHook :=
  let e := (s.sockets i).effect
  let s := { s with sockets := Function.update s.sockets i { s.sockets i with reported := true } }
  if (s.effects e).cancelled then s
  else
    let s := if (s.sockets i).opened then s else s.recoverViaHttp (s.effects e).mount
    s.setTimeout e

/-- One step, where the server takes a token at an instant or does not. -/
def step (accepts : Time → String → Bool) (s : SocketHook) : Label → Option SocketHook
  | .tick d => some { s with now := ⟨s.now.ns + d⟩ }
  | .set session => some { s with store := session, trace := .store session :: s.trace }
  | .mount session =>
      if s.mounted then none
      else
        some ({ s with
          mounted := true
          mounts := s.mounts + 1
          seen := Function.update s.seen (s.mounts + 1) (.load s.stored)
          socketRef := none
          reconnectTimerRef := none }.runEffect session)
  | .rerun session => if s.mounted then some (s.cleanup.runEffect session) else none
  | .unmount => if s.mounted then some { s.cleanup with mounted := false } else none
  | .opened i t =>
      if i < s.socketCount ∧ (s.sockets i).opened = false ∧ (s.sockets i).reported = false ∧
          (s.sockets i).created.ns ≤ t.ns ∧ t.ns ≤ s.now.ns ∧ accepts t (s.socketToken i) then
        some { s with sockets := Function.update s.sockets i { s.sockets i with opened := true } }
      else none
  | .error i => if i < s.socketCount then some s else none
  | .message i id writes =>
      if i < s.socketCount ∧ (s.sockets i).reported = false then
        some (s.handleEvent (s.effects (s.sockets i).effect).mount id writes)
      else none
  | .closed i =>
      if i < s.socketCount ∧ (s.sockets i).reported = false then some (s.onclose i) else none
  | .fire j =>
      if j < s.timerCount ∧ (s.timers j).pending = true then
        some ({ s with
          timers := Function.update s.timers j { s.timers j with pending := false } }.connect
            (s.timers j).effect)
      else none
  | .recovered m events =>
      if m ∈ s.recoveries then
        some ((events.getD []).foldl (fun s event => s.handleEvent m event.1 event.2)
          { s with recoveries := s.recoveries.erase m })
      else none
  | .request => some { s with trace := .request s.accessToken :: s.trace }

end SocketHook

/-- The hook, from the load of the page on. -/
def socketHook (accepts : Time → String → Bool) : Machine SocketHook SocketHook.Label where
  init s := ∃ now store stored, s = .load now store stored
  step := SocketHook.step accepts

end Frontend
end YtShare
