/-
# The server process

`run` of `backend/cmd/server/main.go` and `Run` of `internal/server/server.go`,
with the requests that the server handles and the worker pool that they give
their jobs to.

The process serves until a signal or an error of the listener.  After a signal
it shuts the server down, which waits for the handlers that still run, but no
longer than a deadline; after an error it does not.  Either way `Run` returns,
and the deferred `worker.Stop` follows.  Nothing ends the handlers in between:
they go on until the process exits.

The call of `Share` with number `k` submits the job with number `k`, and the job
publishes the event of its video.  Requests may begin until `Shutdown` has
returned without an error: connections that are open can still carry one.
-/

import YtShare.Jobs.Worker
import YtShare.Notifications.Stream
import YtShare.Videos.Calls

namespace YtShare
namespace Main

open Jobs Lib Notifications Videos

/-- Where `run` and `Run` are. -/
inductive Pc
  | serving
  | shutdown
  | returned
  | stopping
  | stopped
deriving DecidableEq

/-- The process.  `requests` are the calls that have begun, `jobs` what the
Submits were given, `stream` the entries that were appended, and `drained` tells
whether `Shutdown` has returned without an error. -/
structure Process (Raw : Type) where
  server : Server
  requests : List ℕ
  worker : Worker (pool 4) (capacity 256)
  jobs : ℕ → Option VideoSharedPayload
  stream : List (Entry Raw)
  pc : Pc
  drained : Bool

/-- What the outside decides about `Publish`: what `uuid.New` and the clock say,
here and in the job, and the ids under which Redis appends the entry.  There is
none when every `XADD` fails, and more than one when a reply is lost and the
client sends the command again.  Whether an error comes back at last makes no
difference, since the job only logs it. -/
structure PublishEnv where
  newID : UUID
  created : Time
  now : Time
  ids : List StreamID

/-- The event that the job of `Share` publishes. -/
def sharedEvent (created : Time) (p : VideoSharedPayload) : Event where
  id := UUID.nil
  type := eventVideoShared
  timestamp := created
  recipientID := UUID.nil
  payload := .videoShared p

/-- The entries that a job appends, which are all of one event. -/
def publish {Raw : Type} (json : EventJSON Raw) (env : PublishEnv) (p : VideoSharedPayload) :
    List (Entry Raw) :=
  env.ids.filterMap fun id =>
    StreamPublisher.publish json env.newID env.now id (sharedEvent env.created p)

/-- The handler of a call has returned, or panicked. -/
def finished (w : Worker (pool 4) (capacity 256)) (k : ℕ) : Call → Bool
  | .share _ _ (.done _) | .list _ _ (.done _) => true
  | .share _ _ (.submit _) => decide (w.submits k = some .panicked)
  | _ => false

namespace Process

variable {Raw : Type} (json : EventJSON Raw) (extract : String → Option String)

/-- What happens next. -/
inductive Label
  /-- a request begins, or a call takes a step before its `Submit` -/
  | server (l : Server.Label)
  /-- `worker.Submit` of a call begins -/
  | submit (k : ℕ)
  /-- it returns, and with it the call, or it panics -/
  | send (k : ℕ)
  /-- a worker takes a job -/
  | take (i : Fin (pool 4))
  /-- a worker has run its job -/
  | publish (i : Fin (pool 4)) (env : PublishEnv)
  /-- a worker leaves -/
  | exit (i : Fin (pool 4))
  /-- the context is done -/
  | signal
  /-- the listener fails -/
  | listenerError
  /-- `Shutdown` has seen every handler return -/
  | shutdownDone
  /-- the deadline of `Shutdown` passes -/
  | shutdownTimeout
  /-- the deferred `worker.Stop` begins -/
  | stop
  /-- `worker.Stop` returns -/
  | wait

/-- The call that a label begins. -/
def begins : Server.Label → Option ℕ
  | .share k _ _ | .list k _ _ => some k
  | .step .. | .expire => none

/-- The call `k` is at its `Submit`. -/
def submitting (s : Server) (k : ℕ) : Option Video :=
  match s.calls k with
  | some (.share _ _ (.submit v)) => some v
  | _ => none

/-- The step over `Submit`, which is not one of the server alone. -/
def isSubmit (s : Server) : Server.Label → Bool
  | .step k _ => (submitting s k).isSome
  | _ => false

/-- Another state of the worker. -/
def setWorker (s : Process Raw) (w : Worker (pool 4) (capacity 256)) : Process Raw :=
  { s with worker := w }

/-- One step. -/
def step (s : Process Raw) : Label → Option (Process Raw)
  | .server l =>
      if isSubmit s.server l = true ∨ s.drained = true ∧ (begins l).isSome = true then none
      else (s.server.step extract l).map fun server =>
        { s with server := server, requests := s.requests ++ (begins l).toList }
  | .submit k =>
      (submitting s.server k).bind fun v => (s.worker.step (.submit k)).map fun w =>
        { s with worker := w, jobs := Function.update s.jobs k (some (Service.payload v)) }
  | .send k =>
      (s.worker.step (.send k)).bind fun w =>
        if w.submits k = some .returned then
          (s.server.step extract (.step k (Call.plain false))).map fun server =>
            { s with worker := w, server := server }
        else some (s.setWorker w)
  | .take i => (s.worker.step (.take i)).map s.setWorker
  | .publish i env =>
      match s.worker.workers i with
      | .running k =>
          (s.jobs k).bind fun p => (s.worker.step (.finish i false)).map fun w =>
            { s with worker := w, stream := s.stream ++ publish json env p }
      | _ => none
  | .exit i => (s.worker.step (.exit i)).map s.setWorker
  | .signal => if s.pc = .serving then some { s with pc := .shutdown } else none
  | .listenerError => if s.pc = .serving then some { s with pc := .returned } else none
  | .shutdownDone =>
      if s.pc = .shutdown ∧
          ∀ k ∈ s.requests, ∀ c ∈ s.server.calls k, finished s.worker k c = true then
        some { s with pc := .returned, drained := true }
      else none
  | .shutdownTimeout => if s.pc = .shutdown then some { s with pc := .returned } else none
  | .stop =>
      if s.pc = .returned then
        (s.worker.step .stop).map fun w => { s with worker := w, pc := .stopping }
      else none
  | .wait =>
      if s.pc = .stopping then
        (s.worker.step .wait).map fun w => { s with worker := w, pc := .stopped }
      else none

/-- **What a step can do.** -/
inductive Stepped (s : Process Raw) : Label → Process Raw → Prop
  | server {l : Server.Label} {t : Server} (hl : isSubmit s.server l = false)
      (hbegin : s.drained = true → begins l = none) (ht : s.server.step extract l = some t) :
      Stepped s (.server l) { s with server := t, requests := s.requests ++ (begins l).toList }
  | submit {k : ℕ} {v : Video} {w : Worker (pool 4) (capacity 256)}
      (hk : submitting s.server k = some v) (hw : s.worker.step (.submit k) = some w) :
      Stepped s (.submit k)
        { s with worker := w, jobs := Function.update s.jobs k (some (Service.payload v)) }
  | sent {k : ℕ} {w : Worker (pool 4) (capacity 256)} {t : Server}
      (hw : s.worker.step (.send k) = some w) (hk : w.submits k = some .returned)
      (ht : s.server.step extract (.step k (Call.plain false)) = some t) :
      Stepped s (.send k) { s with worker := w, server := t }
  | panicked {k : ℕ} {w : Worker (pool 4) (capacity 256)}
      (hw : s.worker.step (.send k) = some w) (hk : w.submits k ≠ some .returned) :
      Stepped s (.send k) (s.setWorker w)
  | take {i : Fin (pool 4)} {w : Worker (pool 4) (capacity 256)}
      (hw : s.worker.step (.take i) = some w) : Stepped s (.take i) (s.setWorker w)
  | publish {i : Fin (pool 4)} {env : PublishEnv} {k : ℕ} {p : VideoSharedPayload}
      {w : Worker (pool 4) (capacity 256)} (hi : s.worker.workers i = .running k)
      (hp : s.jobs k = some p) (hw : s.worker.step (.finish i false) = some w) :
      Stepped s (.publish i env)
        { s with worker := w, stream := s.stream ++ Main.publish json env p }
  | exit {i : Fin (pool 4)} {w : Worker (pool 4) (capacity 256)}
      (hw : s.worker.step (.exit i) = some w) : Stepped s (.exit i) (s.setWorker w)
  | signal (hpc : s.pc = .serving) : Stepped s .signal { s with pc := .shutdown }
  | listenerError (hpc : s.pc = .serving) : Stepped s .listenerError { s with pc := .returned }
  | shutdownDone (hpc : s.pc = .shutdown)
      (hidle : ∀ k ∈ s.requests, ∀ c ∈ s.server.calls k, finished s.worker k c = true) :
      Stepped s .shutdownDone { s with pc := .returned, drained := true }
  | shutdownTimeout (hpc : s.pc = .shutdown) : Stepped s .shutdownTimeout { s with pc := .returned }
  | stop {w : Worker (pool 4) (capacity 256)} (hpc : s.pc = .returned)
      (hw : s.worker.step .stop = some w) : Stepped s .stop { s with worker := w, pc := .stopping }
  | wait {w : Worker (pool 4) (capacity 256)} (hpc : s.pc = .stopping)
      (hw : s.worker.step .wait = some w) : Stepped s .wait { s with worker := w, pc := .stopped }

/-- **What a step can do**, part by part of the process. -/
theorem stepped {json : EventJSON Raw} {extract : String → Option String} {s t : Process Raw}
    {l : Label} (h : s.step json extract l = some t) : Stepped json extract s l t := by
  cases l with
  | server l =>
    obtain ⟨hl, h⟩ := Option.ite_none_left_eq_some.1 h
    obtain ⟨t, ht, rfl⟩ := Option.map_eq_some_iff.1 h
    obtain ⟨hsubmit, hbegin⟩ := not_or.1 hl
    refine .server (Bool.eq_false_iff.2 hsubmit) (fun hdrained => ?_) ht
    exact Option.not_isSome_iff_eq_none.1 fun hsome => hbegin ⟨hdrained, hsome⟩
  | submit k =>
    obtain ⟨v, hk, h⟩ := Option.bind_eq_some_iff.1 h
    obtain ⟨w, hw, rfl⟩ := Option.map_eq_some_iff.1 h
    exact .submit hk hw
  | send k =>
    obtain ⟨w, hw, h⟩ := Option.bind_eq_some_iff.1 h
    split_ifs at h with hk
    · obtain ⟨t, ht, rfl⟩ := Option.map_eq_some_iff.1 h
      exact .sent hw hk ht
    · exact Option.some.inj h ▸ .panicked hw hk
  | take i =>
    obtain ⟨w, hw, rfl⟩ := Option.map_eq_some_iff.1 h
    exact .take hw
  | publish i env =>
    simp only [step] at h
    split at h
    · next k hi =>
      obtain ⟨p, hp, h⟩ := Option.bind_eq_some_iff.1 h
      obtain ⟨w, hw, rfl⟩ := Option.map_eq_some_iff.1 h
      exact .publish hi hp hw
    · cases h
  | exit i =>
    obtain ⟨w, hw, rfl⟩ := Option.map_eq_some_iff.1 h
    exact .exit hw
  | signal =>
    obtain ⟨hpc, h⟩ := Option.ite_none_right_eq_some.1 h
    exact Option.some.inj h ▸ .signal hpc
  | listenerError =>
    obtain ⟨hpc, h⟩ := Option.ite_none_right_eq_some.1 h
    exact Option.some.inj h ▸ .listenerError hpc
  | shutdownDone =>
    obtain ⟨⟨hpc, hidle⟩, h⟩ := Option.ite_none_right_eq_some.1 h
    exact Option.some.inj h ▸ .shutdownDone hpc hidle
  | shutdownTimeout =>
    obtain ⟨hpc, h⟩ := Option.ite_none_right_eq_some.1 h
    exact Option.some.inj h ▸ .shutdownTimeout hpc
  | stop =>
    obtain ⟨hpc, h⟩ := Option.ite_none_right_eq_some.1 h
    obtain ⟨w, hw, rfl⟩ := Option.map_eq_some_iff.1 h
    exact .stop hpc hw
  | wait =>
    obtain ⟨hpc, h⟩ := Option.ite_none_right_eq_some.1 h
    obtain ⟨w, hw, rfl⟩ := Option.map_eq_some_iff.1 h
    exact .wait hpc hw

/-! ### The server alone -/

/-- A call that is submitting is a share at its `Submit`. -/
theorem submitting_eq_some {s : Server} {k : ℕ} {v : Video} : submitting s k = some v ↔
    ∃ sharerID req, s.calls k = some (.share sharerID req (.submit v)) := by
  unfold submitting
  constructor
  · intro h
    split at h
    · next sharerID req v' hc =>
      obtain rfl := Option.some.inj h
      exact ⟨sharerID, req, hc⟩
    · cases h
  · rintro ⟨sharerID, req, hc⟩
    rw [hc]

/-- A call that the server moves: it was before its `Submit` and is not past it.
If it comes to the cache its row was inserted in this step, and if it comes to
its `Submit` it was at the cache. -/
structure Moved (a b : Server) (l : Server.Label) (k : ℕ) : Prop where
  before : submitting a k = none
  notDone : ∀ sharerID req view, a.calls k ≠ some (.share sharerID req (.done (.ok view)))
  notPast : ∀ sharerID req view, b.calls k ≠ some (.share sharerID req (.done (.ok view)))
  submit : ∀ v, submitting b k = some v →
    ∃ sharerID req, a.calls k = some (.share sharerID req (.invalidate v))
  invalidate : ∀ sharerID req w, b.calls k = some (.share sharerID req (.invalidate w)) →
    ∃ env v store, l = .step k env ∧ a.calls k = some (.share sharerID req (.create v)) ∧
      Service.insert a.backend.store env.fails env.newID env.now v = .ok (store, w)

/-- A call that comes to none of these places. -/
theorem Moved.of_call {a b : Server} {l : Server.Label} {k : ℕ} {c : Call}
    (hbefore : submitting a k = none)
    (hnotDone : ∀ sharerID req view, a.calls k ≠ some (.share sharerID req (.done (.ok view))))
    (hc : b.calls k = some c)
    (hplace : ∀ sharerID req pc, c = .share sharerID req pc → (∀ view, pc ≠ .done (.ok view)) ∧
      (∀ v, pc ≠ .submit v) ∧ ∀ w, pc ≠ .invalidate w) : Moved a b l k := by
  constructor
  · exact hbefore
  · exact hnotDone
  · intro sharerID req view hb
    obtain rfl := Option.some.inj (hc.symm.trans hb)
    exact (hplace _ _ _ rfl).1 view rfl
  · intro v hv
    obtain ⟨sharerID, req, hb⟩ := submitting_eq_some.1 hv
    obtain rfl := Option.some.inj (hc.symm.trans hb)
    exact absurd rfl ((hplace _ _ _ rfl).2.1 v)
  · intro sharerID req w hb
    obtain rfl := Option.some.inj (hc.symm.trans hb)
    exact absurd rfl ((hplace _ _ _ rfl).2.2 w)

/-- **What the server alone does to a call:** it leaves it or moves it. -/
theorem calls_step {extract : String → Option String} {a b : Server} {l : Server.Label}
    (hl : isSubmit a l = false) (h : a.step extract l = some b) (k : ℕ) :
    b.calls k = a.calls k ∨ Moved a b l k := by
  rcases Server.calls_step h k with hsame | ⟨hnone, ⟨sharerID, req, hb⟩ | ⟨limit, offset, hb⟩⟩ |
    ⟨env, c, backend, c', rfl, hc, hadv, hb⟩
  · exact .inl hsame
  · right
    refine .of_call (by rw [submitting, hnone]) (by rw [hnone]; exact nofun) hb ?_
    intro sharerID' req' pc hpc
    obtain ⟨-, -, rfl⟩ := Call.share.inj hpc
    split
    · exact ⟨nofun, nofun, nofun⟩
    · exact ⟨nofun, nofun, nofun⟩
  · right
    exact .of_call (by rw [submitting, hnone]) (by rw [hnone]; exact nofun) hb nofun
  · right
    have hbefore : submitting a k = none :=
      Option.isNone_iff_eq_none.1 (Option.isSome_eq_false_iff.1 hl)
    rcases c with ⟨sharerID, req, pc⟩ | ⟨limit, offset, pc⟩
    · obtain ⟨⟨backend', pc'⟩, hshare, heq⟩ := Option.map_eq_some_iff.1 hadv
      obtain ⟨-, rfl⟩ := Prod.mk.inj heq
      have hnotDone : ∀ sharerID req view,
          a.calls k ≠ some (.share sharerID req (.done (.ok view))) := by
        intro _ _ _ hdone
        obtain ⟨-, -, rfl⟩ := Call.share.inj (Option.some.inj (hc.symm.trans hdone))
        cases hshare
      rcases Call.advanceShare_cases hshare with ⟨e, rfl⟩ | ⟨y, rfl, rfl⟩ | ⟨y, v, rfl, rfl⟩ |
        ⟨v, store, w, rfl, hinsert, rfl⟩ | ⟨v, rfl, rfl⟩ | ⟨v, rfl, rfl⟩
      · refine .of_call hbefore hnotDone hb ?_
        rintro _ _ _ ⟨⟩
        exact ⟨nofun, nofun, nofun⟩
      · refine .of_call hbefore hnotDone hb ?_
        rintro _ _ _ ⟨⟩
        exact ⟨nofun, nofun, nofun⟩
      · refine .of_call hbefore hnotDone hb ?_
        rintro _ _ _ ⟨⟩
        exact ⟨nofun, nofun, nofun⟩
      · refine ⟨hbefore, hnotDone, ?_, ?_, ?_⟩
        · intro _ _ _ hdone
          cases hb.symm.trans hdone
        · intro v' hv'
          obtain ⟨_, _, hsubmit⟩ := submitting_eq_some.1 hv'
          cases hb.symm.trans hsubmit
        · intro _ _ w' hw'
          obtain ⟨rfl, rfl, hpc⟩ := Call.share.inj (Option.some.inj (hb.symm.trans hw'))
          obtain rfl := SharePc.invalidate.inj hpc
          exact ⟨env, v, store, rfl, hc, hinsert⟩
      · refine ⟨hbefore, hnotDone, ?_, ?_, ?_⟩
        · intro _ _ _ hdone
          cases hb.symm.trans hdone
        · intro v' hv'
          obtain ⟨_, _, hsubmit⟩ := submitting_eq_some.1 hv'
          obtain ⟨rfl, rfl, hpc⟩ := Call.share.inj (Option.some.inj (hb.symm.trans hsubmit))
          obtain rfl := SharePc.submit.inj hpc
          exact ⟨sharerID, req, hc⟩
        · intro _ _ w' hw'
          cases hb.symm.trans hw'
      · rw [submitting_eq_some.2 ⟨sharerID, req, hc⟩] at hbefore
        cases hbefore
    · obtain ⟨_, -, heq⟩ := Option.map_eq_some_iff.1 hadv
      obtain ⟨-, rfl⟩ := Prod.mk.inj heq
      exact .of_call hbefore (by rw [hc]; exact nofun) hb nofun

/-- A call that is there was there before, or the step began it. -/
theorem begins_of_calls {extract : String → Option String} {a b : Server} {l : Server.Label}
    (h : a.step extract l = some b) {k : ℕ} (hk : b.calls k ≠ none) :
    a.calls k ≠ none ∨ begins l = some k := by
  rcases Server.step_cases h with ⟨j, sharerID, req, rfl, -, rfl⟩ |
    ⟨j, limit, offset, rfl, -, rfl⟩ | ⟨j, env, c, b, c', rfl, hj, -, rfl⟩ | ⟨rfl, rfl⟩
  · rcases eq_or_ne k j with rfl | hkj
    · exact .inr rfl
    · exact .inl (Server.setCall_of_ne a _ hkj ▸ hk)
  · rcases eq_or_ne k j with rfl | hkj
    · exact .inr rfl
    · exact .inl (Server.setCall_of_ne a _ hkj ▸ hk)
  · rcases eq_or_ne k j with rfl | hkj
    · exact .inl (by rw [hj]; exact nofun)
    · exact .inl (Server.setCall_of_ne a _ hkj ▸ hk)
  · exact .inl hk

/-- A process that has begun to serve. -/
def start (backend : Backend) : Process Raw :=
  ⟨⟨backend, fun _ => none⟩, [], .new _ _, fun _ => none, [], .serving, false⟩

end Process

/-- The process. -/
def process {Raw : Type} (json : EventJSON Raw) (extract : String → Option String) :
    Machine (Process Raw) Process.Label where
  init s := ∃ backend, s = .start backend
  step := Process.step json extract

end Main
end YtShare
