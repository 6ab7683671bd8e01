/-
# The worker pool

`backend/internal/jobs/worker.go`.  `NewWorker` starts the workers, `Submit`
sends a job to the queue, and `Stop` closes the queue and waits for the workers,
each of which runs jobs until the queue is closed and empty.

A job is known by the number of its `Submit`: the pool only runs it and logs
whether it returned an error.  What it does takes any time it likes, so the
context with its timeout, which the job alone can look at, is left out.  `Stop`
is called once.
-/

import YtShare.Lib.Chan
import YtShare.Lib.Machine
import Mathlib.Algebra.BigOperators.Group.Finset.Piecewise
import Mathlib.Algebra.Order.BigOperators.Group.Finset

namespace YtShare
namespace Jobs

open Lib

/-- The `poolSize` that `NewWorker` uses. -/
def pool (poolSize : ℤ) : ℕ := (if poolSize ≤ 0 then 4 else poolSize).toNat

/-- The `queueSize` that `NewWorker` uses. -/
def capacity (queueSize : ℤ) : ℕ := (if queueSize ≤ 0 then 256 else queueSize).toNat

/-- There is a worker, whatever size was asked for. -/
theorem pool_pos (poolSize : ℤ) : 0 < pool poolSize := by
  unfold pool
  split_ifs <;> omega

/-- Where a call of `Submit` is. -/
inductive SubmitPc
  | send
  | returned
  | panicked
deriving DecidableEq

/-- Where `Stop` is. -/
inductive StopPc
  | wait
  | returned
deriving DecidableEq

/-- Where a worker is in `run`. -/
inductive RunPc
  | recv
  | running (job : ℕ)
  | exited
deriving DecidableEq

/-- The pool with `n` workers and the calls to it.  It remembers which jobs have
entered the queue and been taken from it, in order, and which have finished, each
with whether it returned an error. -/
structure Worker (n cap : ℕ) where
  queue : Chan ℕ cap
  wg : ℕ
  submits : ℕ → Option SubmitPc
  workers : Fin n → RunPc
  stop : Option StopPc
  entered : List ℕ
  taken : List ℕ
  finished : List (ℕ × Bool)

namespace Worker

variable {n cap : ℕ}

/-- `NewWorker`. -/
def new (n cap : ℕ) : Worker n cap :=
  ⟨.make ℕ cap, n, fun _ => none, fun _ => .recv, none, [], [], []⟩

/-- What happens next. -/
inductive Label (n : ℕ)
  /-- a call of `Submit` begins -/
  | submit (k : ℕ)
  /-- its send goes through, or panics -/
  | send (k : ℕ)
  /-- a worker takes a job -/
  | take (i : Fin n)
  /-- the job of a worker returns, with an error or without -/
  | finish (i : Fin n) (failed : Bool)
  /-- a worker finds the queue closed and empty -/
  | exit (i : Fin n)
  /-- `Stop` closes the queue -/
  | stop
  /-- `Stop` returns -/
  | wait
deriving DecidableEq

/-- A step of a worker. -/
def Label.isWorker : Label n → Bool
  | .take _ | .finish .. | .exit _ => true
  | _ => false

/-- One step. -/
def step (w : Worker n cap) : Label n → Option (Worker n cap)
  | .submit k =>
      match w.submits k with
      | none => some { w with submits := Function.update w.submits k (some .send) }
      | some _ => none
  | .send k =>
      match w.submits k with
      | some .send =>
          match w.queue.trySend k with
          | .sent q => some { w with
              queue := q
              submits := Function.update w.submits k (some .returned)
              entered := w.entered ++ [k] }
          | .full => none
          | .panic => some { w with submits := Function.update w.submits k (some .panicked) }
      | _ => none
  | .take i =>
      match w.workers i with
      | .recv => w.queue.recv.map fun (k, q) => { w with
          queue := q
          workers := Function.update w.workers i (.running k)
          taken := w.taken ++ [k] }
      | _ => none
  | .finish i failed =>
      match w.workers i with
      | .running k => some { w with
          workers := Function.update w.workers i .recv
          finished := w.finished ++ [(k, failed)] }
      | _ => none
  | .exit i =>
      match w.workers i with
      | .recv =>
          if w.queue.closed = true ∧ w.queue.buf = [] then some { w with
            workers := Function.update w.workers i .exited
            wg := w.wg - 1 }
          else none
      | _ => none
  | .stop =>
      match w.stop with
      | none => w.queue.close.map fun q => { w with queue := q, stop := some .wait }
      | some _ => none
  | .wait =>
      match w.stop with
      | some .wait => if w.wg = 0 then some { w with stop := some .returned } else none
      | _ => none

/-- **What a step can do.** -/
inductive Stepped (w : Worker n cap) : Label n → Worker n cap → Prop
  | submit {k : ℕ} (hk : w.submits k = none) :
      w.Stepped (.submit k) { w with submits := Function.update w.submits k (some .send) }
  | send {k : ℕ} {q : Chan ℕ cap} (hk : w.submits k = some .send)
      (hq : w.queue.trySend k = .sent q) :
      w.Stepped (.send k) { w with
        queue := q
        submits := Function.update w.submits k (some .returned)
        entered := w.entered ++ [k] }
  | panic {k : ℕ} (hk : w.submits k = some .send) (hq : w.queue.trySend k = .panic) :
      w.Stepped (.send k) { w with submits := Function.update w.submits k (some .panicked) }
  | take {i : Fin n} {k : ℕ} {q : Chan ℕ cap} (hi : w.workers i = .recv)
      (hq : w.queue.recv = some (k, q)) :
      w.Stepped (.take i) { w with
        queue := q
        workers := Function.update w.workers i (.running k)
        taken := w.taken ++ [k] }
  | finish {i : Fin n} {failed : Bool} {k : ℕ} (hi : w.workers i = .running k) :
      w.Stepped (.finish i failed) { w with
        workers := Function.update w.workers i .recv
        finished := w.finished ++ [(k, failed)] }
  | exit {i : Fin n} (hi : w.workers i = .recv) (hclosed : w.queue.closed = true)
      (hbuf : w.queue.buf = []) :
      w.Stepped (.exit i) { w with
        workers := Function.update w.workers i .exited
        wg := w.wg - 1 }
  | stop {q : Chan ℕ cap} (hstop : w.stop = none) (hq : w.queue.close = some q) :
      w.Stepped .stop { w with queue := q, stop := some .wait }
  | wait (hstop : w.stop = some .wait) (hwg : w.wg = 0) :
      w.Stepped .wait { w with stop := some .returned }

/-- **What a step of the pool can do.** -/
theorem stepped {w w' : Worker n cap} {l : Label n} (h : w.step l = some w') :
    w.Stepped l w' := by
  cases l with
  | submit k =>
    simp only [step] at h
    split at h
    · next hk => exact Option.some.inj h ▸ .submit hk
    · cases h
  | send k =>
    simp only [step] at h
    split at h
    · next hk =>
      split at h
      · next q hq => exact Option.some.inj h ▸ .send hk hq
      · cases h
      · next hq => exact Option.some.inj h ▸ .panic hk hq
    · cases h
  | take i =>
    simp only [step] at h
    split at h
    · next hi =>
      obtain ⟨⟨k, q⟩, hq, rfl⟩ := Option.map_eq_some_iff.1 h
      exact .take hi hq
    · cases h
  | finish i failed =>
    simp only [step] at h
    split at h
    · next k hi => exact Option.some.inj h ▸ .finish hi
    · cases h
  | exit i =>
    simp only [step] at h
    split at h
    · next hi =>
      obtain ⟨⟨hclosed, hbuf⟩, h⟩ := Option.ite_none_right_eq_some.1 h
      exact Option.some.inj h ▸ .exit hi hclosed hbuf
    · cases h
  | stop =>
    simp only [step] at h
    split at h
    · next hstop =>
      obtain ⟨q, hq, rfl⟩ := Option.map_eq_some_iff.1 h
      exact .stop hstop hq
    · cases h
  | wait =>
    simp only [step] at h
    split at h
    · next hstop =>
      obtain ⟨hwg, h⟩ := Option.ite_none_right_eq_some.1 h
      exact Option.some.inj h ▸ .wait hstop hwg
    · cases h

/-- A pool with `n` workers and a queue of `cap`. -/
def machine (n cap : ℕ) : Machine (Worker n cap) (Label n) where
  init w := w = .new n cap
  step := step

end Worker

/-- The pool that `NewWorker` makes. -/
def worker (poolSize queueSize : ℤ) :
    Machine (Worker (pool poolSize) (capacity queueSize)) (Worker.Label (pool poolSize)) :=
  Worker.machine _ _

end Jobs
end YtShare
