/-
# The pool drains

What the pool does with the jobs that its `Submit`s have handed over, for any
number of submitters and workers and every schedule, Submits after `Stop`
included (they panic).  Jobs are taken in the order in which they entered, and a
job is in the queue, with one worker or finished (`Inv`).

A worker waits only for a job, and every step of a worker is one of a bounded
number (`work`): when no worker can move any more, every job that was handed over
has finished, and `Stop` returns.
-/

import YtShare.Jobs.Worker

namespace YtShare
namespace Jobs

open Lib

/-- What a worker adds to `wg`. -/
def RunPc.present : RunPc → ℕ
  | .recv | .running _ => 1
  | .exited => 0

namespace Worker

variable {n cap : ℕ} {w w' : Worker n cap} {l : Label n}

/-- The jobs that have finished, in order. -/
def done (w : Worker n cap) : List ℕ := w.finished.map Prod.fst

/-- The invariant: the queue holds what has entered and was not taken; the
Submits that returned are those whose job has entered; a job that was taken has
finished or is with one worker; a worker that has left found the queue closed and
empty; and `wg` counts the others. -/
structure Inv (w : Worker n cap) : Prop where
  order : w.entered = w.taken ++ w.queue.buf
  nodup : w.entered.Nodup
  returned : ∀ k, k ∈ w.entered ↔ w.submits k = some .returned
  doneNodup : w.done.Nodup
  taken : ∀ k, k ∈ w.taken ↔ k ∈ w.done ∨ ∃ i, w.workers i = .running k
  fresh : ∀ i k, w.workers i = .running k → k ∉ w.done
  unique : ∀ i j k, w.workers i = .running k → w.workers j = .running k → i = j
  exited : ∀ i, w.workers i = .exited → w.queue.closed = true ∧ w.queue.buf = []
  wg : w.wg = ∑ i, (w.workers i).present
  stopped : w.stop = some .returned → w.wg = 0
  closed : w.stop ≠ none → w.queue.closed = true

/-- A sum over the workers after one of them has moved. -/
theorem sum_update (f : RunPc → ℕ) (g : Fin n → RunPc) (i : Fin n) (pc : RunPc) :
    (∑ j, f (Function.update g i pc j)) + f (g i) = (∑ j, f (g j)) + f pc := by
  have hsum : ∑ j, f (Function.update g i pc j) =
      ∑ j, Function.update (fun j => f (g j)) i (f pc) j := by
    refine Finset.sum_congr rfl fun j _ => ?_
    rcases eq_or_ne j i with rfl | hj
    · rw [Function.update_self, Function.update_self]
    · rw [Function.update_of_ne hj, Function.update_of_ne hj]
  rw [hsum, Finset.sum_update_of_mem (Finset.mem_univ i),
    Finset.sum_eq_add_sum_sdiff_singleton_of_mem (Finset.mem_univ i) fun j => f (g j)]
  omega

/-- A new pool meets the invariant. -/
theorem inv_new : (new n cap).Inv := by
  constructor
  · rfl
  · exact List.nodup_nil
  · exact fun k => iff_of_false List.not_mem_nil nofun
  · exact List.nodup_nil
  · exact fun k => iff_of_false List.not_mem_nil (by rintro (h | ⟨i, h⟩) <;> cases h)
  · exact nofun
  · exact nofun
  · exact nofun
  · show n = ∑ _ : Fin n, 1
    simp
  · exact nofun
  · exact fun h => absurd rfl h

/-- A Submit moves without a send. -/
theorem Inv.setSubmit (hi : w.Inv) {k : ℕ} {pc : SubmitPc} (hk : w.submits k ≠ some .returned)
    (hpc : pc ≠ .returned) :
    Inv { w with submits := Function.update w.submits k (some pc) } := by
  refine ⟨hi.order, hi.nodup, fun j => ?_, hi.doneNodup, hi.taken, hi.fresh, hi.unique, hi.exited,
    hi.wg, hi.stopped, hi.closed⟩
  show j ∈ w.entered ↔ Function.update w.submits k (some pc) j = some .returned
  rw [hi.returned j]
  rcases eq_or_ne j k with rfl | hj
  · rw [Function.update_self]
    exact iff_of_false hk fun h => hpc (Option.some.inj h)
  · rw [Function.update_of_ne hj]

/-- A job enters the queue. -/
theorem Inv.send (hi : w.Inv) {k : ℕ} {q : Chan ℕ cap} (hk : w.submits k = some .send)
    (hq : w.queue.trySend k = .sent q) :
    Inv { w with
      queue := q
      submits := Function.update w.submits k (some .returned)
      entered := w.entered ++ [k] } := by
  obtain ⟨hopen, -, hbuf, -⟩ := Chan.trySend_eq_sent hq
  have hnew : k ∉ w.entered := by
    intro hmem
    rw [hi.returned k, hk] at hmem
    cases hmem
  refine ⟨?_, ?_, fun j => ?_, hi.doneNodup, hi.taken, hi.fresh, hi.unique, ?_, hi.wg, hi.stopped,
    fun hstop => ?_⟩
  · show w.entered ++ [k] = w.taken ++ q.buf
    rw [hi.order, hbuf, List.append_assoc]
  · exact hi.nodup.append (List.nodup_singleton k) (List.disjoint_singleton.2 hnew)
  · show j ∈ w.entered ++ [k] ↔ Function.update w.submits k (some .returned) j = some .returned
    rw [List.mem_append, List.mem_singleton, hi.returned j]
    rcases eq_or_ne j k with rfl | hj
    · rw [Function.update_self]
      exact iff_of_true (.inr rfl) rfl
    · rw [Function.update_of_ne hj]
      exact or_iff_left hj
  · intro i hexit
    exact absurd (hi.exited i hexit).1 (by rw [hopen]; exact Bool.false_ne_true)
  · exact absurd (hi.closed hstop) (by rw [hopen]; exact Bool.false_ne_true)

/-- The jobs in the queue were not taken. -/
theorem Inv.not_taken (hi : w.Inv) {k : ℕ} (hk : k ∈ w.queue.buf) : k ∉ w.taken := by
  have hnodup := hi.nodup
  rw [hi.order] at hnodup
  exact fun htaken => List.disjoint_of_nodup_append hnodup htaken hk

/-- A worker takes the oldest job. -/
theorem Inv.take (hi : w.Inv) {i : Fin n} {k : ℕ} {q : Chan ℕ cap} (hrecv : w.workers i = .recv)
    (hq : w.queue.recv = some (k, q)) :
    Inv { w with
      queue := q
      workers := Function.update w.workers i (.running k)
      taken := w.taken ++ [k] } := by
  obtain ⟨hbuf, hsame⟩ := Chan.recv_eq_some hq
  have hnew : k ∉ w.taken := hi.not_taken (hbuf ▸ List.mem_cons_self)
  have hfresh : k ∉ w.done := fun h => hnew ((hi.taken k).2 (.inl h))
  have hidle : ∀ j, w.workers j ≠ .running k := fun j h => hnew ((hi.taken k).2 (.inr ⟨j, h⟩))
  have hsum := sum_update RunPc.present w.workers i (.running k)
  refine ⟨?_, hi.nodup, hi.returned, hi.doneNodup, fun j => ?_, ?_, ?_, ?_, ?_, hi.stopped,
    fun hstop => hsame.trans (hi.closed hstop)⟩
  · show w.entered = w.taken ++ [k] ++ q.buf
    rw [hi.order, hbuf, List.append_assoc]
    rfl
  · show j ∈ w.taken ++ [k] ↔ j ∈ w.done ∨ ∃ m, Function.update w.workers i _ m = .running j
    rw [List.mem_append, List.mem_singleton, hi.taken j]
    constructor
    · rintro ((hdone | ⟨m, hm⟩) | rfl)
      · exact .inl hdone
      · refine .inr ⟨m, update_eq_iff.2 (.inr ⟨?_, hm⟩)⟩
        rintro rfl
        rw [hrecv] at hm
        cases hm
      · exact .inr ⟨i, update_eq_iff.2 (.inl ⟨rfl, rfl⟩)⟩
    · rintro (hdone | ⟨m, hm⟩)
      · exact .inl (.inl hdone)
      · rcases update_eq_iff.1 hm with ⟨-, hj⟩ | ⟨-, hm⟩
        · exact .inr (RunPc.running.inj hj).symm
        · exact .inl (.inr ⟨m, hm⟩)
  · intro m j hm
    rcases update_eq_iff.1 hm with ⟨-, hj⟩ | ⟨-, hm⟩
    · exact RunPc.running.inj hj ▸ hfresh
    · exact hi.fresh m j hm
  · intro m m' j hm hm'
    rcases update_eq_iff.1 hm with ⟨rfl, hj⟩ | ⟨-, hm⟩
    · obtain rfl := RunPc.running.inj hj
      rcases update_eq_iff.1 hm' with ⟨rfl, -⟩ | ⟨-, hm'⟩
      · rfl
      · exact absurd hm' (hidle m')
    · rcases update_eq_iff.1 hm' with ⟨-, hj⟩ | ⟨-, hm'⟩
      · obtain rfl := RunPc.running.inj hj
        exact absurd hm (hidle m)
      · exact hi.unique m m' j hm hm'
  · -- a worker that has left saw an empty queue
    intro m hexit
    change Function.update w.workers i (.running k) m = .exited at hexit
    rcases eq_or_ne m i with rfl | hm
    · rw [Function.update_self] at hexit
      cases hexit
    · rw [Function.update_of_ne hm] at hexit
      exact absurd (hi.exited m hexit).2 (hbuf ▸ List.cons_ne_nil _ _)
  · have hwg := hi.wg
    rw [hrecv] at hsum
    exact hwg.trans (Nat.add_right_cancel hsum).symm

/-- The job of a worker returns. -/
theorem Inv.finish (hi : w.Inv) {i : Fin n} {k : ℕ} (failed : Bool)
    (hrun : w.workers i = .running k) :
    Inv { w with
      workers := Function.update w.workers i .recv
      finished := w.finished ++ [(k, failed)] } := by
  have hsum := sum_update RunPc.present w.workers i .recv
  have hdone : (w.finished ++ [(k, failed)]).map Prod.fst = w.done ++ [k] := List.map_append
  refine ⟨hi.order, hi.nodup, hi.returned, ?_, fun j => ?_, ?_, ?_, ?_, ?_, hi.stopped,
    hi.closed⟩
  · show ((w.finished ++ [(k, failed)]).map Prod.fst).Nodup
    rw [hdone]
    exact hi.doneNodup.append (List.nodup_singleton k)
      (List.disjoint_singleton.2 (hi.fresh i k hrun))
  · show j ∈ w.taken ↔ j ∈ (w.finished ++ [(k, failed)]).map Prod.fst ∨
      ∃ m, Function.update w.workers i .recv m = .running j
    rw [hdone, List.mem_append, List.mem_singleton, hi.taken j]
    constructor
    · rintro (hj | ⟨m, hm⟩)
      · exact .inl (.inl hj)
      · rcases eq_or_ne m i with rfl | hmi
        · rw [hrun] at hm
          exact .inl (.inr (RunPc.running.inj hm).symm)
        · exact .inr ⟨m, update_eq_iff.2 (.inr ⟨hmi, hm⟩)⟩
    · rintro ((hj | rfl) | ⟨m, hm⟩)
      · exact .inl hj
      · exact .inr ⟨i, hrun⟩
      · rcases update_eq_iff.1 hm with ⟨-, hj⟩ | ⟨-, hm⟩
        · cases hj
        · exact .inr ⟨m, hm⟩
  · intro m j hm
    rcases update_eq_iff.1 hm with ⟨-, hj⟩ | ⟨hmi, hrunj⟩
    · cases hj
    · show j ∉ (w.finished ++ [(k, failed)]).map Prod.fst
      rw [hdone, List.mem_append, List.mem_singleton]
      rintro (hj | rfl)
      · exact hi.fresh m j hrunj hj
      · exact hmi (hi.unique m i j hrunj hrun)
  · intro m m' j hm hm'
    rcases update_eq_iff.1 hm with ⟨-, hj⟩ | ⟨-, hm⟩
    · cases hj
    · rcases update_eq_iff.1 hm' with ⟨-, hj⟩ | ⟨-, hm'⟩
      · cases hj
      · exact hi.unique m m' j hm hm'
  · intro m hexit
    change Function.update w.workers i .recv m = .exited at hexit
    rcases eq_or_ne m i with rfl | hm
    · rw [Function.update_self] at hexit
      cases hexit
    · rw [Function.update_of_ne hm] at hexit
      exact hi.exited m hexit
  · have hwg := hi.wg
    rw [hrun] at hsum
    exact hwg.trans (Nat.add_right_cancel hsum).symm

/-- A worker leaves. -/
theorem Inv.exit (hi : w.Inv) {i : Fin n} (hrecv : w.workers i = .recv)
    (hclosed : w.queue.closed = true) (hbuf : w.queue.buf = []) :
    Inv { w with workers := Function.update w.workers i .exited, wg := w.wg - 1 } := by
  have hsum := sum_update RunPc.present w.workers i .exited
  have hrunning : ∀ m j, Function.update w.workers i .exited m = .running j ↔
      w.workers m = .running j := by
    intro m j
    rw [update_eq_iff]
    constructor
    · rintro (⟨-, hj⟩ | ⟨-, hm⟩)
      · cases hj
      · exact hm
    · intro hm
      refine .inr ⟨?_, hm⟩
      rintro rfl
      rw [hrecv] at hm
      cases hm
  refine ⟨hi.order, hi.nodup, hi.returned, hi.doneNodup, fun j => ?_, ?_, ?_, ?_, ?_, ?_,
    hi.closed⟩
  · exact (hi.taken j).trans (or_congr_right (exists_congr fun m => (hrunning m j).symm))
  · exact fun m j hm => hi.fresh m j ((hrunning m j).1 hm)
  · exact fun m m' j hm hm' => hi.unique m m' j ((hrunning m j).1 hm) ((hrunning m' j).1 hm')
  · exact fun _ _ => ⟨hclosed, hbuf⟩
  · have hwg := hi.wg
    rw [hrecv] at hsum
    show w.wg - 1 = ∑ m, (Function.update w.workers i .exited m).present
    simp only [RunPc.present] at hsum hwg ⊢
    omega
  · intro hstop
    show w.wg - 1 = 0
    rw [hi.stopped hstop]

/-- **The step lemma.** -/
theorem Inv.step (hi : w.Inv) (h : w.step l = some w') : w'.Inv := by
  cases stepped h with
  | submit hk => exact hi.setSubmit (by rw [hk]; exact nofun) nofun
  | send hk hq => exact hi.send hk hq
  | panic hk _ => exact hi.setSubmit (by rw [hk]; exact nofun) nofun
  | take hrecv hq => exact hi.take hrecv hq
  | finish hrun => exact hi.finish _ hrun
  | exit hrecv hclosed hbuf => exact hi.exit hrecv hclosed hbuf
  | stop hstop hq =>
    obtain ⟨hopen, hclosed, hbuf⟩ := Chan.close_eq_some hq
    refine ⟨?_, hi.nodup, hi.returned, hi.doneNodup, hi.taken, hi.fresh, hi.unique, ?_, hi.wg,
      nofun, fun _ => hclosed⟩
    · exact hi.order.trans (congrArg (w.taken ++ ·) hbuf.symm)
    · intro m hexit
      exact ⟨hclosed, hbuf.trans (hi.exited m hexit).2⟩
  | wait hstop hwg =>
    exact { hi with
      stopped := fun _ => hwg
      closed := fun _ => hi.closed (by rw [hstop]; exact nofun) }

/-- A Submit that has returned stays so. -/
theorem submits_returned (h : w.step l = some w') {k : ℕ} (hk : w.submits k = some .returned) :
    w'.submits k = some .returned := by
  have hother : ∀ j pc, w.submits j ≠ some .returned →
      Function.update w.submits j (some pc) k = some .returned := by
    intro j pc hj
    rwa [Function.update_of_ne]
    rintro rfl
    exact hj hk
  cases stepped h with
  | submit hj => exact hother _ _ (by rw [hj]; exact nofun)
  | send hj _ => exact hother _ _ (by rw [hj]; exact nofun)
  | panic hj _ => exact hother _ _ (by rw [hj]; exact nofun)
  | take | finish | exit | stop | wait => exact hk

/-- A job finishes when its worker says so, and no other way. -/
theorem done_of_ne (h : w.step l = some w') (hl : ∀ i failed, l ≠ .finish i failed) :
    w'.done = w.done := by
  cases stepped h with
  | finish => exact absurd rfl (hl _ _)
  | submit | send | panic | take | exit | stop | wait => rfl

/-! ### The steps of the workers -/

/-- How many steps a worker has to take for itself. -/
def load : RunPc → ℕ
  | .recv => 1
  | .running _ => 2
  | .exited => 0

/-- How many steps the workers can still take. -/
def work (w : Worker n cap) : ℕ := 2 * w.queue.buf.length + ∑ i, load (w.workers i)

/-- **The variant:** a step of a worker uses one of these steps up, and touches
neither the Submits nor `Stop`. -/
theorem worker_step (hl : l.isWorker = true) (h : w.step l = some w') :
    w'.work < w.work ∧ w'.submits = w.submits ∧ w'.stop = w.stop := by
  cases stepped h with
  | submit | send | panic | stop | wait => cases hl
  | @take i k q hrecv hq =>
    refine ⟨?_, rfl, rfl⟩
    have hsum := sum_update load w.workers i (.running k)
    rw [hrecv] at hsum
    show 2 * q.buf.length + ∑ j, load (Function.update w.workers i (.running k) j) < w.work
    rw [work, (Chan.recv_eq_some hq).1, List.length_cons]
    simp only [load] at hsum ⊢
    omega
  | @finish i failed k hrun =>
    refine ⟨?_, rfl, rfl⟩
    have hsum := sum_update load w.workers i .recv
    rw [hrun] at hsum
    show 2 * w.queue.buf.length + ∑ j, load (Function.update w.workers i .recv j) < w.work
    rw [work]
    simp only [load] at hsum ⊢
    omega
  | @exit i hrecv _ _ =>
    refine ⟨?_, rfl, rfl⟩
    have hsum := sum_update load w.workers i .exited
    rw [hrecv] at hsum
    show 2 * w.queue.buf.length + ∑ j, load (Function.update w.workers i .exited j) < w.work
    rw [work]
    simp only [load] at hsum ⊢
    omega

/-- **No worker waits for anything but a job.**  When no worker can move, the
queue is empty, no job is running, and with the queue closed all have left. -/
theorem Inv.stuck (hi : w.Inv) (hn : 0 < n)
    (hstuck : ∀ l : Label n, l.isWorker = true → w.step l = none) :
    w.queue.buf = [] ∧ (∀ i k, w.workers i ≠ .running k) ∧
      (w.queue.closed = true → ∀ i, w.workers i = .exited) := by
  have hidle : ∀ i k, w.workers i ≠ .running k := by
    intro i k hrun
    have hnone := hstuck (.finish i false) rfl
    simp only [Worker.step, hrun] at hnone
    cases hnone
  have hbuf : w.queue.buf = [] := by
    cases hpc : w.workers ⟨0, hn⟩ with
    | recv =>
      have hnone := hstuck (.take ⟨0, hn⟩) rfl
      simp only [Worker.step, hpc] at hnone
      exact Chan.recv_eq_none (Option.map_eq_none_iff.1 hnone)
    | running k => exact absurd hpc (hidle _ k)
    | exited => exact (hi.exited _ hpc).2
  refine ⟨hbuf, hidle, fun hclosed i => ?_⟩
  cases hpc : w.workers i with
  | recv =>
    have hnone := hstuck (.exit i) rfl
    simp only [Worker.step, hpc, hclosed, hbuf, and_self, if_true] at hnone
    cases hnone
  | running k => exact absurd hpc (hidle i k)
  | exited => rfl

end Worker

open Worker

/-- The pool takes the jobs in the order in which they entered, never holds more
than its capacity, and runs no job twice and none that was not handed over.  A
job that was handed over is in the queue, with one worker or finished.  When
`Stop` has returned every such job has finished, once, and no worker is running;
and whatever the workers do by themselves, they do boundedly often, after which
all that was handed over has finished, once, and `Stop` can return. -/
structure Orderly {n cap : ℕ} (w : Worker n cap) : Prop where
  order : w.entered = w.taken ++ w.queue.buf
  capacity : w.queue.buf.length ≤ cap
  handed : w.entered.Nodup ∧ ∀ k, k ∈ w.entered ↔ w.submits k = some .returned
  once : w.done.Nodup ∧ ∀ k ∈ w.done, k ∈ w.taken ∧ ∀ i, w.workers i ≠ .running k
  accounted : ∀ k, w.submits k = some .returned →
    k ∈ w.queue.buf ∨ (∃ i, w.workers i = .running k) ∨ k ∈ w.done
  stopped : w.stop = some .returned → (∀ i, w.workers i = .exited) ∧
    ∀ k, w.submits k = some .returned → w.done.count k = 1
  bounded : ∀ run t, (∀ l ∈ run, l.isWorker = true) →
    (Worker.machine n cap).exec w run = some t →
    run.length ≤ w.work
  drains : ∀ run t, (∀ l ∈ run, l.isWorker = true) →
    (Worker.machine n cap).exec w run = some t →
    (∀ l : Worker.Label n, l.isWorker = true → t.step l = none) →
    (∀ k, w.submits k = some .returned → t.done.count k = 1) ∧
      (w.stop = some .wait → (t.step .wait).isSome = true)

namespace Worker

variable {n cap : ℕ} {w w' : Worker n cap}

/-- A run of the workers alone. -/
theorem Inv.exec (hi : w.Inv) {run : List (Label n)} (hrun : ∀ l ∈ run, l.isWorker = true)
    (h : (machine n cap).exec w run = some w') :
    w'.Inv ∧ run.length + w'.work ≤ w.work ∧ w'.submits = w.submits ∧ w'.stop = w.stop := by
  induction run generalizing w with
  | nil =>
    obtain rfl := Option.some.inj h
    exact ⟨hi, (Nat.zero_add _).le, rfl, rfl⟩
  | cons l run ih =>
    obtain ⟨u, hu, h⟩ := Option.bind_eq_some_iff.1 h
    obtain ⟨hwork, hsubmits, hstop⟩ := worker_step (hrun l List.mem_cons_self) hu
    obtain ⟨hi', hlen, hsubmits', hstop'⟩ :=
      ih (hi.step hu) (fun m hm => hrun m (List.mem_cons_of_mem l hm)) h
    refine ⟨hi', ?_, hsubmits'.trans hsubmits, hstop'.trans hstop⟩
    rw [List.length_cons]
    omega

/-- With the queue empty and no job running, what was handed over has finished. -/
theorem Inv.count_done (hi : w.Inv) (hbuf : w.queue.buf = [])
    (hidle : ∀ i k, w.workers i ≠ .running k) {k : ℕ} (hk : w.submits k = some .returned) :
    w.done.count k = 1 := by
  have hentered := (hi.returned k).2 hk
  rw [hi.order, hbuf, List.append_nil, hi.taken] at hentered
  rcases hentered with hdone | ⟨i, hrun⟩
  · exact List.count_eq_one_of_mem hi.doneNodup hdone
  · exact absurd hrun (hidle i k)

/-- The wait group is at zero when every worker has returned. -/
theorem Inv.wg_eq_zero (hi : w.Inv) : w.wg = 0 ↔ ∀ i, w.workers i = .exited := by
  rw [hi.wg, Finset.sum_eq_zero_iff]
  constructor
  · intro h i
    have hpc := h i (Finset.mem_univ i)
    cases hw : w.workers i with
    | recv => rw [hw] at hpc; cases hpc
    | running k => rw [hw] at hpc; cases hpc
    | exited => rfl
  · intro h i _
    rw [h i]
    rfl

/-- **The invariant makes the pool orderly**, as long as it has a worker. -/
theorem Inv.orderly (hi : w.Inv) (hn : 0 < n) : Orderly w := by
  constructor
  · exact hi.order
  · exact w.queue.fits
  · exact ⟨hi.nodup, hi.returned⟩
  · exact ⟨hi.doneNodup, fun k hk => ⟨(hi.taken k).2 (.inl hk), fun i hrun => hi.fresh i k hrun hk⟩⟩
  · intro k hk
    have hentered := (hi.returned k).2 hk
    rw [hi.order, List.mem_append, hi.taken] at hentered
    tauto
  · intro hstop
    have hexited := hi.wg_eq_zero.1 (hi.stopped hstop)
    refine ⟨hexited, fun k hk => hi.count_done (hi.exited ⟨0, hn⟩ (hexited _)).2 ?_ hk⟩
    intro i k hrun
    rw [hexited i] at hrun
    cases hrun
  · intro run t hrun ht
    have hlen := (hi.exec hrun ht).2.1
    omega
  · intro run t hrun ht hstuck
    obtain ⟨hi', -, hsubmits, hstop⟩ := hi.exec hrun ht
    obtain ⟨hbuf, hidle, hleft⟩ := hi'.stuck hn hstuck
    refine ⟨fun k hk => hi'.count_done hbuf hidle (hsubmits ▸ hk), fun hwait => ?_⟩
    have hwait' : t.stop = some .wait := hstop.trans hwait
    have hwg := hi'.wg_eq_zero.2 (hleft (hi'.closed (by rw [hwait']; exact nofun)))
    simp only [Worker.step, hwait', hwg, if_true]
    rfl

end Worker

/-- **The pool runs every job once, in order, and drains.**  Whatever numbers
`NewWorker` is given and however submitters and workers are scheduled, at every
moment of every run. -/
theorem worker_orderly (poolSize queueSize : ℤ) (run : List (Worker.Label (pool poolSize))) :
    (worker poolSize queueSize).Always Orderly (.new _ _) run :=
  (Machine.always_of_invariant (M := worker poolSize queueSize) (I := Worker.Inv)
    (fun _ _ _ hi h => hi.step h) Worker.inv_new run).mono fun _ hi =>
      hi.orderly (pool_pos poolSize)

/-- One worker, one place in the queue, two jobs of which the first fails. -/
example : ((worker 1 1).exec (.new _ _) [.submit 0, .submit 1, .send 0, .take ⟨0, by decide⟩,
    .send 1, .stop, .finish ⟨0, by decide⟩ true, .take ⟨0, by decide⟩,
    .finish ⟨0, by decide⟩ false, .exit ⟨0, by decide⟩, .wait]).map
      (fun w => (w.finished, w.stop)) = some ([(0, true), (1, false)], some .returned) := by
  decide

end Jobs
end YtShare
