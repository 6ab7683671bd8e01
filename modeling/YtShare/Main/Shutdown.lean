/-
# Shutdown and the job queue

`worker.Stop` closes the queue after `Run` has returned, and a send on a closed
channel panics.  When `Shutdown` has seen every handler return there is nobody
left to send (`quiet_of_clean`).  When it times out, or the listener has failed
and there was no shutdown at all, handlers still run: one that has inserted its
row comes to `Submit` and panics.

`no_late_submit` says what it takes: when `Stop` closes the queue no call may be
between its insert and the end of its `Submit`, and no call may insert a row
after that.
-/

import YtShare.Main.Run

namespace YtShare
namespace Main

open Jobs Lib Notifications Videos

variable {Raw : Type}

/-- The row of the call was inserted, and its `Submit` has not returned. -/
def committed : Call → Bool
  | .share _ _ (.invalidate _) | .share _ _ (.submit _) => true
  | _ => false

namespace Process

variable {json : EventJSON Raw} {extract : String → Option String} {s t : Process Raw}

/-- No `Submit` has panicked, and none is under way once the queue is closed. -/
def Safe (s : Process Raw) : Prop :=
  (∀ k, s.worker.submits k ≠ some .panicked) ∧
    (s.worker.queue.closed = true → ∀ k, s.worker.submits k ≠ some .send)

/-- **The condition on a step:** when `Stop` closes the queue no call is between
its insert and the end of its `Submit`, and no call inserts a row later. -/
def Quiet (s : Process Raw) : Label → Prop
  | .stop => ∀ k ∈ s.requests, ∀ c ∈ s.server.calls k, committed c = false
  | .server (.step k env) => s.worker.queue.closed = true →
      match s.server.calls k with
      | some (.share _ _ (.create v)) => env.fails = true ∨
          ∃ w ∈ s.server.backend.store.videos, w.youTubeID = v.youTubeID
      | _ => True
  | _ => True

instance (s : Process Raw) (l : Label) : Decidable (s.Quiet l) := by
  unfold Quiet
  split
  · infer_instance
  · next k env =>
    have : Decidable (match s.server.calls k with
        | some (.share _ _ (.create v)) => env.fails = true ∨
            ∃ w ∈ s.server.backend.store.videos, w.youTubeID = v.youTubeID
        | _ => True) := by
      split <;> infer_instance
    infer_instance
  · infer_instance

/-- The invariant: a call that has begun is a request, a `Submit` that is under
way is that of a call at its `Submit`, and with the queue closed no call is
between its insert and the end of its `Submit`. -/
structure QuietInv (s : Process Raw) : Prop where
  requests : ∀ k, s.server.calls k ≠ none → k ∈ s.requests
  calm : ∀ k, s.worker.submits k ≠ some .panicked
  sending : ∀ k, s.worker.submits k = some .send → ∃ v, submitting s.server k = some v
  quiet : s.worker.queue.closed = true → ∀ k c, s.server.calls k = some c → committed c = false

/-- A call that is submitting has inserted its row. -/
theorem committed_of_submitting {a : Server} {k : ℕ} {v : Video} (h : submitting a k = some v) :
    ∃ c, a.calls k = some c ∧ committed c = true := by
  obtain ⟨sharerID, req, hc⟩ := submitting_eq_some.1 h
  exact ⟨_, hc, rfl⟩

/-- With the queue closed no call is at its `Submit`. -/
theorem QuietInv.open_of_submitting (hi : s.QuietInv) {k : ℕ} {v : Video}
    (hk : submitting s.server k = some v) : s.worker.queue.closed = false := by
  refine Bool.eq_false_iff.2 fun hclosed => ?_
  obtain ⟨c, hc, hcommitted⟩ := committed_of_submitting hk
  rw [hi.quiet hclosed k c hc] at hcommitted
  cases hcommitted

/-- The invariant of the quiet runs makes them safe. -/
theorem QuietInv.safe (hi : s.QuietInv) : s.Safe := by
  refine ⟨hi.calm, fun hclosed k hk => ?_⟩
  obtain ⟨v, hv⟩ := hi.sending k hk
  rw [hi.open_of_submitting hv] at hclosed
  cases hclosed

/-- It holds before anything is requested. -/
theorem quietInv_start (backend : Backend) : QuietInv (start backend : Process Raw) := by
  constructor
  · exact fun k hk => absurd rfl hk
  · exact nofun
  · exact nofun
  · exact nofun

/-- The worker moves, with the same Submits and the queue as open as before. -/
theorem QuietInv.setWorker (hi : s.QuietInv) {w : Worker (pool 4) (capacity 256)}
    {stream : List (Entry Raw)} {pc : Pc} (hsubmits : w.submits = s.worker.submits)
    (hclosed : w.queue.closed = s.worker.queue.closed) :
    QuietInv { s with worker := w, stream := stream, pc := pc } := by
  constructor
  · exact hi.requests
  · exact fun k => hsubmits ▸ hi.calm k
  · exact fun k hk => hi.sending k (hsubmits ▸ hk)
  · exact fun h => hi.quiet (hclosed ▸ h)

/-- A row that was inserted was new. -/
theorem not_refused {store store' : Store} {fails : Bool} {newID : UUID} {now : Time} {v w : Video}
    (h : Service.insert store fails newID now v = .ok (store', w)) :
    ¬(fails = true ∨ ∃ x ∈ store.videos, x.youTubeID = v.youTubeID) := by
  unfold Service.insert at h
  split_ifs at h with hfails
  split at h
  · cases h
  · next created hcreate =>
    rintro (hf | ⟨x, hx, heq⟩)
    · exact hfails hf
    · exact (Store.create_eq_some hcreate).1 x hx heq

/-- The server moves a call. -/
theorem QuietInv.server (hi : s.QuietInv) {l : Server.Label} {b : Server}
    (hl : s.Quiet (.server l)) (hsubmit : isSubmit s.server l = false)
    (h : s.server.step extract l = some b) :
    QuietInv { s with server := b, requests := s.requests ++ (begins l).toList } := by
  have hcalls := calls_step hsubmit h
  constructor
  · intro k hk
    rcases begins_of_calls h hk with hold | hbegin
    · exact List.mem_append_left _ (hi.requests k hold)
    · exact List.mem_append_right _ (by rw [hbegin]; exact List.mem_singleton_self k)
  · exact hi.calm
  · intro k hk
    obtain ⟨v, hv⟩ := hi.sending k hk
    rcases hcalls k with hsame | hmoved
    · exact ⟨v, by rwa [submitting, hsame]⟩
    · rw [hmoved.before] at hv
      cases hv
  · intro hclosed k c hc
    rcases hcalls k with hsame | hmoved
    · exact hi.quiet hclosed k c (hsame.symm.trans hc)
    · refine Bool.eq_false_iff.2 fun hcommitted => ?_
      unfold committed at hcommitted
      split at hcommitted
      · next sharerID req w =>
        obtain ⟨env, v, store, rfl, hcreate, hinsert⟩ := hmoved.invalidate _ _ _ hc
        have hrefused := hl hclosed
        rw [hcreate] at hrefused
        exact not_refused hinsert hrefused
      · next sharerID req v =>
        obtain ⟨_, _, hinvalidate⟩ := hmoved.submit v (submitting_eq_some.2 ⟨_, _, hc⟩)
        cases hi.quiet hclosed k _ hinvalidate
      · cases hcommitted

/-- A `Submit` begins. -/
theorem QuietInv.submit (hi : s.QuietInv) {k : ℕ} {v : Video} {w : Worker (pool 4) (capacity 256)}
    {jobs : ℕ → Option VideoSharedPayload} (hk : submitting s.server k = some v)
    (hw : s.worker.step (.submit k) = some w) :
    QuietInv { s with worker := w, jobs := jobs } := by
  cases Worker.stepped hw with
  | submit _ =>
    refine ⟨hi.requests, fun j hj => ?_, fun j hj => ?_, hi.quiet⟩
    · rcases update_eq_some hj with ⟨-, hpc⟩ | ⟨-, hj⟩
      · cases hpc
      · exact hi.calm j hj
    · rcases update_eq_some hj with ⟨rfl, -⟩ | ⟨-, hj⟩
      · exact ⟨v, hk⟩
      · exact hi.sending j hj

/-- A send goes through: the queue is open. -/
theorem QuietInv.send (hi : s.QuietInv) {k : ℕ} {w : Worker (pool 4) (capacity 256)}
    (hw : s.worker.step (.send k) = some w) :
    w.submits = Function.update s.worker.submits k (some .returned) ∧
      w.queue.closed = false := by
  cases Worker.stepped hw with
  | send _ hq => exact ⟨rfl, (Chan.trySend_eq_sent hq).2.2.2⟩
  | panic hk hq =>
    obtain ⟨v, hv⟩ := hi.sending k hk
    have hclosed := Chan.trySend_eq_panic.1 hq
    rw [hi.open_of_submitting hv] at hclosed
    cases hclosed

/-- A `Submit` returns, and its call with it. -/
theorem QuietInv.sent (hi : s.QuietInv) {k : ℕ} {w : Worker (pool 4) (capacity 256)} {b : Server}
    (hw : s.worker.step (.send k) = some w)
    (hb : s.server.step extract (.step k (Call.plain false)) = some b) :
    QuietInv { s with worker := w, server := b } := by
  obtain ⟨hsubmits, hopen⟩ := hi.send hw
  have hother : ∀ j pc, pc ≠ .returned → w.submits j = some pc →
      j ≠ k ∧ s.worker.submits j = some pc := by
    intro j pc hpc hj
    rw [hsubmits] at hj
    rcases update_eq_some hj with ⟨-, hpc'⟩ | hj
    · exact absurd hpc' hpc
    · exact hj
  constructor
  · intro j hj
    rcases begins_of_calls hb hj with hold | hbegin
    · exact hi.requests j hold
    · cases hbegin
  · exact fun j hj => hi.calm j (hother j .panicked (fun h => by cases h) hj).2
  · intro j hj
    obtain ⟨hjk, hsend⟩ := hother j .send (fun h => by cases h) hj
    obtain ⟨v, hv⟩ := hi.sending j hsend
    refine ⟨v, ?_⟩
    rcases Server.calls_step hb j with hsame | ⟨hnone, -⟩ | ⟨_, _, _, _, hl, -⟩
    · rwa [submitting, hsame]
    · obtain ⟨_, _, hc⟩ := submitting_eq_some.1 hv
      cases hnone.symm.trans hc
    · obtain ⟨rfl, -⟩ := Server.Label.step.inj hl
      exact absurd rfl hjk
  · intro hclosed
    cases hopen.symm.trans hclosed

/-- **The step lemma.** -/
theorem QuietInv.step (hi : s.QuietInv) {l : Label} (hl : s.Quiet l)
    (h : s.step json extract l = some t) : t.QuietInv := by
  cases stepped h with
  | server hsubmit _ ht => exact hi.server hl hsubmit ht
  | submit hk hw => exact hi.submit hk hw
  | sent hw _ ht => exact hi.sent hw ht
  | panicked hw hk =>
    rw [(hi.send hw).1, Function.update_self] at hk
    exact absurd rfl hk
  | take hw =>
    cases Worker.stepped hw with
    | take _ hq => exact hi.setWorker rfl (Chan.recv_eq_some hq).2
  | publish _ _ hw =>
    cases Worker.stepped hw with
    | finish _ => exact hi.setWorker rfl rfl
  | exit hw =>
    cases Worker.stepped hw with
    | exit _ _ _ => exact hi.setWorker rfl rfl
  | signal | listenerError | shutdownDone | shutdownTimeout =>
    exact ⟨hi.requests, hi.calm, hi.sending, hi.quiet⟩
  | stop _ hw =>
    cases Worker.stepped hw with
    | stop _ _ =>
      refine ⟨hi.requests, hi.calm, hi.sending, fun _ k c hc => ?_⟩
      exact hl k (hi.requests k (by rw [hc]; exact nofun)) c hc
  | wait _ hw =>
    cases Worker.stepped hw with
    | wait _ _ => exact hi.setWorker rfl rfl

end Process

/-- **When shutdown never hits the closed queue.**  In every run whose steps meet
the condition, no `Submit` panics, and none is under way once the queue is
closed. -/
theorem no_late_submit (json : EventJSON Raw) (extract : String → Option String)
    (backend : Backend) {run : List Process.Label}
    (hrun : (process json extract).Steps Process.Quiet (.start backend) run) :
    (process json extract).Always Process.Safe (.start backend) run :=
  (Machine.always_of_steps (M := process json extract) (I := Process.QuietInv)
    (C := Process.Quiet) (fun _ _ _ hi hl h => hi.step hl h)
    (Process.quietInv_start backend) hrun).mono fun _ => Process.QuietInv.safe

/-- Call 0 shares a video up to its insert. -/
def inserted : List Process.Label :=
  [.server (.share 0 ⟨7⟩ ⟨"v", "", ""⟩), .server (go 0), .server (go 0), .server (go 0)]

/-- The deadline passes while call 0 runs, but it has not come to its insert, and
the insert fails. -/
theorem no_late_submit_refused :
    (process .verbatim some).Always Process.Safe (.start quietServer.backend)
      [.server (.share 0 ⟨7⟩ ⟨"v", "", ""⟩), .server (go 0), .server (go 0), .signal,
        .shutdownTimeout, .stop, .server (.step 0 (Call.plain true))] := by
  refine no_late_submit .verbatim some quietServer.backend ?_
  decide

/-- The listener fails after the insert of call 0, `Stop` closes the queue, and
the `Submit` panics. -/
theorem submit_on_closed_queue :
    ¬(process .verbatim some).Always Process.Safe (.start quietServer.backend)
      (inserted ++ [.listenerError, .stop, .server (go 0), .submit 0, .send 0]) := by
  intro h
  have hend : ((process .verbatim some).exec (.start quietServer.backend)
      (inserted ++ [.listenerError, .stop, .server (go 0), .submit 0, .send 0])).map
        (fun s => s.worker.submits 0) = some (some .panicked) := by
    decide
  obtain ⟨s, hs, hpanicked⟩ := Option.map_eq_some_iff.1 hend
  exact (h.exec hs).1 0 hpanicked

/-! ### A shutdown that waits -/

/-- The call has returned. -/
def returned : Call → Bool
  | .share _ _ (.done _) | .list _ _ (.done _) => true
  | _ => false

namespace Process

variable {json : EventJSON Raw} {extract : String → Option String} {s t : Process Raw}

/-- The listener does not fail, and `Shutdown` does not time out. -/
def Clean (_ : Process Raw) : Label → Prop
  | .listenerError | .shutdownTimeout => False
  | _ => True

/-- The invariant of such a run: past `Run`, the server is drained, and then
every call has returned. -/
structure CleanInv (s : Process Raw) : Prop extends s.QuietInv where
  drained : s.pc ≠ .serving → s.pc ≠ .shutdown → s.drained = true
  closed : s.worker.queue.closed = true → s.drained = true
  idle : s.drained = true → ∀ k c, s.server.calls k = some c → returned c = true

/-- Calls that have returned do not move. -/
theorem returned_step {a b : Server} {l : Server.Label}
    (hidle : ∀ k c, a.calls k = some c → returned c = true) (hbegin : begins l = none)
    (h : a.step extract l = some b) : b.calls = a.calls := by
  rcases Server.step_cases h with ⟨_, _, _, rfl, -⟩ | ⟨_, _, _, rfl, -⟩ |
    ⟨k, env, c, b, c', rfl, hk, hadv, rfl⟩ | ⟨rfl, rfl⟩
  · cases hbegin
  · cases hbegin
  · have hreturned := hidle k c hk
    unfold returned at hreturned
    split at hreturned
    · cases hadv
    · cases hadv
    · cases hreturned
  · rfl

/-- After a clean shutdown nobody is submitting. -/
theorem CleanInv.not_submitting (hi : s.CleanInv) (hdrained : s.drained = true) (k : ℕ) :
    submitting s.server k = none := by
  refine Option.eq_none_iff_forall_ne_some.2 fun v hv => ?_
  obtain ⟨_, _, hc⟩ := submitting_eq_some.1 hv
  exact nomatch hi.idle hdrained k _ hc

/-- A clean run meets the condition. -/
theorem CleanInv.quiet_step (hi : s.CleanInv) {l : Label} (h : s.step json extract l = some t) :
    s.Quiet l := by
  cases stepped h with
  | stop hpc _ =>
    intro k _ c hc
    have hdrained := hi.drained (by rw [hpc]; exact nofun) (by rw [hpc]; exact nofun)
    have hreturned := hi.idle hdrained k c hc
    unfold returned at hreturned
    split at hreturned
    · rfl
    · rfl
    · cases hreturned
  | @server l _ _ _ _ =>
    cases l with
    | step k env =>
      intro hclosed
      split
      · next hc => exact nomatch hi.idle (hi.closed hclosed) k _ hc
      · trivial
    | share | list | expire => trivial
  | submit | sent | panicked | take | publish | exit | signal | listenerError | shutdownDone
  | shutdownTimeout | wait => trivial

/-- **The step lemma** of clean runs. -/
theorem CleanInv.step (hi : s.CleanInv) {l : Label} (hl : s.Clean l)
    (h : s.step json extract l = some t) : s.Quiet l ∧ t.CleanInv := by
  have hquiet := hi.quiet_step h
  have hi' := hi.toQuietInv.step hquiet h
  refine ⟨hquiet, ?_⟩
  cases stepped h with
  | server _ hbegin ht =>
    refine { hi' with drained := hi.drained, closed := hi.closed, idle := fun hdrained => ?_ }
    show ∀ k c, _ = some c → _
    rw [returned_step (hi.idle hdrained) (hbegin hdrained) ht]
    exact hi.idle hdrained
  | submit _ hw =>
    cases Worker.stepped hw with
    | submit _ =>
      exact { hi' with drained := hi.drained, closed := hi.closed, idle := hi.idle }
  | sent hw _ _ =>
    obtain ⟨hsubmits, hopen⟩ := hi.send hw
    refine { hi' with drained := hi.drained, closed := ?_, idle := fun hdrained => ?_ }
    · exact fun hclosed => nomatch hopen.symm.trans hclosed
    · -- nothing is sent once the calls have returned
      cases Worker.stepped hw with
      | send hk _ | panic hk _ =>
        obtain ⟨v, hv⟩ := hi.sending _ hk
        exact nomatch (hi.not_submitting hdrained _).symm.trans hv
  | panicked hw _ =>
    obtain ⟨-, hopen⟩ := hi.send hw
    refine { hi' with drained := hi.drained, closed := ?_, idle := hi.idle }
    exact fun hclosed => nomatch hopen.symm.trans hclosed
  | take hw =>
    cases Worker.stepped hw with
    | take _ hq =>
      have hclosed := (Chan.recv_eq_some hq).2
      exact { hi' with
        drained := hi.drained, closed := fun h => hi.closed (hclosed ▸ h), idle := hi.idle }
  | publish _ _ hw =>
    cases Worker.stepped hw with
    | finish _ => exact { hi' with drained := hi.drained, closed := hi.closed, idle := hi.idle }
  | exit hw =>
    cases Worker.stepped hw with
    | exit _ _ _ => exact { hi' with drained := hi.drained, closed := hi.closed, idle := hi.idle }
  | signal hpc =>
    exact { hi' with
      drained := fun _ hshutdown => absurd rfl hshutdown, closed := hi.closed, idle := hi.idle }
  | listenerError | shutdownTimeout => exact hl.elim
  | shutdownDone hpc hidle =>
    refine { hi' with
      drained := fun _ _ => rfl, closed := fun _ => rfl, idle := fun _ k c hc => ?_ }
    have hcall : s.server.calls k = some c := hc
    have hfinished := hidle k (hi.requests k (by rw [hcall]; exact nofun)) c hcall
    unfold finished at hfinished
    split at hfinished
    · rfl
    · rfl
    · exact absurd (of_decide_eq_true hfinished) (hi.calm k)
    · cases hfinished
  | stop hpc hw =>
    have hdrained := hi.drained (by rw [hpc]; exact nofun) (by rw [hpc]; exact nofun)
    exact { hi' with drained := fun _ _ => hdrained, closed := fun _ => hdrained, idle := hi.idle }
  | wait hpc hw =>
    have hdrained := hi.drained (by rw [hpc]; exact nofun) (by rw [hpc]; exact nofun)
    exact { hi' with drained := fun _ _ => hdrained, closed := fun _ => hdrained, idle := hi.idle }

/-- And so does that of the clean ones. -/
theorem cleanInv_start (backend : Backend) : CleanInv (start backend : Process Raw) :=
  { quietInv_start backend with
    drained := fun hserving => absurd rfl hserving
    closed := nofun
    idle := nofun }

end Process

/-- **A shutdown that waits for the handlers is safe.**  A run in which the
listener does not fail and `Shutdown` does not time out meets the condition. -/
theorem quiet_of_clean (json : EventJSON Raw) (extract : String → Option String)
    (backend : Backend) {run : List Process.Label}
    (hrun : (process json extract).Steps Process.Clean (.start backend) run) :
    (process json extract).Steps Process.Quiet (.start backend) run :=
  Machine.Steps.of_invariant (I := Process.CleanInv) (fun _ _ _ hi hl h => hi.step hl h)
    (Process.cleanInv_start backend) hrun

end Main
end YtShare
