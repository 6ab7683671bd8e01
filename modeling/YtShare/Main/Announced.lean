/-
# Every shared video is announced

`Share` answers when its job is in the queue, and the pool runs every job that
was handed over before `Stop` returns.  What is left to go wrong is the job: it
publishes once, logs an error and returns, so that a transient error of Redis
leaves a video that nobody is told of.

`all_announced` says that nothing else goes wrong: in every run whose publishes
append their events, when the worker has stopped, the stream was given the event
of every video that was shared.
-/

import YtShare.Jobs.Drain
import YtShare.Main.Run

namespace YtShare
namespace Main

open Jobs Lib Notifications Videos

variable {Raw : Type}

/-- The payload of the event of a video that `Share` has returned. -/
def viewPayload (view : VideoView) : VideoSharedPayload where
  videoID := view.id
  youTubeID := view.youTubeID
  title := view.title
  thumbnailURL := view.thumbnailURL
  sharedByID := view.sharedBy.id
  sharedByName := view.sharedBy.name

/-- The entry holds an event with this payload. -/
def Describes (json : EventJSON Raw) (p : VideoSharedPayload) (x : Entry Raw) : Prop :=
  ∃ newID now id created,
    StreamPublisher.publish json newID now id (sharedEvent created p) = some x

namespace Process

variable {json : EventJSON Raw} {extract : String → Option String} {s t : Process Raw}

/-- The video that a call of `Share` has returned. -/
def shared (s : Process Raw) (k : ℕ) : Option VideoView :=
  match s.server.calls k with
  | some (.share _ _ (.done (.ok view))) => some view
  | _ => none

/-- Once the worker has stopped, the event of every video that a `Share` has
returned was appended. -/
def Announced (json : EventJSON Raw) (s : Process Raw) : Prop :=
  s.pc = .stopped → ∀ k view, s.shared k = some view →
    ∃ x ∈ s.stream, Describes json (viewPayload view) x

/-- **The condition on a step:** a publish appends its event, that is, the event
can be marshalled and Redis takes it once at least. -/
def Publishes (json : EventJSON Raw) (s : Process Raw) : Label → Prop
  | .publish i env => env.ids ≠ [] ∧
      match s.worker.workers i with
      | .running k => ∀ p ∈ s.jobs k, (json.marshal
          (StreamPublisher.stamp env.newID env.now (sharedEvent env.created p))).isSome = true
      | _ => True
  | _ => True

instance (json : EventJSON Raw) (s : Process Raw) (l : Label) :
    Decidable (s.Publishes json l) := by
  unfold Publishes
  split
  · have : ∀ i : Fin (pool 4), ∀ env : PublishEnv, Decidable (match s.worker.workers i with
        | .running k => ∀ p ∈ s.jobs k, (json.marshal
            (StreamPublisher.stamp env.newID env.now (sharedEvent env.created p))).isSome = true
        | _ => True) := by
      intro i env
      split <;> infer_instance
    infer_instance
  · infer_instance

/-- The invariant: a `Submit` is under way or was made for a call at its `Submit`
or beyond, with the payload of its video; and the job of a finished one was
announced. -/
structure Inv (json : EventJSON Raw) (s : Process Raw) : Prop where
  worker : s.worker.Inv
  began : ∀ k, s.worker.submits k ≠ none → (∃ v, submitting s.server k = some v) ∨
    ∃ sharerID req view, s.server.calls k = some (.share sharerID req (.done (.ok view)))
  submitted : ∀ k v, submitting s.server k = some v → s.worker.submits k ≠ none →
    s.jobs k = some (Service.payload v)
  success : ∀ k sharerID req view,
    s.server.calls k = some (.share sharerID req (.done (.ok view))) →
      s.worker.submits k = some .returned ∧ s.jobs k = some (viewPayload view)
  done : ∀ k ∈ s.worker.done, ∃ p, s.jobs k = some p ∧ ∃ x ∈ s.stream, Describes json p x
  stopped : s.pc = .stopped → s.worker.stop = some .returned

/-- Before anything is requested nothing is owed to the stream. -/
theorem inv_start (backend : Backend) : Inv json (start backend) := by
  constructor
  · exact Worker.inv_new
  · exact fun k hk => absurd rfl hk
  · exact nofun
  · exact nofun
  · exact nofun
  · exact nofun

/-- The server moves a call, and the rest stays. -/
theorem Inv.server (hi : s.Inv json) {l : Server.Label} {b : Server} {requests : List ℕ}
    (hl : isSubmit s.server l = false) (h : s.server.step extract l = some b) :
    Inv json { s with server := b, requests := requests } := by
  have hcalls := calls_step hl h
  constructor
  · exact hi.worker
  · intro k hk
    rcases hcalls k with hsame | hmoved
    · rcases hi.began k hk with ⟨v, hv⟩ | ⟨sharerID, req, view, hview⟩
      · refine .inl ⟨v, ?_⟩
        rwa [submitting, hsame]
      · exact .inr ⟨sharerID, req, view, hsame.trans hview⟩
    · rcases hi.began k hk with ⟨v, hv⟩ | ⟨sharerID, req, view, hview⟩
      · rw [hmoved.before] at hv
        cases hv
      · exact absurd hview (hmoved.notDone _ _ _)
  · intro k v hv hk
    rcases hcalls k with hsame | hmoved
    · refine hi.submitted k v ?_ hk
      rwa [submitting, ← hsame]
    · rcases hi.began k hk with ⟨v', hv'⟩ | ⟨sharerID, req, view, hview⟩
      · rw [hmoved.before] at hv'
        cases hv'
      · exact absurd hview (hmoved.notDone _ _ _)
  · intro k sharerID req view hview
    rcases hcalls k with hsame | hmoved
    · exact hi.success k sharerID req view (hsame.symm.trans hview)
    · exact absurd hview (hmoved.notPast _ _ _)
  · exact hi.done
  · exact hi.stopped

/-- A job that has finished was handed over. -/
theorem returned_of_done {w : Worker (pool 4) (capacity 256)} (hi : w.Inv) {k : ℕ}
    (hk : k ∈ w.done) : w.submits k = some .returned := by
  rw [← hi.returned k, hi.order]
  exact List.mem_append_left _ ((hi.taken k).2 (.inl hk))

/-- A `Submit` begins. -/
theorem Inv.submit (hi : s.Inv json) {k : ℕ} {v : Video} {w : Worker (pool 4) (capacity 256)}
    (hk : submitting s.server k = some v) (hw : s.worker.step (.submit k) = some w) :
    Inv json { s with
      worker := w
      jobs := Function.update s.jobs k (some (Service.payload v)) } := by
  have hworker := hi.worker.step hw
  cases Worker.stepped hw with
  | submit hnone =>
    have hother : ∀ j, j ≠ k → Function.update s.worker.submits k (some .send) j =
        s.worker.submits j ∧ Function.update s.jobs k (some (Service.payload v)) j = s.jobs j :=
      fun j hj => ⟨Function.update_of_ne hj _ _, Function.update_of_ne hj _ _⟩
    constructor
    · exact hworker
    · intro j hj
      rcases eq_or_ne j k with rfl | hjk
      · exact .inl ⟨v, hk⟩
      · refine hi.began j ?_
        rwa [← (hother j hjk).1]
    · intro j v' hv' hj
      rcases eq_or_ne j k with rfl | hjk
      · obtain rfl := Option.some.inj (hk.symm.trans hv')
        exact Function.update_self ..
      · refine (hother j hjk).2.trans (hi.submitted j v' hv' ?_)
        rwa [← (hother j hjk).1]
    · intro j sharerID req view hview
      have hjk : j ≠ k := by
        rintro rfl
        obtain ⟨_, _, hsubmit⟩ := submitting_eq_some.1 hk
        cases hsubmit.symm.trans hview
      obtain ⟨hreturned, hjob⟩ := hi.success j sharerID req view hview
      exact ⟨(hother j hjk).1.trans hreturned, (hother j hjk).2.trans hjob⟩
    · intro j hj
      have hjk : j ≠ k := by
        rintro rfl
        exact nomatch hnone.symm.trans (returned_of_done hi.worker hj)
      obtain ⟨p, hp, hx⟩ := hi.done j hj
      exact ⟨p, (hother j hjk).2.trans hp, hx⟩
    · exact hi.stopped

/-- The worker moves without a `Submit` and without a job that finishes. -/
theorem Inv.setWorker (hi : s.Inv json) {w : Worker (pool 4) (capacity 256)} {pc : Pc}
    (hworker : w.Inv) (hsubmits : ∀ k, w.submits k ≠ none → s.worker.submits k ≠ none)
    (hreturned : ∀ k, s.worker.submits k = some .returned → w.submits k = some .returned)
    (hdone : w.done = s.worker.done) (hstopped : pc = .stopped → w.stop = some .returned) :
    Inv json { s with worker := w, pc := pc } := by
  constructor
  · exact hworker
  · exact fun k hk => hi.began k (hsubmits k hk)
  · exact fun k v hv hk => hi.submitted k v hv (hsubmits k hk)
  · intro k sharerID req view hview
    obtain ⟨hk, hjob⟩ := hi.success k sharerID req view hview
    exact ⟨hreturned k hk, hjob⟩
  · intro k hk
    exact hi.done k (hdone ▸ hk)
  · exact hstopped

/-- A `Submit` panics. -/
theorem Inv.panicked (hi : s.Inv json) {k : ℕ} {w : Worker (pool 4) (capacity 256)}
    (hw : s.worker.step (.send k) = some w) (hk : w.submits k ≠ some .returned) :
    Inv json (s.setWorker w) := by
  have hworker := hi.worker.step hw
  have hreturned := fun j => Worker.submits_returned (k := j) hw
  cases Worker.stepped hw with
  | send _ _ => exact absurd (Function.update_self ..) hk
  | panic hsend _ =>
    refine hi.setWorker hworker (fun j hj => ?_) hreturned rfl hi.stopped
    rcases eq_or_ne j k with rfl | hjk
    · rw [hsend]
      exact nofun
    · change Function.update s.worker.submits k (some .panicked) j ≠ none at hj
      rwa [Function.update_of_ne hjk] at hj

/-- A `Submit` returns, and its call with it. -/
theorem Inv.sent (hi : s.Inv json) {k : ℕ} {w : Worker (pool 4) (capacity 256)} {b : Server}
    (hw : s.worker.step (.send k) = some w) (hk : w.submits k = some .returned)
    (hb : s.server.step extract (.step k (Call.plain false)) = some b) :
    Inv json { s with worker := w, server := b } := by
  have hworker := hi.worker.step hw
  cases Worker.stepped hw with
  | panic _ _ =>
    have hpanicked : Function.update s.worker.submits k (some .panicked) k = some .returned := hk
    rw [Function.update_self] at hpanicked
    cases hpanicked
  | send hsend _ =>
    have hbegun : s.worker.submits k ≠ none := by rw [hsend]; exact nofun
    -- the call is at its `Submit`, and returns what it was to return
    obtain ⟨v, hv⟩ : ∃ v, submitting s.server k = some v := by
      rcases hi.began k hbegun with hv | ⟨sharerID, req, view, hview⟩
      · exact hv
      · exact nomatch hsend.symm.trans (hi.success k _ _ _ hview).1
    obtain ⟨sharerID, req, hc⟩ := submitting_eq_some.1 hv
    simp only [Server.step, hc] at hb
    obtain rfl := Option.some.inj hb
    have hother : ∀ j, j ≠ k →
        Function.update s.worker.submits k (some .returned) j = s.worker.submits j :=
      fun j hj => Function.update_of_ne hj _ _
    constructor
    · exact hworker
    · intro j hj
      rcases eq_or_ne j k with rfl | hjk
      · exact .inr ⟨sharerID, req, toView v, Server.setCall_self s.server j _⟩
      · change Function.update s.worker.submits k (some .returned) j ≠ none at hj
        rw [hother j hjk] at hj
        rw [submitting, Server.setCall_of_ne s.server _ hjk]
        exact hi.began j hj
    · intro j v' hv' hj
      rcases eq_or_ne j k with rfl | hjk
      · rw [submitting, Server.setCall_self] at hv'
        cases hv'
      · rw [submitting, Server.setCall_of_ne s.server _ hjk] at hv'
        exact hi.submitted j v' hv' (hother j hjk ▸ hj)
    · intro j sharerID' req' view hview
      rcases Server.setCall_eq_some hview with ⟨rfl, hdone⟩ | ⟨hjk, hold⟩
      · obtain ⟨-, -, hpc⟩ := Call.share.inj hdone
        obtain rfl := Except.ok.inj (SharePc.done.inj hpc)
        exact ⟨Function.update_self .., hi.submitted j v hv hbegun⟩
      · obtain ⟨hreturned, hjob⟩ := hi.success j sharerID' req' view hold
        exact ⟨(hother j hjk).trans hreturned, hjob⟩
    · exact hi.done
    · exact hi.stopped

/-- A worker has published. -/
theorem Inv.publish (hi : s.Inv json) {i : Fin (pool 4)} {env : PublishEnv} {k : ℕ}
    {p : VideoSharedPayload} {w : Worker (pool 4) (capacity 256)}
    (hl : s.Publishes json (.publish i env)) (hrun : s.worker.workers i = .running k)
    (hp : s.jobs k = some p) (hw : s.worker.step (.finish i false) = some w) :
    Inv json { s with worker := w, stream := s.stream ++ Main.publish json env p } := by
  obtain ⟨hids, hmarshal⟩ := hl
  simp only [hrun] at hmarshal
  have hworker := hi.worker.step hw
  obtain ⟨-, hsubmits, hstop⟩ := Worker.worker_step rfl hw
  have hentry : ∃ x ∈ Main.publish json env p, Describes json p x := by
    obtain ⟨raw, hraw⟩ := Option.isSome_iff_exists.1 (hmarshal p hp)
    obtain ⟨id, hid⟩ := List.exists_mem_of_ne_nil _ hids
    have hpublish : StreamPublisher.publish json env.newID env.now id
        (sharedEvent env.created p) = some ⟨id, some raw⟩ := by
      rw [StreamPublisher.publish, hraw]
      rfl
    exact ⟨⟨id, some raw⟩, List.mem_filterMap.2 ⟨id, hid, hpublish⟩, _, _, _, _, hpublish⟩
  constructor
  · exact hworker
  · exact fun j hj => hi.began j (hsubmits ▸ hj)
  · exact fun j v hv hj => hi.submitted j v hv (hsubmits ▸ hj)
  · intro j sharerID req view hview
    obtain ⟨hj, hjob⟩ := hi.success j sharerID req view hview
    exact ⟨(congrFun hsubmits j).trans hj, hjob⟩
  · intro j hj
    have hdone : w.done = s.worker.done ++ [k] := by
      cases Worker.stepped hw with
      | finish hrun' =>
        obtain rfl := RunPc.running.inj (hrun.symm.trans hrun')
        exact List.map_append
    change j ∈ w.done at hj
    rw [hdone, List.mem_append, List.mem_singleton] at hj
    rcases hj with hj | rfl
    · obtain ⟨p', hp', x, hx, hdescribes⟩ := hi.done j hj
      exact ⟨p', hp', x, List.mem_append_left _ hx, hdescribes⟩
    · obtain ⟨x, hx, hdescribes⟩ := hentry
      exact ⟨p, hp, x, List.mem_append_right _ hx, hdescribes⟩
  · exact fun hpc => hstop.trans (hi.stopped hpc)

/-- **The step lemma.** -/
theorem Inv.step (hi : s.Inv json) {l : Label} (hl : s.Publishes json l)
    (h : s.step json extract l = some t) : t.Inv json := by
  cases stepped h with
  | server hsubmit _ ht => exact hi.server hsubmit ht
  | submit hk hw => exact hi.submit hk hw
  | sent hw hk ht => exact hi.sent hw hk ht
  | publish hrun hp hw => exact hi.publish hl hrun hp hw
  | @panicked k w hw hk => exact hi.panicked hw hk
  | take hw =>
    obtain ⟨-, hsubmits, hstop⟩ := Worker.worker_step rfl hw
    exact hi.setWorker (hi.worker.step hw) (fun k hk => hsubmits ▸ hk)
      (fun k => Worker.submits_returned hw) (Worker.done_of_ne hw nofun)
      fun hpc => hstop.trans (hi.stopped hpc)
  | exit hw =>
    obtain ⟨-, hsubmits, hstop⟩ := Worker.worker_step rfl hw
    exact hi.setWorker (hi.worker.step hw) (fun k hk => hsubmits ▸ hk)
      (fun k => Worker.submits_returned hw) (Worker.done_of_ne hw nofun)
      fun hpc => hstop.trans (hi.stopped hpc)
  | signal hpc => exact { hi with stopped := nofun }
  | listenerError hpc => exact { hi with stopped := nofun }
  | shutdownDone hpc _ => exact { hi with stopped := nofun }
  | shutdownTimeout hpc => exact { hi with stopped := nofun }
  | stop hpc hw =>
    have hworker := hi.worker.step hw
    cases Worker.stepped hw with
    | stop _ _ => exact hi.setWorker hworker (fun _ hk => hk) (fun _ hk => hk) rfl nofun
  | wait hpc hw =>
    have hworker := hi.worker.step hw
    cases Worker.stepped hw with
    | wait _ _ => exact hi.setWorker hworker (fun _ hk => hk) (fun _ hk => hk) rfl fun _ => rfl

/-- **The invariant announces every share** by the time the worker has stopped. -/
theorem Inv.announced (hi : s.Inv json) : s.Announced json := by
  intro hstopped k view hview
  unfold shared at hview
  split at hview
  · next sharerID req view' hcall =>
    obtain rfl := Option.some.inj hview
    obtain ⟨hreturned, hjob⟩ := hi.success k sharerID req view' hcall
    have hcount := ((hi.worker.orderly (pool_pos 4)).stopped (hi.stopped hstopped)).2 k hreturned
    have hdone : k ∈ s.worker.done := List.count_pos_iff.1 (by omega)
    obtain ⟨p, hp, hx⟩ := hi.done k hdone
    obtain rfl := Option.some.inj (hp.symm.trans hjob)
    exact hx
  · cases hview

end Process

/-- **When every shared video is announced.**  In every run whose publishes
append their events, once the worker has stopped, the event of every video whose
`Share` succeeded was appended. -/
theorem all_announced (json : EventJSON Raw) (extract : String → Option String)
    (backend : Backend) {run : List Process.Label}
    (hrun : (process json extract).Steps (Process.Publishes json) (.start backend) run) :
    (process json extract).Always (Process.Announced json) (.start backend) run :=
  (Machine.always_of_steps (M := process json extract) (I := Process.Inv json)
    (C := Process.Publishes json) (fun _ _ _ hi hl h => hi.step hl h)
    (Process.inv_start backend) hrun).mono fun _ => Process.Inv.announced

/-- Call 0 shares a video up to its `Submit`. -/
def shareSteps : List Process.Label :=
  [.server (.share 0 ⟨7⟩ ⟨"v", "", ""⟩), .server (go 0), .server (go 0), .server (go 0),
    .server (go 0)]

/-- The four workers leave. -/
def exits : List Process.Label :=
  [.exit ⟨0, by decide⟩, .exit ⟨1, by decide⟩, .exit ⟨2, by decide⟩, .exit ⟨3, by decide⟩]

/-- A publish that goes through unless it `fails`. -/
def publishEnv (fails : Bool) : PublishEnv :=
  ⟨⟨1⟩, ⟨1⟩, ⟨1⟩, if fails then [] else [.of 1 0]⟩

/-- A share, its job, and a graceful shutdown. -/
def shareAndStop (fails : Bool) : List Process.Label :=
  shareSteps ++ [.submit 0, .send 0, .take ⟨0, by decide⟩,
    .publish ⟨0, by decide⟩ (publishEnv fails), .signal, .shutdownDone, .stop] ++ exits ++ [.wait]

/-- The publish goes through, and the video is announced. -/
theorem all_announced_shareAndStop :
    (process .verbatim some).Always (Process.Announced .verbatim) (.start quietServer.backend)
      (shareAndStop false) := by
  refine all_announced .verbatim some quietServer.backend ?_
  decide

/-- The publish fails, and when the worker has stopped nobody was told. -/
theorem publish_failure_lost :
    ¬(process .verbatim some).Always (Process.Announced .verbatim) (.start quietServer.backend)
      (shareAndStop true) := by
  intro h
  have hend : ((process .verbatim some).exec (.start quietServer.backend) (shareAndStop true)).map
      (fun s => (s.pc, s.stream.length, (s.shared 0).isSome)) = some (.stopped, 0, true) := by
    decide
  obtain ⟨s, hs, heq⟩ := Option.map_eq_some_iff.1 hend
  obtain ⟨hpc, heq⟩ := Prod.mk.inj heq
  obtain ⟨hstream, hshared⟩ := Prod.mk.inj heq
  obtain ⟨view, hview⟩ := Option.isSome_iff_exists.1 hshared
  obtain ⟨x, hx, -⟩ := h.exec hs hpc 0 view hview
  rw [List.length_eq_zero_iff.1 hstream] at hx
  cases hx

end Main
end YtShare
