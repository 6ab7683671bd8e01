/-
# Only shared videos are announced, each by one event

`Main.Announced` says when every shared video is announced.  This is the other
direction, and it needs no condition on the run: whatever fails and however the
process is shut down, what is in the stream tells of videos whose `Share` has
returned success and whose rows are in the table, and of no video by two events.

A call of `Share` that has inserted its row carries what it will answer
(`Call.row`), from the insert to the return.  The rows of two calls are never for
the same video (`Server.Backed`), since the unique index of the table lets the
second one fail.  The job of a call is submitted once and taken by one worker,
and publishes what the call answers (`Process.Told`).

An event may stand in the stream more than once, when the reply to an `XADD` is
lost and the client sends it again; its entries then have the same data, and a
consumer can tell them by the id of the event.
-/

import YtShare.Main.Announced

namespace YtShare
namespace Videos

/-- What a call of `Share` that has inserted its row answers. -/
def Call.row : Call → Option VideoView
  | .share _ _ (.invalidate v) | .share _ _ (.submit v) => some (toView v)
  | .share _ _ (.done (.ok view)) => some view
  | _ => none

/-- An insert that goes through is one that the unique index lets through. -/
theorem create_of_insert {s : Store} {fails : Bool} {newID : UUID} {now : Time} {v : Video}
    {created : Store × Video} (h : Service.insert s fails newID now v = .ok created) :
    s.create newID now v = some created := by
  rw [Service.insert] at h
  split_ifs at h
  split at h
  · cases h
  · next created' hcreated =>
    obtain rfl := Except.ok.inj h
    exact hcreated

namespace Server

variable {extract : String → Option String} {s t : Server} {k : ℕ}

/-- What call `k` answers, once it has inserted its row. -/
def row (s : Server) (k : ℕ) : Option VideoView := (s.calls k).bind Call.row

/-- The row of the call that was set. -/
theorem row_setCall_self (s : Server) (k : ℕ) (c : Call) : (s.setCall k c).row k = c.row := by
  rw [row, setCall_self]
  rfl

/-- The rows of the others stay. -/
theorem row_setCall_of_ne (s : Server) {j : ℕ} (c : Call) (hj : j ≠ k) :
    (s.setCall k c).row j = s.row j := by
  rw [row, setCall_of_ne s c hj]
  rfl

/-- A call that is set to one with the same row, or to its first one without. -/
theorem row_setCall (c : Call) (hk : s.row k = c.row) (j : ℕ) :
    (s.setCall k c).row j = s.row j := by
  rcases eq_or_ne j k with rfl | hj
  · rw [row_setCall_self, hk]
  · exact row_setCall_of_ne s c hj

/-- A share that begins has no row yet. -/
theorem row_startShare (sharerID : UUID) (req : ShareRequest) :
    (Call.startShare extract sharerID req).row = none := by
  unfold Call.startShare
  cases extract req.url <;> rfl

/-- **What a step of a call does to its row:** nothing, or it inserts the row,
whose video was not there. -/
theorem row_advance {env : StepEnv} {b b' : Backend} {c c' : Call}
    (h : c.advance env b = some (b', c')) :
    c'.row = c.row ∧ b'.store.videos = b.store.videos ∨
      c.row = none ∧ ∃ w, c'.row = some (toView w) ∧ b'.store.videos = b.store.videos ++ [w] ∧
        ∀ x ∈ b.store.videos, x.youTubeID ≠ w.youTubeID := by
  rcases c with ⟨sharerID, req, pc⟩ | ⟨limit, offset, pc⟩
  · obtain ⟨⟨b', pc'⟩, hshare, heq⟩ := Option.map_eq_some_iff.1 h
    obtain ⟨rfl, rfl⟩ := Prod.mk.inj heq
    rcases pc with y | y | v | v | v | r
    · simp only [Call.advanceShare] at hshare
      split at hshare
      · obtain ⟨rfl, rfl⟩ := Prod.mk.inj (Option.some.inj hshare)
        exact .inl ⟨rfl, rfl⟩
      · obtain ⟨rfl, rfl⟩ := Prod.mk.inj (Option.some.inj hshare)
        exact .inl ⟨rfl, rfl⟩
    · simp only [Call.advanceShare] at hshare
      split at hshare
      · obtain ⟨rfl, rfl⟩ := Prod.mk.inj (Option.some.inj hshare)
        exact .inl ⟨rfl, rfl⟩
      · obtain ⟨rfl, rfl⟩ := Prod.mk.inj (Option.some.inj hshare)
        exact .inl ⟨rfl, rfl⟩
    · simp only [Call.advanceShare] at hshare
      split at hshare
      · obtain ⟨rfl, rfl⟩ := Prod.mk.inj (Option.some.inj hshare)
        exact .inl ⟨rfl, rfl⟩
      · next store w hinsert =>
        obtain ⟨rfl, rfl⟩ := Prod.mk.inj (Option.some.inj hshare)
        obtain ⟨hnew, rfl, rfl⟩ := Store.create_eq_some (create_of_insert hinsert)
        exact .inr ⟨rfl, _, rfl, rfl, hnew⟩
    · obtain ⟨rfl, rfl⟩ := Prod.mk.inj (Option.some.inj hshare)
      refine .inl ⟨rfl, ?_⟩
      unfold Service.invalidate
      split_ifs <;> rfl
    · obtain ⟨rfl, rfl⟩ := Prod.mk.inj (Option.some.inj hshare)
      exact .inl ⟨rfl, rfl⟩
    · cases hshare
  · obtain ⟨⟨b', pc'⟩, hlist, heq⟩ := Option.map_eq_some_iff.1 h
    obtain ⟨rfl, rfl⟩ := Prod.mk.inj heq
    refine .inl ⟨rfl, ?_⟩
    rcases pc with - | - | total | resp | r
    · simp only [Call.advanceList] at hlist
      split at hlist <;> obtain ⟨rfl, -⟩ := Prod.mk.inj (Option.some.inj hlist) <;> rfl
    · obtain ⟨rfl, -⟩ := Prod.mk.inj (Option.some.inj hlist)
      rfl
    · obtain ⟨rfl, -⟩ := Prod.mk.inj (Option.some.inj hlist)
      rfl
    · obtain ⟨rfl, -⟩ := Prod.mk.inj (Option.some.inj hlist)
      unfold Service.cacheSet
      split_ifs <;> rfl
    · cases hlist

/-- **What a step does to the rows:** nothing, or one call inserts one, whose
video was not there. -/
theorem row_step {l : Label} (h : s.step extract l = some t) :
    (∀ k, t.row k = s.row k) ∧ t.backend.store.videos = s.backend.store.videos ∨
      ∃ k w, s.row k = none ∧ t.row k = some (toView w) ∧ (∀ j, j ≠ k → t.row j = s.row j) ∧
        t.backend.store.videos = s.backend.store.videos ++ [w] ∧
        ∀ x ∈ s.backend.store.videos, x.youTubeID ≠ w.youTubeID := by
  rcases step_cases h with ⟨j, sharerID, req, rfl, hj, rfl⟩ | ⟨j, limit, offset, rfl, hj, rfl⟩ |
    ⟨j, env, c, b, c', rfl, hj, hadv, rfl⟩ | ⟨rfl, rfl⟩
  · refine .inl ⟨row_setCall _ ?_, rfl⟩
    rw [row_startShare, row, hj]
    rfl
  · refine .inl ⟨row_setCall _ ?_, rfl⟩
    rw [row, hj]
    rfl
  · have hrow : s.row j = c.row := by
      rw [row, hj]
      rfl
    rcases row_advance hadv with ⟨hsame, hstore⟩ | ⟨hnone, w, hw, hvideos, hnew⟩
    · exact .inl ⟨row_setCall (s := s) c' (hrow.trans hsame.symm), hstore⟩
    · exact .inr ⟨j, w, hrow.trans hnone, (row_setCall_self s j c').trans hw,
        fun i hi => row_setCall_of_ne s c' hi, hvideos, hnew⟩
  · exact .inl ⟨fun _ => rfl, rfl⟩

/-- Every row that a call answers with is in the table, and no two calls answer
with the same video. -/
structure Backed (s : Server) : Prop where
  stored : ∀ k view, s.row k = some view → ∃ v ∈ s.backend.store.videos, view = toView v
  unique : ∀ j k v w, s.row j = some v → s.row k = some w → v.youTubeID = w.youTubeID → j = k

/-- **The step lemma.** -/
theorem Backed.step (hi : s.Backed) {l : Label} (h : s.step extract l = some t) : t.Backed := by
  rcases row_step h with ⟨hrow, hvideos⟩ | ⟨k, w, -, hk, hother, hvideos, hnew⟩
  · refine ⟨fun j view hj => ?_, fun i j v w hv hw => ?_⟩
    · rw [hvideos]
      exact hi.stored j view (hrow j ▸ hj)
    · exact hi.unique i j v w (hrow i ▸ hv) (hrow j ▸ hw)
  · -- the video of the new row was in no row before, so no other call has it
    have hfresh : ∀ j v, j ≠ k → t.row j = some v → v.youTubeID ≠ w.youTubeID := by
      intro j v hj hv
      obtain ⟨x, hx, rfl⟩ := hi.stored j v (hother j hj ▸ hv)
      exact hnew x hx
    refine ⟨fun j view hj => ?_, fun i j v v' hv hv' heq => ?_⟩
    · rw [hvideos]
      rcases eq_or_ne j k with rfl | hjk
      · exact ⟨w, List.mem_append_right _ List.mem_cons_self, Option.some.inj (hj.symm.trans hk)⟩
      · obtain ⟨x, hx, hview⟩ := hi.stored j view (hother j hjk ▸ hj)
        exact ⟨x, List.mem_append_left _ hx, hview⟩
    · by_cases hik : i = k
      · by_cases hjk : j = k
        · exact hik.trans hjk.symm
        · obtain rfl := Option.some.inj ((hik ▸ hv).symm.trans hk)
          exact absurd heq.symm (hfresh j v' hjk hv')
      by_cases hjk : j = k
      · obtain rfl := Option.some.inj ((hjk ▸ hv').symm.trans hk)
        exact absurd heq (hfresh i v hik hv)
      · exact hi.unique i j v v' (hother i hik ▸ hv) (hother j hjk ▸ hv') heq

/-- The row of a call stays. -/
theorem row_mono {l : Label} (h : s.step extract l = some t) {k : ℕ} {v : VideoView}
    (hk : s.row k = some v) : t.row k = some v := by
  rcases row_step h with ⟨hrow, -⟩ | ⟨j, w, hj, -, hother, -, -⟩
  · exact (hrow k).trans hk
  · refine (hother k fun hkj => ?_).trans hk
    rw [← hkj, hk] at hj
    cases hj

/-- Before any call nothing is answered. -/
theorem backed_start (backend : Backend) : Backed ⟨backend, fun _ => none⟩ :=
  ⟨nofun, nofun⟩

end Server

end Videos

namespace Jobs
namespace Worker

variable {n cap : ℕ} {w : Worker n cap}

/-- The job of a worker has entered the queue. -/
theorem Inv.entered_of_running (hi : w.Inv) {i : Fin n} {k : ℕ} (h : w.workers i = .running k) :
    k ∈ w.entered := by
  rw [hi.order]
  exact List.mem_append_left _ ((hi.taken k).2 (.inr ⟨i, h⟩))

end Worker
end Jobs

namespace Main

open Jobs Lib Notifications Videos

variable {Raw : Type}

namespace Process

variable {json : EventJSON Raw} {extract : String → Option String} {s t : Process Raw}

/-- **Every announcement is true, and none is made by two events:** each entry of
the stream tells of a video that a `Share` has returned and the table holds, all
entries of one `Share` have the same data, and no two `Share`s have returned the
same video. -/
def Truthful (json : EventJSON Raw) (s : Process Raw) : Prop :=
  (∃ data : ℕ → Option Raw, ∀ x ∈ s.stream, ∃ k view, s.shared k = some view ∧
    (∃ v ∈ s.server.backend.store.videos, view = toView v) ∧
      Describes json (viewPayload view) x ∧ x.data = data k) ∧
  ∀ j k v w, s.shared j = some v → s.shared k = some w → v.youTubeID = w.youTubeID → j = k

/-- The entry tells what call `k` answers. -/
def Tells (json : EventJSON Raw) (s : Process Raw) (k : ℕ) (x : Entry Raw) : Prop :=
  ∃ view, s.server.row k = some view ∧ Describes json (viewPayload view) x

/-- The invariant: a call whose `Submit` has begun is at it or has returned, and
its job has the payload of what it answers; a call whose `Submit` has returned has
returned; and each entry was appended by a job that has finished, with the one
data of this job. -/
structure Told (json : EventJSON Raw) (s : Process Raw) : Prop where
  backed : s.server.Backed
  worker : s.worker.Inv
  began : ∀ k, s.worker.submits k ≠ none →
    (∃ v, submitting s.server k = some v) ∨ ∃ view, s.shared k = some view
  job : ∀ k, s.worker.submits k ≠ none →
    ∃ view, s.server.row k = some view ∧ s.jobs k = some (viewPayload view)
  answered : ∀ k, s.worker.submits k = some .returned → ∃ view, s.shared k = some view
  entries : ∃ data : ℕ → Option Raw, ∀ x ∈ s.stream,
    ∃ k ∈ s.worker.done, s.Tells json k x ∧ x.data = data k

/-- And nothing is told. -/
theorem told_start (backend : Backend) : Told json (start backend) :=
  ⟨Server.backed_start backend, Worker.inv_new, fun _ hk => absurd rfl hk,
    fun _ hk => absurd rfl hk, nofun, fun _ => none, nofun⟩

/-- What a `Share` has returned is its answer. -/
theorem shared_eq_some {k : ℕ} {view : VideoView} : s.shared k = some view ↔
    ∃ sharerID req, s.server.calls k = some (.share sharerID req (.done (.ok view))) := by
  unfold shared
  constructor
  · intro h
    split at h
    · next sharerID req view' hcall =>
      obtain rfl := Option.some.inj h
      exact ⟨sharerID, req, hcall⟩
    · cases h
  · rintro ⟨sharerID, req, hcall⟩
    rw [hcall]

/-- And what its row shows. -/
theorem row_of_shared {k : ℕ} {view : VideoView} (h : s.shared k = some view) :
    s.server.row k = some view := by
  obtain ⟨sharerID, req, hcall⟩ := shared_eq_some.1 h
  rw [Server.row, hcall]
  rfl

/-- A job appends entries with its payload, which all have the same data. -/
theorem publish_entries (json : EventJSON Raw) (env : PublishEnv) (p : VideoSharedPayload) :
    ∃ data : Option Raw, ∀ x ∈ Main.publish json env p, Describes json p x ∧ x.data = data := by
  refine ⟨json.marshal (StreamPublisher.stamp env.newID env.now (sharedEvent env.created p)),
    fun x hx => ?_⟩
  obtain ⟨id, -, hx⟩ := List.mem_filterMap.1 hx
  refine ⟨⟨_, _, _, _, hx⟩, ?_⟩
  obtain ⟨raw, hraw, rfl⟩ := Option.map_eq_some_iff.1 hx
  exact hraw.symm

/-- What was told is still so when the rows stay, and the jobs that have
finished. -/
theorem Told.entries_mono (hi : s.Told json)
    (hrow : ∀ k view, s.server.row k = some view → t.server.row k = some view)
    (hdone : ∀ k ∈ s.worker.done, k ∈ t.worker.done) (hstream : t.stream = s.stream) :
    ∃ data : ℕ → Option Raw, ∀ x ∈ t.stream,
      ∃ k ∈ t.worker.done, t.Tells json k x ∧ x.data = data k := by
  obtain ⟨data, hdata⟩ := hi.entries
  refine ⟨data, fun x hx => ?_⟩
  obtain ⟨k, hk, ⟨view, hview, hdescribes⟩, hsame⟩ := hdata x (hstream ▸ hx)
  exact ⟨k, hdone k hk, ⟨view, hrow k view hview, hdescribes⟩, hsame⟩

/-- The server moves a call that is not at its `Submit`. -/
theorem Told.server (hi : s.Told json) {l : Server.Label} {b : Server} {requests : List ℕ}
    (hl : isSubmit s.server l = false) (h : s.server.step extract l = some b) :
    Told json { s with server := b, requests := requests } := by
  have hrow := fun k view => Server.row_mono (k := k) (v := view) h
  -- a call whose `Submit` has begun does not move
  have hsame : ∀ k, s.worker.submits k ≠ none → b.calls k = s.server.calls k := by
    intro k hk
    rcases calls_step hl h k with hsame | hmoved
    · exact hsame
    · rcases hi.began k hk with ⟨v, hv⟩ | ⟨view, hview⟩
      · cases hmoved.before.symm.trans hv
      · obtain ⟨sharerID, req, hcall⟩ := shared_eq_some.1 hview
        exact absurd hcall (hmoved.notDone _ _ _)
  have hshared : ∀ k, s.worker.submits k ≠ none →
      Process.shared { s with server := b, requests := requests } k = s.shared k := by
    intro k hk
    rw [shared, shared, hsame k hk]
  refine ⟨hi.backed.step h, hi.worker, fun k hk => ?_, fun k hk => ?_, fun k hk => ?_,
    hi.entries_mono hrow (fun _ hk => hk) rfl⟩
  · rw [submitting, hsame k hk, hshared k hk]
    exact hi.began k hk
  · obtain ⟨view, hview, hjob⟩ := hi.job k hk
    exact ⟨view, hrow k view hview, hjob⟩
  · have hbegun : s.worker.submits k ≠ none := fun hnone => by cases hk.symm.trans hnone
    rw [hshared k hbegun]
    exact hi.answered k hk

/-- A `Submit` begins, with the payload of what its call answers. -/
theorem Told.submit (hi : s.Told json) {k : ℕ} {v : Video} {w : Worker (pool 4) (capacity 256)}
    (hk : submitting s.server k = some v) (hw : s.worker.step (.submit k) = some w) :
    Told json { s with
      worker := w
      jobs := Function.update s.jobs k (some (Service.payload v)) } := by
  have hworker := hi.worker.step hw
  have hrow : s.server.row k = some (toView v) := by
    obtain ⟨sharerID, req, hcall⟩ := submitting_eq_some.1 hk
    rw [Server.row, hcall]
    rfl
  cases Worker.stepped hw with
  | submit hnone =>
    refine ⟨hi.backed, hworker, fun j hj => ?_, fun j hj => ?_, fun j hj => ?_, hi.entries⟩
    · change Function.update s.worker.submits k (some .send) j ≠ none at hj
      rcases eq_or_ne j k with rfl | hjk
      · exact .inl ⟨v, hk⟩
      · rw [Function.update_of_ne hjk] at hj
        exact hi.began j hj
    · rcases eq_or_ne j k with rfl | hjk
      · exact ⟨toView v, hrow, Function.update_self ..⟩
      · change Function.update s.worker.submits k (some .send) j ≠ none at hj
        rw [Function.update_of_ne hjk] at hj
        obtain ⟨view, hview, hjob⟩ := hi.job j hj
        exact ⟨view, hview, (Function.update_of_ne hjk ..).trans hjob⟩
    · change Function.update s.worker.submits k (some .send) j = some .returned at hj
      rcases eq_or_ne j k with rfl | hjk
      · rw [Function.update_self] at hj
        cases hj
      · rw [Function.update_of_ne hjk] at hj
        exact hi.answered j hj

/-- The worker moves without a `Submit` that begins or returns and without a job
that finishes. -/
theorem Told.setWorker (hi : s.Told json) {w : Worker (pool 4) (capacity 256)} {pc : Pc}
    (hworker : w.Inv) (hsubmits : ∀ k, w.submits k ≠ none → s.worker.submits k ≠ none)
    (hreturned : ∀ k, w.submits k = some .returned → s.worker.submits k = some .returned)
    (hdone : w.done = s.worker.done) : Told json { s with worker := w, pc := pc } :=
  ⟨hi.backed, hworker, fun k hk => hi.began k (hsubmits k hk),
    fun k hk => hi.job k (hsubmits k hk), fun k hk => hi.answered k (hreturned k hk),
    hi.entries_mono (fun _ _ h => h) (fun _ hk => hdone ▸ hk) rfl⟩

/-- A `Submit` panics. -/
theorem Told.panicked (hi : s.Told json) {k : ℕ} {w : Worker (pool 4) (capacity 256)}
    (hw : s.worker.step (.send k) = some w) (hk : w.submits k ≠ some .returned) :
    Told json (s.setWorker w) := by
  have hworker := hi.worker.step hw
  cases Worker.stepped hw with
  | send _ _ => exact absurd (Function.update_self ..) hk
  | panic hsend _ =>
    refine hi.setWorker hworker (fun j hj => ?_) (fun j hj => ?_) rfl
    · rcases eq_or_ne j k with rfl | hjk
      · rw [hsend]
        exact nofun
      · change Function.update s.worker.submits k (some .panicked) j ≠ none at hj
        rwa [Function.update_of_ne hjk] at hj
    · change Function.update s.worker.submits k (some .panicked) j = some .returned at hj
      rcases eq_or_ne j k with rfl | hjk
      · rw [Function.update_self] at hj
        cases hj
      · rwa [Function.update_of_ne hjk] at hj

/-- A `Submit` returns, and its call with it. -/
theorem Told.sent (hi : s.Told json) {k : ℕ} {w : Worker (pool 4) (capacity 256)} {b : Server}
    (hw : s.worker.step (.send k) = some w) (hk : w.submits k = some .returned)
    (hb : s.server.step extract (.step k (Call.plain false)) = some b) :
    Told json { s with worker := w, server := b } := by
  have hworker := hi.worker.step hw
  have hbacked := hi.backed.step hb
  have hrow := fun j view => Server.row_mono (k := j) (v := view) hb
  cases Worker.stepped hw with
  | panic _ _ =>
    have hpanicked : Function.update s.worker.submits k (some .panicked) k = some .returned := hk
    rw [Function.update_self] at hpanicked
    cases hpanicked
  | send hsend _ =>
    have hbegun : ∀ j, Function.update s.worker.submits k (some .returned) j ≠ none →
        s.worker.submits j ≠ none := by
      intro j hj
      rcases eq_or_ne j k with rfl | hjk
      · rw [hsend]
        exact nofun
      · rwa [Function.update_of_ne hjk] at hj
    -- the call is at its `Submit`, since it can still go on
    obtain ⟨sharerID, req, v, hcall⟩ :
        ∃ sharerID req v, s.server.calls k = some (.share sharerID req (.submit v)) := by
      rcases hi.began k (by rw [hsend]; exact nofun) with ⟨v, hv⟩ | ⟨view, hview⟩
      · obtain ⟨sharerID, req, hcall⟩ := submitting_eq_some.1 hv
        exact ⟨sharerID, req, v, hcall⟩
      · obtain ⟨sharerID, req, hcall⟩ := shared_eq_some.1 hview
        simp only [Server.step, hcall] at hb
        cases hb
    simp only [Server.step, hcall] at hb
    obtain rfl := Option.some.inj hb
    refine ⟨hbacked, hworker, fun j hj => ?_, fun j hj => ?_, fun j hj => ?_,
      hi.entries_mono hrow (fun _ hj => hj) rfl⟩
    · rcases eq_or_ne j k with rfl | hjk
      · exact .inr ⟨_, shared_eq_some.2 ⟨_, _, Server.setCall_self ..⟩⟩
      · rw [submitting, shared, Server.setCall_of_ne s.server _ hjk]
        exact hi.began j (hbegun j hj)
    · obtain ⟨view, hview, hjob⟩ := hi.job j (hbegun j hj)
      exact ⟨view, hrow j view hview, hjob⟩
    · rcases eq_or_ne j k with rfl | hjk
      · exact ⟨_, shared_eq_some.2 ⟨_, _, Server.setCall_self ..⟩⟩
      · change Function.update s.worker.submits k (some .returned) j = some .returned at hj
        rw [Function.update_of_ne hjk] at hj
        rw [shared, Server.setCall_of_ne s.server _ hjk]
        exact hi.answered j hj

/-- A worker has published. -/
theorem Told.publish (hi : s.Told json) {i : Fin (pool 4)} {env : PublishEnv} {k : ℕ}
    {p : VideoSharedPayload} {w : Worker (pool 4) (capacity 256)}
    (hrun : s.worker.workers i = .running k) (hp : s.jobs k = some p)
    (hw : s.worker.step (.finish i false) = some w) :
    Told json { s with worker := w, stream := s.stream ++ Main.publish json env p } := by
  have hworker := hi.worker.step hw
  obtain ⟨-, hsubmits, -⟩ := Worker.worker_step rfl hw
  have hdone : w.done = s.worker.done ++ [k] := by
    cases Worker.stepped hw with
    | finish hrun' =>
      obtain rfl := RunPc.running.inj (hrun.symm.trans hrun')
      exact List.map_append
  have hnew : k ∉ s.worker.done := hi.worker.fresh i k hrun
  -- the new entries are about what the call of the job answers
  have hbegun : s.worker.submits k ≠ none := by
    rw [(hi.worker.returned k).1 (hi.worker.entered_of_running hrun)]
    exact nofun
  obtain ⟨view, hview, hjob⟩ := hi.job k hbegun
  obtain rfl := Option.some.inj (hp.symm.trans hjob)
  obtain ⟨raw, hraw⟩ := publish_entries json env (viewPayload view)
  obtain ⟨data, hdata⟩ := hi.entries
  refine ⟨hi.backed, hworker, fun j hj => hi.began j (hsubmits ▸ hj),
    fun j hj => hi.job j (hsubmits ▸ hj), fun j hj => hi.answered j (hsubmits ▸ hj),
    Function.update data k raw, fun x hx => ?_⟩
  rcases List.mem_append.1 hx with hx | hx
  · obtain ⟨j, hj, htells, hsame⟩ := hdata x hx
    refine ⟨j, ?_, htells, ?_⟩
    · rw [hdone]
      exact List.mem_append_left _ hj
    · rw [Function.update_of_ne fun hjk : j = k => hnew (hjk ▸ hj)]
      exact hsame
  · obtain ⟨hdescribes, hsame⟩ := hraw x hx
    refine ⟨k, ?_, ⟨view, hview, hdescribes⟩, hsame.trans (Function.update_self k raw data).symm⟩
    rw [hdone]
    exact List.mem_append_right _ (List.mem_singleton_self k)

/-- **The step lemma.** -/
theorem Told.step (hi : s.Told json) {l : Label} (h : s.step json extract l = some t) :
    t.Told json := by
  cases stepped h with
  | server hsubmit _ ht => exact hi.server hsubmit ht
  | submit hk hw => exact hi.submit hk hw
  | sent hw hk ht => exact hi.sent hw hk ht
  | panicked hw hk => exact hi.panicked hw hk
  | publish hrun hp hw => exact hi.publish hrun hp hw
  | take hw =>
    obtain ⟨-, hsubmits, -⟩ := Worker.worker_step rfl hw
    exact hi.setWorker (hi.worker.step hw) (fun _ hk => hsubmits ▸ hk) (fun _ hk => hsubmits ▸ hk)
      (Worker.done_of_ne hw nofun)
  | exit hw =>
    obtain ⟨-, hsubmits, -⟩ := Worker.worker_step rfl hw
    exact hi.setWorker (hi.worker.step hw) (fun _ hk => hsubmits ▸ hk) (fun _ hk => hsubmits ▸ hk)
      (Worker.done_of_ne hw nofun)
  | signal | listenerError | shutdownDone | shutdownTimeout =>
    exact ⟨hi.backed, hi.worker, hi.began, hi.job, hi.answered, hi.entries⟩
  | stop _ hw =>
    have hworker := hi.worker.step hw
    cases Worker.stepped hw with
    | stop _ _ => exact hi.setWorker hworker (fun _ hk => hk) (fun _ hk => hk) rfl
  | wait _ hw =>
    have hworker := hi.worker.step hw
    cases Worker.stepped hw with
    | wait _ _ => exact hi.setWorker hworker (fun _ hk => hk) (fun _ hk => hk) rfl

/-- What the invariant says of the entries makes every announcement true. -/
theorem Told.truthful (hi : s.Told json) : s.Truthful json := by
  obtain ⟨data, hdata⟩ := hi.entries
  refine ⟨⟨data, fun x hx => ?_⟩, fun j k v w hj hk heq => ?_⟩
  · obtain ⟨k, hk, ⟨view, hview, hdescribes⟩, hsame⟩ := hdata x hx
    obtain ⟨view', hshared⟩ := hi.answered k (returned_of_done hi.worker hk)
    obtain rfl := Option.some.inj (hview.symm.trans (row_of_shared hshared))
    exact ⟨k, view, hshared, hi.backed.stored k view hview, hdescribes, hsame⟩
  · exact hi.backed.unique j k v w (row_of_shared hj) (row_of_shared hk) heq

end Process

/-- **The stream tells the truth.**  In every run, whatever fails in it and
however it ends, every entry that was appended tells of a video that a `Share`
has returned and the table holds, and each such video is told of by one event,
in however many entries. -/
theorem announced_once (json : EventJSON Raw) (extract : String → Option String)
    (backend : Backend) (run : List Process.Label) :
    (process json extract).Always (Process.Truthful json) (.start backend) run :=
  (Machine.always_of_invariant (fun _ _ _ hi h => hi.step h)
    (Process.told_start backend) run).mono fun _ => Process.Told.truthful

end Main
end YtShare
