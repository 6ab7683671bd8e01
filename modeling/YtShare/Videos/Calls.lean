/-
# Concurrent calls

The calls of `Service.Share` and `Service.List` that a server runs at the same
time.  A call is at one of its repository or cache calls, and a step takes it
over that one to the next (`Call.advance`); between two steps of a call any
others may come.

A call that runs alone does what `Service.share` and `Service.list` say
(`share_alone`, `list_alone`).
-/

import YtShare.Lib.Machine
import YtShare.Videos.Service

namespace YtShare
namespace Videos

open Lib Service Users

/-- Where a call of `Share` is. -/
inductive SharePc
  | lookup (youTubeID : String)
  | loadSharer (youTubeID : String)
  | create (video : Video)
  | invalidate (video : Video)
  | submit (video : Video)
  | done (result : Except ShareError VideoView)

/-- Where a call of `List` is. -/
inductive ListPc
  | get
  | count
  | find (total : ℕ)
  | set (resp : ListResponse)
  | done (result : Except Failure ListResponse)

/-- A call with its arguments. -/
inductive Call
  | share (sharerID : UUID) (req : ShareRequest) (pc : SharePc)
  | list (limit offset : ℤ) (pc : ListPc)

/-- What the outside decides about one step: whether the repository or cache
call fails, and what `uuid.New` and the clock say. -/
structure StepEnv where
  fails : Bool
  newID : UUID
  now : Time

namespace Call

/-- A call of `Share` as it begins. -/
def startShare (extract : String → Option String) (sharerID : UUID) (req : ShareRequest) : Call :=
  .share sharerID req (match extract req.url with
    | none => .done (.error .invalidURL)
    | some youTubeID => .lookup youTubeID)

/-- A call of `List` as it begins. -/
def startList (limit offset : ℤ) : Call :=
  .list limit offset (if firstPage limit offset then .get else .count)

/-- One step of `Share`. -/
def advanceShare (env : StepEnv) (b : Backend) (sharerID : UUID) (req : ShareRequest) :
    SharePc → Option (Backend × SharePc)
  | .lookup youTubeID =>
      match Service.lookup b.store env.fails youTubeID with
      | .error e => some (b, .done (.error e))
      | .ok () => some (b, .loadSharer youTubeID)
  | .loadSharer youTubeID =>
      match Service.loadSharer b.store env.fails sharerID with
      | .error e => some (b, .done (.error e))
      | .ok sharer => some (b, .create (newVideo youTubeID sharer req))
  | .create video =>
      match insert b.store env.fails env.newID env.now video with
      | .error e => some (b, .done (.error e))
      | .ok (store, video) => some ({ b with store := store }, .invalidate video)
  | .invalidate video => some (Service.invalidate b env.fails, .submit video)
  | .submit video => some (Service.submit b video, .done (.ok (toView video)))
  | .done _ => none

/-- **What a step of `Share` does:** it fails, or goes on to the next place. -/
theorem advanceShare_cases {env : StepEnv} {b b' : Backend} {sharerID : UUID} {req : ShareRequest}
    {pc pc' : SharePc} (h : advanceShare env b sharerID req pc = some (b', pc')) :
    (∃ e, pc' = .done (.error e)) ∨
    (∃ y, pc = .lookup y ∧ pc' = .loadSharer y) ∨
    (∃ y v, pc = .loadSharer y ∧ pc' = .create v) ∨
    (∃ v store w, pc = .create v ∧
      insert b.store env.fails env.newID env.now v = .ok (store, w) ∧ pc' = .invalidate w) ∨
    (∃ v, pc = .invalidate v ∧ pc' = .submit v) ∨
    ∃ v, pc = .submit v ∧ pc' = .done (.ok (toView v)) := by
  rcases pc with y | y | v | v | v | r
  · simp only [advanceShare] at h
    split at h
    · obtain ⟨-, rfl⟩ := Prod.mk.inj (Option.some.inj h)
      exact .inl ⟨_, rfl⟩
    · obtain ⟨-, rfl⟩ := Prod.mk.inj (Option.some.inj h)
      exact .inr (.inl ⟨y, rfl, rfl⟩)
  · simp only [advanceShare] at h
    split at h
    · obtain ⟨-, rfl⟩ := Prod.mk.inj (Option.some.inj h)
      exact .inl ⟨_, rfl⟩
    · obtain ⟨-, rfl⟩ := Prod.mk.inj (Option.some.inj h)
      exact .inr (.inr (.inl ⟨y, _, rfl, rfl⟩))
  · simp only [advanceShare] at h
    split at h
    · obtain ⟨-, rfl⟩ := Prod.mk.inj (Option.some.inj h)
      exact .inl ⟨_, rfl⟩
    · next store w hinsert =>
      obtain ⟨-, rfl⟩ := Prod.mk.inj (Option.some.inj h)
      exact .inr (.inr (.inr (.inl ⟨v, store, w, rfl, hinsert, rfl⟩)))
  · obtain ⟨-, rfl⟩ := Prod.mk.inj (Option.some.inj h)
    exact .inr (.inr (.inr (.inr (.inl ⟨v, rfl, rfl⟩))))
  · obtain ⟨-, rfl⟩ := Prod.mk.inj (Option.some.inj h)
    exact .inr (.inr (.inr (.inr (.inr ⟨v, rfl, rfl⟩))))
  · cases h

/-- One step of `List`. -/
def advanceList (env : StepEnv) (b : Backend) (limit offset : ℤ) :
    ListPc → Option (Backend × ListPc)
  | .get =>
      match cacheGet b env.fails with
      | some cached => some (b, .done (.ok cached))
      | none => some (b, .count)
  | .count => some (b, if env.fails then .done (.error .other) else .find b.store.count)
  | .find total =>
      some (b,
        if env.fails then .done (.error .other)
        else if firstPage limit offset then
          .set (listResponse (b.store.find limit offset) total)
        else .done (.ok (listResponse (b.store.find limit offset) total)))
  | .set resp => some (cacheSet b env.fails resp, .done (.ok resp))
  | .done _ => none

/-- One step of a call, `none` when it has returned. -/
def advance (env : StepEnv) (b : Backend) : Call → Option (Backend × Call)
  | .share sharerID req pc =>
      (advanceShare env b sharerID req pc).map fun (b, pc) => (b, .share sharerID req pc)
  | .list limit offset pc =>
      (advanceList env b limit offset pc).map fun (b, pc) => (b, .list limit offset pc)

/-- A call that takes its steps one after the other, until it has returned. -/
def alone (b : Backend) (c : Call) : List StepEnv → Backend × Call
  | [] => (b, c)
  | env :: envs =>
      match c.advance env b with
      | none => (b, c)
      | some (b, c) => alone b c envs

/-- A step of which only the failure matters. -/
def plain (fails : Bool) : StepEnv := ⟨fails, UUID.nil, ⟨0⟩⟩

/-- **A `Share` that runs alone** is `Service.share`. -/
theorem share_alone (extract : String → Option String) (env : ShareEnv) (b : Backend)
    (sharerID : UUID) (req : ShareRequest) :
    alone b (startShare extract sharerID req) [plain env.lookupFails, plain env.sharerFails,
        ⟨env.createFails, env.newID, env.now⟩, plain env.deleteFails, plain false] =
      ((Service.share extract env b sharerID req).1,
        .share sharerID req (.done (Service.share extract env b sharerID req).2)) := by
  unfold startShare Service.share
  cases extract req.url with
  | none => rfl
  | some youTubeID =>
    simp only [alone, advance, advanceShare, plain]
    cases Service.lookup b.store env.lookupFails youTubeID with
    | error e => rfl
    | ok _ =>
      simp only [Option.map_some]
      cases Service.loadSharer b.store env.sharerFails sharerID with
      | error e => rfl
      | ok sharer =>
        simp only [Option.map_some]
        cases insert b.store env.createFails env.newID env.now
            (newVideo youTubeID sharer req) with
        | error e => rfl
        | ok created => rfl

/-- The steps of a `List` that runs alone. -/
def listEnvs (env : ListEnv) (limit offset : ℤ) : List StepEnv :=
  let uncached := [plain env.countFails, plain env.findFails, plain env.setFails]
  if firstPage limit offset then plain env.getFails :: uncached else uncached

/-- **A `List` that runs alone** is `Service.list`. -/
theorem list_alone (env : ListEnv) (b : Backend) (limit offset : ℤ) :
    alone b (startList limit offset) (listEnvs env limit offset) =
      ((Service.list env b limit offset).1,
        .list limit offset (.done (Service.list env b limit offset).2)) := by
  have huncached : alone b (.list limit offset .count)
      [plain env.countFails, plain env.findFails, plain env.setFails] =
      ((listUncached env b limit offset).1,
        .list limit offset (.done (listUncached env b limit offset).2)) := by
    unfold listUncached
    cases hc : env.countFails <;> cases hf : env.findFails <;>
      cases hp : firstPage limit offset <;>
      simp [alone, advance, advanceList, plain, hp, Store.list]
  unfold startList listEnvs Service.list
  cases hp : firstPage limit offset with
  | false => exact huncached
  | true =>
    simp only [if_true, alone, advance, advanceList, plain]
    cases cacheGet b env.getFails with
    | some cached => rfl
    | none => exact huncached

end Call

/-- The backend and the calls, by number. -/
structure Server where
  backend : Backend
  calls : ℕ → Option Call

namespace Server

/-- What happens next. -/
inductive Label
  /-- a call of `Share` begins -/
  | share (k : ℕ) (sharerID : UUID) (req : ShareRequest)
  /-- a call of `List` begins -/
  | list (k : ℕ) (limit offset : ℤ)
  /-- a call takes its next step -/
  | step (k : ℕ) (env : StepEnv)
  /-- the cached entry's time to live is over -/
  | expire

/-- The server with another call `k`. -/
def setCall (s : Server) (k : ℕ) (c : Call) : Server :=
  { s with calls := Function.update s.calls k (some c) }

/-- One step. -/
def step (extract : String → Option String) (s : Server) : Label → Option Server
  | .share k sharerID req =>
      match s.calls k with
      | none => some (s.setCall k (.startShare extract sharerID req))
      | some _ => none
  | .list k limit offset =>
      match s.calls k with
      | none => some (s.setCall k (.startList limit offset))
      | some _ => none
  | .step k env =>
      (s.calls k).bind fun c => (c.advance env s.backend).map fun (b, c) =>
        { s.setCall k c with backend := b }
  | .expire => some { s with backend := { s.backend with cache := none } }

/-- The call that was set. -/
theorem setCall_self (s : Server) (k : ℕ) (c : Call) : (s.setCall k c).calls k = some c :=
  Function.update_self ..

/-- Setting one call leaves the others. -/
theorem setCall_of_ne (s : Server) {k j : ℕ} (c : Call) (hj : j ≠ k) :
    (s.setCall k c).calls j = s.calls j :=
  Function.update_of_ne hj ..

/-- A call after call `k` was set: that one, or one of the others. -/
theorem setCall_eq_some {s : Server} {k j : ℕ} {c d : Call}
    (h : (s.setCall k c).calls j = some d) : j = k ∧ d = c ∨ j ≠ k ∧ s.calls j = some d :=
  Lib.update_eq_some h

/-- **What a step can do.** -/
theorem step_cases {extract : String → Option String} {s t : Server} {l : Label}
    (h : s.step extract l = some t) :
    (∃ k sharerID req, l = .share k sharerID req ∧ s.calls k = none ∧
      t = s.setCall k (.startShare extract sharerID req)) ∨
    (∃ k limit offset, l = .list k limit offset ∧ s.calls k = none ∧
      t = s.setCall k (.startList limit offset)) ∨
    (∃ k env c b c', l = .step k env ∧ s.calls k = some c ∧
      c.advance env s.backend = some (b, c') ∧ t = { s.setCall k c' with backend := b }) ∨
    l = .expire ∧ t = { s with backend := { s.backend with cache := none } } := by
  cases l with
  | share k sharerID req =>
    simp only [step] at h
    cases hk : s.calls k with
    | none =>
      rw [hk] at h
      exact .inl ⟨k, sharerID, req, rfl, hk, (Option.some.inj h).symm⟩
    | some c =>
      rw [hk] at h
      cases h
  | list k limit offset =>
    simp only [step] at h
    cases hk : s.calls k with
    | none =>
      rw [hk] at h
      exact .inr (.inl ⟨k, limit, offset, rfl, hk, (Option.some.inj h).symm⟩)
    | some c =>
      rw [hk] at h
      cases h
  | step k env =>
    obtain ⟨c, hc, h⟩ := Option.bind_eq_some_iff.1 h
    obtain ⟨⟨b, c'⟩, hadv, rfl⟩ := Option.map_eq_some_iff.1 h
    exact .inr (.inr (.inl ⟨k, env, c, b, c', rfl, hc, hadv, rfl⟩))
  | expire => exact .inr (.inr (.inr ⟨rfl, (Option.some.inj h).symm⟩))

/-- **What a step does to one call:** nothing, or it begins, or it takes its next
step. -/
theorem calls_step {extract : String → Option String} {s t : Server} {l : Label}
    (h : s.step extract l = some t) (k : ℕ) : t.calls k = s.calls k ∨
    (s.calls k = none ∧ ((∃ sharerID req, t.calls k = some (.startShare extract sharerID req)) ∨
      ∃ limit offset, t.calls k = some (.startList limit offset))) ∨
    ∃ env c b c', l = .step k env ∧ s.calls k = some c ∧ c.advance env s.backend = some (b, c') ∧
      t.calls k = some c' := by
  rcases step_cases h with ⟨j, sharerID, req, rfl, hj, rfl⟩ | ⟨j, limit, offset, rfl, hj, rfl⟩ |
    ⟨j, env, c, b, c', rfl, hj, hadv, rfl⟩ | ⟨rfl, rfl⟩
  · rcases eq_or_ne k j with rfl | hkj
    · exact .inr (.inl ⟨hj, .inl ⟨sharerID, req, setCall_self s k _⟩⟩)
    · exact .inl (setCall_of_ne s _ hkj)
  · rcases eq_or_ne k j with rfl | hkj
    · exact .inr (.inl ⟨hj, .inr ⟨limit, offset, setCall_self s k _⟩⟩)
    · exact .inl (setCall_of_ne s _ hkj)
  · rcases eq_or_ne k j with rfl | hkj
    · exact .inr (.inr ⟨env, c, b, c', rfl, hj, hadv, setCall_self s k _⟩)
    · exact .inl (setCall_of_ne s _ hkj)
  · exact .inl rfl

end Server

/-- The server, before any call. -/
def server (extract : String → Option String) : Machine Server Server.Label where
  init s := ∀ k, s.calls k = none
  step := Server.step extract

/-- A user, no videos, no calls. -/
def quietServer : Server := ⟨⟨⟨[⟨⟨7⟩, "a@example.com", "A"⟩], []⟩, none, []⟩, fun _ => none⟩

/-- A step that succeeds. -/
def go (k : ℕ) : Server.Label := .step k ⟨false, ⟨100 + k⟩, ⟨k⟩⟩

end Videos
end YtShare
