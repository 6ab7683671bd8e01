/-
# One socket at a time

What the callbacks of `useNotificationsSocket` leave running.  A socket is live from
its making until its effect closes it or it reports its close, a timer is pending until
it fires or is cleared.  The refs are shared by all effects of a mount, and a socket
that was closed by a cleanup may still open, receive, fail and report its close at any
time; but its closure is cancelled by then, and so sets no timer.

The invariant `Wired` says that what is live or pending belongs to the effect that was
not cleaned up, and that the refs hold it.  So a cleanup leaves nothing running
(`cleanup_spec`), and `connect`, which is called just when nothing runs, makes the only
socket (`Wired.connect`).
-/

import YtShare.Frontend.SocketHook

namespace YtShare
namespace Frontend

open Lib

namespace SocketHook

/-- The socket is there, its effect has not closed it, and no close was reported. -/
def Live (s : SocketHook) (i : ℕ) : Prop :=
  i < s.socketCount ∧ (s.sockets i).closing = false ∧ (s.sockets i).reported = false

/-- The timer is set. -/
def Pending (s : SocketHook) (j : ℕ) : Prop := j < s.timerCount ∧ (s.timers j).pending = true

/-- The invariant. -/
structure Wired (s : SocketHook) : Prop where
  current : ∀ e, s.current = some e ↔ e < s.effectCount ∧ (s.effects e).cancelled = false
  mounted : s.mounted = false → s.current = none
  owner : ∀ i < s.socketCount, (s.sockets i).effect < s.effectCount
  closing : ∀ i < s.socketCount, (s.sockets i).closing = true →
    (s.sockets i).reported = false → (s.effects (s.sockets i).effect).cancelled = true
  socket : ∀ i, s.Live i → s.socketRef = some i ∧ s.current = some (s.sockets i).effect
  timer : ∀ j, s.Pending j → s.reconnectTimerRef = some j ∧ s.current = some (s.timers j).effect
  apart : ∀ i j, s.Live i → ¬s.Pending j

/-- Nothing runs. -/
structure Quiet (s : SocketHook) : Prop where
  socket : ∀ i, ¬s.Live i
  timer : ∀ j, ¬s.Pending j

variable {s t : SocketHook} {e i j : ℕ}

/-- A page that was loaded has no socket and no timer. -/
theorem wired_load (now : Time) (store : Option AuthSession) (stored : Option String) :
    (load now store stored).Wired where
  current e := iff_of_false nofun fun h => Nat.not_lt_zero e h.1
  mounted _ := rfl
  owner i hi := absurd hi (Nat.not_lt_zero i)
  closing i hi := absurd hi (Nat.not_lt_zero i)
  socket i hi := absurd hi.1 (Nat.not_lt_zero i)
  timer j hj := absurd hj.1 (Nat.not_lt_zero j)
  apart i _ hi := absurd hi.1 (Nat.not_lt_zero i)

/-! ### The single operations -/

/-- Events touch the refs of their mount and the stored cursor alone. -/
theorem handleEvents_eq (m : ℕ) (events : List (String × Bool)) (s : SocketHook) :
    ∃ seen stored, events.foldl (fun s event => s.handleEvent m event.1 event.2) s =
      { s with seen := seen, stored := stored } := by
  induction events generalizing s with
  | nil => exact ⟨s.seen, s.stored, rfl⟩
  | cons event events ih =>
    obtain ⟨seen, stored, h⟩ := ih (s.handleEvent m event.1 event.2)
    exact ⟨seen, stored, h⟩

/-- A recovery asks with the token of the store, if there is a cursor. -/
theorem recoverViaHttp_eq (s : SocketHook) (m : ℕ) :
    ∃ recoveries trace,
      s.recoverViaHttp m = { s with recoveries := recoveries, trace := trace } := by
  unfold recoverViaHttp
  split_ifs
  · exact ⟨_, _, rfl⟩
  · exact ⟨_, _, rfl⟩

/-- A cleared timer does not fire. -/
theorem clearTimeout_eq (s : SocketHook) (r : Option ℕ) :
    ∃ timers, s.clearTimeout r = { s with timers := timers } ∧
      ∀ j, (timers j).pending = true → (s.timers j).pending = true ∧ r ≠ some j := by
  cases r with
  | none => exact ⟨s.timers, rfl, fun j h => ⟨h, nofun⟩⟩
  | some k =>
    refine ⟨_, rfl, fun j h => ?_⟩
    rcases eq_or_ne j k with rfl | hj
    · simp at h
    · rw [Function.update_of_ne hj] at h
      exact ⟨h, fun hk => hj (Option.some.inj hk).symm⟩

/-- The socket of the ref is closed, and no other. -/
theorem close_eq (s : SocketHook) (r : Option ℕ) :
    ∃ sockets, s.close r = { s with sockets := sockets } ∧
      ∀ i, (∃ closing, sockets i = { s.sockets i with closing := closing }) ∧
        ((sockets i).closing = true ↔ (s.sockets i).closing = true ∨ r = some i) := by
  cases r with
  | none => exact ⟨s.sockets, rfl, fun i => ⟨⟨_, rfl⟩, by simp⟩⟩
  | some k =>
    refine ⟨_, rfl, fun i => ?_⟩
    rcases eq_or_ne i k with rfl | hi
    · rw [Function.update_self]
      exact ⟨⟨_, rfl⟩, by simp⟩
    · rw [Function.update_of_ne hi]
      exact ⟨⟨_, rfl⟩, by simp [hi.symm]⟩

/-- A cleanup cancels an effect, clears a timer and closes a socket. -/
theorem cleanup_eq (s : SocketHook) : ∃ effects sockets timers socketRef,
    s.cleanup = { s with
      effects := effects
      current := none
      timers := timers
      sockets := sockets
      socketRef := socketRef } ∧
    (∀ e, ∃ cancelled, effects e = { s.effects e with cancelled := cancelled } ∧
      (cancelled = true ↔ s.current = some e ∨ (s.effects e).cancelled = true)) ∧
    (∀ i, ∃ closing, sockets i = { s.sockets i with closing := closing } ∧
      (closing = true ↔
        (s.sockets i).closing = true ∨ s.current ≠ none ∧ s.socketRef = some i)) ∧
    ∀ j, (timers j).pending = true →
      (s.timers j).pending = true ∧ (s.current = none ∨ s.reconnectTimerRef ≠ some j) := by
  cases hc : s.current with
  | none =>
    refine ⟨s.effects, s.sockets, s.timers, s.socketRef, ?_, fun e => ⟨_, rfl, by simp⟩,
      fun i => ⟨_, rfl, by simp⟩, fun j hj => ⟨hj, .inl rfl⟩⟩
    have hsame : s.cleanup = s := by rw [cleanup, hc]
    rw [hsame]
    conv_rhs => rw [← hc]
  | some e =>
    obtain ⟨timers, htimers, hpending⟩ := clearTimeout_eq { s with
      effects := Function.update s.effects e { s.effects e with cancelled := true }
      current := none } s.reconnectTimerRef
    obtain ⟨sockets, hsockets, hclosing⟩ := close_eq { s with
      effects := Function.update s.effects e { s.effects e with cancelled := true }
      current := none
      timers := timers } s.socketRef
    refine ⟨Function.update s.effects e { s.effects e with cancelled := true }, sockets, timers,
      none, ?_, fun k => ?_, fun i => ?_, fun j hj => ?_⟩
    · rw [cleanup, hc]
      simp only [htimers, hsockets]
    · rcases eq_or_ne k e with rfl | hk
      · exact ⟨true, by simp⟩
      · exact ⟨(s.effects k).cancelled, by simp [hk, hk.symm]⟩
    · obtain ⟨⟨closing, heq⟩, hcl⟩ := hclosing i
      rw [heq] at hcl ⊢
      exact ⟨closing, rfl, by simpa using hcl⟩
    · obtain ⟨hset, href⟩ := hpending j hj
      exact ⟨hset, .inr href⟩

/-- There is one live socket at most. -/
theorem Wired.socket_eq (hs : s.Wired) (hi : s.Live i) (hj : s.Live j) : i = j :=
  Option.some.inj ((hs.socket i hi).1.symm.trans (hs.socket j hj).1)

/-- And one pending timer. -/
theorem Wired.timer_eq (hs : s.Wired) (hi : s.Pending i) (hj : s.Pending j) : i = j :=
  Option.some.inj ((hs.timer i hi).1.symm.trans (hs.timer j hj).1)

/-- Where nothing runs, only the effects are to be told. -/
theorem Wired.of_quiet (hq : s.Quiet)
    (current : ∀ e, s.current = some e ↔ e < s.effectCount ∧ (s.effects e).cancelled = false)
    (mounted : s.mounted = false → s.current = none)
    (owner : ∀ i < s.socketCount, (s.sockets i).effect < s.effectCount)
    (closing : ∀ i < s.socketCount, (s.sockets i).closing = true →
      (s.sockets i).reported = false → (s.effects (s.sockets i).effect).cancelled = true) :
    s.Wired where
  current := current
  mounted := mounted
  owner := owner
  closing := closing
  socket i hi := absurd hi (hq.socket i)
  timer j hj := absurd hj (hq.timer j)
  apart i _ hi := absurd hi (hq.socket i)

/-- Without an effect that goes on, nothing runs. -/
theorem Wired.quiet_of_none (hs : s.Wired) (hc : s.current = none) : s.Quiet where
  socket i hi := by
    have hcurrent := (hs.socket i hi).2
    rw [hc] at hcurrent
    cases hcurrent
  timer j hj := by
    have hcurrent := (hs.timer j hj).2
    rw [hc] at hcurrent
    cases hcurrent

/-- The clock, the stores, the cursor and what is recorded do not matter. -/
theorem Wired.frame (hs : s.Wired) (now : Time) (store : Option AuthSession)
    (stored : Option String) (seen : ℕ → SeenEvents) (recoveries : List ℕ) (trace : List Entry) :
    Wired { s with
      now := now
      store := store
      stored := stored
      seen := seen
      recoveries := recoveries
      trace := trace } :=
  ⟨hs.current, hs.mounted, hs.owner, hs.closing, hs.socket, hs.timer, hs.apart⟩

/-- **What a cleanup leaves**: its effect is cancelled, and nothing runs. -/
theorem cleanup_spec (hs : s.Wired) : s.cleanup.Wired ∧ s.cleanup.Quiet ∧
    s.cleanup.current = none ∧ s.cleanup.mounted = s.mounted := by
  obtain ⟨effects, sockets, timers, socketRef, heq, heffects, hsockets, htimers⟩ := cleanup_eq s
  have hquiet : s.cleanup.Quiet := by
    rw [heq]
    constructor
    · rintro i ⟨hi, hclose, hrep⟩
      obtain ⟨closing, hsocket, hclosing⟩ := hsockets i
      simp only [hsocket] at hclose hrep
      obtain ⟨hopen, href⟩ := not_or.1 (hclosing.not.1 (by rw [hclose]; exact Bool.false_ne_true))
      obtain ⟨hold, hcurrent⟩ := hs.socket i ⟨hi, Bool.eq_false_iff.2 hopen, hrep⟩
      exact href ⟨by rw [hcurrent]; nofun, hold⟩
    · rintro j ⟨hj, hpend⟩
      obtain ⟨hset, hnone⟩ := htimers j hpend
      obtain ⟨hold, hcurrent⟩ := hs.timer j ⟨hj, hset⟩
      rcases hnone with hnone | href
      · rw [hnone] at hcurrent
        cases hcurrent
      · exact href hold
  refine ⟨.of_quiet hquiet (fun k => ?_) (fun _ => by rw [heq]) (fun i hi => ?_)
    fun i hi hclose hrep => ?_, hquiet, by rw [heq], by rw [heq]⟩
  · rw [heq]
    obtain ⟨cancelled, heffect, hcancelled⟩ := heffects k
    simp only [heffect]
    refine iff_of_false nofun fun ⟨hk, hlive⟩ => ?_
    obtain ⟨hne, hnot⟩ := not_or.1 (hcancelled.not.1 (by rw [hlive]; exact Bool.false_ne_true))
    exact hne ((hs.current k).2 ⟨hk, Bool.eq_false_iff.2 hnot⟩)
  · rw [heq] at hi ⊢
    obtain ⟨closing, hsocket, -⟩ := hsockets i
    simp only [hsocket]
    exact hs.owner i hi
  · rw [heq] at hi hclose hrep ⊢
    obtain ⟨closing, hsocket, hclosing⟩ := hsockets i
    simp only [hsocket] at hclose hrep ⊢
    obtain ⟨cancelled, heffect, hcancelled⟩ := heffects (s.sockets i).effect
    simp only [heffect]
    refine hcancelled.2 ?_
    by_cases hopen : (s.sockets i).closing = true
    · exact .inr (hs.closing i hi hopen hrep)
    · exact .inl (hs.socket i ⟨hi, Bool.eq_false_iff.2 hopen, hrep⟩).2

/-- **A connection is made when nothing runs**, and it is the only one then. -/
theorem Wired.connect (hs : s.Wired) (hq : s.Quiet) (he : e < s.effectCount) :
    (s.connect e).Wired := by
  unfold SocketHook.connect
  split_ifs with hcancelled
  · exact hs
  · have hcurrent : s.current = some e := (hs.current e).2 ⟨he, Bool.eq_false_iff.2 hcancelled⟩
    -- a socket below the count is the new one or an old one
    have hold : ∀ i < s.socketCount + 1, i ≠ s.socketCount → i < s.socketCount := by omega
    have hnew : ∀ i, Live { s with
        sockets := Function.update s.sockets s.socketCount ⟨e, s.now, false, false, false⟩
        socketCount := s.socketCount + 1 } i → i = s.socketCount := by
      rintro i ⟨hi, hrun⟩
      by_contra hne
      simp only [Function.update_of_ne hne] at hrun
      exact hq.socket i ⟨hold i hi hne, hrun⟩
    refine ⟨hs.current, hs.mounted, fun i hi => ?_, fun i hi hclose hrep => ?_, fun i hi => ?_,
      fun j hj => absurd hj (hq.timer j), fun i j _ => hq.timer j⟩
    · rcases eq_or_ne i s.socketCount with rfl | hne
      · simpa using he
      · simpa only [Function.update_of_ne hne] using hs.owner i (hold i hi hne)
    · rcases eq_or_ne i s.socketCount with rfl | hne
      · simp at hclose
      · simp only [Function.update_of_ne hne] at hclose hrep ⊢
        exact hs.closing i (hold i hi hne) hclose hrep
    · obtain rfl := hnew i hi
      exact ⟨rfl, by simpa using hcurrent⟩

/-- An effect is made after a cleanup. -/
theorem Wired.addEffect (hs : s.Wired) (hq : s.Quiet) (hc : s.current = none)
    (hm : s.mounted = true) (session : AuthSession) :
    Wired { s with
      effects := Function.update s.effects s.effectCount ⟨s.mounts, session, false⟩
      effectCount := s.effectCount + 1
      current := some s.effectCount } := by
  have hold : ∀ k < s.effectCount + 1, k ≠ s.effectCount → k < s.effectCount := by omega
  refine .of_quiet ⟨hq.socket, hq.timer⟩ (fun k => ?_) (fun h => ?_) (fun i hi => ?_)
    fun i hi hclose hrep => ?_
  · rcases eq_or_ne k s.effectCount with rfl | hne
    · simp
    · have hnone := (hs.current k).not.1 (by rw [hc]; nofun)
      simp only [Function.update_of_ne hne]
      refine iff_of_false (fun h => hne (Option.some.inj h).symm) fun ⟨hk, hlive⟩ => ?_
      exact hnone ⟨hold k hk hne, hlive⟩
  · exact nomatch hm.symm.trans h
  · exact Nat.lt_succ_of_lt (hs.owner i hi)
  · have hne : (s.sockets i).effect ≠ s.effectCount := (hs.owner i hi).ne
    simpa only [Function.update_of_ne hne] using hs.closing i hi hclose hrep

/-- **The effect runs after a cleanup.** -/
theorem Wired.runEffect (hs : s.Wired) (hq : s.Quiet) (hc : s.current = none)
    (hm : s.mounted = true) (session : Option AuthSession) : (s.runEffect session).Wired := by
  cases session with
  | none => exact hs
  | some session =>
    exact (hs.addEffect hq hc hm session).connect ⟨hq.socket, hq.timer⟩ (Nat.lt_succ_self _)

/-- A socket opens, or reports its close, and then it is not live any more. -/
theorem Wired.event (hs : s.Wired) (i : ℕ) (opened reported : Bool)
    (hr : (s.sockets i).reported = true → reported = true) :
    let t := { s with
      sockets := Function.update s.sockets i
        { s.sockets i with opened := opened, reported := reported } }
    t.Wired ∧ ∀ k, t.Live k → s.Live k ∧ (reported = true → k ≠ i) := by
  intro t
  have hlive : ∀ k, t.Live k → s.Live k ∧ (reported = true → k ≠ i) := by
    rintro k ⟨hk, hclose, hrep⟩
    rcases eq_or_ne k i with rfl | hne
    · simp only [t, Function.update_self] at hclose hrep
      have hold : (s.sockets k).reported = false :=
        Bool.eq_false_iff.2 fun h => Bool.false_ne_true (hrep.symm.trans (hr h))
      exact ⟨⟨hk, hclose, hold⟩, fun h => absurd (hrep.symm.trans h) Bool.false_ne_true⟩
    · simp only [t, Function.update_of_ne hne] at hclose hrep
      exact ⟨⟨hk, hclose, hrep⟩, fun _ => hne⟩
  have heffect : ∀ k, (t.sockets k).effect = (s.sockets k).effect := by
    intro k
    rcases eq_or_ne k i with rfl | hne
    · simp [t]
    · simp [t, hne]
  refine ⟨⟨hs.current, hs.mounted, fun k hk => ?_, fun k hk hclose hrep => ?_, fun k hk => ?_,
    hs.timer, fun k j hk => hs.apart k j (hlive k hk).1⟩, hlive⟩
  · rw [heffect]
    exact hs.owner k hk
  · rw [heffect]
    rcases eq_or_ne k i with rfl | hne
    · simp only [t, Function.update_self] at hclose hrep
      refine hs.closing k hk hclose (Bool.eq_false_iff.2 fun h => ?_)
      exact Bool.false_ne_true (hrep.symm.trans (hr h))
    · simp only [t, Function.update_of_ne hne] at hclose hrep
      exact hs.closing k hk hclose hrep
  · rw [heffect]
    exact hs.socket k (hlive k hk).1

/-- **A timer is set when nothing runs**, and it is the only one then. -/
theorem Wired.setTimeout (hs : s.Wired) (hq : s.Quiet) (hc : s.current = some e) :
    (s.setTimeout e).Wired := by
  refine ⟨hs.current, hs.mounted, hs.owner, hs.closing, fun i hi => absurd hi (hq.socket i),
    fun j hj => ?_, fun i _ hi => absurd hi (hq.socket i)⟩
  obtain ⟨hlt, hpend⟩ := hj
  by_cases hne : j = s.timerCount
  · subst hne
    exact ⟨rfl, by simpa [SocketHook.setTimeout] using hc⟩
  · simp only [SocketHook.setTimeout, Function.update_of_ne hne] at hlt hpend
    exact absurd ⟨by omega, hpend⟩ (hq.timer j)

/-- A socket whose effect was not cleaned up is live until it reports its close, and
then nothing runs. -/
theorem Wired.quiet_report (hs : s.Wired) (hi : i < s.socketCount)
    (hr : (s.sockets i).reported = false)
    (he : (s.effects (s.sockets i).effect).cancelled = false) :
    s.Live i ∧ Quiet { s with
      sockets := Function.update s.sockets i { s.sockets i with reported := true } } := by
  have hlive : s.Live i := by
    refine ⟨hi, Bool.eq_false_iff.2 fun hclose => ?_, hr⟩
    exact Bool.false_ne_true (he.symm.trans (hs.closing i hi hclose hr))
  refine ⟨hlive, fun k hk => ?_, fun j hj => hs.apart i j hlive hj⟩
  obtain ⟨hk, hne⟩ := (hs.event i (s.sockets i).opened true fun _ => rfl).2 k hk
  exact hne rfl (hs.socket_eq hk hlive)

/-- **A socket reports its close**: if its effect goes on, a timer takes its place. -/
theorem Wired.onclose (hs : s.Wired) (hi : i < s.socketCount)
    (hr : (s.sockets i).reported = false) : (s.onclose i).Wired := by
  have hreport : Wired { s with
      sockets := Function.update s.sockets i { s.sockets i with reported := true } } :=
    (hs.event i (s.sockets i).opened true fun _ => rfl).1
  unfold SocketHook.onclose
  simp only
  split_ifs with hcancelled
  · exact hreport
  all_goals
    have hgoes := Bool.eq_false_iff.2 hcancelled
    obtain ⟨hlive, hq⟩ := hs.quiet_report hi hr hgoes
    have hc := (hs.socket i hlive).2
  · exact hreport.setTimeout hq hc
  · obtain ⟨recoveries, trace, h⟩ := recoverViaHttp_eq { s with
      sockets := Function.update s.sockets i { s.sockets i with reported := true } }
      (s.effects (s.sockets i).effect).mount
    rw [h]
    exact (hreport.frame _ _ _ _ recoveries trace).setTimeout ⟨hq.socket, hq.timer⟩ hc

/-- A timer fires, and the socket takes its place. -/
theorem Wired.fire (hs : s.Wired) (hj : s.Pending j) :
    (Wired { s with
      timers := Function.update s.timers j { s.timers j with pending := false } }) ∧
    Quiet { s with
      timers := Function.update s.timers j { s.timers j with pending := false } } := by
  have hpend : ∀ k, Pending { s with
      timers := Function.update s.timers j { s.timers j with pending := false } } k → False := by
    rintro k ⟨hk, hpend⟩
    by_cases hne : k = j
    · subst hne
      simp at hpend
    · simp only [Function.update_of_ne hne] at hpend
      exact hne (hs.timer_eq ⟨hk, hpend⟩ hj)
  exact ⟨⟨hs.current, hs.mounted, hs.owner, hs.closing, hs.socket, fun k hk => (hpend k hk).elim,
    fun i k _ hk => hpend k hk⟩, ⟨fun i hi => hs.apart i j hi hj, hpend⟩⟩

/-- A mount, up to its effect: nothing runs, and the refs are new. -/
theorem Wired.mount (hs : s.Wired) (hm : s.mounted = false) :
    let t := { s with
      mounted := true
      mounts := s.mounts + 1
      seen := Function.update s.seen (s.mounts + 1) (.load s.stored)
      socketRef := none
      reconnectTimerRef := none }
    t.Wired ∧ t.Quiet ∧ t.current = none := by
  have hc := hs.mounted hm
  have hq := hs.quiet_of_none hc
  exact ⟨.of_quiet ⟨hq.socket, hq.timer⟩ hs.current nofun hs.owner hs.closing,
    ⟨hq.socket, hq.timer⟩, hc⟩

/-! ### Every run -/

variable {accepts : Time → String → Bool} {l : Label}

/-- **The step lemma.** -/
theorem Wired.step (hs : s.Wired) (h : s.step accepts l = some t) : t.Wired := by
  cases l with
  | tick d =>
    obtain rfl := Option.some.inj h
    exact hs.frame ..
  | set session =>
    obtain rfl := Option.some.inj h
    exact hs.frame ..
  | mount session =>
    obtain ⟨hm, h⟩ := Option.ite_none_left_eq_some.1 h
    obtain rfl := Option.some.inj h
    obtain ⟨hw, hq, hc⟩ := hs.mount (Bool.eq_false_iff.2 hm)
    exact hw.runEffect hq hc rfl session
  | rerun session =>
    obtain ⟨hm, h⟩ := Option.ite_none_right_eq_some.1 h
    obtain rfl := Option.some.inj h
    obtain ⟨hw, hq, hc, hmounted⟩ := cleanup_spec hs
    exact hw.runEffect hq hc (hmounted.trans hm) session
  | unmount =>
    obtain ⟨-, h⟩ := Option.ite_none_right_eq_some.1 h
    obtain rfl := Option.some.inj h
    obtain ⟨hw, -, hc, -⟩ := cleanup_spec hs
    exact ⟨hw.current, fun _ => hc, hw.owner, hw.closing, hw.socket, hw.timer, hw.apart⟩
  | opened i t =>
    obtain ⟨-, h⟩ := Option.ite_none_right_eq_some.1 h
    obtain rfl := Option.some.inj h
    exact (hs.event i true (s.sockets i).reported id).1
  | error i =>
    obtain ⟨-, h⟩ := Option.ite_none_right_eq_some.1 h
    obtain rfl := Option.some.inj h
    exact hs
  | message i id writes =>
    obtain ⟨-, h⟩ := Option.ite_none_right_eq_some.1 h
    obtain rfl := Option.some.inj h
    exact hs.frame ..
  | closed i =>
    obtain ⟨⟨hi, hr⟩, h⟩ := Option.ite_none_right_eq_some.1 h
    obtain rfl := Option.some.inj h
    exact hs.onclose hi hr
  | fire j =>
    obtain ⟨hj, h⟩ := Option.ite_none_right_eq_some.1 h
    obtain rfl := Option.some.inj h
    obtain ⟨hw, hq⟩ := hs.fire hj
    exact hw.connect hq ((hs.current _).1 (hs.timer j hj).2).1
  | recovered m events =>
    obtain ⟨-, h⟩ := Option.ite_none_right_eq_some.1 h
    obtain rfl := Option.some.inj h
    obtain ⟨seen, stored, heq⟩ := handleEvents_eq m (events.getD [])
      { s with recoveries := s.recoveries.erase m }
    rw [heq]
    exact hs.frame ..
  | request =>
    obtain rfl := Option.some.inj h
    exact hs.frame ..

/-- A connection makes a live socket. -/
theorem connect_live (hi : s.socketCount ≤ i) (hlt : i < (s.connect e).socketCount) :
    (s.connect e).Live i := by
  unfold SocketHook.connect at hlt ⊢
  split_ifs at hlt ⊢ with hcancelled
  · exact absurd hlt (Nat.not_lt.2 hi)
  · obtain rfl : i = s.socketCount := Nat.le_antisymm (Nat.lt_succ_iff.1 hlt) hi
    exact ⟨hlt, by simp, by simp⟩

/-- A socket that the effect has opened is live. -/
theorem runEffect_live {session : Option AuthSession} (hi : s.socketCount ≤ i)
    (hlt : i < (s.runEffect session).socketCount) : (s.runEffect session).Live i := by
  cases session with
  | none => exact absurd hlt (Nat.not_lt.2 hi)
  | some session => exact connect_live hi hlt

/-- The cleanup opens no socket. -/
theorem cleanup_socketCount (s : SocketHook) : s.cleanup.socketCount = s.socketCount := by
  obtain ⟨effects, sockets, timers, socketRef, heq, -⟩ := cleanup_eq s
  rw [heq]

/-- And `onclose` opens none itself. -/
theorem onclose_socketCount (s : SocketHook) (i : ℕ) :
    (s.onclose i).socketCount = s.socketCount := by
  unfold SocketHook.onclose recoverViaHttp
  simp only
  split_ifs <;> rfl

/-- **A socket that a step makes is live after it.** -/
theorem step_live (h : s.step accepts l = some t) (hi : s.socketCount ≤ i)
    (hlt : i < t.socketCount) : t.Live i := by
  have hnot : t.socketCount = s.socketCount → t.Live i := fun heq =>
    absurd hi (Nat.not_le.2 (heq ▸ hlt))
  cases l with
  | tick d => exact hnot (by obtain rfl := Option.some.inj h; rfl)
  | set session => exact hnot (by obtain rfl := Option.some.inj h; rfl)
  | request => exact hnot (by obtain rfl := Option.some.inj h; rfl)
  | mount session =>
    obtain ⟨-, h⟩ := Option.ite_none_left_eq_some.1 h
    obtain rfl := Option.some.inj h
    exact runEffect_live hi hlt
  | rerun session =>
    obtain ⟨-, h⟩ := Option.ite_none_right_eq_some.1 h
    obtain rfl := Option.some.inj h
    exact runEffect_live ((cleanup_socketCount s).trans_le hi) hlt
  | unmount =>
    obtain ⟨-, h⟩ := Option.ite_none_right_eq_some.1 h
    obtain rfl := Option.some.inj h
    exact hnot (cleanup_socketCount s)
  | opened i t =>
    obtain ⟨-, h⟩ := Option.ite_none_right_eq_some.1 h
    exact hnot (by obtain rfl := Option.some.inj h; rfl)
  | error i =>
    obtain ⟨-, h⟩ := Option.ite_none_right_eq_some.1 h
    exact hnot (by obtain rfl := Option.some.inj h; rfl)
  | message i id writes =>
    obtain ⟨-, h⟩ := Option.ite_none_right_eq_some.1 h
    exact hnot (by obtain rfl := Option.some.inj h; rfl)
  | closed i =>
    obtain ⟨-, h⟩ := Option.ite_none_right_eq_some.1 h
    obtain rfl := Option.some.inj h
    exact hnot (onclose_socketCount s i)
  | fire j =>
    obtain ⟨-, h⟩ := Option.ite_none_right_eq_some.1 h
    obtain rfl := Option.some.inj h
    exact connect_live hi hlt
  | recovered m events =>
    obtain ⟨-, h⟩ := Option.ite_none_right_eq_some.1 h
    obtain rfl := Option.some.inj h
    obtain ⟨seen, stored, heq⟩ := handleEvents_eq m (events.getD [])
      { s with recoveries := s.recoveries.erase m }
    exact hnot (by rw [heq])

/-- What is promised of a state: at most one socket is live, at most one timer is pending,
and not both; and the next step, whatever it is, connects for an effect that was not
cleaned up. -/
structure OneSocket (accepts : Time → String → Bool) (s : SocketHook) : Prop where
  socket : ∀ i j, s.Live i → s.Live j → i = j
  timer : ∀ i j, s.Pending i → s.Pending j → i = j
  apart : ∀ i j, s.Live i → ¬s.Pending j
  connects : ∀ l t, s.step accepts l = some t → ∀ i, s.socketCount ≤ i → i < t.socketCount →
    t.current = some (t.sockets i).effect ∧ (t.effects (t.sockets i).effect).cancelled = false

/-- **One live socket.**  In every run of the page, whatever React, the sockets, the
timers, the server and the rest of the page do and in whatever order, there is never more
than one live socket or pending timer, and no connection is made for an effect that was
cleaned up. -/
theorem one_socket (accepts : Time → String → Bool) (now : Time) (store : Option AuthSession)
    (stored : Option String) (run : List Label) :
    (socketHook accepts).Always (OneSocket accepts) (load now store stored) run := by
  have hwired : (socketHook accepts).Always Wired (load now store stored) run :=
    Machine.always_of_invariant (fun _ _ _ hs h => hs.step h) (wired_load now store stored) run
  refine hwired.mono fun s hs => ⟨fun _ _ => hs.socket_eq, fun _ _ => hs.timer_eq, hs.apart,
    fun l t h i hi hlt => ?_⟩
  have ht := hs.step h
  have hcurrent := (ht.socket i (step_live h hi hlt)).2
  exact ⟨hcurrent, ((ht.current _).1 hcurrent).2⟩

end SocketHook
end Frontend
end YtShare
