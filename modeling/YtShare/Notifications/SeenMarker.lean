/-
# The seen marker

`MarkSeen` takes the time and then writes it, whatever the marker is.  Two calls
for one user can write in the other order than they took the time, and then the
second write moves the marker back.

`seen_marker_forward_iff` says that this is the only way: in every run, no step
moves a marker back exactly when every call that writes took the time no earlier
than the calls of that user that have written already.  Microseconds count,
since that is what the column keeps.
-/

import YtShare.Notifications.Service

namespace YtShare
namespace Notifications
namespace Service

open Lib Users Videos

variable {lower : String → String}

namespace Server

/-- `LastNotificationsSeenAt` of a user. -/
def marker (s : Server lower) (userID : UUID) : Option Time := s.users.seenAt userID

/-- No step moves a marker back. -/
def Forward (s : Server lower) (l : Label) : Prop :=
  ∀ t, s.step l = some t → ∀ u, ∀ m ∈ s.marker u, ∃ m' ∈ t.marker u, m.ns ≤ m'.ns

/-- **The condition on a step:** when a call writes, it took the time no earlier
than the calls of its user that have written. -/
def InOrder (s : Server lower) : Label → Prop
  | .step k env =>
      match s.calls k with
      | some (.markSeen u (.update now)) => env.fails = false →
          ∀ j at', s.calls j = some (.markSeen u (.done (.ok at'))) →
            at'.timestamptz.ns ≤ now.timestamptz.ns
      | _ => True
  | _ => True

end Server

/-- The calls on tables whose markers have been read from the clock. -/
def marking (lower : String → String) : Machine (Server lower) Server.Label where
  init s := (server lower).init s ∧ ∀ u, ∀ m ∈ s.marker u, m.ns ≤ s.clock.timestamptz.ns
  step := Server.step

namespace Server

variable {s t : Server lower} {start : Time}

/-- The invariant since `start`: a call took its time since then, and a marker is
from before or was written by a call that has returned; none is before what such
a call wrote. -/
structure MarkerInv (start : Time) (s : Server lower) : Prop where
  clock : start.ns ≤ s.clock.ns
  read : ∀ k u now, s.calls k = some (.markSeen u (.update now)) → start.ns ≤ now.ns
  origin : ∀ u, ∀ m ∈ s.marker u, m.ns ≤ start.timestamptz.ns ∨
    ∃ j at', s.calls j = some (.markSeen u (.done (.ok at'))) ∧ m = at'.timestamptz
  latest : ∀ j u at', s.calls j = some (.markSeen u (.done (.ok at'))) →
    ∃ m ∈ s.marker u, at'.timestamptz.ns ≤ m.ns

/-- **What a step does to the users:** a `MarkSeen` writes, or nothing does. -/
theorem advance_users {env : StepEnv} {c c' : Call} {users : Table lower} {videos : List Video}
    (h : s.advance env c = some (users, videos, c')) :
    (∃ u now, c = .markSeen u (.update now) ∧ env.fails = false ∧
      s.users.setLastNotificationsSeenAt u now = some users ∧
      c' = .markSeen u (.done (.ok now))) ∨
    users = s.users ∧ (∀ u at', c' ≠ .markSeen u (.done (.ok at'))) ∧
      (∀ u now, c' = .markSeen u (.update now) → now = env.now) ∧
      ∀ u now, c = .markSeen u (.update now) → env.fails = false → s.users.findByID u = none := by
  rcases c with ⟨u, pc⟩ | ⟨u, pc⟩ | pc
  · obtain ⟨⟨users', pc'⟩, hadv, heq⟩ := Option.map_eq_some_iff.1 h
    obtain ⟨rfl, hpair⟩ := Prod.mk.inj heq
    obtain ⟨rfl, rfl⟩ := Prod.mk.inj hpair
    rcases pc with _ | now | r
    · obtain ⟨rfl, rfl⟩ := Prod.mk.inj (Option.some.inj hadv)
      refine .inr ⟨rfl, nofun, ?_, nofun⟩
      rintro _ _ ⟨⟩
      rfl
    · simp only [advanceMarkSeen] at hadv
      split_ifs at hadv with hfails
      · obtain ⟨rfl, rfl⟩ := Prod.mk.inj (Option.some.inj hadv)
        refine .inr ⟨rfl, nofun, nofun, fun _ _ _ hnot => ?_⟩
        rw [hfails] at hnot
        cases hnot
      · split at hadv
        · next hnone =>
          obtain ⟨rfl, rfl⟩ := Prod.mk.inj (Option.some.inj hadv)
          refine .inr ⟨rfl, nofun, nofun, ?_⟩
          rintro _ _ ⟨⟩ -
          exact Table.setLastNotificationsSeenAt_eq_none.1 hnone
        · next users' hset =>
          obtain ⟨rfl, rfl⟩ := Prod.mk.inj (Option.some.inj hadv)
          exact .inl ⟨u, now, rfl, Bool.eq_false_iff.2 hfails, hset, rfl⟩
    · cases hadv
  · obtain ⟨pc', -, heq⟩ := Option.map_eq_some_iff.1 h
    obtain ⟨rfl, hpair⟩ := Prod.mk.inj heq
    obtain ⟨-, rfl⟩ := Prod.mk.inj hpair
    exact .inr ⟨rfl, nofun, nofun, nofun⟩
  · obtain ⟨pc', -, heq⟩ := Option.map_eq_some_iff.1 h
    obtain ⟨rfl, hpair⟩ := Prod.mk.inj heq
    obtain ⟨-, rfl⟩ := Prod.mk.inj hpair
    exact .inr ⟨rfl, nofun, nofun, nofun⟩

/-- A step that leaves the markers moves none back. -/
theorem forward_of_marker_eq {l : Label} (hstep : s.step l = some t)
    (h : ∀ u, t.marker u = s.marker u) : s.Forward l := by
  intro t' ht' u m hm
  obtain rfl := Option.some.inj (hstep.symm.trans ht')
  exact ⟨m, h u ▸ hm, le_rfl⟩

/-- A step that leaves the markers, takes its time from the clock and writes
nothing keeps the invariant. -/
theorem MarkerInv.move (hi : s.MarkerInv start) {k : ℕ} {c : Call} {now : Time}
    {videos : List Video} (hclock : s.clock.ns ≤ now.ns)
    (hold : ∀ u at', s.calls k ≠ some (.markSeen u (.done (.ok at'))))
    (hdone : ∀ u at', c ≠ .markSeen u (.done (.ok at')))
    (hread : ∀ u at', c = .markSeen u (.update at') → at' = now) :
    MarkerInv start { s.setCall k c with videos := videos, clock := now } := by
  have hlive := hi.clock
  constructor
  · exact hlive.trans hclock
  · intro j u at' hj
    rcases setCall_eq_some hj with ⟨-, rfl⟩ | ⟨-, hj⟩
    · rw [hread u at' rfl]
      exact hlive.trans hclock
    · exact hi.read j u at' hj
  · intro u m hm
    rcases hi.origin u m hm with hpast | ⟨j, at', hj, rfl⟩
    · exact .inl hpast
    · refine .inr ⟨j, at', ?_, rfl⟩
      exact (setCall_of_ne s c fun hjk : j = k => hold u at' (hjk ▸ hj)).trans hj
  · intro j u at' hj
    rcases setCall_eq_some hj with ⟨-, rfl⟩ | ⟨-, hj⟩
    · exact absurd rfl (hdone u at')
    · exact hi.latest j u at' hj

/-- A call writes the marker of its user. -/
theorem MarkerInv.write (hi : s.MarkerInv start) {k : ℕ} {u : UUID} {at' now : Time}
    {users : Table lower} {videos : List Video} (hk : s.calls k = some (.markSeen u (.update at')))
    (hclock : s.clock.ns ≤ now.ns) (hset : s.users.setLastNotificationsSeenAt u at' = some users)
    (horder : ∀ j w, s.calls j = some (.markSeen u (.done (.ok w))) →
      w.timestamptz.ns ≤ at'.timestamptz.ns) :
    MarkerInv start { s.setCall k (.markSeen u (.done (.ok at'))) with
      users := users, videos := videos, clock := now } := by
  have hmarker : ∀ v, users.seenAt v = if v = u then some at'.timestamptz else s.marker v :=
    Table.seenAt_setLastNotificationsSeenAt hset
  constructor
  · exact hi.clock.trans hclock
  · intro j v w hj
    rcases setCall_eq_some hj with ⟨-, hc⟩ | ⟨-, hj⟩
    · cases hc
    · exact hi.read j v w hj
  · intro v m hm
    change m ∈ users.seenAt v at hm
    rw [hmarker v] at hm
    split_ifs at hm with hv
    · subst hv
      exact .inr ⟨k, at', setCall_self s k _, (Option.some.inj hm).symm⟩
    · rcases hi.origin v m hm with hpast | ⟨j, w, hj, rfl⟩
      · exact .inl hpast
      · refine .inr ⟨j, w, ?_, rfl⟩
        refine (setCall_of_ne s _ fun hjk : j = k => ?_).trans hj
        subst hjk
        exact nomatch hk.symm.trans hj
  · intro j v w hj
    show ∃ m ∈ users.seenAt v, w.timestamptz.ns ≤ m.ns
    rw [hmarker v]
    rcases setCall_eq_some hj with ⟨-, hc⟩ | ⟨-, hother⟩
    · obtain ⟨rfl, hr⟩ := Call.markSeen.inj hc
      obtain rfl := Except.ok.inj (MarkSeenPc.done.inj hr)
      rw [if_pos rfl]
      exact ⟨_, rfl, le_rfl⟩
    · split_ifs with hv
      · subst hv
        exact ⟨_, rfl, horder j w hother⟩
      · exact hi.latest j v w hother

/-- **The step lemma.**  A step moves no marker back exactly when it meets the
condition, and then it keeps the invariant. -/
theorem MarkerInv.step (hi : s.MarkerInv start) {l : Label} (h : s.step l = some t) :
    (s.Forward l ↔ s.InOrder l) ∧ (s.InOrder l → t.MarkerInv start) := by
  rcases step_cases h with ⟨k, c, hbegun, hk, rfl⟩ |
    ⟨k, env, c, users, videos, c', rfl, hclock, hk, hadv, rfl⟩
  · -- a call begins
    have horder : s.InOrder l := by
      rcases begun_cases hbegun with ⟨u, rfl, -⟩ | ⟨u, rfl, -⟩ | ⟨v, rfl, -⟩ <;> trivial
    have hfirst : (∀ u at', c ≠ .markSeen u (.done (.ok at'))) ∧
        ∀ u at', c ≠ .markSeen u (.update at') := by
      rcases begun_cases hbegun with ⟨u, -, rfl⟩ | ⟨u, -, rfl⟩ | ⟨v, -, rfl⟩
      · exact ⟨nofun, nofun⟩
      · exact ⟨nofun, nofun⟩
      · exact ⟨nofun, nofun⟩
    refine ⟨iff_of_true (forward_of_marker_eq h fun _ => rfl) horder, fun _ => ?_⟩
    refine hi.move le_rfl (fun u at' hc => ?_) hfirst.1 fun u at' hc => absurd hc (hfirst.2 u at')
    rw [hk] at hc
    cases hc
  · rcases advance_users hadv with ⟨u, at', rfl, hfails, hset, rfl⟩ | ⟨rfl, hdone, hread, hskip⟩
    · have horder : s.InOrder (.step k env) ↔ ∀ j w,
          s.calls j = some (.markSeen u (.done (.ok w))) →
            w.timestamptz.ns ≤ at'.timestamptz.ns := by
        simp only [InOrder, hk, hfails, forall_const]
      rw [horder]
      refine ⟨⟨fun hforward j w hj => ?_, fun hle => ?_⟩, hi.write hk hclock hset⟩
      · obtain ⟨m, hm, hwm⟩ := hi.latest j u w hj
        obtain ⟨m', hm', hmm'⟩ := hforward _ h u m hm
        have hm'' : m' ∈ users.seenAt u := hm'
        rw [Table.seenAt_setLastNotificationsSeenAt hset, if_pos rfl] at hm''
        obtain rfl := Option.some.inj hm''
        exact hwm.trans hmm'
      · intro t' ht' v m hm
        obtain rfl := Option.some.inj (h.symm.trans ht')
        show ∃ m' ∈ users.seenAt v, m.ns ≤ m'.ns
        rw [Table.seenAt_setLastNotificationsSeenAt hset]
        split_ifs with hv
        · subst hv
          refine ⟨_, rfl, ?_⟩
          rcases hi.origin v m hm with hpast | ⟨j, w, hj, rfl⟩
          · exact hpast.trans (Time.timestamptz_mono (hi.read k v at' hk))
          · exact hle j w hj
        · exact ⟨m, hm, le_rfl⟩
    · have horder : s.InOrder (.step k env) := by
        simp only [InOrder, hk]
        split
        · next u at' hc =>
          intro hfails j w hj
          -- a call for this user has written, so there is such a user
          obtain ⟨m, hm, -⟩ := hi.latest j u w hj
          have hnone := hskip u at' (Option.some.inj hc) hfails
          unfold marker Table.seenAt at hm
          rw [hnone] at hm
          cases hm
        · trivial
      refine ⟨iff_of_true (forward_of_marker_eq h fun _ => rfl) horder, fun _ => ?_⟩
      refine hi.move hclock (fun u at' hc => ?_) hdone hread
      obtain rfl := Option.some.inj (hk.symm.trans hc)
      cases hadv

/-- Before any call. -/
theorem markerInv_init (hs : (marking lower).init s) : s.MarkerInv s.clock := by
  have hnone : ∀ j (c : Call), s.calls j ≠ some c := fun j c hj => nomatch (hs.1 j).symm.trans hj
  constructor
  · exact le_rfl
  · exact fun k u now hk => absurd hk (hnone _ _)
  · exact fun u m hm => .inl (hs.2 u m hm)
  · exact fun j u at' hj => absurd hj (hnone _ _)

end Server

/-- **When no marker moves back.**  In every run, no step moves a marker back
exactly when every call that writes took the time no earlier than those that have
written. -/
theorem seen_marker_forward_iff {s : Server lower} (hs : (marking lower).init s)
    (run : List Server.Label) :
    (marking lower).Steps Server.Forward s run ↔ (marking lower).Steps Server.InOrder s run :=
  Machine.steps_iff (M := marking lower) (I := Server.MarkerInv s.clock)
    (fun _ _ _ hi h => hi.step h) (Server.markerInv_init hs)

/-- A server with user 7, who has never seen the notifications. -/
def freshServer : Server id :=
  ⟨⟨[⟨⟨⟨7⟩, "a@b", "a"⟩, "", none⟩], List.nodup_singleton _, List.nodup_singleton _⟩, [], ⟨0⟩,
    fun _ => none⟩

/-- A step of call `k` that succeeds after so many microseconds. -/
def after (k : ℕ) (n : ℤ) : Server.Label := .step k ⟨⟨n * 1000⟩, false, ⟨.ofInt 128 n⟩⟩

/-- Two calls for user 7, one after the other: no marker moves back. -/
theorem seen_marker_forward_iff_twice : (marking id).Steps Server.Forward freshServer
    [.markSeen 0 ⟨7⟩, after 0 1, after 0 2, .markSeen 1 ⟨7⟩, after 1 3, after 1 4] := by
  refine (seen_marker_forward_iff ⟨fun _ => rfl, fun u m hm => ?_⟩ _).2 ?_
  · have hnone : freshServer.marker u = none := by
      unfold Server.marker Table.seenAt Table.findByID freshServer
      rw [List.find?_singleton]
      split_ifs <;> rfl
    rw [hnone] at hm
    cases hm
  · refine .cons rfl trivial (.cons rfl trivial (.cons rfl (fun _ j w hj => ?_) (.cons rfl trivial
      (.cons rfl trivial (.cons rfl (fun _ j w hj => ?_) trivial)))))
    · rcases Server.setCall_eq_some hj with ⟨-, hc⟩ | ⟨-, hj⟩
      · cases hc
      · rcases Server.setCall_eq_some hj with ⟨-, hc⟩ | ⟨-, hj⟩
        · cases hc
        · cases hj
    · rcases Server.setCall_eq_some hj with ⟨-, hc⟩ | ⟨-, hj⟩
      · cases hc
      · rcases Server.setCall_eq_some hj with ⟨-, hc⟩ | ⟨-, hj⟩
        · cases hc
        · rcases Server.setCall_eq_some hj with ⟨-, hc⟩ | ⟨hne, hj⟩
          · cases hc
            decide
          · rcases Server.setCall_eq_some hj with ⟨rfl, -⟩ | ⟨-, hj⟩
            · exact absurd rfl hne
            · rcases Server.setCall_eq_some hj with ⟨rfl, -⟩ | ⟨-, hj⟩
              · exact absurd rfl hne
              · cases hj

/-- Two calls for user 7 write in the other order than they took the time: the
marker moves from 2 to 1. -/
theorem two_marks_crossed : ¬(marking id).Steps Server.Forward freshServer
    [.markSeen 0 ⟨7⟩, .markSeen 1 ⟨7⟩, after 0 1, after 1 2, after 1 3, after 0 4] := by
  intro h
  have hlast := ((((((h _ rfl).2 _ rfl).2 _ rfl).2 _ rfl).2 _ rfl).2 _ rfl).1
  obtain ⟨m, hm, hle⟩ := hlast _ rfl ⟨7⟩ ⟨2000⟩ (by decide)
  obtain rfl : m = ⟨1000⟩ := (Option.some.inj hm).symm
  exact absurd hle (by decide)

end Service
end Notifications
end YtShare
