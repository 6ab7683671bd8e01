/-
# The unread count and the seen marker

`backend/internal/modules/notifications/service.go`.  `UnreadCount` reads the
user and counts the videos after the marker of the user; `MarkSeen` reads the
clock and writes the marker.  Both run next to each other and next to the
`Create` of a share, which stamps a row and then inserts it: a call is at the
clock or at one of its repository calls, and a step takes it to the next.

Every step happens at an instant, and no step before the one before it.
-/

import YtShare.Lib.Machine
import YtShare.Users.Repository
import YtShare.Videos.Repository

namespace YtShare
namespace Notifications
namespace Service

open Users Videos

/-- `MaxUnread`. -/
def maxUnread : ℕ := 99

/-- The errors of the service: what `FindByID` makes of a user it cannot load,
`users.ErrNotFound` of the update, and any other error of the repositories. -/
inductive ServiceError
  | loadUser
  | notFound
  | repository
deriving DecidableEq

/-- Where a call of `MarkSeen` is. -/
inductive MarkSeenPc
  | clock
  | update (now : Time)
  | done (result : Except ServiceError Time)
deriving DecidableEq

/-- Where a call of `UnreadCount` is. -/
inductive UnreadCountPc
  | load
  | count (seenAt : Option Time)
  | done (result : Except ServiceError ℕ)
deriving DecidableEq

/-- Where a call of `Create` is. -/
inductive CreatePc
  | stamp (v : Video)
  | insert (row : Video)
  | done (inserted : Bool)
deriving DecidableEq

/-- A call with the user that it is for. -/
inductive Call
  | markSeen (userID : UUID) (pc : MarkSeenPc)
  | unreadCount (userID : UUID) (pc : UnreadCountPc)
  | create (pc : CreatePc)
deriving DecidableEq

/-- What the outside decides about a step: the instant at which it happens,
whether the repository call fails, and what `uuid.New` returns. -/
structure StepEnv where
  now : Time
  fails : Bool
  newID : UUID

/-- The tables `users` and `videos`, the time and the calls by number. -/
structure Server (lower : String → String) where
  users : Table lower
  videos : List Video
  clock : Time
  calls : ℕ → Option Call

variable {lower : String → String}

/-- `if n > MaxUnread` of `UnreadCount`. -/
def capped (n : ℕ) : ℕ := if maxUnread < n then maxUnread else n

/-- One step of `MarkSeen`. -/
def advanceMarkSeen (env : StepEnv) (users : Table lower) (userID : UUID) :
    MarkSeenPc → Option (Table lower × MarkSeenPc)
  | .clock => some (users, .update env.now)
  | .update now => some (
      if env.fails then (users, .done (.error .repository))
      else
        match users.setLastNotificationsSeenAt userID now with
        | none => (users, .done (.error .notFound))
        | some users' => (users', .done (.ok now)))
  | .done _ => none

/-- One step of `UnreadCount`. -/
def advanceUnreadCount (env : StepEnv) (users : Table lower) (videos : List Video)
    (userID : UUID) : UnreadCountPc → Option UnreadCountPc
  | .load => some (
      if env.fails then .done (.error .loadUser)
      else
        match users.findByID userID with
        | none => .done (.error .loadUser)
        | some u => .count u.lastNotificationsSeenAt)
  | .count seenAt => some (
      if env.fails then .done (.error .repository)
      else .done (.ok (capped (Store.countSharedAfter videos seenAt userID))))
  | .done _ => none

/-- One step of `Create`. -/
def advanceCreate (env : StepEnv) (videos : List Video) : CreatePc → Option (List Video × CreatePc)
  | .stamp v => some (videos, .insert (Store.stamp env.newID env.now v))
  | .insert row => some (
      if env.fails then (videos, .done false)
      else
        match Store.insertRow videos row with
        | none => (videos, .done false)
        | some videos' => (videos', .done true))
  | .done _ => none

namespace Server

/-- What happens next. -/
inductive Label
  /-- a call of `MarkSeen` begins -/
  | markSeen (k : ℕ) (userID : UUID)
  /-- a call of `UnreadCount` begins -/
  | unreadCount (k : ℕ) (userID : UUID)
  /-- a call of `Create` begins -/
  | create (k : ℕ) (v : Video)
  /-- a call takes its next step -/
  | step (k : ℕ) (env : StepEnv)

/-- The server with another call `k`. -/
def setCall (s : Server lower) (k : ℕ) (c : Call) : Server lower :=
  { s with calls := Function.update s.calls k (some c) }

/-- The call that a label begins. -/
def begun : Label → Option (ℕ × Call)
  | .markSeen k userID => some (k, .markSeen userID .clock)
  | .unreadCount k userID => some (k, .unreadCount userID .load)
  | .create k v => some (k, .create (.stamp v))
  | .step .. => none

/-- One step of a call, with the tables after it. -/
def advance (s : Server lower) (env : StepEnv) : Call → Option (Table lower × List Video × Call)
  | .markSeen userID pc => (advanceMarkSeen env s.users userID pc).map fun (users, pc) =>
      (users, s.videos, .markSeen userID pc)
  | .unreadCount userID pc => (advanceUnreadCount env s.users s.videos userID pc).map fun pc =>
      (s.users, s.videos, .unreadCount userID pc)
  | .create pc => (advanceCreate env s.videos pc).map fun (videos, pc) =>
      (s.users, videos, .create pc)

/-- One step. -/
def step (s : Server lower) : Label → Option (Server lower)
  | .step k env =>
      if s.clock.ns ≤ env.now.ns then
        (s.calls k).bind fun c => (s.advance env c).map fun (users, videos, c) =>
          { s.setCall k c with users := users, videos := videos, clock := env.now }
      else none
  | l =>
      (begun l).bind fun (k, c) =>
        match s.calls k with
        | none => some (s.setCall k c)
        | some _ => none

variable {s t : Server lower}

/-- The call that was set. -/
theorem setCall_self (s : Server lower) (k : ℕ) (c : Call) : (s.setCall k c).calls k = some c :=
  Function.update_self ..

/-- Setting one call leaves the others. -/
theorem setCall_of_ne (s : Server lower) {k j : ℕ} (c : Call) (hj : j ≠ k) :
    (s.setCall k c).calls j = s.calls j :=
  Function.update_of_ne hj ..

/-- A call after call `k` was set: that one, or one of the others. -/
theorem setCall_eq_some {k j : ℕ} {c d : Call} (h : (s.setCall k c).calls j = some d) :
    j = k ∧ d = c ∨ j ≠ k ∧ s.calls j = some d :=
  Lib.update_eq_some h

/-- The calls as they begin. -/
theorem begun_cases {l : Label} {k : ℕ} {c : Call} (h : begun l = some (k, c)) :
    (∃ u, l = .markSeen k u ∧ c = .markSeen u .clock) ∨
    (∃ u, l = .unreadCount k u ∧ c = .unreadCount u .load) ∨
    ∃ v, l = .create k v ∧ c = .create (.stamp v) := by
  cases l with
  | step => cases h
  | markSeen j u =>
    obtain ⟨rfl, rfl⟩ := Prod.mk.inj (Option.some.inj h)
    exact .inl ⟨u, rfl, rfl⟩
  | unreadCount j u =>
    obtain ⟨rfl, rfl⟩ := Prod.mk.inj (Option.some.inj h)
    exact .inr (.inl ⟨u, rfl, rfl⟩)
  | create j v =>
    obtain ⟨rfl, rfl⟩ := Prod.mk.inj (Option.some.inj h)
    exact .inr (.inr ⟨v, rfl, rfl⟩)

/-- **What a step can do:** a call begins, or one takes its next step. -/
theorem step_cases {l : Label} (h : s.step l = some t) :
    (∃ k c, begun l = some (k, c) ∧ s.calls k = none ∧ t = s.setCall k c) ∨
    ∃ k env c users videos c', l = .step k env ∧ s.clock.ns ≤ env.now.ns ∧ s.calls k = some c ∧
      s.advance env c = some (users, videos, c') ∧
      t = { s.setCall k c' with users := users, videos := videos, clock := env.now } := by
  have hbegin : ∀ k c, begun l = some (k, c) →
      (match s.calls k with | none => some (s.setCall k c) | some _ => none) = some t →
      ∃ k c, begun l = some (k, c) ∧ s.calls k = none ∧ t = s.setCall k c := by
    intro k c hb ht
    split at ht
    · next hk => exact ⟨k, c, hb, hk, (Option.some.inj ht).symm⟩
    · cases ht
  cases l with
  | step k env =>
    obtain ⟨hclock, h⟩ := Option.ite_none_right_eq_some.1 h
    obtain ⟨c, hc, h⟩ := Option.bind_eq_some_iff.1 h
    obtain ⟨⟨users, videos, c'⟩, hadv, rfl⟩ := Option.map_eq_some_iff.1 h
    exact .inr ⟨k, env, c, users, videos, c', rfl, hclock, hc, hadv, rfl⟩
  | markSeen k userID => exact .inl (hbegin k _ rfl h)
  | unreadCount k userID => exact .inl (hbegin k _ rfl h)
  | create k v => exact .inl (hbegin k _ rfl h)

end Server

/-- The calls on these tables. -/
def server (lower : String → String) : Lib.Machine (Server lower) Server.Label where
  init s := ∀ k, s.calls k = none
  step := Server.step

end Service
end Notifications
end YtShare
