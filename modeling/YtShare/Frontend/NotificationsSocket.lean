/-
# The page's notifications

What `useNotificationsSocket` of `frontend/src/modules/notifications/hooks`
does with an event, wherever the event comes from: `rememberSeen` passes over
the ids it knows, 256 of them at most, and `handleEvent` moves the persisted
cursor to every event that is new to it.  What an event makes the page show is
left out.

Ids are compared as texts, and here they are the UUIDs that the texts write.  A
UUID has a text, so no event is unidentified; the missing cursor `""` is `none`.
-/

import YtShare.Notifications.Event
import Mathlib.Data.Finset.Erase
import Mathlib.Data.Finset.Insert

namespace YtShare
namespace Frontend

open Notifications

/-- `SEEN_EVENT_CAP`. -/
def seenEventCap : ℕ := 256

/-- The refs of the hook, `lastEventId` together with its copy in the local
storage, and the events that `handleEvent` has not passed over. -/
structure NotificationsSocket where
  seenIds : Finset UUID
  seenOrder : List UUID
  lastEventId : Option UUID
  handled : List UUID

namespace NotificationsSocket

/-- A page that is loaded with this cursor in the local storage. -/
def load (lastEventId : Option UUID) (handled : List UUID) : NotificationsSocket :=
  ⟨∅, [], lastEventId, handled⟩

/-- `rememberSeen`: whether the id is new, and the refs after it. -/
def rememberSeen (s : NotificationsSocket) (id : UUID) : Bool × NotificationsSocket :=
  if id ∈ s.seenIds then (false, s)
  else
    let s := { s with seenIds := insert id s.seenIds, seenOrder := s.seenOrder ++ [id] }
    match s.seenOrder with
    | evicted :: rest =>
        if seenEventCap < s.seenOrder.length then
          (true, { s with seenIds := s.seenIds.erase evicted, seenOrder := rest })
        else (true, s)
    | [] => (true, s)

/-- `handleEvent`. -/
def handleEvent (s : NotificationsSocket) (data : Event) : NotificationsSocket :=
  match s.rememberSeen data.id with
  | (false, s) => s
  | (true, s) => { s with lastEventId := some data.id, handled := s.handled ++ [data.id] }

/-- An id is known, or it is new and nothing was handled meanwhile. -/
theorem rememberSeen_cases (s : NotificationsSocket) (id : UUID) :
    id ∈ s.seenIds ∧ s.rememberSeen id = (false, s) ∨
      id ∉ s.seenIds ∧ ∃ t, s.rememberSeen id = (true, t) ∧ t.handled = s.handled := by
  unfold rememberSeen
  by_cases hid : id ∈ s.seenIds
  · exact .inl ⟨hid, if_pos hid⟩
  · right
    refine ⟨hid, ?_⟩
    rw [if_neg hid]
    simp only
    split
    · split_ifs
      · exact ⟨_, rfl, rfl⟩
      · exact ⟨_, rfl, rfl⟩
    · exact ⟨_, rfl, rfl⟩

/-- **What `handleEvent` does:** nothing with an id it knows; another id becomes
the cursor, and no other id becomes known. -/
theorem handleEvent_cases (s : NotificationsSocket) (data : Event) :
    data.id ∈ s.seenIds ∧ s.handleEvent data = s ∨
      data.id ∉ s.seenIds ∧ (s.handleEvent data).lastEventId = some data.id ∧
        (s.handleEvent data).handled = s.handled ++ [data.id] ∧
        ∀ id ∈ (s.handleEvent data).seenIds, id = data.id ∨ id ∈ s.seenIds := by
  unfold handleEvent rememberSeen
  by_cases hid : data.id ∈ s.seenIds
  · left
    refine ⟨hid, ?_⟩
    rw [if_pos hid]
  · right
    rw [if_neg hid]
    simp only
    split
    · next s' h =>
      split at h
      · split_ifs at h <;> cases h
      · cases h
    · next s' h =>
      split at h
      · split_ifs at h
        · obtain ⟨-, rfl⟩ := Prod.mk.inj h
          refine ⟨hid, rfl, rfl, fun id hin => ?_⟩
          exact Finset.mem_insert.1 (Finset.mem_of_mem_erase hin)
        · obtain ⟨-, rfl⟩ := Prod.mk.inj h
          exact ⟨hid, rfl, rfl, fun id hin => Finset.mem_insert.1 hin⟩
      · obtain ⟨-, rfl⟩ := Prod.mk.inj h
        exact ⟨hid, rfl, rfl, fun id hin => Finset.mem_insert.1 hin⟩

end NotificationsSocket

end Frontend
end YtShare
