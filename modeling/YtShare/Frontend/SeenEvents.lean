/-
# The seen events of a page

`rememberSeen` and `handleEvent` of `useNotificationsSocket`, on ids as the page has
them: texts, and so possibly empty.  A set of ids and the queue of the same ids are
kept in step; when the queue has grown beyond 256 ids, the oldest is dropped from
both.

The queue is the window of the last 256 ids that were accepted (`Lib.Admitted`), from
which all the rest follows (`seen_window`).  On the texts of UUIDs the hook does what
`NotificationsSocket` says it does (`shows_handleEvent`).
-/

import YtShare.Core.UUIDText
import YtShare.Frontend.NotificationsSocket
import YtShare.Lib.Window
import Mathlib.Data.Finset.Image

namespace YtShare
namespace Frontend

open Lib

/-- The refs `seenIdsRef`, `seenOrderRef` and `lastEventIdRef` of the hook. -/
structure SeenEvents where
  seenIds : Finset String
  seenOrder : List String
  lastEventId : String

namespace SeenEvents

/-- The refs of a hook that finds this cursor in `localStorage`. -/
def load (stored : Option String) : SeenEvents := ⟨∅, [], stored.getD ""⟩

/-- `rememberSeen`: whether the id is new, and the refs after it. -/
def rememberSeen (s : SeenEvents) (id : String) : Bool × SeenEvents :=
  if id ∈ s.seenIds then (false, s)
  else
    let s := { s with seenIds := insert id s.seenIds, seenOrder := s.seenOrder ++ [id] }
    if seenEventCap < s.seenOrder.length then
      match s.seenOrder with
      | evicted :: rest =>
          (true, { s with
            seenIds := if evicted ≠ "" then s.seenIds.erase evicted else s.seenIds
            seenOrder := rest })
      | [] => (true, s)
    else (true, s)

/-- `handleEvent`, up to where it passes over the event: whether it goes on, and the
refs after it. -/
def handleEvent (s : SeenEvents) (id : String) : Bool × SeenEvents :=
  if id = "" then (false, s)
  else
    match s.rememberSeen id with
    | (false, s) => (false, s)
    | (true, s) => (true, { s with lastEventId := id })

/-- A hook, with the cursor in `localStorage` and a record of the ids that
`handleEvent` went on with. -/
structure Receiver where
  refs : SeenEvents
  stored : Option String
  accepted : List String

/-- A call of `handleEvent`; `writes` says whether `setItem` succeeds. -/
def Receiver.handleEvent (r : Receiver) (id : String) (writes : Bool) : Receiver :=
  match r.refs.handleEvent id with
  | (false, refs) => { r with refs := refs }
  | (true, refs) =>
      { refs := refs
        stored := if writes then some id else r.stored
        accepted := r.accepted ++ [id] }

/-- A hook as it is mounted. -/
def Receiver.load (stored : Option String) : Receiver := ⟨.load stored, stored, []⟩

/-- Some calls, one after the other. -/
def Receiver.run (r : Receiver) (calls : List (String × Bool)) : Receiver :=
  calls.foldl (fun r call => r.handleEvent call.1 call.2) r

/-! ### What one call does -/

/-- **What `rememberSeen` does with a new id**: the set and the queue, which hold the
same ids, each of them once, take it in and lose the oldest when there are too many. -/
theorem rememberSeen_of_new {s : SeenEvents} {id : String} (hids : s.seenIds = s.seenOrder.toFinset)
    (hne : "" ∉ s.seenOrder ++ [id]) (hnodup : (s.seenOrder ++ [id]).Nodup) :
    ∃ t, s.rememberSeen id = (true, t) ∧ t.seenIds = t.seenOrder.toFinset ∧
      t.seenOrder = if seenEventCap < (s.seenOrder ++ [id]).length then
        (s.seenOrder ++ [id]).tail else s.seenOrder ++ [id] := by
  have hnew : id ∉ s.seenIds := by
    rw [hids, List.mem_toFinset]
    exact (List.nodup_cons.1 (List.nodup_append_comm.1 hnodup)).1
  have hinsert : insert id s.seenIds = (s.seenOrder ++ [id]).toFinset := by
    rw [List.toFinset_append, hids, Finset.insert_eq, Finset.union_comm]
    rfl
  unfold rememberSeen
  rw [if_neg hnew, hinsert]
  simp only
  generalize s.seenOrder ++ [id] = queue at hne hnodup ⊢
  split_ifs with hlt
  · cases queue with
    | nil => exact ⟨_, rfl, rfl, rfl⟩
    | cons evicted rest =>
      have hevicted : evicted ≠ "" := fun he => hne (he ▸ List.mem_cons_self)
      have hrest : evicted ∉ rest := (List.nodup_cons.1 hnodup).1
      refine ⟨_, rfl, ?_, rfl⟩
      simp only
      rw [if_pos hevicted, List.toFinset_cons, Finset.erase_insert]
      rwa [List.mem_toFinset]
  · exact ⟨_, rfl, rfl, rfl⟩

namespace Receiver

variable {r : Receiver} {id : String}

/-- The invariant: the set and the queue are the window of what was accepted, and
the cursor is its end. -/
structure Inv (r : Receiver) : Prop where
  admitted : Admitted seenEventCap r.accepted
  nonempty : "" ∉ r.accepted
  seenOrder : r.refs.seenOrder = r.accepted.rtake seenEventCap
  seenIds : r.refs.seenIds = r.refs.seenOrder.toFinset
  cursor : ∀ id ∈ r.accepted.getLast?, r.refs.lastEventId = id

/-- The refs of a page that was loaded. -/
theorem inv_load (stored : Option String) : (load stored).Inv :=
  ⟨admitted_nil, List.not_mem_nil, (List.rtake_nil _).symm, rfl, nofun⟩

/-- The known ids are those of the window. -/
theorem Inv.mem_seenIds (hi : r.Inv) :
    id ∈ r.refs.seenIds ↔ id ∈ r.accepted.rtake seenEventCap := by
  rw [hi.seenIds, List.mem_toFinset, hi.seenOrder]

/-- An event without an id, and one with a known id, changes nothing. -/
theorem handleEvent_of_known (h : id = "" ∨ id ∈ r.refs.seenIds) (writes : Bool) :
    r.refs.handleEvent id = (false, r.refs) ∧ r.handleEvent id writes = r := by
  have hskip : r.refs.handleEvent id = (false, r.refs) := by
    unfold SeenEvents.handleEvent
    split_ifs with hid
    · rfl
    · rw [SeenEvents.rememberSeen, if_pos (h.resolve_left hid)]
  refine ⟨hskip, ?_⟩
  rw [handleEvent, hskip]

/-- **Any other event** is accepted, and its id is the newest one. -/
theorem Inv.handleEvent_of_new (hi : r.Inv) (hid : id ≠ "") (hnew : id ∉ r.refs.seenIds)
    (writes : Bool) :
    (r.refs.handleEvent id).1 = true ∧ (r.handleEvent id writes).Inv ∧
      (r.handleEvent id writes).accepted = r.accepted ++ [id] := by
  have hwindow := mt hi.mem_seenIds.2 hnew
  have hadmitted := admitted_concat.2 ⟨hi.admitted, hwindow⟩
  have hnodup : (r.refs.seenOrder ++ [id]).Nodup := by
    rw [hi.seenOrder]
    exact hi.admitted.nodup_concat hwindow
  have hnonempty : "" ∉ r.accepted ++ [id] := by
    intro hm
    rcases List.mem_append.1 hm with hm | hm
    · exact hi.nonempty hm
    · exact hid (List.mem_singleton.1 hm).symm
  have hqueue : "" ∉ r.refs.seenOrder ++ [id] := by
    rw [hi.seenOrder]
    intro hm
    rcases List.mem_append.1 hm with hm | hm
    · exact hi.nonempty (List.mem_of_mem_drop hm)
    · exact hid (List.mem_singleton.1 hm).symm
  obtain ⟨t, ht, hids, horder⟩ := rememberSeen_of_new hi.seenIds hqueue hnodup
  have hgo : r.refs.handleEvent id = (true, { t with lastEventId := id }) := by
    rw [SeenEvents.handleEvent, if_neg hid, ht]
  rw [handleEvent, hgo]
  refine ⟨rfl, ⟨hadmitted, hnonempty, ?_, hids, ?_⟩, rfl⟩
  · rw [hi.seenOrder] at horder
    exact horder.trans (rtake_concat _ _ _).symm
  · intro x hx
    rw [List.getLast?_concat] at hx
    exact Option.some.inj hx

/-- **The step lemma.** -/
theorem Inv.handleEvent (hi : r.Inv) (id : String) (writes : Bool) :
    (r.handleEvent id writes).Inv := by
  by_cases h : id = "" ∨ id ∈ r.refs.seenIds
  · rw [(handleEvent_of_known h writes).2]
    exact hi
  · obtain ⟨hid, hnew⟩ := not_or.1 h
    exact (hi.handleEvent_of_new hid hnew writes).2.1

/-- Over a whole sequence of calls the list and the set stay in step. -/
theorem Inv.run (hi : r.Inv) (calls : List (String × Bool)) : (r.run calls).Inv := by
  induction calls generalizing r with
  | nil => exact hi
  | cons call calls ih => exact ih (hi.handleEvent call.1 call.2)

/-- **When an event is accepted.** -/
theorem Inv.accepts_iff (hi : r.Inv) (id : String) :
    (r.refs.handleEvent id).1 = true ↔ id ≠ "" ∧ id ∉ r.accepted.rtake seenEventCap := by
  rw [← hi.mem_seenIds]
  by_cases h : id = "" ∨ id ∈ r.refs.seenIds
  · have hskip := (handleEvent_of_known h true).1
    rw [hskip]
    exact iff_of_false Bool.false_ne_true fun hn => h.elim hn.1 hn.2
  · obtain ⟨hid, hnew⟩ := not_or.1 h
    exact iff_of_true (hi.handleEvent_of_new hid hnew true).1 ⟨hid, hnew⟩

end Receiver

/-! ### All calls -/

/-- The refs are a sliding window of the last 256 accepted ids. -/
structure Receiver.Slides (r : Receiver) : Prop where
  seenIds : ∀ id, id ∈ r.refs.seenIds ↔ id ∈ r.refs.seenOrder
  nodup : r.refs.seenOrder.Nodup
  seenOrder : r.refs.seenOrder = r.accepted.rtake seenEventCap
  accepts : ∀ id, (r.refs.handleEvent id).1 = true ↔
    id ≠ "" ∧ id ∉ r.accepted.rtake seenEventCap
  apart : ∀ a b c id, r.accepted = a ++ id :: (b ++ id :: c) →
    seenEventCap ≤ (b.toFinset.erase id).card
  cursor : ∀ id ∈ r.accepted.getLast?, r.refs.lastEventId = id

/-- **The sliding window.**  After any calls of `handleEvent` the set holds the ids of
the queue, and the queue the last 256 accepted ids in their order, each of them once;
an event is accepted when its id is neither empty nor one of them, so an id that is
accepted twice has 256 others accepted in between; and the cursor is the id that was
accepted last. -/
theorem seen_window (stored : Option String) (calls : List (String × Bool)) :
    ((Receiver.load stored).run calls).Slides := by
  have hi := (Receiver.inv_load stored).run calls
  refine ⟨fun id => ?_, ?_, hi.seenOrder, hi.accepts_iff, fun a b c id h => ?_, hi.cursor⟩
  · rw [hi.seenIds, List.mem_toFinset]
  · rw [hi.seenOrder]
    exact hi.admitted.nodup
  · exact Admitted.apart (h ▸ hi.admitted)

/-! ### On the texts of UUIDs -/

/-- Two ids with one text are one. -/
theorem string_injective : Function.Injective UUID.string := fun u v h =>
  Option.some.inj (u.parse_string.symm.trans ((congrArg UUID.parse h).trans v.parse_string))

/-- The text of an id is not empty, so the page never takes a cursor for none. -/
theorem string_ne_empty (u : UUID) : u.string ≠ "" := by
  intro h
  have hnone : UUID.parse "" = none := by decide
  have hparse := u.parse_string
  rw [h, hnone] at hparse
  cases hparse

/-- The refs hold the texts of the UUIDs of the other. -/
structure Shows (s : SeenEvents) (p : NotificationsSocket) : Prop where
  seenIds : s.seenIds = p.seenIds.image UUID.string
  seenOrder : s.seenOrder = p.seenOrder.map UUID.string
  lastEventId : s.lastEventId = (p.lastEventId.map UUID.string).getD ""

/-- The refs on texts and on ids begin alike. -/
theorem shows_load (lastEventId : Option UUID) (handled : List UUID) :
    Shows (load (lastEventId.map UUID.string)) (.load lastEventId handled) :=
  ⟨rfl, rfl, rfl⟩

/-- **`rememberSeen` on texts** answers as it does on ids, and leaves refs that are
alike. -/
theorem Shows.rememberSeen {s : SeenEvents} {p : NotificationsSocket} (h : s.Shows p) (u : UUID) :
    (s.rememberSeen u.string).1 = (p.rememberSeen u).1 ∧
      (s.rememberSeen u.string).2.Shows (p.rememberSeen u).2 := by
  have hmem : u.string ∈ s.seenIds ↔ u ∈ p.seenIds := by
    rw [h.seenIds, string_injective.mem_finset_image]
  have horder : s.seenOrder ++ [u.string] = (p.seenOrder ++ [u]).map UUID.string := by
    rw [h.seenOrder, List.map_append]
    rfl
  have hinsert : insert u.string s.seenIds = (insert u p.seenIds).image UUID.string := by
    rw [h.seenIds, Finset.image_insert]
  unfold SeenEvents.rememberSeen NotificationsSocket.rememberSeen
  by_cases hu : u ∈ p.seenIds
  · rw [if_pos hu, if_pos (hmem.2 hu)]
    exact ⟨rfl, h⟩
  · rw [if_neg hu, if_neg (mt hmem.1 hu)]
    simp only [horder, hinsert, List.length_map]
    cases hq : p.seenOrder ++ [u] with
    | nil => exact absurd hq (List.append_ne_nil_of_right_ne_nil _ (List.cons_ne_nil _ _))
    | cons evicted rest =>
      simp only [List.map_cons, List.length_cons]
      split_ifs with hlt hne
      · refine ⟨rfl, ?_, rfl, h.lastEventId⟩
        exact (Finset.image_erase string_injective _ _).symm
      · exact absurd (string_ne_empty evicted) hne
      · exact ⟨rfl, rfl, rfl, h.lastEventId⟩

/-- **The two hooks agree**: on the texts of UUIDs the refs go on as those of
`NotificationsSocket` do. -/
theorem shows_handleEvent {s : SeenEvents} {p : NotificationsSocket} (h : s.Shows p)
    (data : Notifications.Event) : (s.handleEvent data.id.string).2.Shows (p.handleEvent data) := by
  obtain ⟨hflag, hrefs⟩ := h.rememberSeen data.id
  rw [handleEvent, if_neg (string_ne_empty _), NotificationsSocket.handleEvent]
  rcases hs : s.rememberSeen data.id.string with ⟨_ | _, s'⟩ <;>
    rcases hp : p.rememberSeen data.id with ⟨_ | _, p'⟩ <;>
    rw [hs, hp] at hflag hrefs
  · exact hrefs
  · cases hflag
  · cases hflag
  · exact ⟨hrefs.seenIds, hrefs.seenOrder, rfl⟩

end SeenEvents

end Frontend
end YtShare
