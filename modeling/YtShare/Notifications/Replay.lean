/-
# Replay by event id

The browser remembers the id of the last event it handled and asks for what
came after it, over `/notifications/since?id=` and `?since=` on the socket.
The cursor is `Event.ID`, a UUID, and both handlers hand it to
`StreamPublisher.Replay`, which puts it where `XRANGE` takes the id of a stream
entry.  A UUID is written with four dashes and an entry id with at most one, so
the two id spaces do not meet and no replay by event id succeeds
(`replay_by_event_id`).

The cursors that do work are `""` and `"0"`, which start at the beginning of
the stream.
-/

import YtShare.Notifications.Stream

namespace YtShare

/-- A UUID is written with at least two dashes. -/
theorem UUID.two_le_count_dash (u : UUID) : 2 ≤ u.string.toList.count '-' := by
  rw [UUID.string, String.toList_ofList, UUID.chars]
  simp only [List.count_append, List.count_cons_self]
  omega

namespace Notifications

open StreamPublisher

variable {Raw : Type}

/-- **No event id is a stream id.** -/
theorem StreamID.parse_uuid (u : UUID) : StreamID.parse u.string = none := by
  cases h : StreamID.parse u.string with
  | none => rfl
  | some id =>
    have hle := StreamID.count_dash_of_parse h
    have hge := u.two_le_count_dash
    omega

/-- What is asked of a replay from an event whose entry is `x`: it succeeds,
with the first events stored after `x`, as many as the limit allows. -/
def ReplaysAfter (redis : Redis Raw) (json : EventJSON Raw) (s : Stream Raw) (x : Entry Raw)
    (cursor : String) (limit : ℤ) : Prop :=
  replay redis json s cursor limit = some
    (((s.after x.id).filterMap (decode json)).take
      (if 1 ≤ limit ∧ limit ≤ 500 then limit.toNat else 500))

/-- A limit out of range is the largest. -/
theorem clampLimit_eq (limit : ℤ) :
    clampLimit limit = if 1 ≤ limit ∧ limit ≤ 500 then limit.toNat else 500 := by
  unfold clampLimit replayMaxLimit
  split_ifs <;> omega

/-- A replay from an event id fails. -/
theorem replay_uuid (redis : Redis Raw) (json : EventJSON Raw) (s : Stream Raw) (u : UUID)
    (limit : ℤ) : replay redis json s u.string limit = none := by
  have hne : u.string ≠ "" := fun h => by
    have hge := u.two_le_count_dash
    rw [h] at hge
    exact absurd hge (by decide)
  rw [replay_eq, cursor, if_neg hne, StreamID.parse_uuid]
  rfl

/-- Both `""` and `"0"` start at the beginning of the stream. -/
theorem replay_start (redis : Redis Raw) (json : EventJSON Raw) (s : Stream Raw) {sinceID : String}
    (h : cursor sinceID = "0") (limit : ℤ) :
    replay redis json s sinceID limit =
      some ((s.entries.take (clampLimit limit)).filterMap (decode json)) := by
  have hzero : StreamID.parse "0" = some (.of 0 0) := by decide
  rw [replay_eq, h, hzero, Option.map_some, s.after_zero]

/-- **Replay by event id never works.**  Whatever the stream holds and whatever
the limit, a replay from the id of an event that `Publish` stored is an error,
so it is not what was asked of it.  Replays of the empty cursor and of `0` do
start at the beginning. -/
theorem replay_by_event_id (redis : Redis Raw) (json : EventJSON Raw) (s : Stream Raw)
    (limit : ℤ) :
    (∀ newID now id evt x, publish json newID now id evt = some x → x ∈ s.entries →
      replay redis json s (stamp newID now evt).id.string limit = none ∧
        ¬ReplaysAfter redis json s x (stamp newID now evt).id.string limit) ∧
    ∀ cursor, cursor = "" ∨ cursor = "0" → replay redis json s cursor limit =
      some ((s.entries.take (if 1 ≤ limit ∧ limit ≤ 500 then limit.toNat else 500)).filterMap
        (decode json)) := by
  constructor
  · intro newID now id evt x _ _
    have hnone := replay_uuid redis json s (stamp newID now evt).id limit
    refine ⟨hnone, fun h => ?_⟩
    rw [ReplaysAfter, hnone] at h
    cases h
  · intro cursor hc
    rw [← clampLimit_eq]
    rcases hc with rfl | rfl
    · exact replay_start redis json s rfl limit
    · exact replay_start redis json s rfl limit

/-- An event for user `u`. -/
def eventFor (u : UUID) : Event := ⟨⟨1⟩, eventVideoShared, ⟨1⟩, u, .decoded .null⟩

/-- The stream that holds one event, under the id `1-0`. -/
def streamOf (evt : Event) : Stream Event :=
  have hpos : StreamID.of 0 0 < .of 1 0 := by decide
  Stream.empty.add ⟨.of 1 0, some evt⟩ ⟨hpos, nofun⟩

/-- A broadcast is stored, and a replay from its id is an error. -/
theorem replay_by_event_id_broadcast :
    publish .verbatim ⟨2⟩ ⟨1⟩ (.of 1 0) (eventFor .nil) =
        some ⟨.of 1 0, some (eventFor .nil)⟩ ∧
      replay (.reference Event) .verbatim (streamOf (eventFor .nil)) (eventFor .nil).id.string 10 =
        none := by
  refine ⟨rfl, ?_⟩
  have h := (replay_by_event_id (.reference Event) .verbatim (streamOf (eventFor .nil)) 10).1
    ⟨2⟩ ⟨1⟩ (.of 1 0) (eventFor .nil) ⟨.of 1 0, some (eventFor .nil)⟩ rfl List.mem_cons_self
  exact h.1

/-- The browser handles the only event of a stream and asks for what came
after it: the answer is an error, where an empty list was asked for. -/
theorem replay_from_handled_event :
    replay (.reference Event) .verbatim (streamOf (eventFor .nil)) (eventFor .nil).id.string 100 =
        none ∧
      (((streamOf (eventFor .nil)).after (.of 1 0)).filterMap (decode .verbatim)).take 100 = [] ∧
      ¬ReplaysAfter (.reference Event) .verbatim (streamOf (eventFor .nil))
        ⟨.of 1 0, some (eventFor .nil)⟩ (eventFor .nil).id.string 100 := by
  have hnone := replay_uuid (.reference Event) .verbatim (streamOf (eventFor .nil))
    (eventFor .nil).id 100
  refine ⟨hnone, ?_, fun h => ?_⟩
  · rw [Stream.after, Lib.after_eq_nil fun x hx => by rw [List.mem_singleton.1 hx]]
    rfl
  · rw [ReplaysAfter, hnone] at h
    cases h

end Notifications
end YtShare
