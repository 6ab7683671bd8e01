/-
# The two publishers agree

A server with Redis publishes through `StreamPublisher` and every replica hands
the stored entry to its hub with `Subscriber.dispatch`; a server without Redis
hands the event to its hub with `LocalPublisher`.  On the first path the event
is encoded, decoded into an untyped payload and encoded again, and the third
encoding is the one of `replayBacklog`.

Once an event has an identifier and a timestamp nothing on the way changes it
but the Go type of its payload (`Wire`): the hub routes it to the same clients
and every frame denotes the same value.  An event whose timestamp cannot be
written in RFC 3339 is published on neither path.
-/

import YtShare.Notifications.Handler
import YtShare.Notifications.Publisher
import YtShare.Notifications.Wire

namespace YtShare
namespace Notifications

variable {Raw : Type}

/-- The clients that a message to `recipient` is routed to. -/
def Hub.audience (h : Hub Raw) (recipient : UUID) : Set Client :=
  { c | h.registry.Has c ∧ c.userID ∈ h.targets recipient }

/-- What both callers of the hub post for an event with a timestamp. -/
theorem Hub.route_of_timestamp {json : EventJSON Raw} {now : Time} {evt : Event}
    (h : evt.timestamp.isZero = false) :
    Hub.route json now evt = (json.marshal evt).map fun raw => ⟨evt.recipientID, raw⟩ := by
  have hpublish : ∀ u, Hub.publish json now evt u = (json.marshal evt).map fun raw => ⟨u, raw⟩ := by
    intro u
    rw [Hub.publish, h]
    rfl
  rw [Hub.route, Hub.sendToUser, Hub.broadcast, hpublish, hpublish]
  split_ifs with hnil
  · rw [hnil]
  · rfl

/-- An event with an identifier and a timestamp is stored as it is. -/
theorem StreamPublisher.stamp_eq_self {newID : UUID} {now : Time} {evt : Event}
    (hid : evt.id ≠ UUID.nil) (ht : evt.timestamp.isZero = false) :
    StreamPublisher.stamp newID now evt = evt := by
  rw [StreamPublisher.stamp, if_neg hid, ht]
  rfl

/-- What `LocalPublisher.Publish` posts for an event with an identifier and a
timestamp. -/
theorem LocalPublisher.publish_eq {json : EventJSON Raw} {newID : UUID} {now : Time} {evt : Event}
    (hid : evt.id ≠ UUID.nil) (ht : evt.timestamp.isZero = false) :
    LocalPublisher.publish json newID now evt =
      (json.marshal evt).map fun raw => ⟨evt.recipientID, raw⟩ := by
  rw [LocalPublisher.publish, if_neg hid]
  exact Hub.route_of_timestamp ht

/-- The step of `replayBacklog` at an event that is for the user. -/
theorem Handler.writeBacklog_cons {json : EventJSON Raw} {u : UUID} {evt : Event} {raw : Raw}
    (hfor : evt.isFor u = true) (hraw : json.marshal evt = some raw) (events : List Event)
    (writes : ℕ) :
    Handler.writeBacklog json u (evt :: events) (writes + 1) =
      raw :: Handler.writeBacklog json u events writes := by
  have hskip : ¬(evt.recipientID ≠ UUID.nil ∧ evt.recipientID ≠ u) := by
    rintro ⟨hnil, hne⟩
    rcases Event.isFor_iff.1 hfor with h | h
    · exact hnil h
    · exact hne h
  rw [Handler.writeBacklog, if_neg hskip, hraw]

/-- **The two publishers agree.**  For every event with an identifier and a
timestamp, whatever its payload (a `VideoSharedPayload` with any strings among
others), and every state of the hub: publishing it locally, and publishing it
to the stream and dispatching the stored entry, post messages to the same
clients that denote the same value; and the frame that `replayBacklog` writes
for the stored entry, to every user it is for, denotes that value too.  Where
the timestamp has no RFC 3339 text, neither publishes anything. -/
theorem publishers_agree (lib : JSONLibrary Raw) (newID newID' : UUID) (now now' now'' : Time)
    (id : StreamID) (h : Hub Raw) (evt : Event) (hid : evt.id ≠ UUID.nil)
    (ht : evt.timestamp.isZero = false) :
    lib.rfc3339 evt.timestamp = none ∧ LocalPublisher.publish lib.events newID now evt = none ∧
        StreamPublisher.publish lib.events newID' now' id evt = none ∨
      ∃ m x m', LocalPublisher.publish lib.events newID now evt = some m ∧
        StreamPublisher.publish lib.events newID' now' id evt = some x ∧
        Subscriber.dispatch lib.events now'' x = some m' ∧
        h.audience m'.recipient = h.audience m.recipient ∧ lib.Same m.payload m'.payload ∧
        ∃ stored, StreamPublisher.decode lib.events x = some stored ∧
          ∀ u, evt.isFor u = true → ∃ raw, lib.Same m.payload raw ∧ ∀ events writes,
            Handler.writeBacklog lib.events u (stored :: events) (writes + 1) =
              raw :: Handler.writeBacklog lib.events u events writes := by
  have hlocal : LocalPublisher.publish lib.events newID now evt =
      (lib.events.marshal evt).map fun raw => ⟨evt.recipientID, raw⟩ :=
    LocalPublisher.publish_eq hid ht
  cases hraw : lib.events.marshal evt with
  | none =>
    refine .inl ⟨JSONLibrary.marshal_eq_none.1 hraw, ?_, ?_⟩
    · rw [hlocal, hraw]
      rfl
    · rw [StreamPublisher.publish, StreamPublisher.stamp_eq_self hid ht, hraw]
      rfl
  | some raw =>
    obtain ⟨raw', hraw', hsame⟩ := JSONLibrary.same_marshal hraw
    have hstored := JSONLibrary.unmarshal_of_marshal hraw
    have hdispatch : Subscriber.dispatch lib.events now'' ⟨id, some raw⟩ =
        some ⟨evt.recipientID, raw'⟩ := by
      show (lib.events.unmarshal raw).bind _ = _
      have hroute : Hub.route lib.events now'' evt.reread =
          (lib.events.marshal evt.reread).map fun raw => ⟨evt.recipientID, raw⟩ :=
        Hub.route_of_timestamp ht
      rw [hstored, Option.bind_some, hroute, hraw']
      rfl
    refine .inr ⟨⟨evt.recipientID, raw⟩, ⟨id, some raw⟩, ⟨evt.recipientID, raw'⟩, ?_, ?_,
      hdispatch, rfl, hsame, _, hstored, fun u hu => ⟨raw', hsame, ?_⟩⟩
    · rw [hlocal, hraw]
      rfl
    · rw [StreamPublisher.publish, StreamPublisher.stamp_eq_self hid ht, hraw]
      rfl
    · intro events writes
      have hfor : evt.reread.isFor u = true := hu
      exact Handler.writeBacklog_cons hfor hraw' events writes

/-- A video that was shared, announced to everyone. -/
def sharedEvent : Event where
  id := ⟨7⟩
  type := eventVideoShared
  timestamp := JSONLibrary.newYear
  recipientID := UUID.nil
  payload := .videoShared
    ⟨⟨5⟩, "dQw4w9WgXcQ", "a \"title\"", "https://img.youtube.com/", ⟨3⟩, "Ann"⟩

/-- `publishers_agree` for `sharedEvent`. -/
theorem publishers_agree_sharedEvent :
    ∃ m x m', LocalPublisher.publish JSONLibrary.reference.events ⟨1⟩ ⟨1⟩ sharedEvent = some m ∧
      StreamPublisher.publish JSONLibrary.reference.events ⟨2⟩ ⟨2⟩ (.of 1 0) sharedEvent = some x ∧
      Subscriber.dispatch JSONLibrary.reference.events ⟨3⟩ x = some m' ∧
      (Hub.new : Hub Json).audience m'.recipient = (Hub.new : Hub Json).audience m.recipient ∧
      JSONLibrary.reference.Same m.payload m'.payload := by
  rcases publishers_agree JSONLibrary.reference ⟨1⟩ ⟨2⟩ ⟨1⟩ ⟨2⟩ ⟨3⟩ (.of 1 0) Hub.new sharedEvent
    (by decide) (by decide) with ⟨h, -⟩ | ⟨m, x, m', hm, hx, hm', ha, hsame, -⟩
  · exact absurd h (by decide)
  · exact ⟨m, x, m', hm, hx, hm', ha, hsame⟩

end Notifications
end YtShare
