/-
# Publishers

`backend/internal/modules/notifications`: `Hub.Broadcast`, `Hub.SendToUser` and
`Hub.publish` of `hub.go`, `LocalPublisher.Publish` of `publisher.go` and
`Subscriber.dispatch` of `stream.go`.  Each comes down to the message it posts
to the hub's dispatch queue, `none` when it posts nothing.  A message says twice
whom it is for, in its route and in the event it carries, and the two agree
when it was posted by one of the two callers (`Posted.agrees`).
-/

import YtShare.Notifications.Hub
import YtShare.Notifications.Stream

namespace YtShare
namespace Notifications

variable {Raw : Type}

/-- `Hub.publish`, up to the `select` that posts the message. -/
def Hub.publish (json : EventJSON Raw) (now : Time) (evt : Event) (recipient : UUID) :
    Option (DispatchMsg Raw) :=
  let evt := { evt with timestamp := if evt.timestamp.isZero = true then now else evt.timestamp }
  (json.marshal evt).map fun raw => ⟨recipient, raw⟩

/-- `Hub.Broadcast`. -/
def Hub.broadcast (json : EventJSON Raw) (now : Time) (evt : Event) : Option (DispatchMsg Raw) :=
  Hub.publish json now evt UUID.nil

/-- `Hub.SendToUser`. -/
def Hub.sendToUser (json : EventJSON Raw) (now : Time) (userID : UUID) (evt : Event) :
    Option (DispatchMsg Raw) :=
  if userID = UUID.nil then Hub.broadcast json now evt else Hub.publish json now evt userID

/-- The choice between the two that both callers of the hub make. -/
def Hub.route (json : EventJSON Raw) (now : Time) (evt : Event) : Option (DispatchMsg Raw) :=
  if evt.recipientID = UUID.nil then Hub.broadcast json now evt
  else Hub.sendToUser json now evt.recipientID evt

/-- `LocalPublisher.Publish`. -/
def LocalPublisher.publish (json : EventJSON Raw) (newID : UUID) (now : Time) (evt : Event) :
    Option (DispatchMsg Raw) :=
  Hub.route json now { evt with id := if evt.id = UUID.nil then newID else evt.id }

/-- `Subscriber.dispatch`. -/
def Subscriber.dispatch (json : EventJSON Raw) (now : Time) (msg : Entry Raw) :
    Option (DispatchMsg Raw) :=
  (StreamPublisher.decode json msg).bind (Hub.route json now)

/-- A message that one of the two callers of the hub posts. -/
inductive Posted (json : EventJSON Raw) (m : DispatchMsg Raw) : Prop
  | published (newID : UUID) (now : Time) (evt : Event)
      (h : LocalPublisher.publish json newID now evt = some m)
  | dispatched (now : Time) (msg : Entry Raw) (h : Subscriber.dispatch json now msg = some m)

/-- **What the hub is given for an event:** a message routed to its recipient,
whose payload decodes to an event with the same id and recipient. -/
theorem Hub.route_eq_some {json : EventJSON Raw} {now : Time} {evt : Event} {m : DispatchMsg Raw}
    (h : Hub.route json now evt = some m) :
    m.recipient = evt.recipientID ∧ ∃ e, json.unmarshal m.payload = some e ∧
      e.id = evt.id ∧ e.recipientID = evt.recipientID := by
  have hpublish : Hub.publish json now evt evt.recipientID = some m := by
    unfold Hub.route Hub.sendToUser Hub.broadcast at h
    split_ifs at h with hnil
    · rwa [hnil]
    · exact h
  obtain ⟨raw, hraw, rfl⟩ := Option.map_eq_some_iff.1 hpublish
  obtain ⟨j, hj⟩ := json.unmarshal_marshal _ _ hraw
  exact ⟨rfl, _, hj, rfl, rfl⟩

/-- **The route of a message and the event in it agree.** -/
theorem Posted.agrees {json : EventJSON Raw} {m : DispatchMsg Raw} (h : Posted json m) :
    ∃ e, json.unmarshal m.payload = some e ∧ e.recipientID = m.recipient := by
  have hroute : ∃ now evt, Hub.route json now evt = some m := by
    cases h with
    | published newID now evt h => exact ⟨now, _, h⟩
    | dispatched now msg h =>
      obtain ⟨evt, -, h⟩ := Option.bind_eq_some_iff.1 h
      exact ⟨now, evt, h⟩
  obtain ⟨now, evt, h⟩ := hroute
  obtain ⟨hr, e, he, -, her⟩ := Hub.route_eq_some h
  exact ⟨e, he, her.trans hr.symm⟩

end Notifications
end YtShare
