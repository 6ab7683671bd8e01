/-
# One browser and one replica

The whole way of an event to one page: the stream and the subscriber that pumps
it (`Pump`), the hub with all its clients (`Hub`), the WebSocket connections
that `Handler.handle` serves, and the hook of the page with its reconnects and
its recovery over HTTP (`NotificationsSocket`).  A label says who moves.

The cursor is resolved to the entry that carries the event (`replayAfter`);
`replay_resolved` and `backlog_resolved` say what that comes to in the code.
Entries decode, no two carry the same event id, and none is trimmed.

A connection that breaks delivers nothing more: the frames that are written and
not received before the socket closes are lost with it.  When it has closed, its
client is one of the clients of the hub like any other.
-/

import YtShare.Frontend.NotificationsSocket
import YtShare.Notifications.Handler
import YtShare.Notifications.Pipe
import YtShare.Notifications.Publisher
import YtShare.Notifications.Subscriber

namespace YtShare
namespace Notifications

open Lib Frontend

variable {Raw : Type}

/-! ### Events in the stream -/

/-- The entry carries an event that `Publish` has stamped and that can be
marshalled again. -/
def Decodes (json : EventJSON Raw) (x : Entry Raw) : Prop :=
  ∃ e, StreamPublisher.decode json x = some e ∧ e.timestamp.isZero = false ∧
    (json.marshal e).isSome = true

instance (json : EventJSON Raw) (x : Entry Raw) : Decidable (Decodes json x) :=
  match h : StreamPublisher.decode json x with
  | none => isFalse fun ⟨_, he, _⟩ => nomatch h.symm.trans he
  | some e =>
      decidable_of_iff (e.timestamp.isZero = false ∧ (json.marshal e).isSome = true)
        ⟨fun hx => ⟨e, h, hx⟩, fun ⟨e', he', hx⟩ => by
          obtain rfl := Option.some.inj (h.symm.trans he')
          exact hx⟩

/-- The id of the event that an entry carries. -/
def eventID (json : EventJSON Raw) (x : Entry Raw) : Option UUID :=
  (StreamPublisher.decode json x).map Event.id

/-- Every entry decodes, and no two carry the same event id. -/
structure Decoded (json : EventJSON Raw) (es : List (Entry Raw)) : Prop where
  decodes : ∀ x ∈ es, Decodes json x
  distinct : (es.map (eventID json)).Nodup

/-- The event of the entry at a position. -/
def eventAt (json : EventJSON Raw) (es : List (Entry Raw)) (i : ℕ) : Option Event :=
  es[i]?.bind (StreamPublisher.decode json)

/-- The position of the entry that carries an event. -/
def position (json : EventJSON Raw) (es : List (Entry Raw)) (id : UUID) : ℕ :=
  es.findIdx fun x => decide (eventID json x = some id)

namespace StreamPublisher

/-- `Replay` from the entry that carries the event `id`. -/
def replayAfter (json : EventJSON Raw) (es : List (Entry Raw)) (id : UUID) (limit : ℤ) :
    List Event :=
  ((es.drop (position json es id + 1)).take (clampLimit limit)).filterMap (decode json)

/-- **A cursor that is resolved:** given the id of the entry that carries the
event, `Replay` answers what comes after the event. -/
theorem replay_resolved (redis : Redis Raw) (json : EventJSON Raw) (s : Stream Raw) {id : UUID}
    {x : Entry Raw} {sinceID : String} (hx : s.entries[position json s.entries id]? = some x)
    (hid : StreamID.parse (cursor sinceID) = some x.id) (limit : ℤ) :
    replay redis json s sinceID limit = some (replayAfter json s.entries id limit) := by
  rw [replay_eq, hid, Option.map_some, Stream.after, s.ordered.after_of_getElem? hx]
  rfl

end StreamPublisher

/-! ### The site -/

/-- A WebSocket of the page: the client and the goroutine that serve it, the
`since` of its URL, whether `client.Run` was started, whether the page has seen
`onopen`, and the frames written to it and not yet received. -/
structure Socket (Raw : Type) where
  client : Client
  since : Option UUID
  running : Bool
  opened : Bool
  wire : List Raw

/-- A call of `recoverViaHttp`: on its way to the server, or answered. -/
inductive Recovery
  | asked (sinceID : UUID)
  | answered (events : List Event)

/-- The stream with its subscriber, the hub, the current socket of the page, its
calls of `recoverViaHttp`, and its hook. -/
structure Site (Raw : Type) where
  pump : Pump Raw
  hub : Hub Raw
  socket : Option (Socket Raw)
  recoveries : List Recovery
  page : NotificationsSocket

namespace Site

/-- What happens next. -/
inductive Label (Raw : Type)
  /-- an event is published -/
  | xadd (x : Entry Raw)
  /-- the subscriber reads -/
  | pump (l : Pump.Label Raw)
  /-- the subscriber passes an entry to the hub, which drops it or not -/
  | post (now : Time) (dropped : Bool)
  /-- the hub or another of its clients moves -/
  | hub (l : Hub.Label Raw)
  /-- the page connects, and `Handler.handle` makes its client -/
  | connect (addr : ℕ)
  /-- `Register` has returned: `handle` replays the backlog and starts `Run` -/
  | run (fails : Bool)
  /-- the `writeLoop` of the page's client writes a frame -/
  | write
  /-- the page sees `onopen` -/
  | opened
  /-- the page receives a frame -/
  | receive
  /-- the page sees `onclose` -/
  | close
  /-- the effect of the hook is cleaned up -/
  | cleanup
  /-- the page is loaded again -/
  | reload
  /-- the server answers a call of `recoverViaHttp`, or the call fails -/
  | answer (i : ℕ) (fails : Bool)
  /-- the page receives an answer -/
  | recover (i : ℕ)

/-- The default limit of `getNotificationsSince`. -/
def recoveryLimit : ℤ := 100

/-- The frames that `Handler.handle` writes before it starts `Run`. -/
def backlog (json : EventJSON Raw) (u : UUID) (es : List (Entry Raw)) (since : Option UUID)
    (fails : Bool) : List Raw :=
  match since with
  | none => []
  | some id =>
      if fails then []
      else
        let events := StreamPublisher.replayAfter json es id wsReplayLimit
        Handler.writeBacklog json u events events.length

/-- The entry may be added: it decodes, and its event id is new. -/
def Admits (json : EventJSON Raw) (es : List (Entry Raw)) (x : Entry Raw) : Prop :=
  Decodes json x ∧ eventID json x ∉ es.map (eventID json)

instance (json : EventJSON Raw) (es : List (Entry Raw)) (x : Entry Raw) :
    Decidable (Admits json es x) :=
  inferInstanceAs (Decidable (_ ∧ _))

/-- A step of the hub that is neither the subscriber's nor of the page's
writer. -/
def Free (s : Site Raw) : Hub.Label Raw → Bool
  | .publish _ | .discard _ => false
  | .write c => decide (s.socket.map Socket.client ≠ some c)
  | _ => true

/-- `message` of the page's socket: a frame that parses goes to `handleEvent`. -/
def onMessage (json : EventJSON Raw) (page : NotificationsSocket) (raw : Raw) :
    NotificationsSocket :=
  match json.unmarshal raw with
  | none => page
  | some data => page.handleEvent data

/-- `recoverViaHttp`, up to its request. -/
def recoverViaHttp (page : NotificationsSocket) : List Recovery :=
  (page.lastEventId.map Recovery.asked).toList

/-- One step. -/
def step (json : EventJSON Raw) (u : UUID) (s : Site Raw) : Label Raw → Option (Site Raw)
  | .xadd x =>
      if Admits json s.pump.stream.entries x then
        (s.pump.step (.xadd x)).map fun p => { s with pump := p }
      else none
  | .pump l =>
      match l with
      | .xadd _ | .dispatch => none
      | l => (s.pump.step l).map fun p => { s with pump := p }
  | .post now dropped =>
      match s.pump.call, s.pump.step .dispatch with
      | .ranging (msg :: _), some p =>
          match Subscriber.dispatch json now msg with
          | none => some { s with pump := p }
          | some m =>
              (s.hub.step (if dropped then .discard m else .publish m)).map fun h =>
                { s with pump := p, hub := h }
      | _, _ => none
  | .hub l => if s.Free l then (s.hub.step l).map fun h => { s with hub := h } else none
  | .connect addr =>
      match s.socket with
      | none =>
          if s.hub.register ⟨addr, u⟩ = .idle then
            some { s with socket := some ⟨⟨addr, u⟩, s.page.lastEventId, false, false, []⟩ }
          else none
      | some _ => none
  | .run fails =>
      match s.socket with
      | some k =>
          if k.running = false ∧ s.hub.register k.client = .returned then
            some { s with socket := some { k with
              running := true
              wire := backlog json u s.pump.stream.entries k.since fails } }
          else none
      | none => none
  | .write =>
      match s.socket with
      | some k =>
          match k.running, (s.hub.send k.client).recv with
          | true, some (raw, _) =>
              (s.hub.step (.write k.client)).map fun h =>
                { s with hub := h, socket := some { k with wire := k.wire ++ [raw] } }
          | _, _ => none
      | none => none
  | .opened => s.socket.map fun k => { s with socket := some { k with opened := true } }
  | .receive =>
      match s.socket with
      | some k =>
          match k.opened, k.wire with
          | true, raw :: rest =>
              some { s with
                socket := some { k with wire := rest }
                page := onMessage json s.page raw }
          | _, _ => none
      | none => none
  | .close =>
      s.socket.map fun k => { s with
        socket := none
        recoveries := if k.opened then s.recoveries else s.recoveries ++ recoverViaHttp s.page }
  | .cleanup => some { s with socket := none }
  | .reload => some { s with
      socket := none
      recoveries := []
      page := .load s.page.lastEventId s.page.handled }
  | .answer i fails =>
      match s.recoveries[i]? with
      | some (.asked id) =>
          let events := StreamPublisher.replayAfter json s.pump.stream.entries id recoveryLimit
          some { s with
            recoveries :=
              if fails then s.recoveries.eraseIdx i else s.recoveries.set i (.answered events) }
      | _ => none
  | .recover i =>
      match s.recoveries[i]? with
      | some (.answered events) => some { s with
          recoveries := s.recoveries.eraseIdx i
          page := events.foldl NotificationsSocket.handleEvent s.page }
      | _ => none

/-- **A connection whose cursor is resolved** gets these frames from
`Handler.handle`. -/
theorem backlog_resolved (json : EventJSON Raw) (u : UUID) (es : List (Entry Raw)) (id : UUID)
    (replay : Replayer) {since : String} (hs : since ≠ "") (fails : Bool)
    (hr : replay since wsReplayLimit =
      if fails then none else some (StreamPublisher.replayAfter json es id wsReplayLimit)) :
    Handler.backlog (some replay) json u since
        (StreamPublisher.replayAfter json es id wsReplayLimit).length =
      backlog json u es (some id) fails := by
  simp only [Handler.backlog, Handler.replayBacklog, backlog, if_pos hs, hr]
  cases fails <;> rfl

end Site

/-- The replica as it starts, on any stream, and the page with a cursor to an
event of the stream, or with none. -/
def site (json : EventJSON Raw) (u : UUID) : Machine (Site Raw) (Site.Label Raw) where
  init s := (pump Raw).init s.pump ∧ s.hub = Hub.new ∧ s.socket = none ∧ s.recoveries = [] ∧
    Decoded json s.pump.stream.entries ∧ ∃ lastEventId, s.page = .load lastEventId [] ∧
      ∀ id, lastEventId = some id → some id ∈ s.pump.stream.entries.map (eventID json)
  step := Site.step json u

end Notifications
end YtShare
