/-
# The life of a connection

`Client` of `backend/internal/modules/notifications/client.go` with the end of
`Handler.handle`, on top of the hub.  A client that `Register` has returned for runs
two goroutines: `readLoop` waits for the connection to fail, unregisters the client and
closes the connection; `writeLoop` takes the messages from the send channel, writes them
and pings, and closes the connection when a write fails or the channel is closed.  They
have no context that is ever done: each is ended by what the other does to the
connection, and by what the hub does to the channel.

`Notifications.Hub` lets anyone post a client to unregister and anyone receive from its
channel.  Here only the loops of the client do, at their places in the code, and a run of
the whole is a run of the hub (`hub_reachable`), so what holds of the hub holds here.

No client is forgotten (`none_forgotten`): one whose `readLoop` is past its `Unregister`
and that is in the registry is in the queue of the owner, or the hub is stopping.  And
every connection comes down (`comes_down`): once it has failed, or the hub has closed the
channel, both loops can return and the owner can drop the client, by their own steps.
-/

import YtShare.Notifications.HubDelivery

namespace YtShare
namespace Notifications

open Lib

/-! ### The loops -/

/-- A connection: it works; the peer is gone, has sent what is refused or has not answered
in time; it is closed on this side. -/
inductive Conn
  | up
  | lost
  | closed
deriving DecidableEq

/-- Where `readLoop` is: not started, in `ReadMessage`, at `Unregister`, at the `Close` that
was deferred, over. -/
inductive ReadLoop
  | notStarted
  | reading
  | unregistering
  | closing
  | returned
deriving DecidableEq

/-- Where `writeLoop` is: not started, at its `select`, in `WriteMessage`, at the `Close`
that was deferred, over. -/
inductive WriteLoop
  | notStarted
  | selecting
  | writing
  | closing
  | returned
deriving DecidableEq

/-- The connection of a client and its loops. -/
structure Loops where
  conn : Conn
  reader : ReadLoop
  writer : WriteLoop
deriving DecidableEq

/-- What happens at a connection. -/
inductive Act
  /-- `go client.Run` -/
  | start
  /-- the connection fails -/
  | lose
  /-- `ReadMessage` returns an error -/
  | read
  /-- the `select` of `Unregister` posts the client -/
  | unregister
  /-- the `select` of `Unregister` takes `<-h.stop` -/
  | unregisterStopped
  /-- `readLoop` closes the connection -/
  | readDone
  /-- the `select` of `writeLoop` takes a message -/
  | receive
  /-- the message is written -/
  | wrote
  /-- `WriteMessage` returns an error -/
  | writeFailed
  /-- the `select` takes the tick and the ping is written -/
  | pinged
  /-- the ping is not written -/
  | pingFailed
  /-- the `select` finds the channel closed; whether the close message is written makes no
  difference -/
  | sendClosed
  /-- `writeLoop` closes the connection -/
  | writeDone
deriving DecidableEq

variable {β : Type}

/-- The step of the hub that an act at client `c` is. -/
def Act.hubLabel (c : Client) : Act → Option (Hub.Label β)
  | .unregister => some (.unregister c)
  | .receive => some (.write c)
  | .start | .lose | .read | .unregisterStopped | .readDone | .wrote | .writeFailed | .pinged
  | .pingFailed | .sendClosed | .writeDone => none

/-- What an act makes of a connection.  Nothing is written to a connection that is closed;
a write to one that is lost may still succeed, and one to a slow peer may fail. -/
def Loops.act (h : Hub β) (c : Client) (k : Loops) : Act → Option Loops
  | .start =>
      if h.register c = .returned ∧ k.reader = .notStarted then
        some { k with reader := .reading, writer := .selecting }
      else none
  | .lose => if k.conn = .up then some { k with conn := .lost } else none
  | .read =>
      if k.reader = .reading ∧ k.conn ≠ .up then some { k with reader := .unregistering } else none
  | .unregister => if k.reader = .unregistering then some { k with reader := .closing } else none
  | .unregisterStopped =>
      if k.reader = .unregistering ∧ h.stop = true then some { k with reader := .closing }
      else none
  | .readDone =>
      if k.reader = .closing then some { k with conn := .closed, reader := .returned } else none
  | .receive => if k.writer = .selecting then some { k with writer := .writing } else none
  | .wrote =>
      if k.writer = .writing ∧ k.conn ≠ .closed then some { k with writer := .selecting } else none
  | .writeFailed => if k.writer = .writing then some { k with writer := .closing } else none
  | .pinged => if k.writer = .selecting ∧ k.conn ≠ .closed then some k else none
  | .pingFailed => if k.writer = .selecting then some { k with writer := .closing } else none
  | .sendClosed =>
      if k.writer = .selecting ∧ (h.send c).closed = true ∧ (h.send c).buf = [] then
        some { k with writer := .closing }
      else none
  | .writeDone =>
      if k.writer = .closing then some { k with conn := .closed, writer := .returned } else none

/-- The hub and the connections of its clients. -/
structure Clients (β : Type) where
  hub : Hub β
  loops : Client → Loops

namespace Clients

/-- One step: of a goroutine that is no loop of a client, or at the connection of one. -/
inductive Label (β : Type)
  | hub (l : Hub.Label β)
  | loops (c : Client) (a : Act)

/-- `NewHub`, and no connection yet. -/
def new : Clients β := ⟨Hub.new, fun _ => ⟨.up, .notStarted, .notStarted⟩⟩

/-- The steps of the hub that are no steps of a loop. -/
def shared : Hub.Label β → Bool
  | .unregister _ | .write _ => false
  | .register _ | .registerStopped _ | .registerReturn _ | .publish _ | .discard _ | .close
  | .takeStop _ | .takeRegister _ | .takeUnregister | .takeDispatch _ | .nextUser _ | .nextClient
  | .rangeDone => true

/-- The hub after an act. -/
def hubAfter (h : Hub β) (c : Client) (a : Act) : Option (Hub β) :=
  match a.hubLabel c with
  | none => some h
  | some l => h.step l

def step (s : Clients β) : Label β → Option (Clients β)
  | .hub l => if shared l then (s.hub.step l).map fun h => { s with hub := h } else none
  | .loops c a =>
      ((s.loops c).act s.hub c a).bind fun k =>
        (hubAfter s.hub c a).map fun h => ⟨h, Function.update s.loops c k⟩

end Clients

/-- A hub and its clients, from `NewHub` on. -/
def clients (β : Type) : Machine (Clients β) (Clients.Label β) where
  init s := s = .new
  step := Clients.step

/-! ### What the hub keeps -/

namespace Hub

/-- Closing, dropping and visiting a client leave the queue of those to unregister and the
stop flag alone, and add nobody to the registry. -/
theorem closeSend_keeps (h : Hub β) (c : Client) :
    (h.closeSend c).unregister = h.unregister ∧ (h.closeSend c).stop = h.stop ∧
      (h.closeSend c).registry = h.registry := by
  unfold closeSend
  split
  · exact ⟨rfl, rfl, rfl⟩
  · exact ⟨rfl, rfl, rfl⟩

/-- Dropping a client leaves the calls of `Unregister` and of `Close` as they are, and
the others registered. -/
theorem drop_keeps (h : Hub β) (c : Client) :
    (h.drop c).unregister = h.unregister ∧ (h.drop c).stop = h.stop ∧
      ∀ d, (h.drop c).registry.Has d ↔ d ≠ c ∧ h.registry.Has d := by
  unfold drop
  split_ifs with hc
  · exact ⟨(h.closeSend_keeps c).1, (h.closeSend_keeps c).2.1, fun d =>
      ClientRegistry.has_remove⟩
  · exact ⟨rfl, rfl, fun d => ⟨fun hd => ⟨fun hdc => hc (hdc ▸ hd), hd⟩, And.right⟩⟩

/-- Closing a buffer does not move the owner. -/
theorem closeSend_owner (h : Hub β) (c : Client) : (h.closeSend c).owner = h.owner := by
  unfold closeSend
  split
  · rfl
  · rfl

/-- Nor does dropping a client. -/
theorem drop_owner (h : Hub β) (c : Client) : (h.drop c).owner = h.owner := by
  unfold drop
  split_ifs
  · exact h.closeSend_owner c
  · rfl

/-- A visit leaves the calls as they are too, and registers nobody. -/
theorem visit_keeps (h : Hub β) (pass : Pass β) (c : Client) :
    (h.visit pass c).unregister = h.unregister ∧ (h.visit pass c).stop = h.stop ∧
      ∀ d, (h.visit pass c).registry.Has d → h.registry.Has d := by
  cases pass with
  | closeAll =>
    obtain ⟨hu, hs, hr⟩ := h.closeSend_keeps c
    exact ⟨hu, hs, fun d hd => hr ▸ hd⟩
  | deliver msg =>
    simp only [visit, deliver]
    split
    · exact ⟨rfl, rfl, fun _ hd => hd⟩
    · obtain ⟨hu, hs, hr⟩ := h.drop_keeps c
      exact ⟨hu, hs, fun d hd => ((hr d).1 hd).2⟩
    · exact ⟨rfl, rfl, fun _ hd => hd⟩

/-- What no step of the hub undoes for a client that has registered. -/
structure Keeps (h h' : Hub β) (c : Client) : Prop where
  returned : h'.register c = .returned
  stop : h.stop = true → h'.stop = true
  registry : h'.registry.Has c → h.registry.Has c
  queued : c ∈ h.unregister.buf → c ∈ h'.unregister.buf ∨ ¬h'.registry.Has c

/-- Nothing is undone where nothing happens. -/
theorem Keeps.refl {h : Hub β} {c : Client} (hc : h.register c = .returned) : h.Keeps h c :=
  ⟨hc, id, id, .inl⟩

/-- **No step of the hub undoes it:** a `Register` that has returned stays so, a hub
that stops goes on stopping, nobody is registered anew, and who waits in the queue of
`Unregister` stays there until it has left the registry. -/
theorem keeps_step {h h' : Hub β} {l : Label β} {c : Client} (hc : h.register c = .returned)
    (hs : h.step l = some h') : h.Keeps h' c := by
  have hupdate : ∀ d p, h.register d ≠ .returned →
      Function.update h.register d p c = .returned := by
    intro d p hd
    rw [Function.update_of_ne fun hcd => hd ((congrArg h.register hcd).symm.trans hc), hc]
  cases (step_eq_some hs).2 with
  | register hd => exact ⟨hupdate _ _ (by rw [hd]; decide), id, id, .inl⟩
  | @registerStopped d hd _ =>
    obtain ⟨hu, hstop, hr⟩ := h.closeSend_keeps d
    exact ⟨hupdate _ _ (by rw [hd]; decide), fun h => hstop ▸ h, fun h => hr ▸ h,
      fun h => .inl (hu ▸ h)⟩
  | registerReturn hd => exact ⟨hupdate _ _ (by rw [hd]; decide), id, id, .inl⟩
  | unregister hq =>
    refine ⟨hc, id, id, fun h => .inl ?_⟩
    rw [(Chan.trySend_eq_sent hq).2.2.1]
    exact List.mem_append_left _ h
  | publish _ | discard _ | write _ => exact ⟨hc, id, id, .inl⟩
  | close => exact ⟨hc, fun _ => rfl, id, .inl⟩
  | takeStop _ _ _ | takeDispatch _ _ _ | nextUser _ _ _ | dispatched _ =>
    exact ⟨hc, id, id, .inl⟩
  | exited _ => exact ⟨hc, id, id, .inl⟩
  | @takeRegister d _ hd =>
    refine ⟨hupdate _ _ (by rw [hd]; decide), id, fun h => ?_, .inl⟩
    refine (ClientRegistry.has_add.1 h).resolve_left fun hcd => ?_
    rw [← hcd, hc] at hd
    cases hd
  | @takeUnregister d q _ hq =>
    obtain ⟨hu, hstop, hr⟩ := h.drop_keeps d
    refine ⟨?_, fun h => hstop ▸ h, fun h => ((hr c).1 h).2, fun h => ?_⟩
    · exact (congrFun (h.drop_frame d).2 c).trans hc
    · rw [(Chan.recv_eq_some hq).1] at h
      rcases List.mem_cons.1 h with rfl | h
      · exact .inr fun hhas => ((hr c).1 hhas).1 rfl
      · exact .inl h
  | @nextClient pass us d cs _ =>
    obtain ⟨hu, hstop, hr⟩ := h.visit_keeps pass d
    exact ⟨(congrFun (h.visit_frame pass d).2 c).trans hc, fun h => hstop ▸ h, hr c,
      fun h => .inl (hu ▸ h)⟩

/-- The owner ends its loop only when the hub stops, and nobody closes the queue of those
to unregister. -/
structure Serving (h : Hub β) : Prop where
  stopping : ∀ us cs, h.owner = .ranging .closeAll us cs → h.stop = true
  exited : h.owner = .exited → h.stop = true
  isOpen : h.unregister.closed = false

/-- The owner of a new hub serves. -/
theorem serving_new : Serving (new : Hub β) :=
  ⟨fun _ _ h => (by cases h), fun h => (by cases h), rfl⟩

/-- And so does every owner, whatever the hub does. -/
theorem Serving.step {h h' : Hub β} {l : Label β} (hi : h.Serving) (hs : h.step l = some h') :
    h'.Serving := by
  cases (step_eq_some hs).2 with
  | register _ | registerReturn _ | publish _ | discard _ | write _ => exact ⟨hi.1, hi.2, hi.3⟩
  | @registerStopped d _ _ =>
    obtain ⟨hu, hstop, -⟩ := h.closeSend_keeps d
    exact ⟨fun us cs ho => hstop.trans (hi.1 us cs ((h.closeSend_owner d).symm.trans ho)),
      fun ho => hstop.trans (hi.2 ((h.closeSend_owner d).symm.trans ho)),
      (congrArg Chan.closed hu).trans hi.3⟩
  | unregister hq => exact ⟨hi.1, hi.2, (Chan.trySend_eq_sent hq).2.2.2⟩
  | close => exact ⟨fun _ _ _ => rfl, fun _ => rfl, hi.3⟩
  | takeStop _ hstop _ => exact ⟨fun _ _ _ => hstop, fun _ => hstop, hi.3⟩
  | takeRegister _ _ => exact ⟨hi.1, hi.2, hi.3⟩
  | @takeUnregister d q ho hq =>
    have howner : (h.drop d).owner = .selecting := (h.drop_owner d).trans ho
    exact ⟨fun us cs h => (by cases howner.symm.trans h), fun h => (by cases howner.symm.trans h),
      (Chan.recv_eq_some hq).2.trans hi.3⟩
  | takeDispatch _ _ _ => exact ⟨fun _ _ h => (by cases h), fun h => (by cases h), hi.3⟩
  | @nextUser pass u us clients ho _ _ =>
    refine ⟨fun us' cs' h => ?_, fun h => (by cases h), hi.3⟩
    cases h
    exact hi.1 _ _ ho
  | @nextClient pass us d cs ho =>
    obtain ⟨hu, hstop, -⟩ := h.visit_keeps pass d
    refine ⟨fun us' cs' h' => ?_, fun h' => (by cases h'), (congrArg Chan.closed hu).trans hi.3⟩
    cases h'
    exact hstop.trans (hi.1 _ _ ho)
  | dispatched _ => exact ⟨fun _ _ h => (by cases h), fun h => (by cases h), hi.3⟩
  | exited ho => exact ⟨fun _ _ h => (by cases h), fun _ => hi.1 _ _ ho, hi.3⟩

end Hub

/-! ### The invariant -/

/-- What holds of a client and its connection. -/
structure Loops.Sound (h : Hub β) (c : Client) (k : Loops) : Prop where
  registered : k.reader ≠ .notStarted → h.register c = .returned
  together : k.reader = .notStarted ↔ k.writer = .notStarted
  posted : k.reader = .closing ∨ k.reader = .returned → h.registry.Has c →
    c ∈ h.unregister.buf ∨ h.stop = true
  closed : k.reader = .returned ∨ k.writer = .returned → k.conn = .closed

/-- Nothing that the hub does unsettles a client. -/
theorem Loops.Sound.mono {h h' : Hub β} {c : Client} {k : Loops} (hi : k.Sound h c)
    (hk : h.register c = .returned → h.Keeps h' c) : k.Sound h' c := by
  refine ⟨fun hr => (hk (hi.registered hr)).returned, hi.together, fun hr hhas => ?_, hi.closed⟩
  have hkeeps := hk (hi.registered (by rcases hr with hr | hr <;> rw [hr] <;> decide))
  rcases hi.posted hr (hkeeps.registry hhas) with hmem | hstop
  · exact .inl ((hkeeps.queued hmem).resolve_right fun hno => hno hhas)
  · exact .inr (hkeeps.stop hstop)

/-- `writeLoop` goes on in its loop. -/
theorem Loops.Sound.writing {h : Hub β} {c : Client} {conn : Conn} {reader : ReadLoop}
    {w w' : WriteLoop} (hi : (⟨conn, reader, w⟩ : Loops).Sound h c) (hw : w ≠ .notStarted)
    (hw' : w' ≠ .notStarted) (hreturned : w' ≠ .returned) :
    (⟨conn, reader, w'⟩ : Loops).Sound h c := by
  refine ⟨hi.registered, iff_of_false (fun hr => hw (hi.together.1 hr)) hw', hi.posted,
    fun hr => hi.closed (.inl (hr.resolve_right hreturned))⟩

/-- `readLoop` goes on to its end. -/
theorem Loops.Sound.reading {h : Hub β} {c : Client} {conn : Conn} {w : WriteLoop}
    {r r' : ReadLoop} (hi : (⟨conn, r, w⟩ : Loops).Sound h c) (hr : r ≠ .notStarted)
    (hr' : r' ≠ .notStarted) (hreturned : r' ≠ .returned)
    (hposted : r' = .closing → h.registry.Has c → c ∈ h.unregister.buf ∨ h.stop = true) :
    (⟨conn, r', w⟩ : Loops).Sound h c :=
  ⟨fun _ => hi.registered hr, iff_of_false hr' fun hw => hr (hi.together.2 hw),
    fun h => hposted (h.resolve_right hreturned),
    fun h => hi.closed (.inr (h.resolve_left hreturned))⟩

/-- **What an act keeps**, with what it does to the hub. -/
theorem Loops.Sound.act {h h' : Hub β} {c : Client} {k k' : Loops} {a : Act}
    (hi : k.Sound h c) (ha : k.act h c a = some k') (hh : Clients.hubAfter h c a = some h') :
    k'.Sound h' c := by
  have hkeeps : h.register c = .returned → h.Keeps h' c := by
    intro hc
    unfold Clients.hubAfter at hh
    split at hh
    · obtain rfl := Option.some.inj hh
      exact .refl hc
    · exact Hub.keeps_step hc hh
  have hmono := hi.mono hkeeps
  obtain ⟨conn, reader, writer⟩ := k
  cases a with
  | start =>
    obtain ⟨⟨hc, -⟩, ha⟩ := Option.ite_none_right_eq_some.1 ha
    cases ha
    refine ⟨fun _ => (hkeeps hc).returned,
      iff_of_false (fun h => (by cases h)) fun h => (by cases h), fun hr => ?_, fun hr => ?_⟩
    · rcases hr with hr | hr <;> cases hr
    · rcases hr with hr | hr <;> cases hr
  | lose =>
    obtain ⟨hup, ha⟩ := Option.ite_none_right_eq_some.1 ha
    cases ha
    refine ⟨hmono.registered, hmono.together, hmono.posted, fun hr => ?_⟩
    cases hup.symm.trans (hmono.closed hr)
  | read =>
    obtain ⟨⟨hr, -⟩, ha⟩ := Option.ite_none_right_eq_some.1 ha
    cases ha
    cases hr
    exact hmono.reading (by decide) (by decide) (by decide) fun h => (by cases h)
  | unregister =>
    obtain ⟨hr, ha⟩ := Option.ite_none_right_eq_some.1 ha
    cases ha
    cases hr
    refine hmono.reading (by decide) (by decide) (by decide) fun _ _ => .inl ?_
    cases (Hub.step_eq_some hh).2 with
    | unregister hq =>
      have hbuf := (Chan.trySend_eq_sent hq).2.2.1
      exact hbuf ▸ List.mem_append_right _ (List.mem_singleton_self c)
  | unregisterStopped =>
    obtain ⟨⟨hr, hstop⟩, ha⟩ := Option.ite_none_right_eq_some.1 ha
    cases ha
    cases hr
    obtain rfl : h = h' := Option.some.inj hh
    exact hmono.reading (by decide) (by decide) (by decide) fun _ _ => .inr hstop
  | readDone =>
    obtain ⟨hr, ha⟩ := Option.ite_none_right_eq_some.1 ha
    cases ha
    cases hr
    refine ⟨fun _ => hmono.registered fun h => (by cases h), ?_,
      fun _ => hmono.posted (.inl rfl), fun _ => rfl⟩
    exact iff_of_false (fun h => (by cases h)) fun hw => (by cases hmono.together.2 hw)
  | writeDone =>
    obtain ⟨hw, ha⟩ := Option.ite_none_right_eq_some.1 ha
    cases ha
    cases hw
    refine ⟨hmono.registered, ?_, hmono.posted, fun _ => rfl⟩
    exact iff_of_false (fun hr => (by cases hmono.together.1 hr)) fun h => (by cases h)
  | pinged =>
    obtain ⟨-, ha⟩ := Option.ite_none_right_eq_some.1 ha
    cases ha
    exact hmono
  | receive =>
    obtain ⟨hw, ha⟩ := Option.ite_none_right_eq_some.1 ha
    cases ha
    cases hw
    exact hmono.writing (by decide) (by decide) (by decide)
  | wrote =>
    obtain ⟨⟨hw, -⟩, ha⟩ := Option.ite_none_right_eq_some.1 ha
    cases ha
    cases hw
    exact hmono.writing (by decide) (by decide) (by decide)
  | writeFailed | pingFailed =>
    obtain ⟨hw, ha⟩ := Option.ite_none_right_eq_some.1 ha
    cases ha
    cases hw
    exact hmono.writing (by decide) (by decide) (by decide)
  | sendClosed =>
    obtain ⟨⟨hw, -⟩, ha⟩ := Option.ite_none_right_eq_some.1 ha
    cases ha
    cases hw
    exact hmono.writing (by decide) (by decide) (by decide)

/-- A loop that has started has started. -/
theorem Loops.started_act {h : Hub β} {c : Client} {k k' : Loops} {a : Act}
    (hr : k.reader ≠ .notStarted) (ha : k.act h c a = some k') : k'.reader ≠ .notStarted := by
  cases a with
  | start =>
    obtain ⟨⟨-, hno⟩, -⟩ := Option.ite_none_right_eq_some.1 ha
    exact absurd hno hr
  | lose | receive | wrote | writeFailed | pinged | pingFailed | sendClosed | writeDone =>
    obtain ⟨-, ha⟩ := Option.ite_none_right_eq_some.1 ha
    cases ha
    exact hr
  | read | unregister | unregisterStopped | readDone =>
    obtain ⟨-, ha⟩ := Option.ite_none_right_eq_some.1 ha
    cases ha
    exact fun h => (by cases h)

namespace Clients

/-- The invariant. -/
structure Inv (s : Clients β) : Prop where
  hub : HubInv s.hub
  serving : s.hub.Serving
  sound : ∀ c, (s.loops c).Sound s.hub c

/-- **The step lemma.** -/
theorem Inv.step {s t : Clients β} {l : Label β} (hi : s.Inv)
    (hs : (clients β).step s l = some t) : t.Inv := by
  replace hs : s.step l = some t := hs
  cases l with
  | hub l =>
    obtain ⟨-, hs⟩ := Option.ite_none_right_eq_some.1 hs
    obtain ⟨h, hh, rfl⟩ := Option.map_eq_some_iff.1 hs
    exact ⟨hi.hub.step hh, hi.serving.step hh, fun c =>
      (hi.sound c).mono fun hc => Hub.keeps_step hc hh⟩
  | loops c a =>
    obtain ⟨k, hk, hs⟩ := Option.bind_eq_some_iff.1 hs
    obtain ⟨h, hh, rfl⟩ := Option.map_eq_some_iff.1 hs
    have hact : k.Sound h c := (hi.sound c).act hk hh
    have hothers : ∀ d, d ≠ c → (s.loops d).Sound h d := by
      intro d _
      refine (hi.sound d).mono fun hd => ?_
      unfold hubAfter at hh
      split at hh
      · exact Option.some.inj hh ▸ .refl hd
      · exact Hub.keeps_step hd hh
    have hhub : HubInv h ∧ h.Serving := by
      unfold hubAfter at hh
      split at hh
      · exact Option.some.inj hh ▸ ⟨hi.hub, hi.serving⟩
      · exact ⟨hi.hub.step hh, hi.serving.step hh⟩
    refine ⟨hhub.1, hhub.2, fun d => ?_⟩
    show (Function.update s.loops c k d).Sound h d
    rw [Function.update_apply]
    split_ifs with hd
    · exact hd ▸ hact
    · exact hothers d hd

/-- **The invariant** of the hub and the loops of its clients, in every reachable state. -/
theorem inv_of_reachable {s : Clients β} (hr : (clients β).Reachable s) : s.Inv := by
  refine Machine.invariant (fun s hs => ?_) (fun _ _ _ hi h => hi.step h) hr
  obtain rfl : s = _ := hs
  refine ⟨.new, Hub.serving_new, fun c => ⟨fun h => absurd rfl h, iff_of_true rfl rfl,
    fun h => ?_, fun h => ?_⟩⟩
  · rcases h with h | h <;> cases h
  · rcases h with h | h <;> cases h

/-- **A run of the whole is a run of the hub.** -/
theorem hub_reachable {s : Clients β} (hr : (clients β).Reachable s) :
    (Notifications.hub β).Reachable s.hub := by
  induction hr with
  | init hs => exact .init (congrArg Clients.hub (show _ = _ from hs))
  | @step s t l _ hs ih =>
    cases l with
    | hub l =>
      obtain ⟨-, hs⟩ := Option.ite_none_right_eq_some.1 hs
      obtain ⟨h, hh, rfl⟩ := Option.map_eq_some_iff.1 hs
      exact ih.step hh
    | loops c a =>
      obtain ⟨k, -, hs⟩ := Option.bind_eq_some_iff.1 hs
      obtain ⟨h, hh, rfl⟩ := Option.map_eq_some_iff.1 hs
      unfold hubAfter at hh
      split at hh
      · exact Option.some.inj hh ▸ ih
      · exact ih.step hh

/-! ### Coming down -/

/-- The steps that the owner takes while it serves the clients. -/
def serves : Hub.Label β → Bool
  | .takeUnregister | .takeDispatch _ | .nextUser _ | .nextClient | .rangeDone => true
  | .register _ | .registerStopped _ | .registerReturn _ | .unregister _ | .publish _
  | .discard _ | .close | .write _ | .takeStop _ | .takeRegister _ => false

/-- What the loops do by themselves: no write to a connection that works fails. -/
def own (conn : Conn) : Act → Bool
  | .start | .lose => false
  | .writeFailed | .pingFailed => decide (conn ≠ .up)
  | .read | .unregister | .unregisterStopped | .readDone | .receive | .wrote | .pinged
  | .sendClosed | .writeDone => true

/-- The steps of the owner and of the loops of client `c`. -/
def Alone (c : Client) (s : Clients β) : Label β → Prop
  | .hub l => serves l = true
  | .loops d a => d = c ∧ own (s.loops c).conn a = true

/-- Both loops are over, the connection is closed, and the owner has dropped the client
unless the hub stops. -/
structure Down (c : Client) (s : Clients β) : Prop where
  reader : (s.loops c).reader = .returned
  writer : (s.loops c).writer = .returned
  conn : (s.loops c).conn = .closed
  dropped : ¬s.hub.registry.Has c ∨ s.hub.stop = true

/-- An act of the loops of `c` that is no step of the hub. -/
theorem can_act {c : Client} {s : Clients β} {a : Act} {k : Loops} {Q : Clients β → Prop}
    (hk : (s.loops c).act s.hub c a = some k) (hl : a.hubLabel c = (none : Option (Hub.Label β)))
    (ha : Alone c s (.loops c a))
    (hq : (clients β).Can (Alone c) ⟨s.hub, Function.update s.loops c k⟩ Q) :
    (clients β).Can (Alone c) s Q := by
  have hafter : hubAfter s.hub c a = some s.hub := by rw [hubAfter, hl]
  have hs : (clients β).step s (.loops c a) =
      some ⟨s.hub, Function.update s.loops c k⟩ := by
    show s.step (.loops c a) = _
    rw [step, hk, Option.bind_some, hafter]
    rfl
  exact .step hs ha hq

/-- An act of the loops of `c` that is a step of the hub. -/
theorem can_act_hub {c : Client} {s : Clients β} {a : Act} {k : Loops} {l : Hub.Label β}
    {h : Hub β} {Q : Clients β → Prop} (hk : (s.loops c).act s.hub c a = some k)
    (hl : a.hubLabel c = some l) (hh : s.hub.step l = some h) (ha : Alone c s (.loops c a))
    (hq : (clients β).Can (Alone c) ⟨h, Function.update s.loops c k⟩ Q) :
    (clients β).Can (Alone c) s Q := by
  have hafter : hubAfter s.hub c a = some h := by rw [hubAfter, hl]; exact hh
  have hs : (clients β).step s (.loops c a) = some ⟨h, Function.update s.loops c k⟩ := by
    show s.step (.loops c a) = _
    rw [step, hk, Option.bind_some, hafter]
    rfl
  exact .step hs ha hq

/-- The steps of the owner leave the connections alone. -/
theorem can_of_ownerCan {c : Client} {s : Clients β} {Q : Hub β → Prop} (h : s.hub.OwnerCan Q) :
    (clients β).Can (Alone c) s fun t => Q t.hub ∧ t.loops = s.loops := by
  obtain ⟨ls, h', hls, hrun, hq⟩ := h
  induction ls generalizing s with
  | nil =>
    obtain rfl := Option.some.inj hrun
    exact .here ⟨hq, rfl⟩
  | cons l ls ih =>
    obtain ⟨h₁, hstep, hrun'⟩ := Option.bind_eq_some_iff.1 hrun
    obtain ⟨hl, hls'⟩ := List.forall_mem_cons.1 hls
    have hserves : shared l = true ∧ serves l = true := by
      cases l with
      | takeDispatch _ | nextUser _ | nextClient | rangeDone => exact ⟨rfl, rfl⟩
      | _ => cases hl
    have hs : (clients β).step s (.hub l) = some { s with hub := h₁ } := by
      show s.step (.hub l) = _
      have hh : s.hub.step l = some h₁ := hstep
      rw [step, if_pos hserves.1, hh]
      rfl
    exact .step hs hserves.2 (ih (s := { s with hub := h₁ }) hls' hrun')

variable {c : Client} {s : Clients β}

/-- The `Close` that `writeLoop` deferred. -/
theorem can_writeDone (hw : (s.loops c).writer = .closing) :
    (clients β).Can (Alone c) s fun t => (t.loops c).writer = .returned := by
  refine can_act (a := .writeDone) (if_pos hw) rfl ⟨rfl, rfl⟩ (.here ?_)
  show (Function.update s.loops c _ c).writer = _
  rw [Function.update_self]

/-- The messages that are left in a channel that is closed are written, and then
`writeLoop` ends. -/
theorem can_drain_writer (hp : s.hub.panicked = false) (hw : (s.loops c).writer = .selecting)
    (hup : (s.loops c).conn = .up) (hclosed : (s.hub.send c).closed = true) :
    (clients β).Can (Alone c) s fun t => (t.loops c).writer = .returned := by
  induction hn : (s.hub.send c).buf.length generalizing s with
  | zero =>
    have hbuf : (s.hub.send c).buf = [] := List.length_eq_zero_iff.1 hn
    refine can_act (a := .sendClosed) (if_pos ⟨hw, hclosed, hbuf⟩) rfl ⟨rfl, rfl⟩ ?_
    refine can_writeDone ?_
    show (Function.update s.loops c _ c).writer = _
    rw [Function.update_self]
  | succ n ih =>
    obtain ⟨⟨x, ch⟩, hrecv⟩ : ∃ p, (s.hub.send c).recv = some p := by
      refine Option.ne_none_iff_exists'.1 fun hnone => ?_
      rw [Chan.recv_eq_none hnone] at hn
      cases hn
    obtain ⟨hbuf, hch⟩ := Chan.recv_eq_some hrecv
    have hstep : s.hub.step (.write c) = some (s.hub.setSend c ch) := by
      rw [Hub.step_of_safe hp, Hub.move, hrecv]
    refine can_act_hub (a := .receive) (if_pos hw) rfl hstep ⟨rfl, rfl⟩ ?_
    -- the connection works, so that the message is written
    have hk : ∀ h (f : Client → Loops) k, (⟨h, Function.update f c k⟩ : Clients β).loops c = k :=
      fun h f k => Function.update_self ..
    have hopen : (s.loops c).conn ≠ .closed := by rw [hup]; decide
    refine can_act (a := .wrote) (if_pos ⟨by rw [hk], by rw [hk]; exact hopen⟩) rfl ⟨rfl, rfl⟩ ?_
    have hsend : (s.hub.setSend c ch).send c = ch := s.hub.setSend_self c ch
    refine ih hp (by rw [hk]) (by rw [hk, hk]; exact hup) ?_ ?_
    · show ((s.hub.setSend c ch).send c).closed = true
      rw [hsend, hch, hclosed]
    · show ((s.hub.setSend c ch).send c).buf.length = n
      rw [hbuf, List.length_cons] at hn
      rw [hsend]
      omega

/-- **`writeLoop` ends** once the connection has failed or the channel is closed. -/
theorem can_end_writer (hp : s.hub.panicked = false)
    (hstarted : (s.loops c).writer ≠ .notStarted)
    (hbroken : (s.loops c).conn ≠ .up ∨ (s.hub.send c).closed = true) :
    (clients β).Can (Alone c) s fun t => (t.loops c).writer = .returned := by
  have hk : ∀ k, (⟨s.hub, Function.update s.loops c k⟩ : Clients β).loops c = k :=
    fun k => Function.update_self ..
  by_cases hup : (s.loops c).conn = .up
  · have hclosed := hbroken.resolve_left fun hne => hne hup
    cases hw : (s.loops c).writer with
    | notStarted => exact absurd hw hstarted
    | selecting => exact can_drain_writer hp hw hup hclosed
    | writing =>
      refine can_act (a := .wrote) (if_pos ⟨hw, by rw [hup]; decide⟩) rfl ⟨rfl, rfl⟩ ?_
      exact can_drain_writer hp (by rw [hk]) (by rw [hk]; exact hup) hclosed
    | closing => exact can_writeDone hw
    | returned => exact .here hw
  · cases hw : (s.loops c).writer with
    | notStarted => exact absurd hw hstarted
    | selecting =>
      refine can_act (a := .pingFailed) (if_pos hw) rfl ⟨rfl, decide_eq_true hup⟩ ?_
      exact can_writeDone (by rw [hk])
    | writing =>
      refine can_act (a := .writeFailed) (if_pos hw) rfl ⟨rfl, decide_eq_true hup⟩ ?_
      exact can_writeDone (by rw [hk])
    | closing => exact can_writeDone hw
    | returned => exact .here hw

/-- The owner of a hub that does not stop comes back to its `select`. -/
theorem can_select (hi : s.Inv) (hstop : s.hub.stop = false) :
    (clients β).Can (Alone c) s fun t => t.Inv ∧ t.hub.owner = .selecting ∧
      t.loops = s.loops := by
  have howner : s.hub.OwnerCan fun h => h.owner = .selecting := by
    cases ho : s.hub.owner with
    | selecting => exact .here ho
    | exited => exact absurd (hi.serving.exited ho) (by rw [hstop]; exact Bool.false_ne_true)
    | ranging pass us cs =>
      cases pass with
      | closeAll =>
        exact absurd (hi.serving.stopping us cs ho) (by rw [hstop]; exact Bool.false_ne_true)
      | deliver msg =>
        obtain ⟨ls, h, hls, hrun, -, hsel, -⟩ := hi.hub.range_ends us cs ho
        exact ⟨ls, h, hls, hrun, hsel⟩
  exact (can_of_ownerCan howner).keep (I := Inv) (fun _ _ _ hi _ h => hi.step h) hi

/-- The owner takes the next client to unregister. -/
theorem take_unregister (hi : s.Inv) (ho : s.hub.owner = .selecting)
    (hbuf : s.hub.unregister.buf ≠ []) :
    ∃ d q, s.hub.unregister.buf = d :: q.buf ∧
      (clients β).step s (.hub .takeUnregister) =
        some { s with hub := { s.hub.drop d with unregister := q } } := by
  obtain ⟨⟨d, q⟩, hq⟩ : ∃ p, s.hub.unregister.recv = some p :=
    Option.ne_none_iff_exists'.1 fun hnone => hbuf (Chan.recv_eq_none hnone)
  refine ⟨d, q, (Chan.recv_eq_some hq).1, ?_⟩
  have hstep : s.hub.step .takeUnregister = some { s.hub.drop d with unregister := q } := by
    rw [Hub.step_of_safe hi.hub.safe, Hub.move, ho, hq]
  show s.step (.hub .takeUnregister) = _
  rw [step, hstep]
  rfl

/-- The `Close` that `readLoop` deferred. -/
theorem can_readDone (hr : (s.loops c).reader = .closing) :
    (clients β).Can (Alone c) s fun t =>
      (t.loops c).reader = .returned ∧ (t.loops c).writer = (s.loops c).writer := by
  refine can_act (a := .readDone) (if_pos hr) rfl ⟨rfl, rfl⟩ (.here ?_)
  have hk : ∀ k, (⟨s.hub, Function.update s.loops c k⟩ : Clients β).loops c = k :=
    fun k => Function.update_self ..
  rw [hk]
  exact ⟨rfl, rfl⟩

/-- A queue with room takes the client. -/
theorem can_post (hi : s.Inv) (hr : (s.loops c).reader = .unregistering)
    (hroom : s.hub.unregister.isFull = false) :
    (clients β).Can (Alone c) s fun t =>
      (t.loops c).reader = .returned ∧ (t.loops c).writer = (s.loops c).writer := by
  have hstep : ∃ q, s.hub.step (.unregister c) = some { s.hub with unregister := q } := by
    rw [Hub.step_of_safe hi.hub.safe, Hub.move]
    cases hq : s.hub.unregister.trySend c with
    | sent q => exact ⟨q, rfl⟩
    | full =>
      exact absurd (Chan.trySend_eq_full hq).2 (by rw [hroom]; exact Bool.false_ne_true)
    | panic => exact absurd hq (Chan.trySend_ne_panic hi.serving.isOpen)
  obtain ⟨q, hstep⟩ := hstep
  refine can_act_hub (a := .unregister) (if_pos hr) rfl hstep ⟨rfl, rfl⟩ ?_
  have hk : ∀ h k, (⟨h, Function.update s.loops c k⟩ : Clients β).loops c = k :=
    fun h k => Function.update_self ..
  refine (can_readDone (by rw [hk])).trans fun t ht => .here ?_
  rw [ht.2, hk]
  exact ⟨ht.1, rfl⟩

/-- `Unregister` returns: the hub stops, or the owner makes room in the queue. -/
theorem can_unregister (hi : s.Inv) (hr : (s.loops c).reader = .unregistering) :
    (clients β).Can (Alone c) s fun t =>
      (t.loops c).reader = .returned ∧ (t.loops c).writer = (s.loops c).writer := by
  have hk : ∀ h k, (⟨h, Function.update s.loops c k⟩ : Clients β).loops c = k :=
    fun h k => Function.update_self ..
  cases hstop : s.hub.stop with
  | true =>
    refine can_act (a := .unregisterStopped) (if_pos ⟨hr, hstop⟩) rfl ⟨rfl, rfl⟩ ?_
    refine (can_readDone (by rw [hk])).trans fun t ht => .here ?_
    rw [ht.2, hk]
    exact ⟨ht.1, rfl⟩
  | false =>
    refine (can_select hi hstop).trans ?_
    rintro t ⟨hit, ho, hloops⟩
    rw [← hloops] at hr ⊢
    cases hfull : t.hub.unregister.isFull with
    | false => exact can_post hit hr hfull
    | true =>
      have hlength := (Chan.isFull_iff _).1 hfull
      have hbuf : t.hub.unregister.buf ≠ [] := fun hnil => by
        rw [hnil] at hlength
        cases hlength
      obtain ⟨d, q, hq, hstep⟩ := take_unregister hit ho hbuf
      refine .step hstep rfl (can_post (hit.step hstep) hr ?_)
      show q.isFull = false
      rw [hq, List.length_cons] at hlength
      refine Bool.eq_false_iff.2 fun h => ?_
      have := (Chan.isFull_iff q).1 h
      omega

/-- **`readLoop` ends** once the connection is closed. -/
theorem can_end_reader (hi : s.Inv) (hstarted : (s.loops c).reader ≠ .notStarted)
    (hclosed : (s.loops c).conn = .closed) :
    (clients β).Can (Alone c) s fun t =>
      (t.loops c).reader = .returned ∧ (t.loops c).writer = (s.loops c).writer := by
  have hk : ∀ h k, (⟨h, Function.update s.loops c k⟩ : Clients β).loops c = k :=
    fun h k => Function.update_self ..
  cases hr : (s.loops c).reader with
  | notStarted => exact absurd hr hstarted
  | reading =>
    have hread : (s.loops c).conn ≠ .up := by rw [hclosed]; decide
    have hact : (s.loops c).act s.hub c .read =
        some { s.loops c with reader := .unregistering } := if_pos ⟨hr, hread⟩
    have hstep : (clients β).step s (.loops c .read) = some ⟨s.hub,
        Function.update s.loops c { s.loops c with reader := .unregistering }⟩ := by
      show s.step (.loops c .read) = _
      rw [step, hact]
      rfl
    refine .step hstep ⟨rfl, rfl⟩ ?_
    refine (can_unregister (hi.step hstep) (by rw [hk])).trans fun t ht => .here ?_
    rw [ht.2, hk]
    exact ⟨ht.1, rfl⟩
  | unregistering => exact can_unregister hi hr
  | closing => exact can_readDone hr
  | returned => exact .here ⟨hr, rfl⟩

/-- The owner comes to the client in its queue. -/
theorem can_drain_queue (hi : s.Inv) (ho : s.hub.owner = .selecting)
    (hmem : c ∈ s.hub.unregister.buf) :
    (clients β).Can (Alone c) s fun t => ¬t.hub.registry.Has c ∧ t.loops = s.loops := by
  induction hn : s.hub.unregister.buf.length generalizing s with
  | zero => exact absurd (List.length_eq_zero_iff.1 hn) (List.ne_nil_of_mem hmem)
  | succ n ih =>
    obtain ⟨d, q, hq, hstep⟩ := take_unregister hi ho (List.ne_nil_of_mem hmem)
    refine .step hstep rfl ?_
    obtain ⟨-, -, hhas⟩ := s.hub.drop_keeps d
    by_cases hd : c = d
    · exact .here ⟨fun h => ((hhas c).1 h).1 hd, rfl⟩
    · have hmem' : c ∈ q.buf := by
        rw [hq] at hmem
        exact (List.mem_cons.1 hmem).resolve_left hd
      have howner : (s.hub.drop d).owner = .selecting := (s.hub.drop_owner d).trans ho
      have hlength : q.buf.length = n := by
        rw [hq, List.length_cons] at hn
        omega
      exact ih (hi.step hstep) howner hmem' hlength

/-- **The owner drops the client** whose `readLoop` is over, unless the hub stops. -/
theorem can_drop (hi : s.Inv) (hr : (s.loops c).reader = .returned) :
    (clients β).Can (Alone c) s fun t =>
      (¬t.hub.registry.Has c ∨ t.hub.stop = true) ∧ t.loops = s.loops := by
  cases hstop : s.hub.stop with
  | true => exact .here ⟨.inr hstop, rfl⟩
  | false =>
    refine (can_select hi hstop).trans ?_
    rintro t ⟨hit, ho, hloops⟩
    by_cases hhas : t.hub.registry.Has c
    · rcases (hit.sound c).posted (.inr (by rw [hloops]; exact hr)) hhas with hmem | hstop
      · exact (can_drain_queue hit ho hmem).trans fun u hu =>
          .here ⟨.inl hu.1, hu.2.trans hloops⟩
      · exact .here ⟨.inr hstop, hloops⟩
    · exact .here ⟨.inl hhas, hloops⟩

/-- A loop that has started has started. -/
theorem started_step {t : Clients β} {l : Label β} (hr : (s.loops c).reader ≠ .notStarted)
    (hs : (clients β).step s l = some t) : (t.loops c).reader ≠ .notStarted := by
  replace hs : s.step l = some t := hs
  cases l with
  | hub l =>
    obtain ⟨-, hs⟩ := Option.ite_none_right_eq_some.1 hs
    obtain ⟨h, -, rfl⟩ := Option.map_eq_some_iff.1 hs
    exact hr
  | loops d a =>
    obtain ⟨k, hk, hs⟩ := Option.bind_eq_some_iff.1 hs
    obtain ⟨h, -, rfl⟩ := Option.map_eq_some_iff.1 hs
    show (Function.update s.loops d k c).reader ≠ _
    rw [Function.update_apply]
    split_ifs with hd
    · exact Loops.started_act (hd ▸ hr) hk
    · exact hr

/-- No client is forgotten, and no loop leaves a connection open. -/
def NoneForgotten (s : Clients β) : Prop :=
  ∀ c, ((s.loops c).reader = .closing ∨ (s.loops c).reader = .returned →
      s.hub.registry.Has c → c ∈ s.hub.unregister.buf ∨ s.hub.stop = true) ∧
    ((s.loops c).reader = .returned ∨ (s.loops c).writer = .returned →
      (s.loops c).conn = .closed)

end Clients

/-- **No client is forgotten.**  In every run, however the goroutines interleave: a client
whose `readLoop` has called `Unregister` and that is still in the registry is in the queue
of the owner, or the hub stops; and when one of its loops is over its connection is
closed, so that the other one will find out. -/
theorem none_forgotten (run : List (Clients.Label β)) :
    (clients β).Always Clients.NoneForgotten .new run :=
  (Machine.always_of_invariant (fun _ _ _ hi h => Clients.Inv.step hi h)
    (Clients.inv_of_reachable (.init rfl)) run).mono fun _ hi c =>
      ⟨(hi.sound c).posted, (hi.sound c).closed⟩

/-- **Every connection comes down.**  In every state that can be reached, once the
connection of a client has failed or its channel is closed, steps of its two loops and of
the owner alone lead to where both loops are over, the connection is closed, and the
client is not in the registry or the hub stops. -/
theorem comes_down {s : Clients β} (hr : (clients β).Reachable s) {c : Client}
    (hstarted : (s.loops c).reader ≠ .notStarted)
    (hbroken : (s.loops c).conn ≠ .up ∨ (s.hub.send c).closed = true) :
    (clients β).Can (Clients.Alone c) s (Clients.Down c) := by
  have hkeep : ∀ {Q : Clients β → Prop} {t : Clients β}, t.Inv ∧ (t.loops c).reader ≠ .notStarted →
      (clients β).Can (Clients.Alone c) t Q → (clients β).Can (Clients.Alone c) t fun u =>
        (u.Inv ∧ (u.loops c).reader ≠ .notStarted) ∧ Q u := fun ht h =>
    h.keep (fun _ _ _ hi _ hs => ⟨hi.1.step hs, Clients.started_step hi.2 hs⟩) ht
  have hi := Clients.inv_of_reachable hr
  have hwriter : (s.loops c).writer ≠ .notStarted := fun h =>
    hstarted ((hi.sound c).together.2 h)
  refine (hkeep ⟨hi, hstarted⟩ (Clients.can_end_writer hi.hub.safe hwriter hbroken)).trans ?_
  rintro t ⟨hit, hwt⟩
  have hclosed := (hit.1.sound c).closed (.inr hwt)
  refine (hkeep hit (Clients.can_end_reader hit.1 hit.2 hclosed)).trans ?_
  rintro u ⟨hiu, hru, hwu⟩
  refine (Clients.can_drop hiu.1 hru).trans ?_
  rintro v ⟨hdropped, hloops⟩
  refine .here ⟨hloops ▸ hru, hloops ▸ hwu.trans hwt, ?_, hdropped⟩
  exact hloops ▸ (hiu.1.sound c).closed (.inl hru)

/-- A client registers, its loops start, and its peer goes away. -/
def lostRun : List (Clients.Label ℕ) :=
  [.hub (.register ⟨0, ⟨7⟩⟩), .hub (.takeRegister ⟨0, ⟨7⟩⟩), .hub (.registerReturn ⟨0, ⟨7⟩⟩),
    .loops ⟨0, ⟨7⟩⟩ .start, .loops ⟨0, ⟨7⟩⟩ .lose]

/-- `comes_down` after `lostRun`. -/
theorem comes_down_lostRun :
    ∃ s, (clients ℕ).exec .new lostRun = some s ∧
      (clients ℕ).Can (Clients.Alone ⟨0, ⟨7⟩⟩) s (Clients.Down ⟨0, ⟨7⟩⟩) := by
  have hend : ((clients ℕ).exec .new lostRun).any (fun s => decide
      ((s.loops ⟨0, ⟨7⟩⟩).reader ≠ .notStarted ∧ (s.loops ⟨0, ⟨7⟩⟩).conn ≠ .up)) := by decide
  obtain ⟨s, hs, hdec⟩ := (Option.any_eq_true _ _).1 hend
  obtain ⟨hstarted, hlost⟩ := of_decide_eq_true hdec
  exact ⟨s, hs, comes_down (Machine.reachable_of_exec rfl hs) hstarted (.inl hlost)⟩

end Notifications
end YtShare
