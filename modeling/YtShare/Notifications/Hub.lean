/-
# The hub

`backend/internal/modules/notifications/hub.go`, with the send channel of
`client.go`.  The hub fans messages out to the WebSocket clients registered
with it.  One goroutine, the owner (`Hub.run`), changes the client registry;
every other goroutine posts to it over channels.

The state holds the channels, the registry and where the owner is in its code;
a label says which goroutine moves and how the runtime resolves its choices:
the ready case a `select` takes, and the order in which a `range` visits a map.
A dispatch is not one step.  The owner visits one client at a time
(`Label.nextClient`), and writers, publishers and registrations move in
between.  A `range` over a map visits each entry that is in the map when it
starts, once, unless it is removed before it is reached; both ranges of
`clientRegistry.dispatch` remove only the entry they are at, so the entries
still to visit are a list fixed when the range starts.

A send on a closed channel and a second `close` of a channel panic; then
`panicked` is set and the hub takes no further step.
-/

import YtShare.Lib.Chan
import YtShare.Lib.Machine
import YtShare.Core.UUID
import Mathlib.Data.Finset.Card
import Mathlib.Data.List.AList

namespace YtShare
namespace Notifications

open Lib

/-- `broadcastBuffer`. -/
def broadcastBuffer : ℕ := 256

/-- The capacity `NewHub` gives the `unregister` channel. -/
def unregisterBuffer : ℕ := 16

/-- `sendBufferSize`. -/
def sendBufferSize : ℕ := 32

/-- A `*Client`: its address, which is its identity, and its `userID`. -/
structure Client where
  addr : ℕ
  userID : UUID
deriving DecidableEq

/-- `dispatchMsg`.  `recipient = UUID.nil` means broadcast. -/
structure DispatchMsg (β : Type) where
  recipient : UUID
  payload : β

/-- The message is for the clients of user `u`. -/
def DispatchMsg.addressed {β : Type} (m : DispatchMsg β) (u : UUID) : Bool :=
  decide (m.recipient = UUID.nil ∨ m.recipient = u)

/-! ### The client registry -/

/-- `clientRegistry`, with the counter of the hub that it stores its total to. -/
structure ClientRegistry where
  byUser : AList fun _ : UUID => Finset Client
  total : ℤ
  count : ℤ

namespace ClientRegistry

/-- `newClientRegistry`. -/
def new : ClientRegistry := ⟨∅, 0, 0⟩

/-- `byUser[u]`, the empty set when the key is absent. -/
def clientsOf (r : ClientRegistry) (u : UUID) : Finset Client := (r.byUser.lookup u).getD ∅

/-- The client is in the registry. -/
def Has (r : ClientRegistry) (c : Client) : Prop := c ∈ r.clientsOf c.userID

instance (r : ClientRegistry) (c : Client) : Decidable (r.Has c) :=
  inferInstanceAs (Decidable (c ∈ r.clientsOf c.userID))

/-- `clientRegistry.add`. -/
def add (r : ClientRegistry) (c : Client) : ClientRegistry :=
  let byUser := match r.byUser.lookup c.userID with
    | none => r.byUser.insert c.userID ∅
    | some _ => r.byUser
  let set := (byUser.lookup c.userID).getD ∅
  if c ∈ set then { r with byUser := byUser }
  else
    { byUser := byUser.insert c.userID (insert c set), total := r.total + 1, count := r.total + 1 }

/-- What `clientRegistry.drop` does to the maps and counters of a client that
is in the registry; the close of its channel is `Hub.drop`. -/
def remove (r : ClientRegistry) (c : Client) : ClientRegistry :=
  let set := (r.clientsOf c.userID).erase c
  { byUser := if set = ∅ then r.byUser.erase c.userID else r.byUser.insert c.userID set
    total := r.total - 1
    count := r.total - 1 }

/-- The keys of a registry are the users with a set of clients. -/
theorem clientsOf_of_not_mem {r : ClientRegistry} {u : UUID} (hu : u ∉ r.byUser) :
    r.clientsOf u = ∅ := by
  rw [clientsOf, AList.lookup_eq_none.2 hu, Option.getD_none]

/-- A registered client has its user among the users of the registry. -/
theorem mem_of_has {r : ClientRegistry} {c : Client} (hc : r.Has c) : c.userID ∈ r.byUser := by
  by_contra hu
  rw [Has, clientsOf_of_not_mem hu] at hc
  exact Finset.notMem_empty c hc

/-- `add` puts the client into the set of its user, and leaves the sets of the others. -/
theorem clientsOf_add (r : ClientRegistry) (c : Client) (u : UUID) :
    (r.add c).clientsOf u = if u = c.userID then insert c (r.clientsOf u) else r.clientsOf u := by
  unfold add clientsOf
  by_cases hu : u = c.userID
  · subst hu
    cases hl : r.byUser.lookup c.userID with
    | none => simp
    | some set =>
      by_cases hc : c ∈ set
      · simp [hl, hc]
      · simp [hl, hc]
  · rw [if_neg hu]
    cases hl : r.byUser.lookup c.userID <;> simp only <;> split_ifs <;>
      simp [AList.lookup_insert_ne hu]

/-- `remove` takes the client out of the set of its user, and leaves the sets of the
others. -/
theorem clientsOf_remove (r : ClientRegistry) (c : Client) (u : UUID) :
    (r.remove c).clientsOf u =
      if u = c.userID then (r.clientsOf u).erase c else r.clientsOf u := by
  simp only [remove]
  by_cases hu : u = c.userID
  · subst hu
    rw [if_pos rfl]
    split_ifs with he
    · rw [he, clientsOf, AList.lookup_erase, Option.getD_none]
    · rw [clientsOf, AList.lookup_insert, Option.getD_some]
  · rw [if_neg hu]
    split_ifs
    · rw [clientsOf, AList.lookup_erase_ne hu, clientsOf]
    · rw [clientsOf, AList.lookup_insert_ne hu, clientsOf]

/-- After `add` the client is registered, with those that were. -/
theorem has_add {r : ClientRegistry} {c d : Client} : (r.add c).Has d ↔ d = c ∨ r.Has d := by
  unfold Has
  rw [clientsOf_add]
  split_ifs with hu
  · rw [Finset.mem_insert]
  · exact ⟨.inr, fun h => h.resolve_left fun hd => hu (by rw [hd])⟩

/-- After `remove` the others are still registered, and the client is not. -/
theorem has_remove {r : ClientRegistry} {c d : Client} :
    (r.remove c).Has d ↔ d ≠ c ∧ r.Has d := by
  unfold Has
  rw [clientsOf_remove]
  split_ifs with hu
  · rw [Finset.mem_erase]
  · exact ⟨fun h => ⟨fun hd => hu (by rw [hd]), h⟩, And.right⟩

/-- `add` enters the user of the client, and nobody else. -/
theorem mem_byUser_add {r : ClientRegistry} {c : Client} {u : UUID} :
    u ∈ (r.add c).byUser ↔ u = c.userID ∨ u ∈ r.byUser := by
  unfold add
  cases hl : r.byUser.lookup c.userID with
  | none => simp only; split_ifs <;> simp [AList.mem_insert]
  | some set =>
    have hm : c.userID ∈ r.byUser := AList.lookup_isSome.1 (by rw [hl]; rfl)
    simp only
    split_ifs
    · exact ⟨.inr, fun h => h.elim (fun hu => hu ▸ hm) id⟩
    · rw [AList.mem_insert]

/-- `remove` strikes the user out with their last client only. -/
theorem mem_byUser_remove {r : ClientRegistry} {c : Client} {u : UUID}
    (hu : u ∈ (r.remove c).byUser) :
    u = c.userID ∧ (r.clientsOf u).erase c ≠ ∅ ∨ u ≠ c.userID ∧ u ∈ r.byUser := by
  simp only [remove] at hu
  split_ifs at hu with he
  · exact .inr ((AList.mem_erase).1 hu)
  · rcases AList.mem_insert _ |>.1 hu with rfl | hu
    · exact .inl ⟨rfl, he⟩
    · by_cases hc : u = c.userID
      · exact .inl ⟨hc, by rw [hc]; exact he⟩
      · exact .inr ⟨hc, hu⟩

end ClientRegistry

/-! ### The hub and its owner -/

/-- How far a client's call of `Hub.Register` is: not made, at its `select`,
waiting on the acknowledged `ack` channel, returned. -/
inductive RegisterCall
  | idle
  | selecting
  | acked
  | returned
deriving DecidableEq

/-- What the owner does to each client while it ranges over the registry: hand
it a message (`clientRegistry.dispatch`) or close its channel
(`clientRegistry.closeAll`). -/
inductive Pass (β : Type)
  | deliver (msg : DispatchMsg β)
  | closeAll

/-- Where the owner goroutine is: at its `select`; ranging, with the users of
the outer range and the clients of the inner range still to visit; or gone. -/
inductive Owner (β : Type)
  | selecting
  | ranging (pass : Pass β) (users : List UUID) (clients : List Client)
  | exited

/-- `Hub`, with the send channels and the `Register` calls of its clients. -/
structure Hub (β : Type) where
  unregister : Chan Client unregisterBuffer
  dispatch : Chan (DispatchMsg β) broadcastBuffer
  stop : Bool
  done : Bool
  registry : ClientRegistry
  send : Client → Chan β sendBufferSize
  register : Client → RegisterCall
  owner : Owner β
  panicked : Bool

namespace Hub

variable {β : Type}

/-- `NewHub`, and the channel every `NewClient` makes. -/
def new : Hub β where
  unregister := Chan.make _ _
  dispatch := Chan.make _ _
  stop := false
  done := false
  registry := .new
  send := fun _ => Chan.make _ _
  register := fun _ => .idle
  owner := .selecting
  panicked := false

/-- `Hub.Count`. -/
def count (h : Hub β) : ℤ := h.registry.count

/-- The hub with another channel for client `c`. -/
def setSend (h : Hub β) (c : Client) (ch : Chan β sendBufferSize) : Hub β :=
  { h with send := Function.update h.send c ch }

/-- `close(c.send)`. -/
def closeSend (h : Hub β) (c : Client) : Hub β :=
  match (h.send c).close with
  | none => { h with panicked := true }
  | some ch => h.setSend c ch

/-- `clientRegistry.drop`. -/
def drop (h : Hub β) (c : Client) : Hub β :=
  if h.registry.Has c then { h.closeSend c with registry := h.registry.remove c } else h

/-- The body of the inner range of `clientRegistry.deliverTo`: `deliver`, and
`drop` when the client's buffer is full. -/
def deliver (h : Hub β) (c : Client) (payload : β) : Hub β :=
  match (h.send c).trySend payload with
  | .sent ch => h.setSend c ch
  | .full => h.drop c
  | .panic => { h with panicked := true }

/-- The body of the inner range, for either pass of the owner. -/
def visit (h : Hub β) (pass : Pass β) (c : Client) : Hub β :=
  match pass with
  | .deliver msg => h.deliver c msg.payload
  | .closeAll => h.closeSend c

/-- The users whose sets `clientRegistry.dispatch` ranges over: every key of
`byUser` for a broadcast, else the recipient when it is a key. -/
def targets (h : Hub β) (recipient : UUID) : List UUID :=
  if recipient = UUID.nil then h.registry.byUser.keys
  else if recipient ∈ h.registry.byUser then [recipient] else []

/-- The buffer that was set for the client. -/
theorem setSend_self (h : Hub β) (c : Client) (ch : Chan β sendBufferSize) :
    (h.setSend c ch).send c = ch :=
  Function.update_self ..

/-- Setting the buffer of one client leaves those of the others. -/
theorem setSend_of_ne (h : Hub β) {c d : Client} (ch : Chan β sendBufferSize) (hd : d ≠ c) :
    (h.setSend c ch).send d = h.send d :=
  Function.update_of_ne hd ..

/-- The targets of a message are the users of the registered clients that it is
addressed to. -/
theorem mem_targets {h : Hub β} {c : Client} (hc : h.registry.Has c) (msg : DispatchMsg β) :
    c.userID ∈ h.targets msg.recipient ↔ msg.addressed c.userID = true := by
  have hmem := ClientRegistry.mem_of_has hc
  unfold targets DispatchMsg.addressed
  rw [decide_eq_true_iff]
  split_ifs with hnil hkey
  · exact iff_of_true hmem (.inl hnil)
  · rw [List.mem_singleton]
    exact ⟨fun he => .inr he.symm, fun he => (he.resolve_left hnil).symm⟩
  · refine iff_of_false List.not_mem_nil fun he => hkey ?_
    rw [he.resolve_left hnil]
    exact hmem

/-- An open buffer is closed, and keeps its frames. -/
theorem closeSend_of_open {h : Hub β} {c : Client} (ho : (h.send c).closed = false) :
    h.closeSend c = h.setSend c ⟨(h.send c).buf, true, (h.send c).fits⟩ := by
  rw [closeSend, Chan.close_of_open ho]

/-- A client that is not registered is not dropped again, and nothing is closed twice. -/
theorem drop_of_not_has {h : Hub β} {c : Client} (hc : ¬h.registry.Has c) : h.drop c = h :=
  if_neg hc

/-- A registered client whose buffer is open is removed, and its buffer closed. -/
theorem drop_of_open {h : Hub β} {c : Client} (hc : h.registry.Has c)
    (ho : (h.send c).closed = false) :
    h.drop c = { h.setSend c ⟨(h.send c).buf, true, (h.send c).fits⟩ with
      registry := h.registry.remove c } := by
  rw [drop, if_pos hc, closeSend_of_open ho]

/-- **What `deliverTo` does to one client** whose channel is open: it appends
the payload to a buffer with room, and drops a client whose buffer is full. -/
theorem deliver_of_open {h : Hub β} {c : Client} (x : β) (ho : (h.send c).closed = false) :
    (∃ ch : Chan β sendBufferSize, (h.send c).isFull = false ∧ ch.buf = (h.send c).buf ++ [x] ∧
        ch.closed = false ∧ h.deliver c x = h.setSend c ch) ∨
      (h.send c).isFull = true ∧ h.deliver c x = h.drop c := by
  unfold deliver
  cases hs : (h.send c).trySend x with
  | sent ch =>
    obtain ⟨-, hf, hb, hc⟩ := Chan.trySend_eq_sent hs
    exact .inl ⟨ch, hf, hb, hc, rfl⟩
  | full => exact .inr ⟨(Chan.trySend_eq_full hs).2, rfl⟩
  | panic => exact absurd hs (Chan.trySend_ne_panic ho)

/-- Closing, dropping and visiting a client leave the dispatch queue and the
`Register` calls alone. -/
theorem closeSend_frame (h : Hub β) (c : Client) :
    (h.closeSend c).dispatch = h.dispatch ∧ (h.closeSend c).register = h.register := by
  unfold closeSend
  split <;> exact ⟨rfl, rfl⟩

/-- Dropping a client leaves the queue and the calls of `Register` as they are. -/
theorem drop_frame (h : Hub β) (c : Client) :
    (h.drop c).dispatch = h.dispatch ∧ (h.drop c).register = h.register := by
  unfold drop
  split_ifs
  · exact h.closeSend_frame c
  · exact ⟨rfl, rfl⟩

/-- So does a visit of a client in the loop over the users. -/
theorem visit_frame (h : Hub β) (pass : Pass β) (c : Client) :
    (h.visit pass c).dispatch = h.dispatch ∧ (h.visit pass c).register = h.register := by
  cases pass with
  | closeAll => exact h.closeSend_frame c
  | deliver msg =>
    simp only [visit, deliver]
    split
    · exact ⟨rfl, rfl⟩
    · exact h.drop_frame c
    · exact ⟨rfl, rfl⟩

/-- What a goroutine does next, and how the runtime resolves its choices. -/
inductive Label (β : Type)
  /-- a goroutine calls `Register(c)` -/
  | register (c : Client)
  /-- the `select` of `Register(c)` takes `<-h.stop` -/
  | registerStopped (c : Client)
  /-- `<-ack` returns in `Register(c)` -/
  | registerReturn (c : Client)
  /-- `Unregister(c)` posts the client -/
  | unregister (c : Client)
  /-- `publish` posts the message -/
  | publish (msg : DispatchMsg β)
  /-- `publish` discards the message: the queue is full, or the hub stops -/
  | discard (msg : DispatchMsg β)
  /-- `Close` closes `h.stop` -/
  | close
  /-- the `writeLoop` of `c` receives from `c.send` -/
  | write (c : Client)
  /-- the owner takes `<-h.stop` and starts `closeAll` in this order of users -/
  | takeStop (users : List UUID)
  /-- the owner takes the registration of `c` -/
  | takeRegister (c : Client)
  /-- the owner takes a client to unregister -/
  | takeUnregister
  /-- the owner takes a message and ranges over the users in this order -/
  | takeDispatch (users : List UUID)
  /-- the outer range comes to its next user, whose clients it visits in this order -/
  | nextUser (clients : List Client)
  /-- the inner range visits its next client -/
  | nextClient
  /-- both ranges are over -/
  | rangeDone

/-- One step of a hub that has not panicked. -/
def move (h : Hub β) : Label β → Option (Hub β)
  | .register c =>
      if h.register c = .idle then
        some { h with register := Function.update h.register c .selecting }
      else none
  | .registerStopped c =>
      if h.register c = .selecting ∧ h.stop = true then
        some { h.closeSend c with register := Function.update h.register c .returned }
      else none
  | .registerReturn c =>
      if h.register c = .acked then
        some { h with register := Function.update h.register c .returned }
      else none
  | .unregister c =>
      match h.unregister.trySend c with
      | .sent q => some { h with unregister := q }
      | _ => none
  | .publish msg =>
      match h.dispatch.trySend msg with
      | .sent q => some { h with dispatch := q }
      | _ => none
  | .discard _ => if h.dispatch.isFull = true ∨ h.stop = true then some h else none
  | .close => some { h with stop := true }
  | .write c =>
      match (h.send c).recv with
      | some (_, ch) => some (h.setSend c ch)
      | none => none
  | .takeStop users =>
      match h.owner with
      | .selecting =>
          if h.stop = true ∧ users.Perm h.registry.byUser.keys then
            some { h with owner := .ranging .closeAll users [] }
          else none
      | _ => none
  | .takeRegister c =>
      match h.owner with
      | .selecting =>
          if h.register c = .selecting then
            some { h with
              registry := h.registry.add c
              register := Function.update h.register c .acked }
          else none
      | _ => none
  | .takeUnregister =>
      match h.owner, h.unregister.recv with
      | .selecting, some (c, q) => some { h.drop c with unregister := q }
      | _, _ => none
  | .takeDispatch users =>
      match h.owner, h.dispatch.recv with
      | .selecting, some (msg, q) =>
          if users.Perm (h.targets msg.recipient) then
            some { h with dispatch := q, owner := .ranging (.deliver msg) users [] }
          else none
      | _, _ => none
  | .nextUser clients =>
      match h.owner with
      | .ranging pass (u :: us) [] =>
          if clients.Nodup ∧ clients.toFinset = h.registry.clientsOf u then
            some { h with owner := .ranging pass us clients }
          else none
      | _ => none
  | .nextClient =>
      match h.owner with
      | .ranging pass us (c :: cs) => some { h.visit pass c with owner := .ranging pass us cs }
      | _ => none
  | .rangeDone =>
      match h.owner with
      | .ranging (.deliver _) [] [] => some { h with owner := .selecting }
      | .ranging .closeAll [] [] =>
          some { h with
            registry := { h.registry with count := 0 }
            done := true
            owner := .exited }
      | _ => none

/-- One step of the hub and of the goroutines that use it.  A panic ends the
process. -/
def step (h : Hub β) (l : Label β) : Option (Hub β) :=
  if h.panicked = true then none else h.move l

/-- **What a step can do**, one constructor for each outcome. -/
inductive Stepped (h : Hub β) : Label β → Hub β → Prop
  | register {c} (hc : h.register c = .idle) :
      Stepped h (.register c) { h with register := Function.update h.register c .selecting }
  | registerStopped {c} (hc : h.register c = .selecting) (hs : h.stop = true) :
      Stepped h (.registerStopped c)
        { h.closeSend c with register := Function.update h.register c .returned }
  | registerReturn {c} (hc : h.register c = .acked) :
      Stepped h (.registerReturn c) { h with register := Function.update h.register c .returned }
  | unregister {c q} (hq : h.unregister.trySend c = .sent q) :
      Stepped h (.unregister c) { h with unregister := q }
  | publish {msg q} (hq : h.dispatch.trySend msg = .sent q) :
      Stepped h (.publish msg) { h with dispatch := q }
  | discard {msg} (hd : h.dispatch.isFull = true ∨ h.stop = true) : Stepped h (.discard msg) h
  | close : Stepped h .close { h with stop := true }
  | write {c x ch} (hw : (h.send c).recv = some (x, ch)) : Stepped h (.write c) (h.setSend c ch)
  | takeStop {users} (ho : h.owner = .selecting) (hs : h.stop = true)
      (hu : users.Perm h.registry.byUser.keys) :
      Stepped h (.takeStop users) { h with owner := .ranging .closeAll users [] }
  | takeRegister {c} (ho : h.owner = .selecting) (hc : h.register c = .selecting) :
      Stepped h (.takeRegister c) { h with
        registry := h.registry.add c
        register := Function.update h.register c .acked }
  | takeUnregister {c q} (ho : h.owner = .selecting) (hq : h.unregister.recv = some (c, q)) :
      Stepped h .takeUnregister { h.drop c with unregister := q }
  | takeDispatch {users msg q} (ho : h.owner = .selecting) (hq : h.dispatch.recv = some (msg, q))
      (hu : users.Perm (h.targets msg.recipient)) :
      Stepped h (.takeDispatch users)
        { h with dispatch := q, owner := .ranging (.deliver msg) users [] }
  | nextUser {pass u us clients} (ho : h.owner = .ranging pass (u :: us) [])
      (hn : clients.Nodup) (hc : clients.toFinset = h.registry.clientsOf u) :
      Stepped h (.nextUser clients) { h with owner := .ranging pass us clients }
  | nextClient {pass us c cs} (ho : h.owner = .ranging pass us (c :: cs)) :
      Stepped h .nextClient { h.visit pass c with owner := .ranging pass us cs }
  | dispatched {msg} (ho : h.owner = .ranging (.deliver msg) [] []) :
      Stepped h .rangeDone { h with owner := .selecting }
  | exited (ho : h.owner = .ranging .closeAll [] []) :
      Stepped h .rangeDone { h with
        registry := { h.registry with count := 0 }
        done := true
        owner := .exited }

/-- Every move of the hub is one of those that `Stepped` lists. -/
theorem stepped_of_move {h h' : Hub β} {l : Label β} (hm : h.move l = some h') :
    Stepped h l h' := by
  cases l <;> simp only [move] at hm
  case register c =>
    split_ifs at hm with hc
    cases hm; exact .register hc
  case registerStopped c =>
    split_ifs at hm with hc
    cases hm; exact .registerStopped hc.1 hc.2
  case registerReturn c =>
    split_ifs at hm with hc
    cases hm; exact .registerReturn hc
  case unregister c =>
    split at hm
    case h_1 q hq => cases hm; exact .unregister hq
    case h_2 => cases hm
  case publish msg =>
    split at hm
    case h_1 q hq => cases hm; exact .publish hq
    case h_2 => cases hm
  case discard msg =>
    split_ifs at hm with hd
    cases hm; exact .discard hd
  case close => cases hm; exact .close
  case write c =>
    split at hm
    case h_1 x ch hw => cases hm; exact .write hw
    case h_2 => cases hm
  case takeStop users =>
    split at hm
    case h_1 ho =>
      split_ifs at hm with hc
      cases hm; exact .takeStop ho hc.1 hc.2
    case h_2 => cases hm
  case takeRegister c =>
    split at hm
    case h_1 ho =>
      split_ifs at hm with hc
      cases hm; exact .takeRegister ho hc
    case h_2 => cases hm
  case takeUnregister =>
    split at hm
    case h_1 c q ho hq => cases hm; exact .takeUnregister ho hq
    case h_2 => cases hm
  case takeDispatch users =>
    split at hm
    case h_1 msg q ho hq =>
      split_ifs at hm with hu
      cases hm; exact .takeDispatch ho hq hu
    case h_2 => cases hm
  case nextUser clients =>
    split at hm
    case h_1 pass u us ho =>
      split_ifs at hm with hc
      cases hm; exact .nextUser ho hc.1 hc.2
    case h_2 => cases hm
  case nextClient =>
    split at hm
    case h_1 pass us c cs ho => cases hm; exact .nextClient ho
    case h_2 => cases hm
  case rangeDone =>
    split at hm
    case h_1 msg ho => cases hm; exact .dispatched ho
    case h_2 ho => cases hm; exact .exited ho
    case h_3 => cases hm

/-- **A step of the hub:** it has not panicked, and makes one of the moves. -/
theorem step_eq_some {h h' : Hub β} {l : Label β} (hs : h.step l = some h') :
    h.panicked = false ∧ Stepped h l h' := by
  unfold step at hs
  split_ifs at hs with hp
  exact ⟨Bool.eq_false_iff.2 hp, stepped_of_move hs⟩

end Hub

/-- The hub with every goroutine that uses it, started by `NewHub`. -/
def hub (β : Type) : Machine (Hub β) (Hub.Label β) where
  init h := h = Hub.new
  step := Hub.step

end Notifications
end YtShare
