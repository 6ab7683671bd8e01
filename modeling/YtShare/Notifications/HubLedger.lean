/-
# The ledger of a hub

An observer of the hub writes a `Ledger`.  It sees the state before and after
each step and nothing else, and writes down what was put into the dispatch
queue and taken from it, what was put into each client's channel and taken
from it, and when each client joined and left the registry, counted in
messages taken.

The clients of the hub are subscribers of the sequence of messages that the
owner takes.  What a client is due (`Ledger.due`) is the feed of that sequence
from the moment it joined to the moment it left.  The account of a client
(`ClientInv.served`) always balances: what was put into its channel, the
message it was refused and removed for, and the message the owner has yet to
hand to it in the dispatch under way are together what it is due.
-/

import YtShare.Lib.Feed
import YtShare.Notifications.HubSafety

namespace YtShare
namespace Notifications

open Lib

variable {β : Type}

/-- How a client left the registry: how many messages the owner had taken by
then, the message it was being handed, if the owner was in a dispatch, and how
many elements its channel held. -/
structure Departure (β : Type) where
  taken : ℕ
  refused : Option β
  fill : ℕ

/-- What an observer of the hub has written down. -/
structure Ledger (β : Type) where
  /-- the messages the dispatch queue accepted -/
  accepted : List (DispatchMsg β)
  /-- the messages the owner took from it -/
  taken : List (DispatchMsg β)
  /-- what was put into the channel of a client -/
  put : Client → List β
  /-- what the writer of a client received from its channel -/
  drained : Client → List β
  /-- how many messages were taken when the client was added -/
  joined : Client → Option ℕ
  /-- how the client was removed -/
  left : Client → Option (Departure β)
  /-- how many messages were accepted when `Register` returned -/
  ready : Client → Option ℕ

/-- The message the owner is handing out. -/
def Hub.handing (h : Hub β) : Option β :=
  match h.owner with
  | .ranging (.deliver msg) _ _ => some msg.payload
  | _ => none

namespace Ledger

/-- Nothing has been written down. -/
def new : Ledger β where
  accepted := []
  taken := []
  put _ := []
  drained _ := []
  joined _ := none
  left _ := none
  ready _ := none

/-- One entry, from the hub before and after a step. -/
def record (b : Ledger β) (h h' : Hub β) : Ledger β where
  accepted := b.accepted ++ h.dispatch.added h'.dispatch
  taken := b.taken ++ h.dispatch.removed h'.dispatch
  put c := b.put c ++ (h.send c).added (h'.send c)
  drained c := b.drained c ++ (h.send c).removed (h'.send c)
  joined c :=
    if ¬h.registry.Has c ∧ h'.registry.Has c then some b.taken.length else b.joined c
  left c :=
    if h.registry.Has c ∧ ¬h'.registry.Has c then
      some ⟨b.taken.length, h.handing, (h.send c).buf.length⟩
    else b.left c
  ready c :=
    if h.register c = .acked ∧ h'.register c = .returned then some b.accepted.length
    else b.ready c

/-- How many messages were taken when the client left, or up to now. -/
def exitAt (b : Ledger β) (c : Client) : ℕ := ((b.left c).map (·.taken)).getD b.taken.length

/-- **What a client is due:** the messages for it that the owner took while it
was in the registry. -/
def due (b : Ledger β) (c : Client) : List β :=
  match b.joined c with
  | none => []
  | some i => (feed (·.addressed c.userID) b.taken i (b.exitAt c)).map (·.payload)

/-- The message a client was refused, if it was removed in a dispatch. -/
def refused (b : Ledger β) (c : Client) : List β := ((b.left c).bind (·.refused)).toList

end Ledger

/-- The hub under observation. -/
def observedHub (β : Type) : Machine (Hub β × Ledger β) (Hub.Label β) where
  init s := s = (Hub.new, Ledger.new)
  step s l := (s.1.step l).map fun h' => (h', s.2.record s.1 h')

/-! ### The entries of the ledger, step by step -/

/-- A call of `Register` is at one point at a time, so a step that leaves it alone makes
nobody ready. -/
theorem RegisterCall.not_acked_returned {p : RegisterCall} : ¬(p = .acked ∧ p = .returned) :=
  fun ⟨ha, hr⟩ => by rw [ha] at hr; cases hr

namespace Ledger

variable {b : Ledger β} {h h' : Hub β}

/-- The ledger takes no message for accepted where the queue stays as it is. -/
theorem record_accepted (hq : h'.dispatch.buf = h.dispatch.buf) :
    (b.record h h').accepted = b.accepted := by
  rw [record, Chan.added_eq_nil hq, List.append_nil]

/-- Nor for taken. -/
theorem record_taken (hq : h'.dispatch.buf = h.dispatch.buf) :
    (b.record h h').taken = b.taken := by
  rw [record, Chan.removed_eq_nil hq, List.append_nil]

/-- Where the buffer of a client stays as it is, the ledger has put nothing into it. -/
theorem record_put {c : Client} (hs : (h'.send c).buf = (h.send c).buf) :
    (b.record h h').put c = b.put c :=
  (congrArg (b.put c ++ ·) (Chan.added_eq_nil hs)).trans (List.append_nil _)

/-- And has drained nothing from it. -/
theorem record_drained {c : Client} (hs : (h'.send c).buf = (h.send c).buf) :
    (b.record h h').drained c = b.drained c :=
  (congrArg (b.drained c ++ ·) (Chan.removed_eq_nil hs)).trans (List.append_nil _)

/-- A frame that a client was sent is the last that the ledger has put for it. -/
theorem record_sent {c : Client} {x : β} (hs : (h'.send c).buf = (h.send c).buf ++ [x]) :
    (b.record h h').put c = b.put c ++ [x] ∧ (b.record h h').drained c = b.drained c :=
  ⟨congrArg (b.put c ++ ·) (Chan.added_of_sent hs),
    (congrArg (b.drained c ++ ·) (Chan.removed_of_sent hs)).trans (List.append_nil _)⟩

/-- A frame that a client has received is the last that the ledger has drained for it. -/
theorem record_received {c : Client} {x : β} (hs : (h.send c).buf = x :: (h'.send c).buf) :
    (b.record h h').put c = b.put c ∧ (b.record h h').drained c = b.drained c ++ [x] :=
  ⟨(congrArg (b.put c ++ ·) (Chan.added_of_recv hs)).trans (List.append_nil _),
    congrArg (b.drained c ++ ·) (Chan.removed_of_recv hs)⟩

/-- A client that was registered all along does not join again. -/
theorem record_joined {c : Client} (hm : h'.registry.Has c → h.registry.Has c) :
    (b.record h h').joined c = b.joined c :=
  if_neg fun hj => hj.1 (hm hj.2)

/-- A client that stays registered has not left. -/
theorem record_left {c : Client} (hm : h.registry.Has c → h'.registry.Has c) :
    (b.record h h').left c = b.left c :=
  if_neg fun hl => hl.2 (hm hl.1)

/-- The mark of a client is set only by the return of its `Register`. -/
theorem record_ready {c : Client} (hr : ¬(h.register c = .acked ∧ h'.register c = .returned)) :
    (b.record h h').ready c = b.ready c :=
  if_neg hr

/-- A step that touches no client leaves only entries about the dispatch queue. -/
theorem record_dispatch (hs : ∀ c, (h'.send c).buf = (h.send c).buf)
    (hm : ∀ c, h'.registry.Has c ↔ h.registry.Has c)
    (hr : ∀ c, ¬(h.register c = .acked ∧ h'.register c = .returned)) :
    b.record h h' = { b with
      accepted := b.accepted ++ h.dispatch.added h'.dispatch
      taken := b.taken ++ h.dispatch.removed h'.dispatch } := by
  have hput : (b.record h h').put = b.put := funext fun c => record_put (hs c)
  have hdrained : (b.record h h').drained = b.drained := funext fun c => record_drained (hs c)
  have hjoined : (b.record h h').joined = b.joined := funext fun c => record_joined (hm c).1
  have hleft : (b.record h h').left = b.left := funext fun c => record_left (hm c).2
  have hready : (b.record h h').ready = b.ready := funext fun c => record_ready (hr c)
  rw [← hput, ← hdrained, ← hjoined, ← hleft, ← hready]
  rfl

/-- A step that moves no message and no membership is not written down. -/
theorem record_quiet (hq : h'.dispatch.buf = h.dispatch.buf)
    (hs : ∀ c, (h'.send c).buf = (h.send c).buf)
    (hm : ∀ c, h'.registry.Has c ↔ h.registry.Has c)
    (hr : ∀ c, ¬(h.register c = .acked ∧ h'.register c = .returned)) : b.record h h' = b := by
  rw [record_dispatch hs hm hr, Chan.added_eq_nil hq, Chan.removed_eq_nil hq, List.append_nil,
    List.append_nil]

/-- The ledger of a step that changes nothing is the same. -/
theorem record_self (b : Ledger β) (h : Hub β) : b.record h h = b :=
  record_quiet rfl (fun _ => rfl) (fun _ => Iff.rfl) fun _ => RegisterCall.not_acked_returned

end Ledger

/-- A step accepts the message it posts, and no other. -/
theorem accepted_step {h h' : Hub β} {b : Ledger β} {l : Hub.Label β}
    (hs : h.step l = some h') :
    (b.record h h').accepted = b.accepted ∨
      ∃ msg, l = .publish msg ∧ (b.record h h').accepted = b.accepted ++ [msg] := by
  have hsame : h'.dispatch = h.dispatch → (b.record h h').accepted = b.accepted :=
    fun hd => Ledger.record_accepted (congrArg Chan.buf hd)
  cases (Hub.step_eq_some hs).2 with
  | publish hq =>
    refine .inr ⟨_, rfl, ?_⟩
    rw [Ledger.record, Chan.added_of_sent (Chan.trySend_eq_sent hq).2.2.1]
  | takeDispatch _ hq _ =>
    left
    rw [Ledger.record, Chan.added_of_recv (Chan.recv_eq_some hq).1, List.append_nil]
  | registerStopped _ _ => exact .inl (hsame (h.closeSend_frame _).1)
  | takeUnregister _ _ => exact .inl (hsame (h.drop_frame _).1)
  | nextClient _ => exact .inl (hsame (h.visit_frame _ _).1)
  | _ => exact .inl (hsame rfl)

namespace Ledger

variable {b : Ledger β} {c : Client}

/-- As long as a client has not left, what was taken so far concerns it. -/
theorem exitAt_of_left_none (hl : b.left c = none) : b.exitAt c = b.taken.length := by
  rw [exitAt, hl]; rfl

/-- Once it has left, only what had been taken by then does. -/
theorem exitAt_of_left_some {d : Departure β} (hl : b.left c = some d) : b.exitAt c = d.taken := by
  rw [exitAt, hl]; rfl

/-- No message was refused to a client that has not left. -/
theorem refused_of_left_none (hl : b.left c = none) : b.refused c = [] := by
  rw [refused, hl]; rfl

/-- What is due to a client that has joined: the frames addressed to its user, from when
it joined to when it left. -/
theorem due_of_joined {i : ℕ} (hj : b.joined c = some i) :
    b.due c = (feed (·.addressed c.userID) b.taken i (b.exitAt c)).map (·.payload) := by
  rw [due, hj]

/-- **A message the owner takes is due to the members it is addressed to.** -/
theorem due_take (msg : DispatchMsg β) (hj : ∀ i, b.joined c = some i → i ≤ b.exitAt c)
    (hl : b.exitAt c ≤ b.taken.length) :
    due { b with taken := b.taken ++ [msg] } c = b.due c ++
      if (b.joined c ≠ none ∧ b.left c = none) ∧ msg.addressed c.userID = true then [msg.payload]
      else [] := by
  cases hjc : b.joined c with
  | none => simp [due, hjc]
  | some i =>
    have hi := hj i hjc
    rw [due_of_joined hjc, @due_of_joined β { b with taken := b.taken ++ [msg] } c i hjc]
    cases hlc : b.left c with
    | some d =>
      rw [@exitAt_of_left_some β { b with taken := b.taken ++ [msg] } c d hlc,
        ← exitAt_of_left_some hlc, feed_append _ _ _ hl]
      simp
    | none =>
      rw [exitAt_of_left_none hlc] at hi ⊢
      rw [@exitAt_of_left_none β { b with taken := b.taken ++ [msg] } c hlc, List.length_append,
        List.length_singleton, feed_snoc _ _ hi, List.map_append]
      by_cases ha : msg.addressed c.userID = true <;> simp [ha]

end Ledger

/-- The message the owner has yet to hand to client `c` in this dispatch. -/
def Hub.owes (h : Hub β) (c : Client) : List β :=
  match h.owner with
  | .ranging (.deliver msg) us cs =>
      if h.registry.Has c ∧ (c ∈ cs ∨ c.userID ∈ us) then [msg.payload] else []
  | _ => []

/-- What the ledger says about one client. -/
structure ClientInv (h : Hub β) (b : Ledger β) (c : Client) : Prop where
  buffer : b.put c = b.drained c ++ (h.send c).buf
  member : h.registry.Has c ↔ b.joined c ≠ none ∧ b.left c = none
  fresh : b.joined c = none → b.put c = [] ∧ b.left c = none
  undecided : (h.register c).Pending → b.joined c = none
  acked : h.register c = .acked → b.joined c ≠ none
  joinedLe : ∀ i, b.joined c = some i → i ≤ b.exitAt c
  leftLe : b.exitAt c ≤ b.taken.length
  served : b.put c ++ (b.refused c ++ h.owes c) = b.due c
  slow : ∀ d x, b.left c = some d → d.refused = some x → d.fill = sendBufferSize ∧
    ∃ msg, b.taken[d.taken - 1]? = some msg ∧ msg.addressed c.userID = true ∧ msg.payload = x
  ready : ∀ k, b.ready c = some k → k ≤ b.accepted.length ∧ ∃ i, b.joined c = some i ∧ i ≤ k

/-- The invariant of the observed hub. -/
structure LedgerInv (h : Hub β) (b : Ledger β) : Prop where
  hub : HubInv h
  queue : b.accepted = b.taken ++ h.dispatch.buf
  current : ∀ msg us cs, h.owner = .ranging (.deliver msg) us cs → b.taken.getLast? = some msg ∧
    ∀ c, h.registry.Has c → (c ∈ cs ∨ c.userID ∈ us) → msg.addressed c.userID = true
  client : ∀ c, ClientInv h b c

/-- The account of a client that stays in or out of the registry and is put
nothing. -/
theorem ClientInv.congr {h h' : Hub β} {b b' : Ledger β} {c : Client} (hc : ClientInv h b c)
    (hput : b'.put c = b.put c) (hjoined : b'.joined c = b.joined c) (hleft : b'.left c = b.left c)
    (htaken : b'.taken = b.taken) (hbuffer : b'.put c = b'.drained c ++ (h'.send c).buf)
    (hready : ∀ k, b'.ready c = some k →
      k ≤ b'.accepted.length ∧ ∃ i, b'.joined c = some i ∧ i ≤ k)
    (hhas : h'.registry.Has c ↔ h.registry.Has c)
    (hpend : (h'.register c).Pending → (h.register c).Pending)
    (hacked : h'.register c = .acked → h.register c = .acked) (howes : h'.owes c = h.owes c) :
    ClientInv h' b' c where
  buffer := hbuffer
  member := by rw [hhas, hjoined, hleft]; exact hc.member
  fresh := by rw [hjoined, hput, hleft]; exact hc.fresh
  undecided hp := by rw [hjoined]; exact hc.undecided (hpend hp)
  acked ha := by rw [hjoined]; exact hc.acked (hacked ha)
  joinedLe := by rw [hjoined, Ledger.exitAt, hleft, htaken]; exact hc.joinedLe
  leftLe := by rw [Ledger.exitAt, hleft, htaken]; exact hc.leftLe
  served := by
    have := hc.served
    unfold Ledger.refused Ledger.due Ledger.exitAt at this ⊢
    rw [hput, hleft, howes, hjoined, htaken]
    exact this
  slow := by rw [hleft, htaken]; exact hc.slow
  ready := hready

namespace LedgerInv

variable {h h' : Hub β} {b : Ledger β}

/-- A new hub, with an empty ledger. -/
theorem new : LedgerInv (Hub.new : Hub β) Ledger.new where
  hub := HubInv.new
  queue := rfl
  current _ _ _ ho := nomatch ho
  client c :=
    { buffer := rfl
      member := ⟨fun hc => absurd hc (Finset.notMem_empty c), fun hc => absurd rfl hc.1⟩
      fresh := fun _ => ⟨rfl, rfl⟩
      undecided := fun _ => rfl
      acked := nofun
      joinedLe := nofun
      leftLe := Nat.le_refl 0
      served := rfl
      slow := nofun
      ready := nofun }

/-- A step that is not written down keeps every account, when the owner owes
each client what it owed before. -/
theorem quiet (hi : LedgerInv h b) (hi' : HubInv h') (hq : h'.dispatch.buf = h.dispatch.buf)
    (hs : ∀ c, (h'.send c).buf = (h.send c).buf)
    (hm : ∀ c, h'.registry.Has c ↔ h.registry.Has c)
    (hr : ∀ c, h'.register c = h.register c ∨ ¬(h.register c = .acked) ∧ ¬(h'.register c = .acked) ∧
      ((h'.register c).Pending → (h.register c).Pending))
    (ho : ∀ msg us cs, h'.owner = .ranging (.deliver msg) us cs → b.taken.getLast? = some msg ∧
      ∀ c, h'.registry.Has c → (c ∈ cs ∨ c.userID ∈ us) → msg.addressed c.userID = true)
    (howes : ∀ c, h'.owes c = h.owes c) : LedgerInv h' (b.record h h') := by
  rw [Ledger.record_quiet hq hs hm fun c ⟨ha, hret⟩ => (hr c).elim
    (fun he => by rw [he, ha] at hret; cases hret) fun hc => hc.1 ha]
  refine ⟨hi', hi.queue.trans (by rw [hq]), ho, fun c => (hi.client c).congr rfl rfl rfl rfl
    ((hi.client c).buffer.trans (by rw [hs c])) (hi.client c).ready (hm c) ?_ ?_ (howes c)⟩
  · exact (hr c).elim (fun he => by rw [he]; exact id) fun hc => hc.2.2
  · exact (hr c).elim (fun he => by rw [he]; exact id) fun hc ha => absurd ha hc.2.1

/-- A step that moves no message in or out of the dispatch queue and touches
one client keeps the accounts of the others. -/
theorem touch (hi : LedgerInv h b) (hi' : HubInv h') (c : Client)
    (hq : h'.dispatch.buf = h.dispatch.buf) (hs : ∀ d, d ≠ c → (h'.send d).buf = (h.send d).buf)
    (hm : ∀ d, d ≠ c → (h'.registry.Has d ↔ h.registry.Has d))
    (hr : ∀ d, d ≠ c → h'.register d = h.register d)
    (ho : ∀ msg us cs, h'.owner = .ranging (.deliver msg) us cs → b.taken.getLast? = some msg ∧
      ∀ c, h'.registry.Has c → (c ∈ cs ∨ c.userID ∈ us) → msg.addressed c.userID = true)
    (howes : ∀ d, d ≠ c → h'.owes d = h.owes d)
    (hc : (b.record h h').accepted = b.accepted → (b.record h h').taken = b.taken →
      ClientInv h' (b.record h h') c) : LedgerInv h' (b.record h h') := by
  have hacc := @Ledger.record_accepted β b h h' hq
  have htak := @Ledger.record_taken β b h h' hq
  refine ⟨hi', by rw [hacc, htak, hq]; exact hi.queue, by rw [htak]; exact ho, fun d => ?_⟩
  rcases eq_or_ne d c with rfl | hd
  · exact hc hacc htak
  · have hjoined := @Ledger.record_joined β b h h' d (hm d hd).1
    have hready := @Ledger.record_ready β b h h' d
      (by rw [hr d hd]; exact RegisterCall.not_acked_returned)
    have hleft := @Ledger.record_left β b h h' d (hm d hd).2
    refine (hi.client d).congr (Ledger.record_put (hs d hd)) hjoined hleft htak ?_
      (fun k hk => ?_) (hm d hd) ?_ ?_ (howes d hd)
    · rw [Ledger.record_put (hs d hd), Ledger.record_drained (hs d hd), hs d hd]
      exact (hi.client d).buffer
    · rw [hacc, hjoined]
      exact (hi.client d).ready k (hready ▸ hk)
    · rw [hr d hd]; exact id
    · rw [hr d hd]; exact id

/-- The dispatch queue accepts a message. -/
theorem publish (hi : LedgerInv h b) {msg : DispatchMsg β}
    {q : Chan (DispatchMsg β) broadcastBuffer} (hq : h.dispatch.trySend msg = .sent q) :
    LedgerInv { h with dispatch := q } (b.record h { h with dispatch := q }) := by
  have hbuf : q.buf = h.dispatch.buf ++ [msg] := (Chan.trySend_eq_sent hq).2.2.1
  have hrec : b.record h { h with dispatch := q } = { b with accepted := b.accepted ++ [msg] } := by
    rw [@Ledger.record_dispatch β b h { h with dispatch := q } (fun _ => rfl) (fun _ => Iff.rfl)
      (fun _ => RegisterCall.not_acked_returned)]
    simp only [Chan.added_of_sent hbuf, Chan.removed_of_sent hbuf, List.append_nil]
  rw [hrec]
  refine ⟨hi.hub.queues _ _ _, ?_, hi.current, fun c => ?_⟩
  · show b.accepted ++ [msg] = b.taken ++ q.buf
    rw [hbuf, ← List.append_assoc, ← hi.queue]
  · refine (hi.client c).congr rfl rfl rfl rfl (hi.client c).buffer (fun k hk => ?_) Iff.rfl id id
      rfl
    obtain ⟨hle, hj⟩ := (hi.client c).ready k hk
    exact ⟨hle.trans (by rw [List.length_append]; exact Nat.le_add_right _ _), hj⟩

/-- The owner takes a message: it becomes due to the members it is addressed
to, and the owner owes it to them. -/
theorem takeDispatch (hi : LedgerInv h b) {users : List UUID} {msg : DispatchMsg β}
    {q : Chan (DispatchMsg β) broadcastBuffer} (ho : h.owner = .selecting)
    (hq : h.dispatch.recv = some (msg, q)) (hu : users.Perm (h.targets msg.recipient))
    (hi' : HubInv { h with dispatch := q, owner := .ranging (.deliver msg) users [] }) :
    LedgerInv { h with dispatch := q, owner := .ranging (.deliver msg) users [] }
      (b.record h { h with dispatch := q, owner := .ranging (.deliver msg) users [] }) := by
  obtain ⟨hbuf, -⟩ := Chan.recv_eq_some hq
  have hrec : b.record h { h with dispatch := q, owner := .ranging (.deliver msg) users [] } =
      { b with taken := b.taken ++ [msg] } := by
    rw [@Ledger.record_dispatch β b h
      { h with dispatch := q, owner := .ranging (.deliver msg) users [] } (fun _ => rfl)
      (fun _ => Iff.rfl) (fun _ => RegisterCall.not_acked_returned)]
    simp only [Chan.added_of_recv hbuf, Chan.removed_of_recv hbuf, List.append_nil]
  have haddr : ∀ c, h.registry.Has c → (c.userID ∈ users ↔ msg.addressed c.userID = true) :=
    fun c hc => hu.mem_iff.trans (Hub.mem_targets hc msg)
  rw [hrec]
  refine ⟨hi', ?_, fun msg' us cs ho' => ?_, fun c => ?_⟩
  · show b.accepted = b.taken ++ [msg] ++ q.buf
    rw [hi.queue, hbuf, List.append_assoc]
    rfl
  · cases ho'
    exact ⟨List.getLast?_concat .., fun c hc hin => (haddr c hc).1 (hin.resolve_left nofun)⟩
  · have hc := hi.client c
    have hexit : b.exitAt c ≤ Ledger.exitAt { b with taken := b.taken ++ [msg] } c ∧
        Ledger.exitAt { b with taken := b.taken ++ [msg] } c ≤ b.taken.length + 1 := by
      have hle := hc.leftLe
      unfold Ledger.exitAt at hle ⊢
      cases hl : b.left c with
      | none => simp
      | some d =>
        rw [hl] at hle
        exact ⟨Nat.le_refl _, Nat.le_succ_of_le hle⟩
    refine ⟨hc.buffer, hc.member, hc.fresh, hc.undecided, hc.acked,
      fun i hj => (hc.joinedLe i hj).trans hexit.1, ?_, ?_, fun d x hd hx => ?_, hc.ready⟩
    · exact hexit.2.trans (by rw [List.length_append]; exact Nat.le_refl _)
    · have howed : h.owes c = [] := by rw [Hub.owes, ho]
      have hserved := hc.served
      rw [howed, List.append_nil] at hserved
      rw [Ledger.due_take msg hc.joinedLe hc.leftLe, ← hserved, List.append_assoc]
      refine congrArg (b.put c ++ ·) (congrArg (b.refused c ++ ·) ?_)
      simp only [← hc.member]
      by_cases hhas : h.registry.Has c
      · simp [Hub.owes, hhas, haddr c hhas]
      · simp [Hub.owes, hhas]
    · obtain ⟨hf, m, hm, hrest⟩ := hc.slow d x hd hx
      refine ⟨hf, m, ?_, hrest⟩
      exact (List.getElem?_append_left (List.getElem?_eq_some_iff.1 hm).1).trans hm

/-- The writer of a client receives from its channel. -/
theorem write (hi : LedgerInv h b) {c : Client} {x : β} {ch : Chan β sendBufferSize}
    (hw : (h.send c).recv = some (x, ch)) :
    LedgerInv (h.setSend c ch) (b.record h (h.setSend c ch)) := by
  obtain ⟨hbuf, hclosed⟩ := Chan.recv_eq_some hw
  have hself := h.setSend_self c ch
  obtain ⟨hput, hdrained⟩ :=
    @Ledger.record_received β b h (h.setSend c ch) c x (by rw [hself, hbuf])
  refine hi.touch (hi.hub.setSend hclosed) c rfl (fun d hd => by rw [h.setSend_of_ne ch hd])
    (fun _ _ => Iff.rfl) (fun _ _ => rfl) hi.current (fun _ _ => rfl) fun hacc htak => ?_
  have hjoined := @Ledger.record_joined β b h (h.setSend c ch) c id
  have hready := @Ledger.record_ready β b h (h.setSend c ch) c RegisterCall.not_acked_returned
  refine (hi.client c).congr hput hjoined (Ledger.record_left id) htak ?_ (fun k hk => ?_) Iff.rfl
    id id rfl
  · rw [hput, hdrained, hself, (hi.client c).buffer, hbuf, List.append_assoc]
    rfl
  · rw [hacc, hjoined]
    exact (hi.client c).ready k (hready ▸ hk)

/-- The owner adds a client: nothing is due to it yet. -/
theorem takeRegister (hi : LedgerInv h b) {c : Client} (ho : h.owner = .selecting)
    (hc : h.register c = .selecting) {h' : Hub β} (hh' : h' = { h with
      registry := h.registry.add c
      register := Function.update h.register c .acked }) (hi' : HubInv h') :
    LedgerInv h' (b.record h h') := by
  have hnot : ¬h.registry.Has c := fun hh => hi.hub.called c hh (.inr hc)
  have hhas : ∀ d, h'.registry.Has d ↔ d = c ∨ h.registry.Has d := fun d => by
    rw [hh']; exact ClientRegistry.has_add
  have hsend : ∀ d, h'.send d = h.send d := fun d => by rw [hh']
  have howner : h'.owner = .selecting := by rw [hh']; exact ho
  have hnone : b.joined c = none := (hi.client c).undecided (.inr hc)
  obtain ⟨hput, hleft⟩ := (hi.client c).fresh hnone
  have hreg : h'.register c = .acked := by rw [hh']; exact Function.update_self ..
  refine hi.touch hi' c (by rw [hh']) (fun d _ => by rw [hsend])
    (fun d hd => (hhas d).trans (or_iff_right hd)) (fun d hd => ?_) (fun _ _ _ hr => ?_)
    (fun d _ => ?_) fun hacc htak => ?_
  · rw [hh']
    exact Function.update_of_ne hd ..
  · rw [howner] at hr
    cases hr
  · rw [Hub.owes, Hub.owes, howner, ho]
  · have hput' := (@Ledger.record_put β b h h' c (by rw [hsend])).trans hput
    have hleft' := (@Ledger.record_left β b h h' c fun hh => absurd hh hnot).trans hleft
    have hjoined : (b.record h h').joined c = some b.taken.length :=
      if_pos ⟨hnot, (hhas c).2 (.inl rfl)⟩
    have hexit : (b.record h h').exitAt c = b.taken.length := by
      rw [Ledger.exitAt_of_left_none hleft', htak]
    refine ⟨?_, ?_, ?_, ?_, ?_, ?_, ?_, ?_, ?_, ?_⟩
    · rw [hput', Ledger.record_drained (by rw [hsend]), hsend, ← hput]
      exact (hi.client c).buffer
    · exact iff_of_true ((hhas c).2 (.inl rfl)) ⟨by rw [hjoined]; exact nofun, hleft'⟩
    · rw [hjoined]; exact nofun
    · rw [hreg]; exact fun hp => hp.elim nofun nofun
    · rw [hjoined]; exact fun _ => nofun
    · intro i hi
      rw [hjoined] at hi
      rw [hexit, Option.some.inj hi]
    · rw [hexit, htak]
    · rw [hput', Ledger.refused_of_left_none hleft', Hub.owes, howner, Ledger.due_of_joined hjoined,
        hexit, feed_self]
      rfl
    · rw [hleft']; exact nofun
    · intro k hk
      rw [Ledger.record_ready fun hr => by rw [hreg] at hr; exact absurd hr.2 nofun] at hk
      obtain ⟨-, i, hj, -⟩ := (hi.client c).ready k hk
      rw [hnone] at hj
      cases hj

/-- `Register` returns: from here on its client is due what is accepted. -/
theorem registerReturn (hi : LedgerInv h b) {c : Client} (hc : h.register c = .acked) {h' : Hub β}
    (hh' : h' = { h with register := Function.update h.register c .returned }) (hi' : HubInv h') :
    LedgerInv h' (b.record h h') := by
  have hreg : h'.register c = .returned := by rw [hh']; exact Function.update_self ..
  have hhas : ∀ d, h'.registry.Has d ↔ h.registry.Has d := fun d => by rw [hh']
  have hsend : ∀ d, h'.send d = h.send d := fun d => by rw [hh']
  have howes : ∀ d, h'.owes d = h.owes d := fun d => by rw [hh']; rfl
  refine hi.touch hi' c (by rw [hh']) (fun d _ => by rw [hsend]) (fun d _ => hhas d)
    (fun d hd => ?_) (fun msg us cs hr => ?_) (fun d _ => howes d) fun hacc htak => ?_
  · rw [hh']
    exact Function.update_of_ne hd ..
  · obtain ⟨hlast, hall⟩ := hi.current msg us cs (by rw [hh'] at hr; exact hr)
    exact ⟨hlast, fun d hd => hall d ((hhas d).1 hd)⟩
  · have hput := @Ledger.record_put β b h h' c (by rw [hsend])
    have hjoined := @Ledger.record_joined β b h h' c (hhas c).1
    refine (hi.client c).congr hput hjoined (Ledger.record_left (hhas c).2) htak ?_ (fun k hk => ?_)
      (hhas c) ?_ ?_ (howes c)
    · rw [hput, Ledger.record_drained (by rw [hsend]), hsend]
      exact (hi.client c).buffer
    · have hready : (b.record h h').ready c = some b.accepted.length := if_pos ⟨hc, hreg⟩
      obtain rfl := Option.some.inj (hready.symm.trans hk)
      obtain ⟨i, hj⟩ := Option.ne_none_iff_exists'.1 ((hi.client c).acked hc)
      refine ⟨by rw [hacc], i, hjoined.trans hj, ?_⟩
      calc i ≤ b.exitAt c := (hi.client c).joinedLe i hj
        _ ≤ b.taken.length := (hi.client c).leftLe
        _ ≤ b.accepted.length := by rw [hi.queue, List.length_append]; exact Nat.le_add_right _ _
    · rw [hreg]; exact fun hp => hp.elim nofun nofun
    · rw [hreg]; exact nofun

/-- The owner puts the message it hands out into the channel of the client it
has come to, which it owed it. -/
theorem put (hi : LedgerInv h b) {msg : DispatchMsg β} {us : List UUID} {c : Client}
    {cs : List Client} (ho : h.owner = .ranging (.deliver msg) us (c :: cs))
    {ch : Chan β sendBufferSize} (hbuf : ch.buf = (h.send c).buf ++ [msg.payload]) {h' : Hub β}
    (hh' : h' = { h.setSend c ch with owner := .ranging (.deliver msg) us cs }) (hi' : HubInv h') :
    LedgerInv h' (b.record h h') := by
  obtain ⟨-, hcs, hall⟩ := hi.hub.ranging _ _ _ ho
  obtain ⟨hc, hcu⟩ := hall c List.mem_cons_self
  have hself : h'.send c = ch := by rw [hh']; exact h.setSend_self c ch
  have hreg : h'.registry = h.registry := by rw [hh']; rfl
  have hregister : h'.register = h.register := by rw [hh']; rfl
  have howner : h'.owner = .ranging (.deliver msg) us cs := by rw [hh']
  refine hi.touch hi' c (by rw [hh']; rfl) (fun d hd => ?_) (fun _ _ => by rw [hreg])
    (fun _ _ => by rw [hregister]) (fun msg' us' cs' hr => ?_) (fun d hd => ?_) fun hacc htak => ?_
  · rw [hh']
    exact congrArg Chan.buf (h.setSend_of_ne ch hd)
  · rw [howner] at hr
    cases hr
    obtain ⟨hlast, haddr⟩ := hi.current _ _ _ ho
    rw [hreg]
    exact ⟨hlast, fun d hd hin => haddr d hd (hin.imp_left (List.mem_cons_of_mem c))⟩
  · rw [Hub.owes, Hub.owes, howner, ho, hreg]
    simp only [List.mem_cons, hd, false_or]
  · obtain ⟨hput, hdrained⟩ := @Ledger.record_sent β b h h' c msg.payload (by rw [hself, hbuf])
    have hjoined := @Ledger.record_joined β b h h' c (by rw [hreg]; exact id)
    have hleft := @Ledger.record_left β b h h' c (by rw [hreg]; exact id)
    have hready := @Ledger.record_ready β b h h' c
      (by rw [hregister]; exact RegisterCall.not_acked_returned)
    have hcl := hi.client c
    have hnone : b.left c = none := (hcl.member.1 hc).2
    have howed : h.owes c = [msg.payload] := by
      rw [Hub.owes, ho]
      exact if_pos ⟨hc, .inl List.mem_cons_self⟩
    have howes : h'.owes c = [] := by
      rw [Hub.owes, howner]
      exact if_neg fun hin => hin.2.elim (List.nodup_cons.1 hcs).1 hcu
    have hexit : (b.record h h').exitAt c = b.exitAt c := by
      rw [Ledger.exitAt, hleft, htak, Ledger.exitAt]
    refine ⟨?_, ?_, ?_, ?_, ?_, ?_, ?_, ?_, ?_, ?_⟩
    · rw [hput, hdrained, hself, hbuf, hcl.buffer, List.append_assoc]
    · rw [hreg, hjoined, hleft]
      exact hcl.member
    · rw [hjoined]
      exact fun hj => absurd hj (hcl.member.1 hc).1
    · rw [hregister, hjoined]
      exact hcl.undecided
    · rw [hregister, hjoined]
      exact hcl.acked
    · rw [hjoined, hexit]
      exact hcl.joinedLe
    · rw [hexit, htak]
      exact hcl.leftLe
    · have hserved := hcl.served
      rw [howed, Ledger.refused_of_left_none hnone] at hserved
      rw [hput, howes, Ledger.refused_of_left_none (hleft.trans hnone), Ledger.due, hjoined, htak,
        hexit]
      exact (List.append_nil _).trans hserved
    · rw [hleft, hnone]
      exact nofun
    · rw [hready, hjoined, hacc]
      exact hcl.ready

/-- The owner drops a client: what it was handing it, if anything, is the one
message the client was refused. -/
theorem leave (hi : LedgerInv h b) {c : Client} (hc : h.registry.Has c) (hi' : HubInv h')
    (hq : h'.dispatch.buf = h.dispatch.buf) (hs : ∀ d, (h'.send d).buf = (h.send d).buf)
    (hreg : h'.registry = h.registry.remove c) (hregister : h'.register = h.register)
    (ho : ∀ msg us cs, h'.owner = .ranging (.deliver msg) us cs → b.taken.getLast? = some msg ∧
      ∀ c, h'.registry.Has c → (c ∈ cs ∨ c.userID ∈ us) → msg.addressed c.userID = true)
    (howes : ∀ d, d ≠ c → h'.owes d = h.owes d) (howed : h.owes c = h.handing.toList)
    (hslow : ∀ x, h.handing = some x → (h.send c).isFull = true ∧
      ∃ msg, b.taken.getLast? = some msg ∧ msg.addressed c.userID = true ∧ msg.payload = x) :
    LedgerInv h' (b.record h h') := by
  have hhas : ∀ d, h'.registry.Has d ↔ d ≠ c ∧ h.registry.Has d := fun d => by
    rw [hreg]; exact ClientRegistry.has_remove
  refine hi.touch hi' c hq (fun d _ => hs d) (fun d hd => (hhas d).trans (and_iff_right hd))
    (fun _ _ => by rw [hregister]) ho howes fun hacc htak => ?_
  have hgone : ¬h'.registry.Has c := fun hh => ((hhas c).1 hh).1 rfl
  have hcl := hi.client c
  obtain ⟨hin, hnone⟩ := hcl.member.1 hc
  have hput := @Ledger.record_put β b h h' c (hs c)
  have hjoined := @Ledger.record_joined β b h h' c fun hh => absurd hh hgone
  have hready := @Ledger.record_ready β b h h' c
    (by rw [hregister]; exact RegisterCall.not_acked_returned)
  have hleft : (b.record h h').left c =
      some ⟨b.taken.length, h.handing, (h.send c).buf.length⟩ := if_pos ⟨hc, hgone⟩
  have hexit : (b.record h h').exitAt c = b.exitAt c := by
    rw [Ledger.exitAt_of_left_some hleft, Ledger.exitAt_of_left_none hnone]
  have hnowes : h'.owes c = [] := by
    unfold Hub.owes
    split
    · exact if_neg fun hh => hgone hh.1
    · rfl
  refine ⟨?_, ?_, ?_, ?_, ?_, ?_, ?_, ?_, fun d x hd hx => ?_, ?_⟩
  · rw [hput, Ledger.record_drained (hs c), hs c]
    exact hcl.buffer
  · exact iff_of_false hgone fun hh => by rw [hleft] at hh; exact nomatch hh.2
  · rw [hjoined]
    exact fun hj => absurd hj hin
  · rw [hregister, hjoined]
    exact hcl.undecided
  · rw [hregister, hjoined]
    exact hcl.acked
  · rw [hjoined, hexit]
    exact hcl.joinedLe
  · rw [hexit, htak]
    exact hcl.leftLe
  · have hserved := hcl.served
    rw [Ledger.refused_of_left_none hnone, howed] at hserved
    have hrefused : (b.record h h').refused c = h.handing.toList := by
      rw [Ledger.refused, hleft]; rfl
    rw [hput, hrefused, hnowes, List.append_nil, Ledger.due, hjoined, htak, hexit]
    exact hserved
  · obtain rfl := Option.some.inj (hleft.symm.trans hd)
    obtain ⟨hfull, msg, hlast, haddr, hpay⟩ := hslow x hx
    refine ⟨(Chan.isFull_iff _).1 hfull, msg, ?_, haddr, hpay⟩
    rw [htak, ← List.getLast?_eq_getElem?]
    exact hlast
  · rw [hready, hjoined, hacc]
    exact hcl.ready

end LedgerInv

/-- Closing a channel leaves what it holds. -/
theorem Hub.closed_buf (h : Hub β) (c d : Client) :
    ((h.setSend c ⟨(h.send c).buf, true, (h.send c).fits⟩).send d).buf = (h.send d).buf := by
  rcases eq_or_ne d c with rfl | hd
  · rw [h.setSend_self]
  · rw [h.setSend_of_ne _ hd]

/-- One visit of a dispatch: the message goes into a buffer with room, and a
client whose buffer is full is dropped. -/
theorem LedgerInv.visit {h h' : Hub β} {b : Ledger β} (hi : LedgerInv h b) {msg : DispatchMsg β}
    {us : List UUID} {c : Client} {cs : List Client}
    (ho : h.owner = .ranging (.deliver msg) us (c :: cs))
    (hh' : h' = { h.deliver c msg.payload with owner := .ranging (.deliver msg) us cs })
    (hi' : HubInv h') : LedgerInv h' (b.record h h') := by
  obtain ⟨-, hcs, hall⟩ := hi.hub.ranging _ _ _ ho
  obtain ⟨hc, hcu⟩ := hall c List.mem_cons_self
  have hopen : (h.send c).closed = false :=
    (hi.hub.isOpen c).2 (.inl ⟨hc, by rw [ho]; trivial⟩)
  rcases Hub.deliver_of_open msg.payload hopen with ⟨ch, -, hbuf, -, heq⟩ | ⟨hfull, heq⟩
  · exact hi.put ho hbuf (hh'.trans (by rw [heq])) hi'
  · rw [heq, Hub.drop_of_open hc hopen] at hh'
    have hreg : h'.registry = h.registry.remove c := by rw [hh']
    have howner : h'.owner = .ranging (.deliver msg) us cs := by rw [hh']
    obtain ⟨hlast, haddr⟩ := hi.current _ _ _ ho
    have hhanding : h.handing = some msg.payload := by rw [Hub.handing, ho]
    refine hi.leave hc hi' (by rw [hh']; rfl) (fun d => by rw [hh']; exact h.closed_buf c d) hreg
      (by rw [hh']; rfl) (fun msg' us' cs' hr => ?_) (fun d hd => ?_) ?_ fun x hx => ?_
    · rw [howner] at hr
      cases hr
      refine ⟨hlast, fun d hd hin => haddr d ?_ (hin.imp_left (List.mem_cons_of_mem c))⟩
      rw [hreg] at hd
      exact (ClientRegistry.has_remove.1 hd).2
    · rw [Hub.owes, Hub.owes, howner, ho, hreg]
      simp only [ClientRegistry.has_remove, List.mem_cons, hd, false_or, ne_eq, not_false_eq_true,
        true_and]
    · rw [hhanding, Hub.owes, ho]
      exact if_pos ⟨hc, .inl List.mem_cons_self⟩
    · obtain rfl := Option.some.inj (hhanding.symm.trans hx)
      exact ⟨hfull, msg, hlast, haddr c hc (.inl List.mem_cons_self), rfl⟩

/-- **The step lemma of the ledger.** -/
theorem LedgerInv.step {h h' : Hub β} {b : Ledger β} {l : Hub.Label β} (hi : LedgerInv h b)
    (hs : h.step l = some h') : LedgerInv h' (b.record h h') := by
  have hi' : HubInv h' := hi.hub.step hs
  cases (Hub.step_eq_some hs).2 with
  | @register c hc =>
    refine hi.quiet hi' rfl (fun _ => rfl) (fun _ => Iff.rfl) (fun d => ?_) hi.current fun _ => rfl
    rcases eq_or_ne d c with rfl | hd
    · refine .inr ⟨?_, ?_, fun _ => .inl hc⟩
      · rw [hc]
        intro h
        cases h
      · simp only [Function.update_self]
        intro h
        cases h
    · exact .inl (Function.update_of_ne hd ..)
  | @registerStopped c hc hstop =>
    have hp : (h.register c).Pending := .inr hc
    rw [Hub.closeSend_of_open ((hi.hub.isOpen c).2 (.inr hp))] at hi' ⊢
    refine hi.quiet hi' rfl (h.closed_buf c) (fun _ => Iff.rfl) (fun d => ?_) hi.current
      fun _ => rfl
    rcases eq_or_ne d c with rfl | hd
    · refine .inr ⟨?_, ?_, fun _ => hp⟩
      · rw [hc]
        intro h
        cases h
      · simp only [Function.update_self]
        intro h
        cases h
    · exact .inl (Function.update_of_ne hd ..)
  | registerReturn hc => exact hi.registerReturn hc rfl hi'
  | unregister _ =>
    exact hi.quiet hi' rfl (fun _ => rfl) (fun _ => Iff.rfl) (fun _ => .inl rfl) hi.current
      fun _ => rfl
  | publish hq => exact hi.publish hq
  | discard _ =>
    exact hi.quiet hi' rfl (fun _ => rfl) (fun _ => Iff.rfl) (fun _ => .inl rfl) hi.current
      fun _ => rfl
  | close =>
    exact hi.quiet hi' rfl (fun _ => rfl) (fun _ => Iff.rfl) (fun _ => .inl rfl) hi.current
      fun _ => rfl
  | write hw => exact hi.write hw
  | takeStop ho _ _ =>
    refine hi.quiet hi' rfl (fun _ => rfl) (fun _ => Iff.rfl) (fun _ => .inl rfl)
      (fun _ _ _ h => by cases h) fun _ => ?_
    rw [Hub.owes, Hub.owes, ho]
  | takeRegister ho hc => exact hi.takeRegister ho hc rfl hi'
  | @takeUnregister c _ ho _ =>
    have hhanding : h.handing = none := by rw [Hub.handing, ho]
    by_cases hc : h.registry.Has c
    · have hopen : (h.send c).closed = false :=
        (hi.hub.isOpen c).2 (.inl ⟨hc, by rw [ho]; trivial⟩)
      rw [Hub.drop_of_open hc hopen] at hi' ⊢
      refine hi.leave hc hi' rfl (h.closed_buf c) rfl rfl (fun msg us cs hr => ?_) (fun d _ => ?_)
        ?_ fun x hx => ?_
      · cases ho.symm.trans hr
      · simp only [Hub.owes, Hub.setSend, ho]
      · rw [hhanding, Hub.owes, ho]; rfl
      · rw [hhanding] at hx; cases hx
    · rw [Hub.drop_of_not_has hc] at hi' ⊢
      exact hi.quiet hi' rfl (fun _ => rfl) (fun _ => Iff.rfl) (fun _ => .inl rfl) hi.current
        fun _ => rfl
  | takeDispatch ho hq hu => exact hi.takeDispatch ho hq hu hi'
  | @nextUser pass u us clients ho hn hcl =>
    have hmem : ∀ d, h.registry.Has d → (d ∈ clients ↔ d.userID = u) := fun d hd => by
      rw [← List.mem_toFinset, hcl]
      exact ⟨hi.hub.registry.perUser u d, fun hu => hu ▸ hd⟩
    refine hi.quiet hi' rfl (fun _ => rfl) (fun _ => Iff.rfl) (fun _ => .inl rfl)
      (fun msg us' cs' hr => ?_) fun d => ?_
    · cases hr
      obtain ⟨hlast, haddr⟩ := hi.current _ _ _ ho
      refine ⟨hlast, fun d hd hin => haddr d hd (.inr (List.mem_cons.2 ?_))⟩
      exact hin.imp_left (hmem d hd).1
    · cases pass with
      | closeAll => simp only [Hub.owes, ho]
      | deliver msg =>
        simp only [Hub.owes, ho, List.not_mem_nil, false_or, List.mem_cons]
        by_cases hd : h.registry.Has d
        · simp only [hmem d hd]
        · rw [if_neg fun hh => hd hh.1, if_neg fun hh => hd hh.1]
  | @nextClient pass us c cs ho =>
    cases pass with
    | deliver msg => exact hi.visit ho rfl hi'
    | closeAll =>
      have hopen : (h.send c).closed = false :=
        (hi.hub.isOpen c).2 (.inl ⟨((hi.hub.ranging _ _ _ ho).2.2 c List.mem_cons_self).1,
          by rw [ho]; exact .inl List.mem_cons_self⟩)
      rw [Hub.visit, Hub.closeSend_of_open hopen] at hi' ⊢
      refine hi.quiet hi' rfl (h.closed_buf c) (fun _ => Iff.rfl) (fun _ => .inl rfl)
        (fun _ _ _ h => by cases h) fun _ => ?_
      simp only [Hub.owes, ho]
  | dispatched ho =>
    refine hi.quiet hi' rfl (fun _ => rfl) (fun _ => Iff.rfl) (fun _ => .inl rfl)
      (fun _ _ _ h => by cases h) fun d => ?_
    rw [Hub.owes, Hub.owes, ho]
    exact (if_neg fun hh => hh.2.elim List.not_mem_nil List.not_mem_nil).symm
  | exited ho =>
    refine hi.quiet hi' rfl (fun _ => rfl) (fun _ => Iff.rfl) (fun _ => .inl rfl)
      (fun _ _ _ h => by cases h) fun d => ?_
    rw [Hub.owes, Hub.owes, ho]

/-- **The run lemma of the ledger.** -/
theorem ledgerInv_of_reachable {s : Hub β × Ledger β} (hr : (observedHub β).Reachable s) :
    LedgerInv s.1 s.2 := by
  refine @Machine.invariant _ _ _ (fun s => LedgerInv s.1 s.2) (fun s hs => ?_)
    (fun s l t hi hs => ?_) _ hr
  · obtain rfl : s = (Hub.new, Ledger.new) := hs
    exact LedgerInv.new
  · obtain ⟨h', hh', rfl⟩ := Option.map_eq_some_iff.1 hs
    exact hi.step hh'

end Notifications
end YtShare
