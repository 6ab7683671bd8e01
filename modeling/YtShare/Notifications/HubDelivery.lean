/-
# What the hub delivers

`HubLedger` balances the account of each client at every moment.  Here the
accounts are read: over one step of a dispatch (`dispatch_step`), over a whole
dispatch (`dispatchInv_of_steps`), and for a message that was accepted after
`Register` returned (`LedgerInv.fate`), which is in the queue, in the client's
channel at its place in the feed, or was never handed out because the client
was removed.  `owner_drains` adds that nothing stays in the queue for want of
a step: until the owner takes the stop it can hand out everything by itself.
-/

import YtShare.Notifications.HubLedger

namespace YtShare
namespace Notifications

open Lib

variable {β : Type}

/-! ### One dispatch -/

/-- Between the two states nothing happened to the client. -/
def Spared (s t : Hub β × Ledger β) (c : Client) : Prop :=
  (t.1.registry.Has c ↔ s.1.registry.Has c) ∧ t.2.put c = s.2.put c ∧ t.2.left c = s.2.left c

/-- Between the two states the client was given `x` and stayed. -/
def Served (s t : Hub β × Ledger β) (x : β) (c : Client) : Prop :=
  t.1.registry.Has c ∧ t.2.put c = s.2.put c ++ [x]

/-- Between the two states the client was removed, its buffer being full when
it was to be given `x`. -/
def Expelled (s t : Hub β × Ledger β) (x : β) (c : Client) : Prop :=
  ¬t.1.registry.Has c ∧ t.2.put c = s.2.put c ∧
    ∃ k, t.2.left c = some ⟨k, some x, sendBufferSize⟩

/-- Handing a message to one client leaves the others alone. -/
theorem Hub.deliver_other {h : Hub β} {c : Client} (hc : h.registry.Has c)
    (ho : (h.send c).closed = false) (x : β) :
    ∀ d, d ≠ c → (h.deliver c x).send d = h.send d ∧
      ((h.deliver c x).registry.Has d ↔ h.registry.Has d) := by
  intro d hd
  rcases Hub.deliver_of_open x ho with ⟨ch, -, -, -, heq⟩ | ⟨-, heq⟩
  · rw [heq]
    exact ⟨h.setSend_of_ne ch hd, Iff.rfl⟩
  · rw [heq, Hub.drop_of_open hc ho]
    refine ⟨h.setSend_of_ne _ hd, ?_⟩
    exact ClientRegistry.has_remove.trans (and_iff_right hd)

/-- **One visit of a dispatch.**  The client is registered and addressed; it is
removed when its buffer is full and given the message otherwise, and the other
clients are spared. -/
theorem dispatch_visit {h h' : Hub β} {b : Ledger β} (hi : LedgerInv h b) {msg : DispatchMsg β}
    {us : List UUID} {c : Client} {cs : List Client}
    (ho : h.owner = .ranging (.deliver msg) us (c :: cs))
    (hh' : h' = { h.deliver c msg.payload with owner := .ranging (.deliver msg) us cs }) :
    (h.registry.Has c ∧ msg.addressed c.userID = true ∧
        ((h.send c).isFull = true ∧ Expelled (h, b) (h', b.record h h') msg.payload c ∨
          (h.send c).isFull = false ∧ Served (h, b) (h', b.record h h') msg.payload c)) ∧
      ∀ d, d ≠ c → Spared (h, b) (h', b.record h h') d := by
  obtain ⟨hc, -⟩ := (hi.hub.ranging _ _ _ ho).2.2 c List.mem_cons_self
  have hopen : (h.send c).closed = false :=
    (hi.hub.isOpen c).2 (.inl ⟨hc, by rw [ho]; trivial⟩)
  have haddr := (hi.current _ _ _ ho).2 c hc (.inl List.mem_cons_self)
  have hframe := Hub.deliver_other hc hopen msg.payload
  refine ⟨⟨hc, haddr, ?_⟩, fun d hd => ?_⟩
  · rcases Hub.deliver_of_open msg.payload hopen with ⟨ch, hfull, hbuf, -, heq⟩ | ⟨hfull, heq⟩
    · refine .inr ⟨hfull, ?_, (@Ledger.record_sent β b h h' c msg.payload ?_).1⟩
      · rw [hh', heq]
        exact hc
      · rw [hh', heq, ← hbuf]
        exact congrArg Chan.buf (h.setSend_self c ch)
    · rw [heq, Hub.drop_of_open hc hopen] at hh'
      have hgone : ¬h'.registry.Has c := fun hh => by
        rw [hh'] at hh
        exact (ClientRegistry.has_remove.1 hh).1 rfl
      refine .inl ⟨hfull, hgone, @Ledger.record_put β b h h' c ?_, b.taken.length, ?_⟩
      · rw [hh']
        exact h.closed_buf c c
      · refine (if_pos ⟨hc, hgone⟩).trans ?_
        rw [(Chan.isFull_iff _).1 hfull, Hub.handing, ho]
  · obtain ⟨hsend, hhas⟩ := hframe d hd
    have hsame : h'.registry.Has d ↔ h.registry.Has d := by
      rw [hh']
      exact hhas
    refine ⟨hsame, @Ledger.record_put β b h h' d ?_, @Ledger.record_left β b h h' d hsame.2⟩
    rw [hh']
    exact congrArg Chan.buf hsend

/-- **One step of a dispatch**, of any goroutine.  The visit of the next client
is the only one that concerns a client; the last step brings the owner back to
its `select`. -/
theorem dispatch_step {h h' : Hub β} {b : Ledger β} {l : Hub.Label β} (hi : LedgerInv h b)
    {msg : DispatchMsg β} {us : List UUID} {cs : List Client}
    (ho : h.owner = .ranging (.deliver msg) us cs) (hs : h.step l = some h') :
    ((∃ us' cs', h'.owner = .ranging (.deliver msg) us' cs') ∨ h'.owner = .selecting) ∧
      (b.record h h').taken = b.taken ∧
      (∀ c, l = .nextClient → cs.head? = some c → h.registry.Has c ∧
        msg.addressed c.userID = true ∧
        ((h.send c).isFull = true ∧ Expelled (h, b) (h', b.record h h') msg.payload c ∨
          (h.send c).isFull = false ∧ Served (h, b) (h', b.record h h') msg.payload c)) ∧
      ∀ d, ¬(l = .nextClient ∧ cs.head? = some d) → Spared (h, b) (h', b.record h h') d := by
  have hspared : ∀ d, (h'.send d).buf = (h.send d).buf →
      (h'.registry.Has d ↔ h.registry.Has d) → Spared (h, b) (h', b.record h h') d :=
    fun d hbuf hhas => ⟨hhas, Ledger.record_put hbuf, Ledger.record_left hhas.2⟩
  have htaken : h'.dispatch.buf = h.dispatch.buf → (b.record h h').taken = b.taken :=
    Ledger.record_taken
  cases (Hub.step_eq_some hs).2 with
  | register _ =>
    exact ⟨.inl ⟨us, cs, ho⟩, htaken rfl, fun _ h => (by cases h),
      fun d _ => hspared d rfl Iff.rfl⟩
  | @registerStopped c hc _ =>
    have hopen := (hi.hub.isOpen c).2 (.inr (.inr hc))
    rw [Hub.closeSend_of_open hopen] at hspared htaken ⊢
    exact ⟨.inl ⟨us, cs, ho⟩, htaken rfl, fun _ h => (by cases h),
      fun d _ => hspared d (h.closed_buf c d) Iff.rfl⟩
  | registerReturn _ =>
    exact ⟨.inl ⟨us, cs, ho⟩, htaken rfl, fun _ h => (by cases h),
      fun d _ => hspared d rfl Iff.rfl⟩
  | unregister _ =>
    exact ⟨.inl ⟨us, cs, ho⟩, htaken rfl, fun _ h => (by cases h),
      fun d _ => hspared d rfl Iff.rfl⟩
  | publish hq =>
    refine ⟨.inl ⟨us, cs, ho⟩, ?_, fun _ h => (by cases h), fun d _ => hspared d rfl Iff.rfl⟩
    rw [Ledger.record, Chan.removed_of_sent (Chan.trySend_eq_sent hq).2.2.1, List.append_nil]
  | discard _ =>
    exact ⟨.inl ⟨us, cs, ho⟩, htaken rfl, fun _ h => (by cases h),
      fun d _ => hspared d rfl Iff.rfl⟩
  | close =>
    exact ⟨.inl ⟨us, cs, ho⟩, htaken rfl, fun _ h => (by cases h),
      fun d _ => hspared d rfl Iff.rfl⟩
  | @write c x ch hw =>
    refine ⟨.inl ⟨us, cs, ho⟩, htaken rfl, fun _ h => (by cases h),
      fun d _ => ⟨Iff.rfl, ?_, Ledger.record_left id⟩⟩
    rcases eq_or_ne d c with rfl | hd
    · refine (@Ledger.record_received β b h (h.setSend d ch) d x ?_).1
      rw [h.setSend_self]
      exact (Chan.recv_eq_some hw).1
    · exact Ledger.record_put (by rw [h.setSend_of_ne ch hd])
  | takeStop hsel _ _ => cases hsel.symm.trans ho
  | takeRegister hsel _ => cases hsel.symm.trans ho
  | takeUnregister hsel _ => cases hsel.symm.trans ho
  | takeDispatch hsel _ _ => cases hsel.symm.trans ho
  | @nextUser pass u us₁ clients ho₁ _ _ =>
    cases ho₁.symm.trans ho
    exact ⟨.inl ⟨us₁, clients, rfl⟩, htaken rfl, fun _ h => (by cases h),
      fun d _ => hspared d rfl Iff.rfl⟩
  | @nextClient pass us₁ c cs₁ ho₁ =>
    cases ho₁.symm.trans ho
    obtain ⟨hvisit, hother⟩ := dispatch_visit hi ho₁ rfl
    have hdispatch := (h.visit_frame (.deliver msg) c).1
    refine ⟨.inl ⟨us, cs₁, rfl⟩, htaken (congrArg Chan.buf hdispatch), fun d _ hd => ?_,
      fun d hd => hother d fun hdc => hd ⟨rfl, ?_⟩⟩
    · obtain rfl := Option.some.inj hd
      exact hvisit
    · rw [hdc]; rfl
  | dispatched ho₁ =>
    exact ⟨.inr rfl, htaken rfl, fun _ h => (by cases h), fun d _ => hspared d rfl Iff.rfl⟩
  | exited ho₁ => cases ho₁.symm.trans ho

/-- Where the dispatch of `msg` is, as seen from the state `s` it began in: a
member that it is addressed to is still owed the message or has been dealt
with, and everybody else is spared. -/
def DispatchInv (s : Hub β × Ledger β) (msg : DispatchMsg β) (t : Hub β × Ledger β) : Prop :=
  ∀ c, if s.1.registry.Has c ∧ msg.addressed c.userID = true then
      Spared s t c ∧ t.1.owes c = [msg.payload] ∨
        t.1.owes c = [] ∧ (Served s t msg.payload c ∨ Expelled s t msg.payload c)
    else Spared s t c

/-- What the owner owes is the message of the dispatch, to the clients ahead. -/
theorem Hub.owes_ranging {h : Hub β} {msg : DispatchMsg β} {us : List UUID} {cs : List Client}
    (ho : h.owner = .ranging (.deliver msg) us cs) (c : Client) :
    h.owes c = if h.registry.Has c ∧ (c ∈ cs ∨ c.userID ∈ us) then [msg.payload] else [] := by
  rw [Hub.owes, ho]

/-- A spared client stays spared, served or expelled. -/
theorem Spared.trans_spared {s t u : Hub β × Ledger β} {c : Client} (h : Spared s t c)
    (h' : Spared t u c) : Spared s u c :=
  ⟨h'.1.trans h.1, h'.2.1.trans h.2.1, h'.2.2.trans h.2.2⟩

/-- Nothing happens to the client, and then it is given the message. -/
theorem Spared.trans_served {s t u : Hub β × Ledger β} {x : β} {c : Client} (h : Spared s t c)
    (h' : Served t u x c) : Served s u x c :=
  ⟨h'.1, h'.2.trans (by rw [h.2.1])⟩

/-- Nothing happens to it, and then it is removed. -/
theorem Spared.trans_expelled {s t u : Hub β × Ledger β} {x : β} {c : Client} (h : Spared s t c)
    (h' : Expelled t u x c) : Expelled s u x c :=
  ⟨h'.1, h'.2.1.trans h.2.1, h'.2.2⟩

/-- It is given the message, and nothing happens to it afterwards. -/
theorem Served.trans_spared {s t u : Hub β × Ledger β} {x : β} {c : Client} (h : Served s t x c)
    (h' : Spared t u c) : Served s u x c :=
  ⟨h'.1.2 h.1, h'.2.1.trans h.2⟩

/-- It is removed, and nothing happens to it afterwards. -/
theorem Expelled.trans_spared {s t u : Hub β × Ledger β} {x : β} {c : Client}
    (h : Expelled s t x c) (h' : Spared t u c) : Expelled s u x c := by
  obtain ⟨k, hk⟩ := h.2.2
  exact ⟨fun hh => h.1 (h'.1.1 hh), h'.2.1.trans h.2.1, k, h'.2.2.trans hk⟩

/-- The account of a client that is spared balances before and after, so the
owner owes it what it owed. -/
theorem Spared.owes {h h' : Hub β} {b : Ledger β} {c : Client} (hi : LedgerInv h b)
    (hi' : LedgerInv h' (b.record h h')) (htaken : (b.record h h').taken = b.taken)
    (hc : Spared (h, b) (h', b.record h h') c) : h'.owes c = h.owes c := by
  obtain ⟨hhas, hput, hleft⟩ := hc
  have hjoined := @Ledger.record_joined β b h h' c hhas.1
  have hbefore := (hi.client c).served
  have hafter := (hi'.client c).served
  rw [hput, Ledger.refused, hleft, Ledger.due, hjoined, Ledger.exitAt, hleft, htaken] at hafter
  exact List.append_cancel_left (List.append_cancel_left (hafter.trans hbefore.symm))

/-- The owner owes the client it comes to the message, and nothing afterwards. -/
theorem owes_visit {h h' : Hub β} (hi : HubInv h) {msg : DispatchMsg β} {us : List UUID}
    {c : Client} {cs : List Client} (ho : h.owner = .ranging (.deliver msg) us (c :: cs))
    (ho' : h'.owner = .ranging (.deliver msg) us cs) :
    h.owes c = [msg.payload] ∧ h'.owes c = [] := by
  obtain ⟨-, hcs, hall⟩ := hi.ranging _ _ _ ho
  obtain ⟨hc, hcu⟩ := hall c List.mem_cons_self
  constructor
  · rw [Hub.owes_ranging ho]
    exact if_pos ⟨hc, .inl List.mem_cons_self⟩
  · rw [Hub.owes_ranging ho']
    exact if_neg fun hin => hin.2.elim (List.nodup_cons.1 hcs).1 hcu

/-- **The step lemma of a dispatch.** -/
theorem DispatchInv.step {s : Hub β × Ledger β} {h h' : Hub β} {b : Ledger β} {l : Hub.Label β}
    {msg : DispatchMsg β} {us : List UUID} {cs : List Client} (hi : LedgerInv h b)
    (ho : h.owner = .ranging (.deliver msg) us cs) (hd : DispatchInv s msg (h, b))
    (hs : h.step l = some h') : DispatchInv s msg (h', b.record h h') := by
  intro c
  obtain ⟨-, htaken, hvisit, hother⟩ := dispatch_step hi ho hs
  have hc := hd c
  by_cases hl : l = .nextClient ∧ cs.head? = some c
  · obtain ⟨rfl, hhead⟩ := hl
    obtain ⟨cs₁, rfl⟩ : ∃ cs₁, cs = c :: cs₁ := List.head?_eq_some_iff.1 hhead
    have ho' : h'.owner = .ranging (.deliver msg) us cs₁ := by
      cases (Hub.step_eq_some hs).2 with
      | nextClient ho₁ => cases ho₁.symm.trans ho; rfl
    obtain ⟨howed, howes⟩ := owes_visit hi.hub ho ho'
    obtain ⟨hhas, haddr, hcase⟩ := hvisit c rfl hhead
    split_ifs at hc ⊢ with hm
    · rcases hc with ⟨hsp, -⟩ | ⟨hnil, -⟩
      · refine .inr ⟨howes, ?_⟩
        rcases hcase with ⟨-, hex⟩ | ⟨-, hse⟩
        · exact .inr (hsp.trans_expelled hex)
        · exact .inl (hsp.trans_served hse)
      · rw [howed] at hnil
        cases hnil
    · exact absurd ⟨hc.1.1 hhas, haddr⟩ hm
  · have hsp := hother c hl
    have howes := hsp.owes hi (hi.step hs) htaken
    split_ifs at hc ⊢ with hm
    · rw [howes]
      rcases hc with ⟨h₁, h₂⟩ | ⟨h₂, h₁ | h₁⟩
      · exact .inl ⟨h₁.trans_spared hsp, h₂⟩
      · exact .inr ⟨h₂, .inl (h₁.trans_spared hsp)⟩
      · exact .inr ⟨h₂, .inr (h₁.trans_spared hsp)⟩
    · exact hc.trans_spared hsp

/-- A dispatch begins with the message owed to the members it is addressed to. -/
theorem DispatchInv.start {h h' : Hub β} {b : Ledger β} {users : List UUID}
    {msg : DispatchMsg β} (hm : h.dispatch.buf.head? = some msg)
    (hs : h.step (.takeDispatch users) = some h') :
    h'.owner = .ranging (.deliver msg) users [] ∧ DispatchInv (h, b) msg (h', b.record h h') := by
  cases (Hub.step_eq_some hs).2 with
  | @takeDispatch _ msg' q ho hq hu =>
    have hbuf := (Chan.recv_eq_some hq).1
    obtain rfl : msg' = msg := by
      rw [hbuf] at hm
      exact Option.some.inj hm
    refine ⟨rfl, fun c => ?_⟩
    have hsp : Spared (h, b) ({ h with
        dispatch := q, owner := .ranging (.deliver msg') users [] }, b.record h { h with
        dispatch := q, owner := .ranging (.deliver msg') users [] }) c :=
      ⟨Iff.rfl, Ledger.record_put rfl, Ledger.record_left id⟩
    split_ifs with hc
    · refine .inl ⟨hsp, ?_⟩
      rw [Hub.owes_ranging rfl]
      exact if_pos ⟨hc.1, .inr (hu.mem_iff.2 ((Hub.mem_targets hc.1 msg').2 hc.2))⟩
    · exact hsp

/-- **A whole dispatch**, whatever the other goroutines do in between: from the
owner taking `msg` until it is back at its `select`. -/
theorem dispatchInv_of_steps {s s₁ t : Hub β × Ledger β} {users : List UUID}
    {ls : List (Hub.Label β)} (hi : LedgerInv s.1 s.2) {msg : DispatchMsg β}
    (hm : s.1.dispatch.buf.head? = some msg)
    (hs : (observedHub β).step s (.takeDispatch users) = some s₁)
    (hls : (observedHub β).Steps (fun u _ => u.1.owner ≠ .selecting) s₁ ls)
    (ht : (observedHub β).exec s₁ ls = some t) : DispatchInv s msg t := by
  obtain ⟨h₁, hh₁, rfl⟩ := Option.map_eq_some_iff.1 hs
  obtain ⟨ho₁, hd₁⟩ := DispatchInv.start hm hh₁
  have hrun : (observedHub β).Always (fun u => LedgerInv u.1 u.2 ∧ DispatchInv s msg u ∧
      ((∃ us cs, u.1.owner = .ranging (.deliver msg) us cs) ∨ u.1.owner = .selecting))
      (h₁, s.2.record s.1 h₁) ls := by
    refine Machine.always_of_steps (fun u l u' hu hsel hstep => ?_)
      ⟨hi.step hh₁, hd₁, .inl ⟨_, _, ho₁⟩⟩ hls
    obtain ⟨hiu, hdu, hou⟩ := hu
    obtain ⟨us, cs, ho⟩ := hou.resolve_right hsel
    obtain ⟨h', hh', rfl⟩ := Option.map_eq_some_iff.1 hstep
    exact ⟨hiu.step hh', hdu.step hiu ho hh', (dispatch_step hiu ho hh').1⟩
  exact (hrun.exec ht).2.1

/-! ### What becomes of a message -/

/-- Where the message taken `k`-th stands in the feed of a client. -/
def Ledger.place (b : Ledger β) (c : Client) (k : ℕ) : ℕ :=
  (feed (·.addressed c.userID) b.taken ((b.joined c).getD 0) k).length

/-- **The fate of a message for a client**, accepted after its `Register` had
returned: the client is gone, or it was put into the client's channel at its
place (or the owner is about to), or it is still in the queue. -/
theorem LedgerInv.fate {h : Hub β} {b : Ledger β} (hi : LedgerInv h b) {c : Client} {r k : ℕ}
    {msg : DispatchMsg β} (hr : b.ready c = some r) (hk : r ≤ k) (hm : b.accepted[k]? = some msg)
    (ha : msg.addressed c.userID = true) :
    b.left c ≠ none ∨
      k < b.taken.length ∧ (b.put c ++ h.owes c)[b.place c k]? = some msg.payload ∨
      b.taken.length ≤ k ∧ h.dispatch.buf[k - b.taken.length]? = some msg := by
  by_cases hleft : b.left c = none
  · right
    rw [hi.queue] at hm
    rcases Nat.lt_or_ge k b.taken.length with hlt | hge
    · left
      obtain ⟨-, i, hj, hir⟩ := (hi.client c).ready r hr
      rw [List.getElem?_append_left hlt] at hm
      have hserved := (hi.client c).served
      rw [Ledger.refused_of_left_none hleft, List.nil_append, Ledger.due_of_joined hj,
        Ledger.exitAt_of_left_none hleft] at hserved
      have hplace := @getElem?_feed _ (·.addressed c.userID) _ _ _ _ _ (hir.trans hk) hlt hm ha
      rw [hserved, Ledger.place, hj, List.getElem?_map, Option.getD_some, hplace]
      exact ⟨hlt, rfl⟩
    · right
      rw [List.getElem?_append_right hge] at hm
      exact ⟨hge, hm⟩
  · exact .inl hleft

/-! ### The owner by itself -/

/-- The steps with which the owner hands out messages. -/
def Hub.Label.dispatching : Hub.Label β → Prop
  | .takeDispatch _ => True
  | .nextUser _ => True
  | .nextClient => True
  | .rangeDone => True
  | _ => False

/-- As long as it has not panicked, a step of the hub is a move. -/
theorem Hub.step_of_safe {h : Hub β} (hp : h.panicked = false) (l : Hub.Label β) :
    h.step l = h.move l :=
  if_neg (by rw [hp]; exact Bool.false_ne_true)

/-- By its own steps alone the owner can bring the hub to where `Q` holds. -/
def Hub.OwnerCan (h : Hub β) (Q : Hub β → Prop) : Prop :=
  ∃ ls h', (∀ l ∈ ls, Hub.Label.dispatching l) ∧ (hub β).exec h ls = some h' ∧ Q h'

/-- Where the owner wants to be it can come without a step. -/
theorem Hub.OwnerCan.here {h : Hub β} {Q : Hub β → Prop} (hq : Q h) : h.OwnerCan Q :=
  ⟨[], h, nofun, rfl, hq⟩

/-- One step of the owner on the way. -/
theorem Hub.OwnerCan.step {h h' : Hub β} {l : Hub.Label β} {Q : Hub β → Prop}
    (hl : l.dispatching) (hs : h.step l = some h') (hq : h'.OwnerCan Q) : h.OwnerCan Q := by
  obtain ⟨ls, t, hls, ht, hqt⟩ := hq
  refine ⟨l :: ls, t, ?_, ?_, hqt⟩
  · intro l' hl'
    rcases List.mem_cons.1 hl' with rfl | hl'
    · exact hl
    · exact hls l' hl'
  · rw [Machine.exec_cons]
    exact Option.bind_eq_some_iff.2 ⟨h', hs, ht⟩

/-- The next visit of a dispatch is always possible. -/
theorem HubInv.visit_enabled {h : Hub β} (hi : HubInv h) {msg : DispatchMsg β} {us : List UUID}
    {c : Client} {cs : List Client} (ho : h.owner = .ranging (.deliver msg) us (c :: cs)) :
    ∃ h', h.step .nextClient = some h' ∧ h'.owner = .ranging (.deliver msg) us cs ∧
      h'.dispatch = h.dispatch := by
  refine ⟨{ h.deliver c msg.payload with owner := .ranging (.deliver msg) us cs }, ?_, rfl,
    (h.visit_frame (.deliver msg) c).1⟩
  rw [Hub.step_of_safe hi.safe, Hub.move, ho]
  rfl

/-- A dispatch that has begun can end. -/
theorem HubInv.range_ends {msg : DispatchMsg β} (us : List UUID) (cs : List Client) {h : Hub β}
    (hi : HubInv h) (ho : h.owner = .ranging (.deliver msg) us cs) :
    h.OwnerCan fun h' => HubInv h' ∧ h'.owner = .selecting ∧ h'.dispatch = h.dispatch := by
  have hvisit : ∀ us c cs h, HubInv h → h.owner = .ranging (.deliver msg) us (c :: cs) →
      (∀ h₁ : Hub β, HubInv h₁ → h₁.owner = .ranging (.deliver msg) us cs → h₁.OwnerCan fun h' =>
        HubInv h' ∧ h'.owner = .selecting ∧ h'.dispatch = h₁.dispatch) →
      h.OwnerCan fun h' => HubInv h' ∧ h'.owner = .selecting ∧ h'.dispatch = h.dispatch := by
    intro us c cs h hi ho ih
    obtain ⟨h₁, hs, ho₁, hd⟩ := hi.visit_enabled ho
    exact .step (l := .nextClient) trivial hs (hd ▸ ih h₁ (hi.step hs) ho₁)
  induction us generalizing cs h with
  | nil =>
    induction cs generalizing h with
    | nil =>
      have hs : h.step .rangeDone = some { h with owner := .selecting } := by
        rw [Hub.step_of_safe hi.safe, Hub.move, ho]
      exact .step (l := .rangeDone) trivial hs (.here ⟨hi.step hs, rfl, rfl⟩)
    | cons c cs ih => exact hvisit [] c cs h hi ho fun h₁ hi₁ ho₁ => ih hi₁ ho₁
  | cons u us ihu =>
    induction cs generalizing h with
    | nil =>
      have hs : h.step (.nextUser (h.registry.clientsOf u).toList) = some { h with
          owner := .ranging (.deliver msg) us (h.registry.clientsOf u).toList } := by
        rw [Hub.step_of_safe hi.safe, Hub.move, ho]
        exact if_pos ⟨Finset.nodup_toList _, Finset.toList_toFinset _⟩
      exact .step (l := .nextUser _) trivial hs (ihu _ (hi.step hs) rfl)
    | cons c cs ih => exact hvisit _ c cs h hi ho fun h₁ hi₁ ho₁ => ih hi₁ ho₁

/-- The dispatch queue can be emptied. -/
theorem HubInv.queue_drains {h : Hub β} (hi : HubInv h) (ho : h.owner = .selecting) :
    h.OwnerCan fun h' => h'.owner = .selecting ∧ h'.dispatch.buf = [] := by
  induction hn : h.dispatch.buf.length generalizing h with
  | zero => exact .here ⟨ho, List.length_eq_zero_iff.1 hn⟩
  | succ n ih =>
    obtain ⟨⟨msg, q⟩, hq⟩ : ∃ p, h.dispatch.recv = some p := by
      refine Option.ne_none_iff_exists'.1 fun hnone => ?_
      rw [Chan.recv_eq_none hnone] at hn
      cases hn
    have hs : h.step (.takeDispatch (h.targets msg.recipient)) = some { h with
        dispatch := q, owner := .ranging (.deliver msg) (h.targets msg.recipient) [] } := by
      rw [Hub.step_of_safe hi.safe, Hub.move, ho, hq]
      exact if_pos (List.Perm.refl _)
    obtain ⟨ls, h₁, hls, hrun, hi₁, ho₁, hd₁⟩ := (hi.step hs).range_ends _ _ rfl
    have hlen : h₁.dispatch.buf.length = n := by
      rw [(Chan.recv_eq_some hq).1, List.length_cons] at hn
      rw [hd₁]
      exact Nat.succ.inj hn
    obtain ⟨ls', h₂, hls', hrun', hq₂⟩ := ih hi₁ ho₁ hlen
    refine .step (l := .takeDispatch _) trivial hs ⟨ls ++ ls', h₂, ?_, ?_, hq₂⟩
    · intro l hl
      exact (List.mem_append.1 hl).elim (hls l) (hls' l)
    · rw [Machine.exec_append, hrun]
      exact hrun'

/-- **The owner can always empty the queue**, unless it has taken the stop. -/
theorem HubInv.owner_drains {h : Hub β} (hi : HubInv h)
    (hstop : ∀ us cs, h.owner ≠ .ranging .closeAll us cs) (hexit : h.owner ≠ .exited) :
    h.OwnerCan fun h' => h'.owner = .selecting ∧ h'.dispatch.buf = [] := by
  cases ho : h.owner with
  | selecting => exact hi.queue_drains ho
  | exited => exact absurd ho hexit
  | ranging pass us cs =>
    cases pass with
    | closeAll => exact absurd ho (hstop us cs)
    | deliver msg =>
      obtain ⟨ls, h₁, hls, hrun, hi₁, ho₁, -⟩ := hi.range_ends us cs ho
      obtain ⟨ls', h₂, hls', hrun', hq₂⟩ := hi₁.queue_drains ho₁
      refine ⟨ls ++ ls', h₂, fun l hl => (List.mem_append.1 hl).elim (hls l) (hls' l), ?_, hq₂⟩
      rw [Machine.exec_append, hrun]
      exact hrun'

/-- The owner by itself accepts no message and returns no `Register` call. -/
theorem exec_dispatching {h h' : Hub β} {b : Ledger β} {ls : List (Hub.Label β)}
    (hi : LedgerInv h b) (hls : ∀ l ∈ ls, Hub.Label.dispatching l)
    (hrun : (hub β).exec h ls = some h') :
    ∃ b', (observedHub β).exec (h, b) ls = some (h', b') ∧ LedgerInv h' b' ∧
      b'.accepted = b.accepted ∧ b'.ready = b.ready := by
  induction ls generalizing h b with
  | nil =>
    obtain rfl := Option.some.inj hrun
    exact ⟨b, rfl, hi, rfl, rfl⟩
  | cons l ls ih =>
    obtain ⟨h₁, hs, hrun'⟩ := Option.bind_eq_some_iff.1 hrun
    have hl := hls l List.mem_cons_self
    have hkeep : h.dispatch.added h₁.dispatch = [] ∧ h₁.register = h.register := by
      cases (Hub.step_eq_some hs).2 with
      | takeDispatch _ hq _ => exact ⟨Chan.added_of_recv (Chan.recv_eq_some hq).1, rfl⟩
      | nextUser _ _ _ => exact ⟨Chan.added_eq_nil rfl, rfl⟩
      | dispatched _ => exact ⟨Chan.added_eq_nil rfl, rfl⟩
      | exited _ => exact ⟨Chan.added_eq_nil rfl, rfl⟩
      | @nextClient pass us c cs ho =>
        obtain ⟨hd, hr⟩ := h.visit_frame pass c
        exact ⟨Chan.added_eq_nil (congrArg Chan.buf hd), hr⟩
      | _ => exact hl.elim
    obtain ⟨b', hb', hi', hacc, hready⟩ := ih (hi.step hs)
      (fun l hl => hls l (List.mem_cons_of_mem _ hl)) hrun'
    refine ⟨b', ?_, hi', ?_, ?_⟩
    · rw [Machine.exec_cons]
      exact Option.bind_eq_some_iff.2 ⟨_, Option.map_eq_some_iff.2 ⟨h₁, hs, rfl⟩, hb'⟩
    · rw [hacc, Ledger.record, hkeep.1, List.append_nil]
    · rw [hready]
      funext c
      exact Ledger.record_ready (by rw [hkeep.2]; exact RegisterCall.not_acked_returned)

/-! ### Delivery -/

/-- **The hub delivers exactly.**  In every reachable state, for every client:
what was put into its channel, with the message it was refused and the message
the owner is about to hand it, is what it is due, in order, and between two
turns of its loop the owner owes nothing; a client is refused a message that
was for it, when its buffer is full, and is then removed.

A dispatch gives the message to each member it is addressed to or removes it,
and spares everybody else; of its steps only the visit of the next client
concerns a client, and removes it exactly when its buffer is full.

A message for a client that was accepted after its `Register` returned is
delivered, still to be delivered, or the client was removed; and unless it has
taken the stop the owner can bring about one or the other by itself. -/
theorem hub_delivers_exactly {s : Hub β × Ledger β} (hr : (observedHub β).Reachable s) :
    (s.2.accepted = s.2.taken ++ s.1.dispatch.buf ∧ ∀ c,
      s.2.put c = s.2.drained c ++ (s.1.send c).buf ∧
      (s.1.registry.Has c ↔ s.2.joined c ≠ none ∧ s.2.left c = none) ∧
      s.2.put c ++ (s.2.refused c ++ s.1.owes c) = s.2.due c ∧
      (s.1.owner = .selecting → s.1.owes c = []) ∧
      ∀ d x, s.2.left c = some d → d.refused = some x → d.fill = sendBufferSize ∧
        ∃ msg, s.2.taken[d.taken - 1]? = some msg ∧ msg.addressed c.userID = true ∧
          msg.payload = x) ∧
    (∀ users ls msg s₁ t, s.1.dispatch.buf.head? = some msg →
      (observedHub β).step s (.takeDispatch users) = some s₁ →
      (observedHub β).Steps (fun u _ => u.1.owner ≠ .selecting) s₁ ls →
      (observedHub β).exec s₁ ls = some t → t.1.owner = .selecting → ∀ c,
        (s.1.registry.Has c ∧ msg.addressed c.userID = true →
          Served s t msg.payload c ∨ Expelled s t msg.payload c) ∧
        (¬(s.1.registry.Has c ∧ msg.addressed c.userID = true) → Spared s t c)) ∧
    (∀ l t msg us cs, (observedHub β).step s l = some t →
      s.1.owner = .ranging (.deliver msg) us cs → ∀ c,
        (l = .nextClient ∧ cs.head? = some c →
          s.1.registry.Has c ∧ msg.addressed c.userID = true ∧
            ((s.1.send c).isFull = true ∧ Expelled s t msg.payload c ∨
              (s.1.send c).isFull = false ∧ Served s t msg.payload c)) ∧
        (¬(l = .nextClient ∧ cs.head? = some c) → Spared s t c)) ∧
    ∀ c r k msg, s.2.ready c = some r → r ≤ k → s.2.accepted[k]? = some msg →
      msg.addressed c.userID = true →
        (s.2.left c ≠ none ∨
          k < s.2.taken.length ∧
            (s.2.put c ++ s.1.owes c)[s.2.place c k]? = some msg.payload ∨
          s.2.taken.length ≤ k ∧ s.1.dispatch.buf[k - s.2.taken.length]? = some msg) ∧
        ((∀ us cs, s.1.owner ≠ .ranging .closeAll us cs) → s.1.owner ≠ .exited →
          ∃ ls t, (∀ l ∈ ls, Hub.Label.dispatching l) ∧ (observedHub β).exec s ls = some t ∧
            (t.2.left c ≠ none ∨ (t.2.put c)[t.2.place c k]? = some msg.payload)) := by
  have hi := ledgerInv_of_reachable hr
  have howes : ∀ {h : Hub β} c, h.owner = .selecting → h.owes c = [] := fun c ho => by
    rw [Hub.owes, ho]
  refine ⟨⟨hi.queue, fun c => ?_⟩, ?_, ?_, ?_⟩
  · have hc := hi.client c
    exact ⟨hc.buffer, hc.member, hc.served, howes c, hc.slow⟩
  · intro users ls msg s₁ t hm hs hls ht ho c
    have hd := dispatchInv_of_steps hi hm hs hls ht c
    constructor
    · intro hc
      rw [if_pos hc, howes c ho] at hd
      exact (hd.resolve_left fun h => absurd h.2 (List.cons_ne_nil _ _).symm).2
    · intro hc
      rwa [if_neg hc] at hd
  · intro l t msg us cs hs ho c
    obtain ⟨h', hh', rfl⟩ := Option.map_eq_some_iff.1 hs
    obtain ⟨-, -, hvisit, hother⟩ := dispatch_step hi ho hh'
    exact ⟨fun hl => hvisit c hl.1 hl.2, hother c⟩
  · intro c r k msg hready hk hm ha
    refine ⟨hi.fate hready hk hm ha, fun hstop hexit => ?_⟩
    obtain ⟨ls, h', hls, hrun, ho', hempty⟩ := hi.hub.owner_drains hstop hexit
    obtain ⟨b', hrun', hi', hacc, hready'⟩ := exec_dispatching hi hls hrun
    refine ⟨ls, (h', b'), hls, hrun', ?_⟩
    rcases hi'.fate (hready' ▸ hready) hk (hacc ▸ hm) ha with hleft | ⟨-, hput⟩ | ⟨-, hqueue⟩
    · exact .inl hleft
    · right
      rwa [howes c ho', List.append_nil] at hput
    · rw [hempty] at hqueue
      cases hqueue

/-- A client registers and a message for its user is dispatched. -/
def deliveryRun : List (Hub.Label ℕ) :=
  let c : Client := ⟨0, ⟨7⟩⟩
  [.register c, .takeRegister c, .registerReturn c, .publish ⟨⟨7⟩, 5⟩, .takeDispatch [⟨7⟩],
    .nextUser [c], .nextClient, .rangeDone]

/-- At the end of `deliveryRun` the client was given the message it was due. -/
theorem hub_delivers_exactly_deliveryRun :
    ∃ s, (observedHub ℕ).exec (Hub.new, Ledger.new) deliveryRun = some s ∧
      s.2.put ⟨0, ⟨7⟩⟩ ++ (s.2.refused ⟨0, ⟨7⟩⟩ ++ s.1.owes ⟨0, ⟨7⟩⟩) = s.2.due ⟨0, ⟨7⟩⟩ ∧
      s.2.due ⟨0, ⟨7⟩⟩ = [5] := by
  obtain ⟨s, hs⟩ : ∃ s, (observedHub ℕ).exec (Hub.new, Ledger.new) deliveryRun = some s :=
    Option.isSome_iff_exists.1 (by decide)
  have hdue : ((observedHub ℕ).exec (Hub.new, Ledger.new) deliveryRun).map
      (fun s => s.2.due ⟨0, ⟨7⟩⟩) = some [5] := by decide
  rw [hs] at hdue
  have hdelivers := hub_delivers_exactly (Machine.reachable_of_exec rfl hs)
  exact ⟨s, hs, (hdelivers.1.2 ⟨0, ⟨7⟩⟩).2.2.1, Option.some.inj hdue⟩

end Notifications
end YtShare
