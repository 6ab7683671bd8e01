/-
# No panic in the hub, and what its registry holds

The send channel of a client is closed in four places: by `drop` for a slow
client, by `drop` for an unregistered one, by `closeAll`, and by `Register`
when it loses the race with `stop`.  A channel closed twice, or sent to after
it was closed, would panic the owner goroutine.

What rules it out is an account of who will close each channel.  `Hub.Owned`
are the clients whose channel the owner has yet to close: those in the
registry, and once `closeAll` has started only those it has not come to.  A
channel is open exactly when the owner owns it or its client's `Register` call
has not been decided (`HubInv.isOpen`), so each of the four closes finds an
open channel and takes away the reason it was open.
-/

import YtShare.Notifications.Hub

namespace YtShare
namespace Notifications

open Lib

/-! ### The registry -/

/-- What holds of the registry between the methods of `clientRegistry`. -/
structure ClientRegistry.Wf (r : ClientRegistry) : Prop where
  perUser : ∀ u, ∀ c ∈ r.clientsOf u, c.userID = u
  nonempty : ∀ u ∈ r.byUser, (r.clientsOf u).Nonempty
  size : ∃ m : Finset Client, (∀ c, c ∈ m ↔ r.Has c) ∧ r.total = m.card

namespace ClientRegistry

/-- The registry of a new hub is empty. -/
theorem wf_new : new.Wf where
  perUser _ _ hc := absurd hc (Finset.notMem_empty _)
  nonempty _ hu := absurd hu (AList.notMem_empty _)
  size := ⟨∅, fun c => ⟨fun hc => absurd hc (Finset.notMem_empty c), fun hc => hc⟩, rfl⟩

/-- A client that is added is one more, and `Count` says so. -/
theorem total_add {r : ClientRegistry} {c : Client} (hc : ¬r.Has c) :
    (r.add c).total = r.total + 1 ∧ (r.add c).count = r.total + 1 := by
  have hset : c ∉ (r.byUser.lookup c.userID).getD ∅ := hc
  unfold add
  cases hl : r.byUser.lookup c.userID with
  | none => simp
  | some set =>
    rw [hl, Option.getD_some] at hset
    simp [hl, hset]

/-- Adding a client keeps the count and the sets in step. -/
theorem Wf.add {r : ClientRegistry} (hr : r.Wf) {c : Client} (hc : ¬r.Has c) : (r.add c).Wf where
  perUser u d hd := by
    rw [clientsOf_add] at hd
    split_ifs at hd with hu
    · rcases Finset.mem_insert.1 hd with rfl | hd
      · exact hu.symm
      · exact hr.perUser u d hd
    · exact hr.perUser u d hd
  nonempty u hu := by
    rw [clientsOf_add]
    split_ifs with hc
    · exact Finset.insert_nonempty _ _
    · exact hr.nonempty u ((mem_byUser_add.1 hu).resolve_left hc)
  size := by
    obtain ⟨m, hm, ht⟩ := hr.size
    refine ⟨insert c m, fun d => ?_, ?_⟩
    · rw [Finset.mem_insert, has_add, hm]
    · rw [(total_add hc).1, ht, Finset.card_insert_of_notMem fun h => hc ((hm c).1 h)]
      push_cast; rfl

/-- So does removing one, with the set of its user when it was the last. -/
theorem Wf.remove {r : ClientRegistry} (hr : r.Wf) {c : Client} (hc : r.Has c) :
    (r.remove c).Wf where
  perUser u d hd := by
    rw [clientsOf_remove] at hd
    split_ifs at hd
    · exact hr.perUser u d (Finset.mem_of_mem_erase hd)
    · exact hr.perUser u d hd
  nonempty u hu := by
    rw [clientsOf_remove]
    rcases mem_byUser_remove hu with ⟨rfl, he⟩ | ⟨hne, hu⟩
    · rw [if_pos rfl]
      exact Finset.nonempty_iff_ne_empty.2 he
    · rw [if_neg hne]
      exact hr.nonempty u hu
  size := by
    obtain ⟨m, hm, ht⟩ := hr.size
    refine ⟨m.erase c, fun d => ?_, ?_⟩
    · rw [Finset.mem_erase, has_remove, hm]
    · have hcm : c ∈ m := (hm c).2 hc
      have hcard := Finset.card_erase_add_one hcm
      show r.total - 1 = _
      omega

end ClientRegistry

/-! ### Who closes a channel -/

/-- The call of `Register` is not decided yet: neither the owner has taken it
nor has it seen the hub stop. -/
def RegisterCall.Pending (p : RegisterCall) : Prop := p = .idle ∨ p = .selecting

/-- The channels of the registered clients are for the owner to close, except
those that `closeAll` has closed already. -/
def Owner.Owns {β : Type} (o : Owner β) (c : Client) : Prop :=
  match o with
  | .ranging .closeAll us cs => c ∈ cs ∨ c.userID ∈ us
  | .exited => False
  | _ => True

/-- The owner has yet to close the channel of the client. -/
def Hub.Owned {β : Type} (h : Hub β) (c : Client) : Prop :=
  h.registry.Has c ∧ h.owner.Owns c

/-- The invariant of the hub. -/
structure HubInv {β : Type} (h : Hub β) : Prop where
  safe : h.panicked = false
  registry : h.registry.Wf
  count : h.registry.count = if h.done = true then 0 else h.registry.total
  called : ∀ c, h.registry.Has c → ¬(h.register c).Pending
  isOpen : ∀ c, (h.send c).closed = false ↔ h.Owned c ∨ (h.register c).Pending
  ranging : ∀ pass us cs, h.owner = .ranging pass us cs →
    us.Nodup ∧ cs.Nodup ∧ ∀ c ∈ cs, h.registry.Has c ∧ c.userID ∉ us
  exited : h.done = true ↔ h.owner = .exited

namespace HubInv

variable {β : Type} {h : Hub β}

/-- A new hub is safe. -/
theorem new : HubInv (Hub.new : Hub β) where
  safe := rfl
  registry := ClientRegistry.wf_new
  count := rfl
  called _ hc := absurd hc (Finset.notMem_empty _)
  isOpen _ := ⟨fun _ => .inr (.inl rfl), fun _ => rfl⟩
  ranging _ _ _ ho := nomatch ho
  exited := ⟨nofun, nofun⟩

/-- Only an owner that has exited has closed `h.done`. -/
theorem not_done (hi : HubInv h) (ho : h.owner ≠ .exited) : ¬h.done = true :=
  fun hd => ho (hi.exited.1 hd)

/-- The queues and the stop flag play no part. -/
theorem queues (hi : HubInv h) (u : Chan Client unregisterBuffer)
    (d : Chan (DispatchMsg β) broadcastBuffer) (s : Bool) :
    HubInv { h with unregister := u, dispatch := d, stop := s } :=
  ⟨hi.safe, hi.registry, hi.count, hi.called, hi.isOpen, hi.ranging, hi.exited⟩

/-- A `Register` call that moves without being decided, or after. -/
theorem setRegister (hi : HubInv h) {c : Client} {p : RegisterCall}
    (hp : p.Pending ↔ (h.register c).Pending) :
    HubInv { h with register := Function.update h.register c p } := by
  have hpend : ∀ d, (Function.update h.register c p d).Pending ↔ (h.register d).Pending := by
    intro d
    rcases eq_or_ne d c with rfl | hd
    · rw [Function.update_self]; exact hp
    · rw [Function.update_of_ne hd]
  refine ⟨hi.safe, hi.registry, hi.count, fun d hd => ?_, fun d => ?_, hi.ranging, hi.exited⟩
  · exact fun hpd => hi.called d hd ((hpend d).1 hpd)
  · exact (hi.isOpen d).trans (or_congr_right (hpend d).symm)

/-- Filling or draining a channel without closing it. -/
theorem setSend (hi : HubInv h) {c : Client} {ch : Chan β sendBufferSize}
    (hc : ch.closed = (h.send c).closed) : HubInv (h.setSend c ch) := by
  refine ⟨hi.safe, hi.registry, hi.count, hi.called, fun d => ?_, hi.ranging, hi.exited⟩
  have hsame : (Function.update h.send c ch d).closed = (h.send d).closed := by
    rcases eq_or_ne d c with rfl | hd
    · rw [Function.update_self, hc]
    · rw [Function.update_of_ne hd]
  exact (iff_of_eq (congrArg (· = false) hsame)).trans (hi.isOpen d)

/-- The owner moves to another place in its code, and is to close the same
channels there. -/
theorem setOwner (hi : HubInv h) {o : Owner β} (ho : h.owner ≠ .exited) (ho' : o ≠ .exited)
    (hown : ∀ c, h.registry.Has c → (o.Owns c ↔ h.owner.Owns c))
    (hr : ∀ pass us cs, o = .ranging pass us cs →
      us.Nodup ∧ cs.Nodup ∧ ∀ c ∈ cs, h.registry.Has c ∧ c.userID ∉ us) :
    HubInv { h with owner := o } := by
  refine ⟨hi.safe, hi.registry, hi.count, hi.called, fun d => ?_, hr, ?_⟩
  · exact (hi.isOpen d).trans (or_congr_left (and_congr_right fun hd => (hown d hd).symm))
  · exact iff_of_false (hi.not_done ho) ho'

/-- Closing the channel of one client, when nobody is to close it afterwards
and nothing changes for the others. -/
theorem isOpen_close (hi : HubInv h) {c : Client} {ch : Chan β sendBufferSize}
    (hch : ch.closed = true) {Q : Client → Prop} (hc : ¬Q c)
    (hd : ∀ d, d ≠ c → (Q d ↔ h.Owned d ∨ (h.register d).Pending)) (d : Client) :
    (Function.update h.send c ch d).closed = false ↔ Q d := by
  rcases eq_or_ne d c with rfl | hne
  · rw [Function.update_self, hch]
    exact ⟨nofun, fun hq => absurd hq hc⟩
  · rw [Function.update_of_ne hne]
    exact (hi.isOpen d).trans (hd d hne).symm

/-- `clientRegistry.drop`, while the owner is to close every channel of the
registry. -/
theorem drop (hi : HubInv h) (hown : ∀ c, h.owner.Owns c) (c : Client)
    (hr : ∀ pass us cs, h.owner = .ranging pass us cs → c ∉ cs) : HubInv (h.drop c) := by
  by_cases hc : h.registry.Has c
  · have hnp := hi.called c hc
    rw [Hub.drop_of_open hc ((hi.isOpen c).2 (.inl ⟨hc, hown c⟩))]
    have hne : ¬h.done = true := hi.not_done fun ho => by
      have hownc := hown c
      rw [ho] at hownc
      exact hownc
    refine ⟨hi.safe, hi.registry.remove hc, ?_, fun d hd => ?_, ?_, fun pass us cs ho => ?_,
      hi.exited⟩
    · show h.registry.total - 1 = if h.done = true then 0 else h.registry.total - 1
      rw [if_neg hne]
    · exact hi.called d (ClientRegistry.has_remove.1 hd).2
    · refine hi.isOpen_close rfl (fun hq => ?_) fun d hd => or_congr_left (and_congr_left' ?_)
      · exact hq.elim (fun hq => (ClientRegistry.has_remove.1 hq.1).1 rfl) hnp
      · exact ClientRegistry.has_remove.trans (and_iff_right hd)
    · obtain ⟨hus, hcs, hall⟩ := hi.ranging pass us cs ho
      refine ⟨hus, hcs, fun d hd => ⟨ClientRegistry.has_remove.2 ⟨?_, (hall d hd).1⟩, ?_⟩⟩
      · exact fun hdc => hr pass us cs ho (hdc ▸ hd)
      · exact (hall d hd).2
  · rw [Hub.drop_of_not_has hc]
    exact hi

/-- The send of `deliverTo` to a client ahead of the owner in a dispatch. -/
theorem deliver (hi : HubInv h) (hown : ∀ c, h.owner.Owns c) {c : Client} (hc : h.registry.Has c)
    (hr : ∀ pass us cs, h.owner = .ranging pass us cs → c ∉ cs) (x : β) :
    HubInv (h.deliver c x) := by
  have ho : (h.send c).closed = false := (hi.isOpen c).2 (.inl ⟨hc, hown c⟩)
  rcases Hub.deliver_of_open x ho with ⟨ch, -, -, hch, heq⟩ | ⟨-, heq⟩
  · rw [heq]
    exact hi.setSend (hch.trans ho.symm)
  · rw [heq]
    exact hi.drop hown c hr

/-- One turn of `closeAll`: the client it comes to is in the registry and its
channel is still open. -/
theorem closeNext (hi : HubInv h) {us : List UUID} {c : Client} {cs : List Client}
    (ho : h.owner = .ranging .closeAll us (c :: cs)) :
    HubInv { h.closeSend c with owner := .ranging .closeAll us cs } := by
  obtain ⟨hus, hcs, hall⟩ := hi.ranging _ _ _ ho
  obtain ⟨hc, hcu⟩ := hall c List.mem_cons_self
  have howns : ∀ d, h.owner.Owns d ↔ d ∈ c :: cs ∨ d.userID ∈ us := by
    intro d
    rw [ho]
    exact Iff.rfl
  have hopen : (h.send c).closed = false :=
    (hi.isOpen c).2 (.inl ⟨hc, (howns c).2 (.inl List.mem_cons_self)⟩)
  rw [Hub.closeSend_of_open hopen]
  refine ⟨hi.safe, hi.registry, hi.count, hi.called, ?_, fun pass us' cs' ho' => ?_, ?_⟩
  · refine hi.isOpen_close rfl (fun hq => ?_) fun d hd =>
      or_congr_left (and_congr_right fun _ => ?_)
    · rcases hq with ⟨-, hmem | hmem⟩ | hp
      · exact (List.nodup_cons.1 hcs).1 hmem
      · exact hcu hmem
      · exact hi.called c hc hp
    · rw [howns]
      exact or_congr_left (List.mem_cons.trans (or_iff_right hd)).symm
  · cases ho'
    exact ⟨hus, (List.nodup_cons.1 hcs).2, fun d hd => hall d (List.mem_cons_of_mem c hd)⟩
  · exact iff_of_false (hi.not_done (by rw [ho]; exact nofun)) nofun

end HubInv

/-- The owner of a hub that visits a client could as well have moved on first:
the visit does not look at where the owner is. -/
theorem Hub.visit_setOwner {β : Type} (h : Hub β) (pass : Pass β) (c : Client) (o : Owner β) :
    { h.visit pass c with owner := o } = ({ h with owner := o } : Hub β).visit pass c := by
  cases pass with
  | closeAll =>
    simp only [Hub.visit, Hub.closeSend]
    cases (h.send c).close <;> rfl
  | deliver msg =>
    simp only [Hub.visit, Hub.deliver]
    cases (h.send c).trySend msg.payload with
    | sent ch => rfl
    | panic => rfl
    | full =>
      simp only [Hub.drop, Hub.closeSend]
      split_ifs
      · cases (h.send c).close <;> rfl
      · rfl

/-- **The step lemma.**  Every outcome of a step keeps the invariant. -/
theorem HubInv.step {β : Type} {h h' : Hub β} {l : Hub.Label β} (hi : HubInv h)
    (hs : h.step l = some h') : HubInv h' := by
  cases (Hub.step_eq_some hs).2 with
  | register hc =>
    exact hi.setRegister ⟨fun _ => .inl hc, fun _ => .inr rfl⟩
  | @registerStopped c hc _ =>
    have hp : (h.register c).Pending := .inr hc
    have hnot : ¬h.registry.Has c := fun hh => hi.called c hh hp
    rw [Hub.closeSend_of_open ((hi.isOpen c).2 (.inr hp))]
    have hpend : ∀ d, d ≠ c → ((Function.update h.register c .returned d).Pending ↔
        (h.register d).Pending) := fun d hd => by rw [Function.update_of_ne hd]
    refine ⟨hi.safe, hi.registry, hi.count, fun d hd => ?_, ?_, hi.ranging, hi.exited⟩
    · rw [hpend d fun hdc => hnot (hdc ▸ hd)]
      exact hi.called d hd
    · refine hi.isOpen_close rfl (fun hq => ?_) fun d hd => or_congr_right (hpend d hd)
      rcases hq with hq | hq
      · exact hnot hq.1
      · change (Function.update h.register c .returned c).Pending at hq
        rw [Function.update_self] at hq
        exact hq.elim nofun nofun
  | @registerReturn c hc =>
    exact hi.setRegister ⟨fun hp => hp.elim nofun nofun, fun hp => by
      rw [hc] at hp; exact hp.elim nofun nofun⟩
  | unregister _ => exact hi.queues ..
  | publish _ => exact hi.queues ..
  | discard _ => exact hi
  | close => exact hi.queues ..
  | write hw => exact hi.setSend (Chan.recv_eq_some hw).2
  | takeStop ho _ hu =>
    refine hi.setOwner (by rw [ho]; exact nofun) nofun (fun c hc => ?_) fun pass us cs hr => ?_
    · rw [ho]
      exact iff_of_true (.inr (hu.mem_iff.2 (ClientRegistry.mem_of_has hc))) trivial
    · cases hr
      exact ⟨hu.nodup_iff.2 h.registry.byUser.keys_nodup, List.nodup_nil, nofun⟩
  | @takeRegister c ho hc =>
    have hp : (h.register c).Pending := .inr hc
    have hnot : ¬h.registry.Has c := fun hh => hi.called c hh hp
    have hne : ¬h.done = true := hi.not_done (by rw [ho]; exact nofun)
    have hpend : ∀ d, d ≠ c → ((Function.update h.register c .acked d).Pending ↔
        (h.register d).Pending) := fun d hd => by rw [Function.update_of_ne hd]
    refine ⟨hi.safe, hi.registry.add hnot, ?_, fun d hd => ?_, fun d => ?_, fun pass us cs hr => ?_,
      hi.exited⟩
    · obtain ⟨ht, hct⟩ := ClientRegistry.total_add hnot
      show (h.registry.add c).count = if h.done = true then 0 else (h.registry.add c).total
      rw [if_neg hne, ht, hct]
    · show ¬(Function.update h.register c .acked d).Pending
      rcases eq_or_ne d c with rfl | hdc
      · rw [Function.update_self]
        exact fun hpd => hpd.elim nofun nofun
      · rw [hpend d hdc]
        exact hi.called d ((ClientRegistry.has_add.1 hd).resolve_left hdc)
    · have howned : Hub.Owned { h with
            registry := h.registry.add c
            register := Function.update h.register c .acked } d ↔ d = c ∨ h.registry.Has d := by
        refine (and_iff_left ?_).trans ClientRegistry.has_add
        rw [ho]
        trivial
      rw [howned]
      rcases eq_or_ne d c with rfl | hdc
      · exact iff_of_true ((hi.isOpen d).2 (.inr hp)) (.inl (.inl rfl))
      · refine (hi.isOpen d).trans (or_congr ?_ (hpend d hdc).symm)
        exact (and_iff_left (by rw [ho]; trivial)).trans (or_iff_right hdc).symm
    · rw [ho] at hr
      cases hr
  | @takeUnregister c _ ho _ =>
    refine (hi.drop (fun d => by rw [ho]; trivial) c fun pass us cs hr => ?_).queues _ _ _
    rw [ho] at hr
    cases hr
  | @takeDispatch users msg q ho _ hu =>
    refine HubInv.queues (hi.setOwner (o := .ranging (.deliver msg) users [])
      (by rw [ho]; exact nofun) nofun (fun c hc => ?_) fun pass us cs hr => ?_) _ q _
    · rw [ho]
      exact Iff.rfl
    · cases hr
      refine ⟨hu.nodup_iff.2 ?_, List.nodup_nil, nofun⟩
      unfold Hub.targets
      split_ifs
      · exact h.registry.byUser.keys_nodup
      · exact List.nodup_singleton _
      · exact List.nodup_nil
  | @nextUser pass u us clients ho hn hc =>
    have hmem : ∀ c, c ∈ clients ↔ c ∈ h.registry.clientsOf u := fun c => by
      rw [← hc, List.mem_toFinset]
    obtain ⟨hus, -, -⟩ := hi.ranging _ _ _ ho
    have huser : ∀ c ∈ clients, c.userID = u := by
      intro c hcl
      exact hi.registry.perUser u c ((hmem c).1 hcl)
    refine hi.setOwner (by rw [ho]; exact nofun) nofun (fun c hreg => ?_) fun pass' us' cs' hr => ?_
    · rw [ho]
      cases pass with
      | deliver msg => exact Iff.rfl
      | closeAll =>
        have hu : c ∈ clients ↔ c.userID = u :=
          ⟨huser c, fun hcu => (hmem c).2 (hcu ▸ hreg)⟩
        simp only [Owner.Owns, hu, List.mem_cons, List.not_mem_nil, false_or]
    · cases hr
      refine ⟨(List.nodup_cons.1 hus).2, hn, fun c hcl => ⟨?_, ?_⟩⟩
      · have := (hmem c).1 hcl
        rwa [← huser c hcl] at this
      · rw [huser c hcl]
        exact (List.nodup_cons.1 hus).1
  | @nextClient pass us c cs ho =>
    cases pass with
    | closeAll => exact hi.closeNext ho
    | deliver msg =>
      obtain ⟨hus, hcs, hall⟩ := hi.ranging _ _ _ ho
      have hi' : HubInv { h with owner := .ranging (.deliver msg) us cs } := by
        refine hi.setOwner (by rw [ho]; exact nofun) nofun (fun d _ => by rw [ho]; exact Iff.rfl) ?_
        intro pass us' cs' hr
        cases hr
        exact ⟨hus, (List.nodup_cons.1 hcs).2, fun d hd => hall d (List.mem_cons_of_mem c hd)⟩
      rw [Hub.visit_setOwner]
      have hhas : h.registry.Has c := (hall c List.mem_cons_self).1
      refine hi'.deliver (fun _ => trivial) hhas (fun pass us' cs' hr => ?_) _
      cases hr
      exact (List.nodup_cons.1 hcs).1
  | dispatched ho =>
    exact hi.setOwner (by rw [ho]; exact nofun) nofun (fun c _ => by rw [ho]; exact Iff.rfl) nofun
  | exited ho =>
    have hwf := hi.registry
    refine ⟨hi.safe, ⟨hwf.perUser, hwf.nonempty, hwf.size⟩, rfl, hi.called, fun d => ?_, nofun,
      fun _ => rfl, fun _ => rfl⟩
    refine (hi.isOpen d).trans (or_congr_left (and_congr_right fun _ => ?_))
    rw [ho]
    exact iff_of_false (fun h => h.elim nofun nofun) (fun h => h)

/-- **The run lemma.**  The invariant holds in every reachable state. -/
theorem hubInv_of_reachable {β : Type} {h : Hub β} (hr : (hub β).Reachable h) : HubInv h :=
  Machine.invariant (fun _ hs => hs ▸ HubInv.new) (fun _ _ _ hi hs => hi.step hs) hr

/-- **The hub does not panic and keeps track of its clients.**  Whatever the
goroutines do, no channel is closed twice or sent to after it was closed.
Whenever the owner is back at its `select`, `count` and `total` are the number
of registered clients, each under its own user, no user has an empty set, and
a client whose `Register` has returned is registered exactly while its channel
is open.  Once `Close` has returned, nobody is counted and all those channels
are closed. -/
theorem hub_channels_safe {β : Type} {h : Hub β} (hr : (hub β).Reachable h) :
    h.panicked = false ∧
      (h.owner = .selecting →
        h.count = h.registry.total ∧
          (∃ m : Finset Client, (∀ c, c ∈ m ↔ ∃ u, c ∈ h.registry.clientsOf u) ∧
            h.registry.total = m.card) ∧
          (∀ u, ∀ c ∈ h.registry.clientsOf u, c.userID = u) ∧
          (∀ u ∈ h.registry.byUser, (h.registry.clientsOf u).Nonempty) ∧
          ∀ c, h.register c = .returned →
            ((∃ u, c ∈ h.registry.clientsOf u) ↔ (h.send c).closed = false)) ∧
      (h.done = true →
        h.count = 0 ∧ ∀ c, h.register c = .returned → (h.send c).closed = true) := by
  have hi := hubInv_of_reachable hr
  have hhas : ∀ c, (∃ u, c ∈ h.registry.clientsOf u) ↔ h.registry.Has c := fun c =>
    ⟨fun ⟨u, hc⟩ => by rwa [← hi.registry.perUser u c hc] at hc, fun hc => ⟨c.userID, hc⟩⟩
  have hdecided : ∀ c, h.register c = .returned → ¬(h.register c).Pending := fun c hc => by
    rw [hc]
    exact fun hp => hp.elim nofun nofun
  refine ⟨hi.safe, fun ho => ⟨?_, ?_, hi.registry.perUser, hi.registry.nonempty, fun c hc => ?_⟩,
    fun hd => ⟨?_, fun c hc => ?_⟩⟩
  · have hne : ¬h.done = true := hi.not_done (by rw [ho]; exact nofun)
    rw [Hub.count, hi.count, if_neg hne]
  · obtain ⟨m, hm, ht⟩ := hi.registry.size
    exact ⟨m, fun c => (hm c).trans (hhas c).symm, ht⟩
  · rw [hhas, hi.isOpen, or_iff_left (hdecided c hc), Hub.Owned, ho]
    exact (and_iff_left trivial).symm
  · rw [Hub.count, hi.count, if_pos hd]
  · refine Bool.eq_true_of_not_eq_false fun hopen => ?_
    rcases (hi.isOpen c).1 hopen with hown | hp
    · have := hown.2
      rw [hi.exited.1 hd] at this
      exact this
    · exact hdecided c hc hp

/-- A client registers and the hub is closed. -/
def closedRun : List (Hub.Label ℕ) :=
  let c : Client := ⟨0, ⟨7⟩⟩
  [.register c, .takeRegister c, .registerReturn c, .close, .takeStop [⟨7⟩], .nextUser [c],
    .nextClient, .rangeDone]

/-- At the end of `closedRun`, `Close` has returned and so has `Register`. -/
theorem hub_channels_safe_closedRun :
    ∃ h : Hub ℕ, (hub ℕ).exec Hub.new closedRun = some h ∧ h.panicked = false ∧ h.done = true ∧
      h.register ⟨0, ⟨7⟩⟩ = .returned ∧ (h.send ⟨0, ⟨7⟩⟩).closed = true := by
  obtain ⟨h, hh⟩ : ∃ h, (hub ℕ).exec Hub.new closedRun = some h :=
    Option.isSome_iff_exists.1 (by decide)
  have hdone : ((hub ℕ).exec Hub.new closedRun).map (fun h => (h.done, h.register ⟨0, ⟨7⟩⟩))
      = some (true, .returned) := by decide
  rw [hh] at hdone
  obtain ⟨hd, hreg⟩ := Prod.mk.inj (Option.some.inj hdone)
  have hsafe := hub_channels_safe (Machine.reachable_of_exec rfl hh)
  exact ⟨h, hh, hsafe.1, hd, hreg, (hsafe.2.2 hd).2 _ hreg⟩

end Notifications
end YtShare
