/-
# What is under way to a client

Between the dispatch queue and the writer of a client lie the messages of the
queue that are for it, the one the owner is handing out, and its own channel:
the client's pipe.  Seen from the client the hub has three steps.  A message
for it that is accepted while it is registered enters the pipe at the end; its
writer takes the oldest frame; and when it is removed, the end of the pipe is
cut off.  All other steps move frames along inside the pipe (`pipe_step`).

None of this is read off the code of the hub again.  It is what the balance of
the ledger says before and after a step.
-/

import YtShare.Notifications.HubLedger

namespace YtShare
namespace Notifications

open Lib

variable {β : Type}

/-- The messages of the dispatch queue that are for a client. -/
def Hub.queuedFor (h : Hub β) (c : Client) : List β :=
  (h.dispatch.buf.filter (·.addressed c.userID)).map (·.payload)

/-- What is under way to a client, in order. -/
def Hub.pipe (h : Hub β) (c : Client) : List β :=
  (h.send c).buf ++ if h.registry.Has c then h.owes c ++ h.queuedFor c else []

namespace Hub

variable {h h' : Hub β} {c : Client}

/-- What is on its way to a registered client: in its buffer, owed to it in the
dispatch, and in the queue. -/
theorem pipe_of_has (hc : h.registry.Has c) :
    h.pipe c = (h.send c).buf ++ (h.owes c ++ h.queuedFor c) := by
  rw [pipe, if_pos hc]

/-- To another client only what its buffer still holds. -/
theorem pipe_of_not_has (hc : ¬h.registry.Has c) : h.pipe c = (h.send c).buf := by
  rw [pipe, if_neg hc, List.append_nil]

/-- **A message is accepted.** -/
theorem pipe_publish {msg : DispatchMsg β} (hs : h.step (.publish msg) = some h') (c : Client) :
    h'.registry = h.registry ∧ h'.register = h.register ∧ h'.pipe c = h.pipe c ++
      if h.registry.Has c ∧ msg.addressed c.userID = true then [msg.payload] else [] := by
  cases (step_eq_some hs).2 with
  | publish hq =>
    have hbuf := (Chan.trySend_eq_sent hq).2.2.1
    refine ⟨rfl, rfl, ?_⟩
    unfold pipe queuedFor owes
    by_cases hc : h.registry.Has c
    · by_cases ha : msg.addressed c.userID = true
      · simp [hbuf, hc, ha]
      · simp [hbuf, hc, ha]
    · simp [hc]

/-- **The writer of the client takes a frame.** -/
theorem pipe_write {x : β} {ch : Chan β sendBufferSize} (hw : (h.send c).recv = some (x, ch)) :
    h.pipe c = x :: (h.setSend c ch).pipe c := by
  have hbuf := (Chan.recv_eq_some hw).1
  unfold pipe
  rw [hbuf, h.setSend_self]
  rfl

/-- Writing a frame takes it from the buffer of the client. -/
theorem written {x : β} {ch : Chan β sendBufferSize} (hs : h.step (.write c) = some h')
    (hw : (h.send c).recv = some (x, ch)) : h' = h.setSend c ch := by
  cases (step_eq_some hs).2 with
  | write hw' =>
    obtain ⟨-, rfl⟩ := Prod.mk.inj (Option.some.inj (hw.symm.trans hw'))
    rfl

/-- A message that is dropped leaves the hub as it is. -/
theorem discarded {msg : DispatchMsg β} (hs : h.step (.discard msg) = some h') : h' = h := by
  cases (step_eq_some hs).2 with
  | discard _ => rfl

/-- The buffers that a step does not write grow at most. -/
theorem buf_prefix {l : Label β} (hi : HubInv h) (hs : h.step l = some h') (hl : l ≠ .write c) :
    (h.send c).buf <+: (h'.send c).buf := by
  have hopen : ∀ d, h.Owned d ∨ (h.register d).Pending → (h.send d).closed = false :=
    fun d hd => (hi.isOpen d).2 hd
  have hclosed : ∀ d, (h.send d).closed = false →
      (h.send c).buf <+: ((h.closeSend d).send c).buf := by
    intro d hd
    rw [closeSend_of_open hd, h.closed_buf]
  have hdrop : ∀ d, (h.registry.Has d → h.owner.Owns d) →
      (h.send c).buf <+: ((h.drop d).send c).buf := by
    intro d hd
    by_cases hhas : h.registry.Has d
    · rw [drop, if_pos hhas]
      exact hclosed d (hopen d (.inl ⟨hhas, hd hhas⟩))
    · rw [drop_of_not_has hhas]
  cases (step_eq_some hs).2 with
  | registerStopped hc _ => exact hclosed _ (hopen _ (.inr (.inr hc)))
  | @write d x ch hw =>
    rw [h.setSend_of_ne ch fun hcd => hl (by rw [hcd])]
  | takeUnregister ho _ =>
    refine hdrop _ fun _ => ?_
    rw [ho]
    trivial
  | @nextClient pass us d ds ho =>
    have hhas := ((hi.ranging _ _ _ ho).2.2 d List.mem_cons_self).1
    cases pass with
    | closeAll =>
      refine hclosed d (hopen d (.inl ⟨hhas, ?_⟩))
      rw [ho]
      exact .inl List.mem_cons_self
    | deliver msg =>
      have howns : h.owner.Owns d := by
        rw [ho]
        trivial
      rcases deliver_of_open msg.payload (hopen d (.inl ⟨hhas, howns⟩)) with
        ⟨ch, -, hbuf, -, heq⟩ | ⟨-, heq⟩
      · show (h.send c).buf <+: ((h.deliver d msg.payload).send c).buf
        rw [heq]
        rcases eq_or_ne c d with rfl | hcd
        · rw [h.setSend_self, hbuf]
          exact List.prefix_append _ _
        · rw [h.setSend_of_ne ch hcd]
      · show (h.send c).buf <+: ((h.deliver d msg.payload).send c).buf
        rw [heq]
        exact hdrop d fun _ => howns
  | _ => exact List.prefix_refl _

/-- Only the owner adds clients. -/
theorem register_of_joins {l : Label β} (hs : h.step l = some h') (hc : ¬h.registry.Has c)
    (hc' : h'.registry.Has c) : l = .takeRegister c ∧ h.owner = .selecting ∧
      h.register c = .selecting ∧ h'.send = h.send ∧ h'.dispatch = h.dispatch ∧
      h'.owner = h.owner := by
  have hdrop : ∀ d, (h.drop d).registry.Has c → h.registry.Has c := by
    intro d hd
    unfold drop at hd
    split_ifs at hd
    · exact (ClientRegistry.has_remove.1 hd).2
    · exact hd
  have hclose : ∀ d, (h.closeSend d).registry = h.registry := by
    intro d
    unfold closeSend
    split <;> rfl
  cases (step_eq_some hs).2 with
  | registerStopped _ _ => exact absurd (by rwa [← hclose]) hc
  | @takeRegister d ho hreg =>
    obtain rfl := (ClientRegistry.has_add.1 hc').resolve_right hc
    exact ⟨rfl, ho, hreg, rfl, rfl, rfl⟩
  | takeUnregister _ _ => exact absurd (hdrop _ hc') hc
  | @nextClient pass us d ds _ =>
    refine absurd ?_ hc
    cases pass with
    | closeAll =>
      change (h.closeSend d).registry.Has c at hc'
      rwa [hclose] at hc'
    | deliver msg =>
      change (h.deliver d msg.payload).registry.Has c at hc'
      unfold deliver at hc'
      split at hc'
      · exact hc'
      · exact hdrop d hc'
      · exact hc'
  | _ => exact absurd hc' hc

/-- A call of `Register` that has returned stays so. -/
theorem register_returned {l : Label β} (hs : h.step l = some h')
    (hc : h.register c = .returned) : h'.register c = .returned := by
  have hother : ∀ d p, h.register d ≠ .returned →
      Function.update h.register d p c = .returned := by
    intro d p hd
    rw [Function.update_of_ne fun hcd => hd (by rw [← hcd]; exact hc)]
    exact hc
  cases (step_eq_some hs).2 with
  | register hd => exact hother _ _ (by rw [hd]; exact nofun)
  | registerStopped hd _ => exact hother _ _ (by rw [hd]; exact nofun)
  | registerReturn hd => exact hother _ _ (by rw [hd]; exact nofun)
  | takeRegister _ hd => exact hother _ _ (by rw [hd]; exact nofun)
  | takeUnregister _ _ => exact (congrFun (h.drop_frame _).2 c).trans hc
  | nextClient _ => exact (congrFun (h.visit_frame _ _).2 c).trans hc
  | _ => exact hc

end Hub

namespace LedgerInv

variable {h h' : Hub β} {b : Ledger β} {c : Client}

/-- **The pipe in the ledger.**  What the writer of a registered client has
taken and what is under way to it are together what the queue accepted for it
since it joined. -/
theorem pipe (hi : LedgerInv h b) (hc : h.registry.Has c) : ∃ i, b.joined c = some i ∧
    b.drained c ++ h.pipe c =
      ((b.accepted.drop i).filter (·.addressed c.userID)).map (·.payload) := by
  have hcl := hi.client c
  obtain ⟨hjoined, hleft⟩ := hcl.member.1 hc
  obtain ⟨i, hj⟩ := Option.ne_none_iff_exists'.1 hjoined
  refine ⟨i, hj, ?_⟩
  have hle : i ≤ b.taken.length := (hcl.joinedLe i hj).trans hcl.leftLe
  have hserved := hcl.served
  rw [Ledger.refused_of_left_none hleft, List.nil_append, Ledger.due_of_joined hj,
    Ledger.exitAt_of_left_none hleft, feed, List.take_length] at hserved
  rw [Hub.pipe_of_has hc, ← List.append_assoc, ← hcl.buffer, ← List.append_assoc, hserved,
    hi.queue, List.drop_append_of_le_length hle, List.filter_append, List.map_append]
  rfl

/-- What was put into the channel of a client comes first in what the queue
accepted for it. -/
theorem put_prefix (hi : LedgerInv h b) {i : ℕ} (hj : b.joined c = some i) :
    b.put c <+: ((b.accepted.drop i).filter (·.addressed c.userID)).map (·.payload) := by
  have hcl := hi.client c
  have hdue : b.put c <+: b.due c := ⟨_, hcl.served⟩
  refine hdue.trans ?_
  rw [Ledger.due_of_joined hj, hi.queue]
  refine List.IsPrefix.map _ (List.IsPrefix.filter _ ?_)
  have htake : b.taken.take (b.exitAt c) <+: b.taken ++ h.dispatch.buf :=
    (List.take_prefix _ _).trans (List.prefix_append _ _)
  exact htake.drop i

/-- Nothing is under way to a client before it is registered. -/
theorem pipe_of_pending (hi : LedgerInv h b) (hc : (h.register c).Pending) : h.pipe c = [] := by
  have hput := ((hi.client c).fresh ((hi.client c).undecided hc)).1
  rw [(hi.client c).buffer] at hput
  rw [Hub.pipe_of_not_has fun hhas => hi.hub.called c hhas hc]
  exact (List.append_eq_nil_iff.1 hput).2

/-- A client that is not registered is put nothing. -/
theorem put_of_out (hi : LedgerInv h b) (hi' : LedgerInv h' (b.record h h'))
    (hc : ¬h.registry.Has c) (hc' : ¬h'.registry.Has c) : (b.record h h').put c = b.put c := by
  have hjoined : (b.record h h').joined c = b.joined c :=
    Ledger.record_joined fun hh => absurd hh hc'
  have hleft : (b.record h h').left c = b.left c := Ledger.record_left fun hh => absurd hh hc
  have howes : ∀ {g : Hub β}, ¬g.registry.Has c → g.owes c = [] := by
    intro g hg
    unfold Hub.owes
    split
    · exact if_neg fun hh => hg hh.1
    · rfl
  cases hj : b.joined c with
  | none => rw [((hi.client c).fresh hj).1, ((hi'.client c).fresh (hjoined.trans hj)).1]
  | some i =>
    obtain ⟨d, hd⟩ : ∃ d, b.left c = some d := by
      refine Option.ne_none_iff_exists'.1 fun hl => hc ((hi.client c).member.2 ⟨?_, hl⟩)
      rw [hj]
      exact nofun
    have hexit : (b.record h h').exitAt c = b.exitAt c := by
      rw [Ledger.exitAt_of_left_some hd, Ledger.exitAt_of_left_some (hleft.trans hd)]
    have hdue : (b.record h h').due c = b.due c := by
      rw [Ledger.due_of_joined hj, Ledger.due_of_joined (hjoined.trans hj), hexit]
      exact congrArg _ (feed_append _ _ _ (hi.client c).leftLe)
    have hserved := (hi.client c).served
    have hserved' := (hi'.client c).served
    have hrefused : (b.record h h').refused c = b.refused c := by
      rw [Ledger.refused, Ledger.refused, hleft]
    rw [howes hc', hrefused, hdue, ← hserved, howes hc] at hserved'
    exact List.append_cancel_right hserved'

/-- **The steps of the hub, seen from a client** that a step is not about: its
pipe stays, or the end is cut off and it is not registered any more, or it was
registered just now, and its pipe holds what the queue holds for it. -/
theorem pipe_step (hi : LedgerInv h b) {l : Hub.Label β} (hs : h.step l = some h')
    (hpub : ∀ msg, l ≠ .publish msg) (hw : l ≠ .write c) :
    (h'.registry.Has c ↔ h.registry.Has c) ∧ h'.pipe c = h.pipe c ∨
      h.registry.Has c ∧ ¬h'.registry.Has c ∧ h'.pipe c <+: h.pipe c ∨
      ¬h.registry.Has c ∧ h'.registry.Has c ∧ l = .takeRegister c ∧ h.register c = .selecting ∧
        h.pipe c = [] ∧ h'.pipe c = h.queuedFor c := by
  have hi' := hi.step hs
  have hacc : (b.record h h').accepted = b.accepted := by
    refine (accepted_step hs).resolve_right ?_
    rintro ⟨msg, rfl, -⟩
    exact hpub msg rfl
  have hdrained : (b.record h h').drained c = b.drained c :=
    (congrArg (b.drained c ++ ·) (Chan.removed_of_prefix (Hub.buf_prefix hi.hub hs hw))).trans
      (List.append_nil _)
  by_cases hc : h.registry.Has c
  · obtain ⟨i, hj, hpipe⟩ := hi.pipe hc
    have hj' : (b.record h h').joined c = some i := (Ledger.record_joined fun _ => hc).trans hj
    by_cases hc' : h'.registry.Has c
    · refine .inl ⟨iff_of_true hc' hc, ?_⟩
      obtain ⟨i', hji, hpipe'⟩ := hi'.pipe hc'
      obtain rfl := Option.some.inj (hj'.symm.trans hji)
      rw [hacc, hdrained, ← hpipe] at hpipe'
      exact List.append_cancel_left hpipe'
    · refine .inr (.inl ⟨hc, hc', ?_⟩)
      have hput := hi'.put_prefix hj'
      rw [hacc, ← hpipe, (hi'.client c).buffer, hdrained] at hput
      rw [Hub.pipe_of_not_has hc']
      exact (List.prefix_append_right_inj _).1 hput
  · by_cases hc' : h'.registry.Has c
    · obtain ⟨rfl, ho, hreg, hsend, hdispatch, howner⟩ := Hub.register_of_joins hs hc hc'
      have hpipe : h.pipe c = [] := hi.pipe_of_pending (.inr hreg)
      refine .inr (.inr ⟨hc, hc', rfl, hreg, hpipe, ?_⟩)
      · rw [Hub.pipe_of_not_has hc] at hpipe
        have howes : h'.owes c = [] := by
          rw [Hub.owes, howner, ho]
        rw [Hub.pipe_of_has hc', hsend, hpipe, howes, Hub.queuedFor, hdispatch]
        rfl
    · refine .inl ⟨iff_of_false hc' hc, ?_⟩
      rw [Hub.pipe_of_not_has hc, Hub.pipe_of_not_has hc']
      have hput : (b.record h h').put c = b.put c := hi.put_of_out hi' hc hc'
      rw [(hi.client c).buffer, (hi'.client c).buffer, hdrained] at hput
      exact List.append_cancel_left hput

end LedgerInv

end Notifications
end YtShare
