/-
# Who sees an event

An event with a recipient is for that user alone.  It can reach a user in three
ways, and each way sorts out the recipients by itself: the hub, by the route of
the message; the backlog of a new socket, by a test on every event; and
`/notifications/since`, which has no such test.

So live frames and backlogs are confidential whatever the stream holds
(`live_confidential`, `backlog_confidential`), and an answer of `/since` is
exactly when none of the entries it reads is an event for somebody else
(`delivery_confidential_iff`).
-/

import YtShare.Notifications.Handler
import YtShare.Notifications.HubLedger
import YtShare.Notifications.Publisher
import YtShare.Notifications.Replay

namespace YtShare
namespace Notifications

open Lib StreamPublisher

variable {Raw : Type} {json : EventJSON Raw}

/-- Every event among the frames is for the user. -/
def FramesFor (json : EventJSON Raw) (u : UUID) (frames : List Raw) : Prop :=
  ∀ raw ∈ frames, ∀ evt, json.unmarshal raw = some evt → evt.isFor u = true

/-- Every event in an answer of `/since` is for the user. -/
def AnswerFor (u : UUID) (answer : Except Failure (List Event)) : Prop :=
  ∀ events, answer = .ok events → ∀ evt ∈ events, evt.isFor u = true

/-- The `Replayer` of a server: `StreamPublisher.Replay` of its stream, none
when it has no Redis. -/
def serverReplayer (redis : Redis Raw) (json : EventJSON Raw) (stream : Option (Stream Raw)) :
    Option Replayer :=
  stream.map fun s => replay redis json s

/-- The stream entries that a request to `/since` reads: the first after its
cursor, as many as its limit allows, and none when the cursor is no stream id. -/
def sinceWindow (stream : Option (Stream Raw)) (id limit : String) : List (Entry Raw) :=
  match stream, StreamID.parse (cursor id) with
  | some s, some i => (s.after i).take (clampLimit (Handler.sinceLimit limit))
  | _, _ => []

/-- A request from the beginning reads the first entries. -/
theorem sinceWindow_start (s : Stream Raw) {id : String} (h : cursor id = "0") (limit : String) :
    sinceWindow (some s) id limit = s.entries.take (clampLimit (Handler.sinceLimit limit)) := by
  have hzero : StreamID.parse "0" = some (.of 0 0) := by decide
  unfold sinceWindow
  rw [h, hzero, ← s.after_zero]

/-! ### The hub -/

/-- What a run accepts was posted by one of its steps. -/
theorem accepted_run {s t : Hub Raw × Ledger Raw} {ls : List (Hub.Label Raw)}
    (hrun : (observedHub Raw).exec s ls = some t) {msg : DispatchMsg Raw}
    (hm : msg ∈ t.2.accepted) : msg ∈ s.2.accepted ∨ .publish msg ∈ ls := by
  induction ls generalizing s with
  | nil =>
    obtain rfl := Option.some.inj hrun
    exact .inl hm
  | cons l ls ih =>
    obtain ⟨u, hu, hrun'⟩ := Option.bind_eq_some_iff.1 hrun
    obtain ⟨h', hh', rfl⟩ := Option.map_eq_some_iff.1 hu
    rcases ih hrun' with hmem | hmem
    · rcases @accepted_step _ s.1 h' s.2 l hh' with heq | ⟨m, rfl, heq⟩
      · exact .inl (heq ▸ hmem)
      · rw [heq] at hmem
        rcases List.mem_append.1 hmem with hmem | hmem
        · exact .inl hmem
        · rw [List.mem_singleton.1 hmem]
          exact .inr List.mem_cons_self
    · exact .inr (List.mem_cons_of_mem l hmem)

/-- **What a client was put was posted for it.** -/
theorem LedgerInv.mem_put {h : Hub Raw} {b : Ledger Raw} (hi : LedgerInv h b) {c : Client}
    {raw : Raw} (hraw : raw ∈ b.put c) :
    ∃ msg ∈ b.accepted, msg.addressed c.userID = true ∧ msg.payload = raw := by
  have hdue : raw ∈ b.due c := by
    rw [← (hi.client c).served]
    exact List.mem_append_left _ hraw
  unfold Ledger.due at hdue
  cases hj : b.joined c with
  | none =>
    rw [hj] at hdue
    exact absurd hdue List.not_mem_nil
  | some i =>
    rw [hj] at hdue
    obtain ⟨msg, hmsg, rfl⟩ := List.mem_map.1 hdue
    obtain ⟨htaken, ha⟩ := mem_of_mem_feed hmsg
    refine ⟨msg, ?_, ha, rfl⟩
    rw [hi.queue]
    exact List.mem_append_left _ htaken

/-- **Live frames are confidential.** -/
theorem live_confidential {ls : List (Hub.Label Raw)} {t : Hub Raw × Ledger Raw}
    (hrun : (observedHub Raw).exec (Hub.new, Ledger.new) ls = some t)
    (hposted : ∀ msg, .publish msg ∈ ls → Posted json msg) (c : Client) :
    FramesFor json c.userID (t.2.put c) := by
  intro raw hraw evt hevt
  have hi := ledgerInv_of_reachable (Machine.reachable_of_exec rfl hrun)
  obtain ⟨msg, hmsg, ha, rfl⟩ := hi.mem_put hraw
  have hmem := (accepted_run hrun hmsg).resolve_left List.not_mem_nil
  obtain ⟨e, he, her⟩ := (hposted msg hmem).agrees
  obtain rfl := Option.some.inj (he.symm.trans hevt)
  rw [Event.isFor_iff, her]
  exact of_decide_eq_true ha

/-! ### The replays -/

/-- **Backlogs are confidential.** -/
theorem backlog_confidential (replayer : Option Replayer) (u : UUID) (since : String)
    (writes : ℕ) : FramesFor json u (Handler.backlog replayer json u since writes) := by
  intro raw hraw evt hevt
  obtain ⟨e, hfor, hmarshal⟩ : ∃ e : Event, e.isFor u = true ∧ json.marshal e = some raw := by
    unfold Handler.backlog Handler.replayBacklog at hraw
    split at hraw
    · exact absurd hraw List.not_mem_nil
    · split_ifs at hraw
      · split at hraw
        · exact absurd hraw List.not_mem_nil
        · obtain ⟨e, -, he⟩ := Handler.mem_writeBacklog _ _ hraw
          exact ⟨e, he⟩
      · exact absurd hraw List.not_mem_nil
  obtain ⟨j, hj⟩ := json.unmarshal_marshal e raw hmarshal
  obtain rfl := Option.some.inj (hj.symm.trans hevt)
  exact hfor

/-- **What `/since` answers:** the events among the entries it reads, unless
it is an error. -/
theorem since_eq (redis : Redis Raw) (json : EventJSON Raw) (stream : Option (Stream Raw))
    (id limit : String) :
    Handler.since (serverReplayer redis json stream) id limit =
        .ok ((sinceWindow stream id limit).filterMap (decode json)) ∨
      sinceWindow stream id limit = [] ∧
        ∃ e, Handler.since (serverReplayer redis json stream) id limit = .error e := by
  cases stream with
  | none => exact .inr ⟨rfl, _, rfl⟩
  | some s =>
    rw [serverReplayer, Option.map_some, Handler.since_some, replay_eq]
    unfold sinceWindow
    cases StreamID.parse (cursor id) with
    | none => exact .inr ⟨rfl, _, rfl⟩
    | some i => exact .inl rfl

/-- An answer of `/since` is confidential exactly when the entries it reads
hold no event for somebody else. -/
theorem since_confidential_iff (redis : Redis Raw) (json : EventJSON Raw)
    (stream : Option (Stream Raw)) (id limit : String) (u : UUID) :
    AnswerFor u (Handler.since (serverReplayer redis json stream) id limit) ↔
      ∀ x ∈ sinceWindow stream id limit, ∀ evt, decode json x = some evt → evt.isFor u = true := by
  rcases since_eq redis json stream id limit with h | ⟨hnil, e, h⟩
  · rw [h]
    constructor
    · intro ha x hx evt hevt
      exact ha _ rfl evt (List.mem_filterMap.2 ⟨x, hx, hevt⟩)
    · rintro hw events heq evt hevt
      obtain rfl := Except.ok.inj heq
      obtain ⟨x, hx, hx'⟩ := List.mem_filterMap.1 hevt
      exact hw x hx evt hx'
  · rw [h, hnil]
    exact iff_of_true (fun _ heq => nomatch heq) (fun x hx => absurd hx List.not_mem_nil)

/-- **Confidentiality of the three paths.**  After any run of a hub whose
messages come from `LocalPublisher.Publish` and `Subscriber.dispatch`, live
frames and backlogs hold only events for the user they reach, and all three
paths do exactly when the entries that the request to `/since` reads hold no
event for somebody else. -/
theorem delivery_confidential_iff (redis : Redis Raw) (json : EventJSON Raw)
    (stream : Option (Stream Raw)) {ls : List (Hub.Label Raw)} {t : Hub Raw × Ledger Raw}
    (hrun : (observedHub Raw).exec (Hub.new, Ledger.new) ls = some t)
    (hposted : ∀ msg, .publish msg ∈ ls → Posted json msg) (u : UUID) (since : String)
    (writes : ℕ) (id limit : String) :
    let live := ∀ c, c.userID = u → FramesFor json u (t.2.put c)
    let replayed := FramesFor json u
      (Handler.backlog (serverReplayer redis json stream) json u since writes)
    let answered := AnswerFor u (Handler.since (serverReplayer redis json stream) id limit)
    (live ∧ replayed) ∧ (live ∧ replayed ∧ answered ↔
      ∀ x ∈ sinceWindow stream id limit, ∀ evt, decode json x = some evt →
        evt.isFor u = true) := by
  intro live replayed answered
  have hlive : live := by
    rintro c rfl
    exact live_confidential hrun hposted c
  have hreplayed : replayed := backlog_confidential _ u since writes
  refine ⟨⟨hlive, hreplayed⟩, ?_⟩
  rw [and_iff_right hlive, and_iff_right hreplayed]
  exact since_confidential_iff redis json stream id limit u

/-- A client of user `7` registers, and an event for user `7` is published and
dispatched to it. -/
def privateRun : List (Hub.Label Event) :=
  let c : Client := ⟨0, ⟨7⟩⟩
  [.register c, .takeRegister c, .registerReturn c, .publish ⟨⟨7⟩, eventFor ⟨7⟩⟩,
    .takeDispatch [⟨7⟩], .nextUser [c], .nextClient, .rangeDone]

/-- With an event for user `7` alone in the stream too, user `7` sees only what
is for user `7`. -/
theorem delivery_confidential_privateRun :
    ∃ t, (observedHub Event).exec (Hub.new, Ledger.new) privateRun = some t ∧
      FramesFor .verbatim ⟨7⟩ (t.2.put ⟨0, ⟨7⟩⟩) ∧
      AnswerFor ⟨7⟩ (Handler.since (serverReplayer (.reference Event) .verbatim
        (some (streamOf (eventFor ⟨7⟩)))) "" "") := by
  obtain ⟨t, ht⟩ : ∃ t, (observedHub Event).exec (Hub.new, Ledger.new) privateRun = some t :=
    Option.isSome_iff_exists.1 (by decide)
  have hposted : ∀ msg, .publish msg ∈ privateRun → Posted .verbatim msg := by
    intro msg hmsg
    simp only [privateRun, List.mem_cons, reduceCtorEq, Hub.Label.publish.injEq, List.not_mem_nil,
      false_or, or_false] at hmsg
    rw [hmsg]
    exact .published ⟨2⟩ ⟨1⟩ (eventFor ⟨7⟩) rfl
  have h := delivery_confidential_iff (.reference Event) .verbatim
    (some (streamOf (eventFor ⟨7⟩))) ht hposted ⟨7⟩ "" 0 "" ""
  have hall := h.2.2 fun x hx evt hevt => by
    have hx' : x ∈ (streamOf (eventFor ⟨7⟩)).entries := by
      rw [sinceWindow_start _ rfl] at hx
      exact List.mem_of_mem_take hx
    rw [List.mem_singleton.1 hx'] at hevt
    rw [← Option.some.inj hevt]
    rfl
  exact ⟨t, ht, hall.1 ⟨0, ⟨7⟩⟩ rfl, hall.2.2⟩

/-- User `7` asks `/since` for everything, and the stream holds an event for
user `8`: the answer holds it. -/
theorem since_leaks :
    ¬AnswerFor ⟨7⟩ (Handler.since (serverReplayer (.reference Event) .verbatim
      (some (streamOf (eventFor ⟨8⟩)))) "" "") := by
  intro h
  have hwindow := (since_confidential_iff (.reference Event) .verbatim
    (some (streamOf (eventFor ⟨8⟩))) "" "" ⟨7⟩).1 h ⟨.of 1 0, some (eventFor ⟨8⟩)⟩ (by
      rw [sinceWindow_start _ rfl]
      exact List.mem_cons_self) (eventFor ⟨8⟩) rfl
  exact absurd hwindow (by decide)

end Notifications
end YtShare
