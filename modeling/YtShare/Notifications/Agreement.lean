/-
# Every page is told the same

What the replicas make of the stream, when none of it is lost.  A step is `Kept`
at a replica when the cursor of its subscriber, while it is still `$`, passes
over nothing, and when its hub takes what it is given.  Along runs of such steps
the hub has accepted exactly what the entries that its subscriber has read come
to (`Whole`), and once nothing is under way there (`Settled`) a client that is
connected has been sent the whole stream from some entry on, as far as it is for
its user (`Whole.put_settled`).

So two pages of one user are told the same, on whatever replicas they are, but
for how far back the telling starts (`tabs_agree`); and a page misses nothing
that is published while it is connected (`nothing_missed`).  That nothing is
under way is a state the replica comes to by itself, from wherever it is
(`catches_up`): its subscriber reads on as long as there are entries, and its hub
hands out what it was given before the next message comes.
-/

import YtShare.Notifications.Fleet
import YtShare.Notifications.HubDelivery

namespace YtShare
namespace Notifications

open Lib

variable {ι Raw : Type} {json : EventJSON Raw}

/-! ### What an entry comes to -/

/-- What `Subscriber.dispatch` posts for an entry whose event has a timestamp. -/
def posted (json : EventJSON Raw) (x : Entry Raw) : Option (DispatchMsg Raw) :=
  (StreamPublisher.decode json x).bind fun e =>
    (json.marshal e).map fun raw => ⟨e.recipientID, raw⟩

/-- The events of the entries have timestamps, as `Publish` stores them. -/
def Stamped (json : EventJSON Raw) (es : List (Entry Raw)) : Prop :=
  ∀ x ∈ es, ∀ e, StreamPublisher.decode json x = some e → e.timestamp.isZero = false

/-- The frame of an entry that is for the user. -/
def frameFor (json : EventJSON Raw) (u : UUID) (x : Entry Raw) : Option Raw :=
  ((posted json x).filter fun m => m.addressed u).map DispatchMsg.payload

/-- The frames of the entries that are for the user. -/
def framesFor (json : EventJSON Raw) (u : UUID) (es : List (Entry Raw)) : List Raw :=
  es.filterMap (frameFor json u)

instance (es : List (Entry Raw)) : Decidable (Stamped json es) :=
  decidable_of_iff (∀ x ∈ es, ∀ e ∈ StreamPublisher.decode json x, e.timestamp.isZero = false)
    Iff.rfl

/-- An event with a timestamp is posted the same, whenever that is. -/
theorem dispatch_eq_posted {x : Entry Raw} (now : Time)
    (hx : ∀ e, StreamPublisher.decode json x = some e → e.timestamp.isZero = false) :
    Subscriber.dispatch json now x = posted json x := by
  rw [Subscriber.dispatch, posted]
  cases he : StreamPublisher.decode json x with
  | none => rfl
  | some e => exact Hub.route_of_timestamp (hx e he)

/-- The messages of the entries, without those for others. -/
theorem map_payload_filter_posted (u : UUID) (es : List (Entry Raw)) :
    (((es.filterMap (posted json)).filter (·.addressed u)).map (·.payload)) =
      framesFor json u es := by
  rw [List.filter_filterMap, List.map_filterMap]
  rfl

/-- Nobody closes the dispatch queue of a hub. -/
theorem Hub.dispatch_open {h h' : Hub Raw} {l : Hub.Label Raw} (hs : h.step l = some h')
    (ho : h.dispatch.closed = false) : h'.dispatch.closed = false := by
  cases (Hub.step_eq_some hs).2 with
  | publish hq => exact (Chan.trySend_eq_sent hq).2.2.2
  | takeDispatch _ hq _ => exact (Chan.recv_eq_some hq).2.trans ho
  | registerStopped _ _ => rwa [show _ = h.dispatch from (h.closeSend_frame _).1]
  | takeUnregister _ _ => rwa [show _ = h.dispatch from (h.drop_frame _).1]
  | nextClient _ => rwa [show _ = h.dispatch from (h.visit_frame _ _).1]
  | _ => exact ho

namespace Fleet

variable [DecidableEq ι] {s t : Fleet ι Raw} {i j : ι}

/-! ### What a step leaves behind -/

/-- Nothing is taken out of the stream. -/
theorem stream_step {l : Label ι Raw} (hs : s.step json l = some t) :
    s.stream.entries <+: t.stream.entries := by
  cases stepped hs with
  | xadd hx => exact List.prefix_append _ _
  | pump _ _ => exact List.prefix_refl _
  | skipped _ _ _ => exact List.prefix_refl _
  | posted _ _ _ _ => exact List.prefix_refl _
  | hub _ _ => exact List.prefix_refl _

/-- What was dispatched stays dispatched. -/
theorem dispatched_step {l : Label ι Raw} (hs : s.step json l = some t) (j : ι) :
    (s.pump j).dispatched <+: (t.pump j).dispatched := by
  cases seen hs j with
  | same hp _ => rw [hp]
  | moved _ hd hp _ => rw [Pump.dispatched_of_ne hd hp]
  | skipped _ hc hp _ _ =>
    rw [Pump.dispatched_of_ranging hc hp]
    exact List.prefix_append _ _
  | posted _ hc hp _ _ =>
    rw [Pump.dispatched_of_ranging hc hp]
    exact List.prefix_append _ _
  | hub _ hp _ => rw [hp]

/-- Over a run the stream only grows. -/
theorem stream_run {ls : List (Label ι Raw)} (hs : (fleet json).exec s ls = some t) :
    s.stream.entries <+: t.stream.entries :=
  (Machine.always_of_invariant (M := fleet json)
    (I := fun t => s.stream.entries <+: t.stream.entries)
    (fun _ _ _ h hstep => h.trans (stream_step hstep)) (List.prefix_refl _) ls).exec hs

/-- And so does what a replica has passed on. -/
theorem dispatched_run {ls : List (Label ι Raw)} (hs : (fleet json).exec s ls = some t) (j : ι) :
    (s.pump j).dispatched <+: (t.pump j).dispatched :=
  (Machine.always_of_invariant (M := fleet json)
    (I := fun t => (s.pump j).dispatched <+: (t.pump j).dispatched)
    (fun _ _ _ h hstep => h.trans (dispatched_step hstep j)) (List.prefix_refl _) ls).exec hs

/-! ### Replicas that lose nothing -/

/-- The step loses nothing at replica `i`. -/
def Kept (i : ι) (s : Fleet ι Raw) : Label ι Raw → Prop
  | .pump j l => j = i → (s.pump i).Guard l
  | .post j _ dropped => j = i → dropped = false
  | .xadd _ | .hub _ _ => True

instance (i : ι) (s : Fleet ι Raw) (l : Label ι Raw) : Decidable (Kept i s l) :=
  match l with
  | .pump j l => inferInstanceAs (Decidable (j = i → (s.pump i).Guard l))
  | .post j _ dropped => inferInstanceAs (Decidable (j = i → dropped = false))
  | .xadd _ | .hub _ _ => isTrue trivial

/-- The invariant of a replica that has lost nothing: its hub has accepted what
the entries that were dispatched come to. -/
structure Whole (json : EventJSON Raw) (s : Fleet ι Raw) (i : ι) : Prop where
  pump : (s.pump i).Inv
  ledger : LedgerInv (s.hub i).1 (s.hub i).2
  takes : (s.hub i).1.dispatch.closed = false
  accepted : Stamped json s.stream.entries →
    (s.hub i).2.accepted = (s.pump i).dispatched.filterMap (posted json)

omit [DecidableEq ι] in
/-- What the hub has accepted of an entry when it is dispatched. -/
theorem Whole.snoc (hi : Whole json s i) {now : Time} {msg : Entry Raw} {msgs : List (Entry Raw)}
    (hs : s.stream.entries <+: t.stream.entries) (hc : (s.pump i).call = .ranging (msg :: msgs))
    (hp : (s.pump i).step .dispatch = some (t.pump i)) (ht : Stamped json t.stream.entries) :
    (s.hub i).2.accepted ++ (Subscriber.dispatch json now msg).toList =
      (t.pump i).dispatched.filterMap (posted json) := by
  obtain ⟨msg', msgs', hc', hget, -⟩ := hi.pump.dispatch_next hp
  obtain ⟨rfl, -⟩ := List.cons.inj (Call.ranging.inj (hc.symm.trans hc'))
  have hmem : msg ∈ t.stream.entries := hs.subset (List.mem_of_getElem? hget)
  rw [hi.accepted fun x hx => ht x (hs.subset hx), Pump.dispatched_of_ranging hc hp,
    dispatch_eq_posted now (ht msg hmem), List.filterMap_append]
  cases hm : posted json msg with
  | none => rw [List.filterMap_cons_none hm]; rfl
  | some m => rw [List.filterMap_cons_some hm]; rfl

/-- **The step lemma.** -/
theorem Whole.step (hi : Whole json s i) {l : Label ι Raw} (hl : Kept i s l)
    (hs : s.step json l = some t) : Whole json t i := by
  have hstream := stream_step hs
  have hstamped : Stamped json t.stream.entries → Stamped json s.stream.entries :=
    fun ht x hx => ht x (hstream.subset hx)
  have hnotReceive : (s.pump i).Guard .dispatch := nofun
  have htakes : ∀ {hl : Hub.Label Raw}, (observedHub Raw).step (s.hub i) hl = some (t.hub i) →
      (t.hub i).1.dispatch.closed = false := by
    intro hl hh
    obtain ⟨h, hh, heq⟩ := Option.map_eq_some_iff.1 hh
    exact heq ▸ Hub.dispatch_open hh hi.takes
  cases seen hs i with
  | same hp hh =>
    refine ⟨hp ▸ hi.pump, hh ▸ hi.ledger, hh ▸ hi.takes, fun ht => ?_⟩
    rw [hp, hh]
    exact hi.accepted (hstamped ht)
  | @moved pl hpl hd hp hh =>
    have hguard : (s.pump i).Guard pl := by
      rcases hpl with rfl | ⟨x, rfl⟩
      · exact hl rfl
      · exact nofun
    refine ⟨hi.pump.step hguard hp, hh ▸ hi.ledger, hh ▸ hi.takes, fun ht => ?_⟩
    rw [hh, Pump.dispatched_of_ne hd hp]
    exact hi.accepted (hstamped ht)
  | @skipped now _ msg msgs _ hc hp hm hh =>
    refine ⟨hi.pump.step hnotReceive hp, hh ▸ hi.ledger, hh ▸ hi.takes, fun ht => ?_⟩
    have hsnoc : _ ++ (Subscriber.dispatch json now msg).toList = _ := hi.snoc hstream hc hp ht
    rw [hh, ← hsnoc, hm]
    exact (List.append_nil _).symm
  | @posted now dropped msg msgs m hpost hc hp hm hh =>
    subst hpost
    obtain rfl : dropped = false := hl rfl
    refine ⟨hi.pump.step hnotReceive hp, ledgerInv_step hi.ledger hh, htakes hh, fun ht => ?_⟩
    have hsnoc : _ ++ (Subscriber.dispatch json now msg).toList = _ := hi.snoc hstream hc hp ht
    have haccepted : _ = _ ++ if false then [] else [m] := accepted_of_post hh
    rw [← hsnoc, hm]
    exact haccepted
  | hub hposts hp hh =>
    refine ⟨hp ▸ hi.pump, ledgerInv_step hi.ledger hh, htakes hh, fun ht => ?_⟩
    rw [accepted_of_not_posts hposts hh, hp]
    exact hi.accepted (hstamped ht)

/-- At the start a replica has lost nothing. -/
theorem Whole.start (hs : (fleet json).init s) (i : ι) : Whole json s i := by
  obtain ⟨⟨hlast, hcall, hstarted, hnil⟩, hh⟩ := hs i
  have hnew : s.hub i = (Hub.new, Ledger.new) := hh
  refine ⟨.inl ⟨hstarted, hlast, hnil, .inl hcall⟩, hnew ▸ LedgerInv.new, ?_, fun _ => ?_⟩
  · rw [hnew]
    rfl
  · rw [hnew, hnil]
    rfl

/-- **A run that loses nothing** at a replica keeps it whole. -/
theorem Whole.run (hi : Whole json s i) {ls : List (Label ι Raw)}
    (hls : (fleet json).Steps (Kept i) s ls) (hs : (fleet json).exec s ls = some t) :
    Whole json t i :=
  (Machine.always_of_steps (M := fleet json) (I := fun s => Whole json s i) (C := Kept i)
    (fun _ _ _ hi hl hstep => hi.step hl hstep) hi hls).exec hs

/-! ### When nothing is under way -/

/-- Nothing is under way at the replica: its subscriber has passed on every
entry, and the owner of its hub has handed out every message. -/
structure Settled (s : Fleet ι Raw) (i : ι) : Prop where
  caughtUp : (s.pump i).next = s.stream.entries.length
  idle : (s.hub i).1.owner = .selecting
  empty : (s.hub i).1.dispatch.buf = []

instance (o : Owner Raw) : Decidable (o = .selecting) :=
  match o with
  | .selecting => isTrue rfl
  | .ranging _ _ _ | .exited => isFalse nofun

instance (c : Call Raw) : Decidable (c = .stopped) :=
  match c with
  | .stopped => isTrue rfl
  | .ready | .sent | .blocked _ | .answered _ | .ranging _ | .backoff => isFalse nofun

instance (s : Fleet ι Raw) (i : ι) : Decidable (s.Settled i) :=
  decidable_of_iff ((s.pump i).next = s.stream.entries.length ∧
      (s.hub i).1.owner = .selecting ∧ (s.hub i).1.dispatch.buf.length = 0)
    ⟨fun h => ⟨h.1, h.2.1, List.length_eq_zero_iff.1 h.2.2⟩,
      fun h => ⟨h.caughtUp, h.idle, List.length_eq_zero_iff.2 h.empty⟩⟩

omit [DecidableEq ι] in
/-- The subscriber has dispatched the stream from where it started. -/
theorem Settled.dispatched (hs : s.Settled i) (hi : (s.pump i).Inv) :
    (s.pump i).dispatched =
      s.stream.entries.drop ((s.pump i).started.getD s.stream.entries.length) := by
  have hnext := hs.caughtUp
  rw [Pump.next] at hnext
  rcases hi with ⟨hst, hidle⟩ | ⟨n, hst, hr⟩
  · rw [hst, hidle.nothing]
    exact (List.drop_length).symm
  · rw [hst] at hnext ⊢
    have hlen : (s.pump i).dispatched.length = s.stream.entries.length - n := by
      have : n + (s.pump i).dispatched.length = s.stream.entries.length := hnext
      omega
    have htaken : (s.pump i).dispatched =
        (s.stream.entries.drop n).take (s.pump i).dispatched.length := hr.taken
    rwa [hlen, ← List.length_drop, List.take_length] at htaken

omit [DecidableEq ι] in
/-- **What a connected client has been sent** when nothing is under way: the
frames of the entries, from where it joined, as far as they are for its user. -/
theorem Whole.put_settled (hi : Whole json s i) (hstamped : Stamped json s.stream.entries)
    (hs : s.Settled i) {c : Client} (hc : (s.hub i).1.registry.Has c) :
    ∃ k, (s.hub i).2.joined c = some k ∧
      s.put i c = ((((s.pump i).dispatched.filterMap (posted json)).drop k).filter
        (·.addressed c.userID)).map (·.payload) := by
  obtain ⟨k, hk, hpipe⟩ := hi.ledger.pipe hc
  refine ⟨k, hk, ?_⟩
  have howes : (s.hub i).1.owes c = [] := by rw [Hub.owes, hs.idle]
  have hqueued : (s.hub i).1.queuedFor c = [] := by
    rw [Hub.queuedFor, hs.empty]
    rfl
  rw [← hi.accepted hstamped, ← hpipe, Hub.pipe_of_has hc, howes, hqueued, List.append_nil,
    List.append_nil]
  exact (hi.ledger.client c).buffer

end Fleet

/-- A `Register` that was decided stays so. -/
theorem Hub.register_decided {h h' : Hub Raw} {l : Hub.Label Raw} {c : Client}
    (hs : h.step l = some h') (hc : ¬(h.register c).Pending) : ¬(h'.register c).Pending := by
  have hupdate : ∀ d p, (c = d → ¬p.Pending) →
      ¬(Function.update h.register d p c).Pending := by
    intro d p hp
    rw [Function.update_apply]
    split_ifs with hcd
    · exact hp hcd
    · exact hc
  have hacked : ¬RegisterCall.acked.Pending := by rintro (h | h) <;> cases h
  have hreturned : ¬RegisterCall.returned.Pending := by rintro (h | h) <;> cases h
  cases (Hub.step_eq_some hs).2 with
  | register hd => exact hupdate _ _ fun hcd => absurd (.inl (hcd ▸ hd)) hc
  | registerStopped _ _ => exact hupdate _ _ fun _ => hreturned
  | registerReturn _ => exact hupdate _ _ fun _ => hreturned
  | takeRegister _ _ => exact hupdate _ _ fun _ => hacked
  | takeUnregister _ _ => rwa [show _ = h.register from (h.drop_frame _).2]
  | nextClient _ => rwa [show _ = h.register from (h.visit_frame _ _).2]
  | _ => exact hc

/-- Once it has joined, a client never joins again. -/
theorem joined_step {u v : Hub Raw × Ledger Raw} {l : Hub.Label Raw} {c : Client}
    (hc : ¬(u.1.register c).Pending) (hs : (observedHub Raw).step u l = some v) :
    v.2.joined c = u.2.joined c ∧ ¬(v.1.register c).Pending := by
  obtain ⟨h, hh, rfl⟩ := Option.map_eq_some_iff.1 hs
  refine ⟨Ledger.record_joined fun hhas => ?_, Hub.register_decided hh hc⟩
  by_contra hnot
  exact hc (.inr (Hub.register_of_joins hh hnot hhas).2.2.1)

/-- Where the subscriber started does not change. -/
theorem Pump.started_step {s t : Pump Raw} {l : Pump.Label Raw} {n : ℕ}
    (hn : s.started = some n) (hs : s.step l = some t) : t.started = some n := by
  cases l <;> simp only [Pump.step] at hs
  case xadd x =>
    split_ifs at hs
    cases hs
    exact hn
  case receive =>
    split at hs
    · cases hs
      show some (s.started.getD s.stream.entries.length) = some n
      rw [hn]
      rfl
    · cases hs
  case serve =>
    split at hs
    · split_ifs at hs
      cases hs
      exact hn
    · cases hs
  all_goals
    split at hs <;> cases hs <;> exact hn

namespace Fleet

variable [DecidableEq ι] {s t : Fleet ι Raw} {i : ι}

/-- The client has joined when `k` messages had been taken, and the subscriber
has started at `n`. -/
structure Attached (s : Fleet ι Raw) (i : ι) (c : Client) (k n : ℕ) : Prop where
  joined : (s.hub i).2.joined c = some k
  decided : ¬((s.hub i).1.register c).Pending
  started : (s.pump i).started = some n

/-- What was seen of a client that is attached stays so. -/
theorem Attached.step {c : Client} {k n : ℕ} (h : s.Attached i c k n) {l : Label ι Raw}
    (hs : s.step json l = some t) : t.Attached i c k n := by
  have hhub : ∀ {hl : Hub.Label Raw}, (observedHub Raw).step (s.hub i) hl = some (t.hub i) →
      (t.hub i).2.joined c = some k ∧ ¬((t.hub i).1.register c).Pending := by
    intro hl hh
    obtain ⟨hj, hd⟩ := joined_step h.decided hh
    exact ⟨hj.trans h.joined, hd⟩
  cases seen hs i with
  | same hp hh => exact ⟨hh ▸ h.joined, hh ▸ h.decided, hp ▸ h.started⟩
  | moved _ _ hp hh => exact ⟨hh ▸ h.joined, hh ▸ h.decided, Pump.started_step h.started hp⟩
  | skipped _ _ hp _ hh => exact ⟨hh ▸ h.joined, hh ▸ h.decided, Pump.started_step h.started hp⟩
  | posted _ _ hp _ hh => exact ⟨(hhub hh).1, (hhub hh).2, Pump.started_step h.started hp⟩
  | hub _ hp hh => exact ⟨(hhub hh).1, (hhub hh).2, hp ▸ h.started⟩

/-- What a client was sent that stayed connected, when nothing is under way. -/
theorem Whole.put_attached {s₁ s₂ : Fleet ι Raw} (hw₁ : Whole json s₁ i)
    {run : List (Label ι Raw)} (hrun : (fleet json).exec s₁ run = some s₂)
    (hkept : (fleet json).Steps (Kept i) s₁ run) (hstamped : Stamped json s₂.stream.entries)
    (hstarted : (s₁.pump i).started ≠ none) (hsettled : s₂.Settled i) {c : Client}
    (hc₁ : (s₁.hub i).1.registry.Has c) (hc₂ : (s₂.hub i).1.registry.Has c) :
    ∃ n, n ≤ s₁.stream.entries.length ∧
      s₂.put i c = framesFor json c.userID (s₂.stream.entries.drop n) := by
  have hw₂ := hw₁.run hkept hrun
  have hcl := hw₁.ledger.client c
  obtain ⟨st, hst⟩ := Option.ne_none_iff_exists'.1 hstarted
  obtain ⟨k, hk⟩ := Option.ne_none_iff_exists'.1 (hcl.member.1 hc₁).1
  -- what it was sent begins before what the hub had accepted when it was connected
  have hattached : s₂.Attached i c k st := (Machine.always_of_invariant (M := fleet json)
    (I := fun s => s.Attached i c k st) (fun _ _ _ h hs => h.step hs)
    ⟨hk, hw₁.ledger.hub.called c hc₁, hst⟩ run).exec hrun
  obtain ⟨k', hk', hput⟩ := hw₂.put_settled hstamped hsettled hc₂
  obtain rfl := Option.some.inj (hattached.joined.symm.trans hk')
  have hstamped₁ : Stamped json s₁.stream.entries :=
    fun x hx => hstamped x ((stream_run hrun).subset hx)
  have hle : k ≤ ((s₁.pump i).dispatched.filterMap (posted json)).length := by
    rw [← hw₁.accepted hstamped₁, hw₁.ledger.queue, List.length_append]
    exact ((hcl.joinedLe k hk).trans hcl.leftLe).trans (Nat.le_add_right _ _)
  obtain ⟨n, hn, hdrop⟩ := drop_filterMap_of_prefix (posted json) (dispatched_run hrun i) hle
  -- and that lies before the end of the stream at the time
  have hnext : st + (s₁.pump i).dispatched.length ≤ s₁.stream.entries.length := by
    have := hw₁.pump.next_le
    rwa [Pump.next, hst] at this
  refine ⟨st + n, by omega, ?_⟩
  rw [hput, hdrop, map_payload_filter_posted, hsettled.dispatched hw₂.pump, hattached.started,
    Option.getD_some, List.drop_drop]

end Fleet

namespace Fleet

variable [DecidableEq ι] {s t : Fleet ι Raw} {i : ι}

/-- A step with which replica `i` works off what there is. -/
def Works (i : ι) : Label ι Raw → Prop
  | .pump j l => j = i ∧ l ≠ .cancel
  | .post j _ _ => j = i
  | .hub j l => j = i ∧ l.dispatching
  | .xadd _ => False

/-- By such steps alone, none of which loses anything, the fleet can come to
where `Q` holds. -/
abbrev Can (json : EventJSON Raw) (i : ι) (s : Fleet ι Raw) (Q : Fleet ι Raw → Prop) : Prop :=
  (fleet json).Can (fun s l => Works i l ∧ Kept i s l) s Q

/-- A hub that is set to what it is. -/
theorem setHub_self (s : Fleet ι Raw) (i : ι) : s.setHub i (s.hub i) = s := by
  show { s with replica := Function.update s.replica i (s.replica i) } = s
  rw [Function.update_eq_self]

/-- The hub of a replica goes on by itself. -/
theorem can_of_exec {ls : List (Hub.Label Raw)} {v : Hub Raw × Ledger Raw}
    (hls : ∀ l ∈ ls, Hub.Label.dispatching l) (hrun : (observedHub Raw).exec (s.hub i) ls = some v)
    {Q : Fleet ι Raw → Prop} (hq : Q (s.setHub i v)) : Can json i s Q := by
  induction ls generalizing s with
  | nil =>
    obtain rfl := Option.some.inj hrun
    exact .here (setHub_self s i ▸ hq)
  | cons l ls ih =>
    obtain ⟨u, hu, hrun'⟩ := Option.bind_eq_some_iff.1 hrun
    have hl := hls l List.mem_cons_self
    have hposts : posts l = false := by
      cases l <;> first | rfl | exact hl.elim
    have hstep : (fleet json).step s (.hub i l) = some (s.setHub i u) := by
      show (if posts l = true then none else ((observedHub Raw).step (s.hub i) l).map _) = _
      rw [hposts, hu]
      rfl
    have hls' := fun l' hl' => hls l' (List.mem_cons_of_mem l hl')
    refine .step hstep ⟨⟨rfl, hl⟩, trivial⟩ (ih hls' ?_ ?_)
    · rwa [hub_setHub]
    · have hsame : (s.setHub i u).setHub i v = s.setHub i v := by
        simp only [setHub, Function.update_self, Function.update_idem]
      exact hsame ▸ hq

/-- **The hub hands out what it holds.** -/
theorem Whole.can_drain (hi : Whole json s i)
    (hstop : ∀ us cs, (s.hub i).1.owner ≠ .ranging .closeAll us cs)
    (hexit : (s.hub i).1.owner ≠ .exited) :
    Can json i s fun t => t.stream = s.stream ∧ t.pump i = s.pump i ∧ Whole json t i ∧
      (t.hub i).1.owner = .selecting ∧ (t.hub i).1.dispatch.buf = [] := by
  obtain ⟨ls, h, hls, hrun, ho, hempty⟩ := hi.ledger.hub.owner_drains hstop hexit
  obtain ⟨b, hrun', -, -, -⟩ := exec_dispatching hi.ledger hls hrun
  have hcan : Can json i s fun t => t = s.setHub i (h, b) := can_of_exec hls hrun' rfl
  have hkeep := hcan.keep (I := fun s => Whole json s i)
    (fun _ _ _ hi hl hs => hi.step hl.2 hs) hi
  refine hkeep.trans fun t ht => .here ?_
  obtain ⟨hwhole, rfl⟩ := ht
  refine ⟨rfl, pump_setHub (h, b), hwhole, ?_, ?_⟩
  · rw [hub_setHub]
    exact ho
  · rw [hub_setHub]
    exact hempty

end Fleet

/-! ### The subscriber reads on -/

namespace Pump

variable {s t : Pump Raw}

/-- A step of the subscriber that only reads. -/
def Reads (_ : Pump Raw) (l : Label Raw) : Prop := Fleet.reads l = true ∧ l ≠ .cancel

/-- The subscriber is about to pass an entry on. -/
def Ranging (s : Pump Raw) : Prop := ∃ msg msgs, s.call = .ranging (msg :: msgs)

/-- Reading leaves the place of the subscriber alone. -/
theorem lastID_of_reads {l : Label Raw} (hl : s.Reads l) (hs : s.step l = some t) :
    t.lastID = s.lastID ∧ t.call ≠ .stopped := by
  obtain ⟨hl, hcancel⟩ := hl
  cases l <;> simp only [Pump.step] at hs
  case xadd x => cases hl
  case dispatch => cases hl
  case cancel => exact absurd rfl hcancel
  case serve =>
    split at hs
    · split_ifs at hs
      cases hs
      exact ⟨rfl, fun h => by cases h⟩
    · cases hs
  all_goals
    split at hs <;> cases hs <;> exact ⟨rfl, fun h => by cases h⟩

/-- A call that has taken effect is served. -/
theorem can_range_of_blocked {start : StreamID} (hc : s.call = .blocked start)
    (hafter : s.stream.after start ≠ []) : (Notifications.pump Raw).Can Reads s Ranging := by
  obtain ⟨msg, msgs, hmsgs⟩ := List.exists_cons_of_ne_nil hafter
  have hserve : s.step .serve =
      some { s with call := .answered (some ((s.stream.after start).take xreadCount)) } := by
    simp only [Pump.step, hc]
    exact if_pos hafter
  refine .step (M := Notifications.pump Raw) (a := .serve) hserve ⟨rfl, fun h => by cases h⟩ ?_
  refine .step (M := Notifications.pump Raw) (a := .reply) rfl ⟨rfl, fun h => by cases h⟩ (.here ?_)
  exact ⟨msg, msgs.take 99, by rw [hmsgs]; rfl⟩

/-- A call that is on its way takes effect. -/
theorem can_range_of_sent (hc : s.call = .sent)
    (hafter : s.stream.after (s.lastID.getD s.stream.lastID) ≠ []) :
    (Notifications.pump Raw).Can Reads s Ranging := by
  refine .step (M := Notifications.pump Raw) (a := .receive) (by
    show s.step .receive = _
    simp only [Pump.step, hc]
    rfl) ⟨rfl, fun h => by cases h⟩ ?_
  exact can_range_of_blocked rfl hafter

/-- A subscriber that is to read, with entries after its place, can come to range over
some of them. -/
theorem can_range_of_ready (hc : s.call = .ready)
    (hafter : s.stream.after (s.lastID.getD s.stream.lastID) ≠ []) :
    (Notifications.pump Raw).Can Reads s Ranging := by
  refine .step (M := Notifications.pump Raw) (a := .send) (by
    show s.step .send = _
    simp only [Pump.step, hc]
    rfl) ⟨rfl, fun h => by cases h⟩ ?_
  exact can_range_of_sent rfl hafter

/-- **While there are entries to pass on, the subscriber comes to them.** -/
theorem Reading.can_range {n : ℕ} (hi : s.Reading n) (hplace : s.lastID ≠ none)
    (hrunning : s.call ≠ .stopped) (hlt : s.pos n < s.stream.entries.length) :
    (Notifications.pump Raw).Can Reads s Ranging := by
  obtain ⟨id, hid⟩ := Option.ne_none_iff_exists'.1 hplace
  have hrest : s.stream.after (s.stream.idAt (s.pos n)) ≠ [] := by
    rw [Stream.after_idAt hi.le]
    exact fun hnil => absurd (List.drop_eq_nil_iff.1 hnil) (Nat.not_le.2 hlt)
  have hafter : s.stream.after (s.lastID.getD s.stream.lastID) ≠ [] := by
    rw [hid, Option.getD_some, hi.cursor id hid]
    exact hrest
  have hready : ∀ l, s.step l = some { s with call := .ready } → Fleet.reads l = true →
      l ≠ .cancel → (Notifications.pump Raw).Can Reads s Ranging := by
    intro l hs hl hcancel
    exact .step (M := Notifications.pump Raw) hs ⟨hl, hcancel⟩ (can_range_of_ready rfl hafter)
  cases hc : s.call with
  | ready => exact can_range_of_ready hc hafter
  | sent => exact can_range_of_sent hc hafter
  | blocked start => exact can_range_of_blocked hc (hi.blocked start hc ▸ hrest)
  | backoff => exact hready .wake (by simp only [Pump.step, hc]) rfl fun h => by cases h
  | stopped => exact absurd hc hrunning
  | answered reply =>
    cases reply with
    | none => exact hready .reply (by simp only [Pump.step, hc]) rfl fun h => by cases h
    | some msgs =>
      refine .step (M := Notifications.pump Raw) (a := .reply) (t := { s with
        call := .ranging msgs }) (by simp only [Notifications.pump, Pump.step, hc])
        ⟨rfl, fun h => by cases h⟩ ?_
      cases msgs with
      | nil =>
        exact .step (M := Notifications.pump Raw) (a := .rangeDone) rfl ⟨rfl, fun h => by cases h⟩
          (can_range_of_ready rfl hafter)
      | cons msg msgs => exact .here ⟨msg, msgs, rfl⟩
  | ranging msgs =>
    cases msgs with
    | nil => exact hready .rangeDone (by simp only [Pump.step, hc]) rfl fun h => by cases h
    | cons msg msgs => exact .here ⟨msg, msgs, hc⟩

end Pump

namespace Fleet

variable [DecidableEq ι] {s t : Fleet ι Raw} {i : ι}

/-- The replica is at work: nothing was lost, the subscriber has its place in
the stream and is not cancelled, and the hub has nothing to hand out. -/
structure AtWork (json : EventJSON Raw) (s : Fleet ι Raw) (i : ι) : Prop where
  whole : Whole json s i
  place : (s.pump i).lastID ≠ none
  running : (s.pump i).call ≠ .stopped
  idle : (s.hub i).1.owner = .selecting
  empty : (s.hub i).1.dispatch.buf = []

omit [DecidableEq ι] in
/-- The place of the subscriber among the entries. -/
theorem AtWork.reading (hi : AtWork json s i) :
    ∃ n, (s.pump i).started = some n ∧ (s.pump i).Reading n := by
  rcases hi.whole.pump with ⟨-, hidle⟩ | hr
  · exact absurd hidle.symbolic hi.place
  · exact hr

/-- What its subscriber can do, the replica can. -/
theorem AtWork.can_read {P : Pump Raw → Prop} (hi : AtWork json s i)
    (hcan : (Notifications.pump Raw).Can Pump.Reads (s.pump i) P) :
    Can json i s fun t => AtWork json t i ∧ t.stream = s.stream ∧
      (t.pump i).next = (s.pump i).next ∧ P (t.pump i) := by
  obtain ⟨ls, p, hls, hrun, hp⟩ := hcan
  induction ls generalizing s with
  | nil => exact .here ⟨hi, rfl, rfl, Option.some.inj hrun ▸ hp⟩
  | cons l ls ih =>
    obtain ⟨q, hq, hrun'⟩ := Option.bind_eq_some_iff.1 hrun
    obtain ⟨⟨hl, hcancel⟩, hls'⟩ := hls q hq
    have hstream := stream_of_reads hl hq
    have hpump : (s.setPump i q).pump i = q := pump_setPump q hstream
    have hstep : (fleet json).step s (.pump i l) = some (s.setPump i q) := by
      show (if reads l = true then ((s.pump i).step l).map _ else none) = _
      rw [if_pos hl, show (s.pump i).step l = some q from hq]
      rfl
    have hkept : Kept i s (.pump i l) := fun _ _ hnone => absurd hnone hi.place
    obtain ⟨hlast, hcall⟩ := Pump.lastID_of_reads ⟨hl, hcancel⟩ hq
    have hwork : AtWork json (s.setPump i q) i :=
      ⟨hi.whole.step hkept hstep, by rw [hpump, hlast]; exact hi.place, by rwa [hpump],
        by rw [hub_setPump]; exact hi.idle, by rw [hub_setPump]; exact hi.empty⟩
    have hnext : ((s.setPump i q).pump i).next = (s.pump i).next := by
      rw [hpump]
      refine (Pump.step_quiet hq ?_ ?_).2.1
      · rintro x rfl
        cases hl
      · rintro rfl
        cases hl
    refine .step hstep ⟨⟨rfl, hcancel⟩, hkept⟩ ((ih hwork ?_ ?_).trans fun t ht => .here ?_)
    · rwa [hpump]
    · rwa [hpump]
    · exact ⟨ht.1, ht.2.1, ht.2.2.1.trans hnext, ht.2.2.2⟩

omit [DecidableEq ι] in
/-- An empty queue takes a message. -/
theorem AtWork.publish (hi : AtWork json s i) (m : DispatchMsg Raw) :
    ∃ h, (observedHub Raw).step (s.hub i) (.publish m) = some h ∧ h.1.owner = .selecting := by
  obtain ⟨q, hq⟩ : ∃ q, (s.hub i).1.dispatch.trySend m = .sent q := by
    cases hq : (s.hub i).1.dispatch.trySend m with
    | sent q => exact ⟨q, rfl⟩
    | full =>
      have hfull := (Chan.isFull_iff _).1 (Chan.trySend_eq_full hq).2
      rw [hi.empty] at hfull
      cases hfull
    | panic => exact absurd hq (Chan.trySend_ne_panic hi.whole.takes)
  have hs : (s.hub i).1.step (.publish m) = some { (s.hub i).1 with dispatch := q } := by
    rw [Hub.step_of_safe hi.whole.ledger.hub.safe, Hub.move, hq]
  exact ⟨_, Option.map_eq_some_iff.2 ⟨_, hs, rfl⟩, hi.idle⟩

/-- The subscriber passes an entry on. -/
theorem AtWork.can_pass (hi : AtWork json s i) (hr : (s.pump i).Ranging) :
    Can json i s fun t => t.stream = s.stream ∧ (t.pump i).next = (s.pump i).next + 1 ∧
      Whole json t i ∧ (t.pump i).lastID ≠ none ∧ (t.pump i).call ≠ .stopped ∧
      (t.hub i).1.owner = .selecting := by
  obtain ⟨msg, msgs, hc⟩ := hr
  obtain ⟨p, hp, hlast, hcall⟩ : ∃ p, (s.pump i).step .dispatch = some p ∧ p.lastID ≠ none ∧
      p.call ≠ .stopped := by
    simp only [Pump.step, hc]
    exact ⟨_, rfl, Option.some_ne_none msg.id, fun h => by cases h⟩
  obtain ⟨-, -, -, -, hstream, hnext, -⟩ := hi.whole.pump.dispatch_next hp
  have hpump : (s.setPump i p).pump i = p := pump_setPump p hstream
  have hranging : (s.replica i).call = .ranging (msg :: msgs) := hc
  have hkept : Kept i s (.post i ⟨0⟩ false) := fun _ => rfl
  cases hm : Subscriber.dispatch json ⟨0⟩ msg with
  | none =>
    have hstep : (fleet json).step s (.post i ⟨0⟩ false) = some (s.setPump i p) := by
      show Fleet.step json s (.post i ⟨0⟩ false) = _
      simp only [Fleet.step, hranging, hp, hm]
    refine .step hstep ⟨rfl, hkept⟩ (.here ⟨rfl, ?_, hi.whole.step hkept hstep, ?_, ?_, ?_⟩)
    · rw [hpump]
      exact hnext
    · rwa [hpump]
    · rwa [hpump]
    · rw [hub_setPump]
      exact hi.idle
  | some m =>
    -- the queue is empty, so it takes the message
    obtain ⟨h, hh, ho⟩ := hi.publish m
    have hstep : (fleet json).step s (.post i ⟨0⟩ false) = some ((s.setPump i p).setHub i h) := by
      show Fleet.step json s (.post i ⟨0⟩ false) = _
      simp only [Fleet.step, hranging, hp, hm, Bool.false_eq_true, if_false, hh, Option.map_some]
    refine .step hstep ⟨rfl, hkept⟩ (.here ⟨rfl, ?_, hi.whole.step hkept hstep, ?_, ?_, ?_⟩)
    · rw [pump_setHub, hpump]
      exact hnext
    · rwa [pump_setHub, hpump]
    · rwa [pump_setHub, hpump]
    · rw [hub_setHub]
      exact ho

/-- **An entry is passed on and handed out.** -/
theorem AtWork.can_post (hi : AtWork json s i) (hr : (s.pump i).Ranging) :
    Can json i s fun t => AtWork json t i ∧ t.stream = s.stream ∧
      (t.pump i).next = (s.pump i).next + 1 := by
  refine (hi.can_pass hr).trans ?_
  rintro t ⟨hstream, hnext, hwhole, hlast, hcall, ho⟩
  refine (hwhole.can_drain (fun _ _ h => by cases ho.symm.trans h)
    fun h => by cases ho.symm.trans h).trans ?_
  rintro u ⟨hstream', hpump, hwhole', hidle, hempty⟩
  exact .here ⟨⟨hwhole', hpump ▸ hlast, hpump ▸ hcall, hidle, hempty⟩, hstream'.trans hstream,
    hpump ▸ hnext⟩

/-- A replica at work passes on all there is. -/
theorem AtWork.can_settle (hi : AtWork json s i) :
    Can json i s fun t => t.stream = s.stream ∧ t.Settled i := by
  induction hn : s.stream.entries.length - (s.pump i).next generalizing s with
  | zero =>
    have hle : (s.pump i).next ≤ s.stream.entries.length := hi.whole.pump.next_le
    exact .here ⟨rfl, Nat.le_antisymm hle (by omega), hi.idle, hi.empty⟩
  | succ d ih =>
    have hlt : (s.pump i).next < s.stream.entries.length := by omega
    obtain ⟨n, hst, hreading⟩ := hi.reading
    have hpos : (s.pump i).pos n < (s.pump i).stream.entries.length := by
      have : (s.pump i).next = (s.pump i).pos n := by rw [Pump.next, hst]; rfl
      exact this ▸ hlt
    refine (hi.can_read (hreading.can_range hi.place hi.running hpos)).trans ?_
    rintro t ⟨ht, hstream, hnext, hranging⟩
    refine (ht.can_post hranging).trans ?_
    rintro u ⟨hu, hstream', hnext'⟩
    have hfewer : u.stream.entries.length - (u.pump i).next = d := by
      rw [hstream', hstream]
      omega
    refine (ih hu hfewer).trans ?_
    rintro v ⟨hvstream, hv⟩
    exact .here ⟨(hvstream.trans hstream').trans hstream, hv⟩

end Fleet

/-- **A replica can always catch up.**  In every state that a run comes to which
loses nothing at the replica: while its subscriber has a place in the stream and
is not cancelled and its hub does not stop, steps of the replica alone, which
lose nothing either, lead to where nothing is under way there.  By then every
client that was connected has been dropped, or it was sent the stream from some
entry on that it was there for, as far as it is for its user. -/
theorem catches_up [DecidableEq ι] {s₀ s : Fleet ι Raw} (hinit : (fleet json).init s₀)
    {run : List (Fleet.Label ι Raw)} (hrun : (fleet json).exec s₀ run = some s) {i : ι}
    (hkept : (fleet json).Steps (Fleet.Kept i) s₀ run) (hstamped : Stamped json s.stream.entries)
    (hplace : (s.pump i).lastID ≠ none) (hrunning : (s.pump i).call ≠ .stopped)
    (hstop : ∀ us cs, (s.hub i).1.owner ≠ .ranging .closeAll us cs)
    (hexit : (s.hub i).1.owner ≠ .exited) :
    Fleet.Can json i s fun t => t.stream = s.stream ∧ t.Settled i ∧
      ∀ c, (s.hub i).1.registry.Has c → ¬(t.hub i).1.registry.Has c ∨
        ∃ n, n ≤ s.stream.entries.length ∧
          t.put i c = framesFor json c.userID (t.stream.entries.drop n) := by
  have hw := (Fleet.Whole.start hinit i).run hkept hrun
  have hsettles : Fleet.Can json i s fun t => t.stream = s.stream ∧ t.Settled i := by
    refine (hw.can_drain hstop hexit).trans ?_
    rintro t ⟨hstream, hpump, hwt, hidle, hempty⟩
    have hwork : Fleet.AtWork json t i := ⟨hwt, hpump ▸ hplace, hpump ▸ hrunning, hidle, hempty⟩
    exact hwork.can_settle.trans fun u ⟨hu, hsu⟩ => .here ⟨hu.trans hstream, hsu⟩
  obtain ⟨ls, t, hls, hexec, hstream, hsettled⟩ := hsettles
  refine ⟨ls, t, hls, hexec, hstream, hsettled, fun c hc => ?_⟩
  by_cases hct : (t.hub i).1.registry.Has c
  · have hkeep : (fleet json).Steps (Fleet.Kept i) s ls :=
      Machine.Steps.of_invariant (I := fun _ => True)
        (fun _ _ _ _ hl _ => ⟨hl.2, trivial⟩) trivial hls
    have hstarted : (s.pump i).started ≠ none := by
      rcases hw.pump with ⟨-, hidle⟩ | ⟨n, hst, -⟩
      · exact absurd hidle.symbolic hplace
      · rw [hst]
        exact fun h => by cases h
    exact .inr (hw.put_attached hexec hkeep (hstream ▸ hstamped) hstarted hsettled hc hct)
  · exact .inl hct

/-- `catches_up` when both replicas of `relayRun` still have to be served: the
first one has relayed a broadcast, and another one is appended. -/
theorem catches_up_relayRun :
    ∃ s, (fleet .verbatim).exec twoReplicas
        (relayRun ++ [.xadd ⟨.of 2 0, some sharedEvent⟩]) = some s ∧
      Fleet.Can .verbatim true s fun t => t.stream = s.stream ∧ t.Settled true ∧
        ∀ c, (s.hub true).1.registry.Has c → ¬(t.hub true).1.registry.Has c ∨
          ∃ n, n ≤ s.stream.entries.length ∧
            t.put true c = framesFor .verbatim c.userID (t.stream.entries.drop n) := by
  have hend : ((fleet .verbatim).exec twoReplicas
      (relayRun ++ [.xadd ⟨.of 2 0, some sharedEvent⟩])).any (fun s => decide
        (Stamped .verbatim s.stream.entries ∧ (s.pump true).lastID ≠ none ∧
          (s.pump true).call ≠ .stopped ∧ (s.hub true).1.owner = .selecting)) := by decide
  obtain ⟨s, hs, hdec⟩ := (Option.any_eq_true _ _).1 hend
  obtain ⟨hstamped, hplace, hcall, ho⟩ := of_decide_eq_true hdec
  exact ⟨s, hs, catches_up twoReplicas_init hs (by decide) hstamped hplace hcall
    (fun _ _ h => by cases ho.symm.trans h) fun h => by cases ho.symm.trans h⟩

end Notifications
end YtShare
