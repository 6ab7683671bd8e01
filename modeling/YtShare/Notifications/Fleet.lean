/-
# The replicas behind one stream

With Redis, `buildPublisher` of `backend/internal/server/server.go` gives every
replica of the server a subscriber and a hub of its own.  All subscribers read
one stream, each by itself, and whatever replica publishes appends to that
stream; nothing is posted to a hub but by its subscriber.

A `Fleet` is the stream with any number of replicas.  A label says which of them
moves; a replica that crashes does not move any more, and one that is started
again is another replica.  Seen from the stream and one replica the fleet is a
`Pump`, and each hub is the hub of the other modules under observation
(`Fleet.stepped`), so what is known of either carries over.

Entries may be lost on the way to a client: a subscriber may miss some while its
cursor is still `$`, a hub drops messages when its queue is full, and a slow
client is removed.  Their order is never lost (`Fleet.Ordered`): what a client is
sent, wherever it is connected, is made of entries of the stream in the order of
the stream, each at most once.  `same_order_everywhere` puts it in terms of the
event ids that pages compare.
-/

import YtShare.Lib.Carried
import YtShare.Notifications.Coverage
import YtShare.Notifications.TwoPublishers

namespace YtShare
namespace Notifications

open Lib

variable {ι Raw : Type}

/-- A replica: where its subscriber is, and its hub under observation. -/
structure Replica (Raw : Type) where
  lastID : Option StreamID
  call : Call Raw
  started : Option ℕ
  dispatched : List (Entry Raw)
  hub : Hub Raw × Ledger Raw

/-- The stream and the replicas. -/
structure Fleet (ι Raw : Type) where
  stream : Stream Raw
  replica : ι → Replica Raw

namespace Fleet

/-- The subscriber of a replica with the stream that it reads. -/
def pump (s : Fleet ι Raw) (i : ι) : Pump Raw where
  stream := s.stream
  lastID := (s.replica i).lastID
  call := (s.replica i).call
  started := (s.replica i).started
  dispatched := (s.replica i).dispatched

/-- The hub of a replica, and what was written down about it. -/
def hub (s : Fleet ι Raw) (i : ι) : Hub Raw × Ledger Raw := (s.replica i).hub

/-- What was put into the channel of a client of a replica. -/
def put (s : Fleet ι Raw) (i : ι) (c : Client) : List Raw := (s.hub i).2.put c

variable [DecidableEq ι]

/-- The fleet after its subscriber at `i` has moved. -/
def setPump (s : Fleet ι Raw) (i : ι) (p : Pump Raw) : Fleet ι Raw :=
  { s with replica := Function.update s.replica i { s.replica i with
      lastID := p.lastID
      call := p.call
      started := p.started
      dispatched := p.dispatched } }

/-- The fleet after its hub at `i` has moved. -/
def setHub (s : Fleet ι Raw) (i : ι) (h : Hub Raw × Ledger Raw) : Fleet ι Raw :=
  { s with replica := Function.update s.replica i { s.replica i with hub := h } }

/-- What happens next. -/
inductive Label (ι Raw : Type)
  /-- some replica publishes an event -/
  | xadd (x : Entry Raw)
  /-- the subscriber of a replica reads -/
  | pump (i : ι) (l : Pump.Label Raw)
  /-- the subscriber passes an entry to its hub, which drops it or not -/
  | post (i : ι) (now : Time) (dropped : Bool)
  /-- the hub or one of its clients moves -/
  | hub (i : ι) (l : Hub.Label Raw)

/-- Only the subscriber posts to the hub. -/
def posts : Hub.Label Raw → Bool
  | .publish _ | .discard _ => true
  | _ => false

/-- A step of the subscriber that is its own. -/
def reads : Pump.Label Raw → Bool
  | .xadd _ | .dispatch => false
  | _ => true

/-- One step. -/
def step (json : EventJSON Raw) (s : Fleet ι Raw) : Label ι Raw → Option (Fleet ι Raw)
  | .xadd x =>
      if hx : s.stream.Fresh x.id then some { s with stream := s.stream.add x hx } else none
  | .pump i l => if reads l then ((s.pump i).step l).map (s.setPump i) else none
  | .post i now dropped =>
      match (s.replica i).call, (s.pump i).step .dispatch with
      | .ranging (msg :: _), some p =>
          match Subscriber.dispatch json now msg with
          | none => some (s.setPump i p)
          | some m =>
              ((observedHub Raw).step (s.hub i) (if dropped then .discard m else .publish m)).map
                ((s.setPump i p).setHub i)
      | _, _ => none
  | .hub i l =>
      if posts l then none else ((observedHub Raw).step (s.hub i) l).map (s.setHub i)

end Fleet

/-- The replicas as they start, on any stream. -/
def fleet [DecidableEq ι] (json : EventJSON Raw) : Machine (Fleet ι Raw) (Fleet.Label ι Raw) where
  init s := ∀ i, (pump Raw).init (s.pump i) ∧ (observedHub Raw).init (s.hub i)
  step := Fleet.step json

namespace Fleet

variable [DecidableEq ι] {s t : Fleet ι Raw} {i j : ι} {json : EventJSON Raw}

/-- The subscriber that was set for the replica, which shares the stream of all. -/
theorem pump_setPump (p : Pump Raw) (hp : p.stream = s.stream) : (s.setPump i p).pump i = p := by
  simp only [pump, setPump, Function.update_self, ← hp]

/-- A step of a subscriber leaves every hub alone. -/
@[simp] theorem hub_setPump (p : Pump Raw) : (s.setPump i p).hub j = s.hub j := by
  simp only [hub, setPump, Function.update_apply]
  split_ifs with hj
  · rw [hj]
  · rfl

/-- The hub that was set for the replica. -/
@[simp] theorem hub_setHub (h : Hub Raw × Ledger Raw) : (s.setHub i h).hub i = h := by
  simp only [hub, setHub, Function.update_self]

/-- A step of a hub leaves every subscriber alone. -/
@[simp] theorem pump_setHub (h : Hub Raw × Ledger Raw) : (s.setHub i h).pump j = s.pump j := by
  simp only [pump, setHub, Function.update_apply]
  split_ifs with hj
  · rw [hj]
  · rfl

/-- A step of the subscriber of one replica leaves the others. -/
theorem setPump_of_ne (p : Pump Raw) (hj : j ≠ i) : (s.setPump i p).replica j = s.replica j :=
  Function.update_of_ne hj ..

/-- A step of the hub of one replica leaves the others. -/
theorem setHub_of_ne (h : Hub Raw × Ledger Raw) (hj : j ≠ i) :
    (s.setHub i h).replica j = s.replica j :=
  Function.update_of_ne hj ..

/-- **What a step can do.** -/
inductive Stepped (json : EventJSON Raw) (s : Fleet ι Raw) : Label ι Raw → Fleet ι Raw → Prop
  | xadd {x : Entry Raw} (hx : s.stream.Fresh x.id) :
      Stepped json s (.xadd x) { s with stream := s.stream.add x hx }
  | pump {i : ι} {l : Pump.Label Raw} {p : Pump Raw} (hl : reads l = true)
      (hp : (s.pump i).step l = some p) : Stepped json s (.pump i l) (s.setPump i p)
  | skipped {i : ι} {now : Time} {dropped : Bool} {msg : Entry Raw} {msgs : List (Entry Raw)}
      {p : Pump Raw} (hc : (s.pump i).call = .ranging (msg :: msgs))
      (hp : (s.pump i).step .dispatch = some p) (hm : Subscriber.dispatch json now msg = none) :
      Stepped json s (.post i now dropped) (s.setPump i p)
  | posted {i : ι} {now : Time} {dropped : Bool} {msg : Entry Raw} {msgs : List (Entry Raw)}
      {p : Pump Raw} {m : DispatchMsg Raw} {h : Hub Raw × Ledger Raw}
      (hc : (s.pump i).call = .ranging (msg :: msgs)) (hp : (s.pump i).step .dispatch = some p)
      (hm : Subscriber.dispatch json now msg = some m)
      (hh : (observedHub Raw).step (s.hub i) (if dropped then .discard m else .publish m) =
        some h) : Stepped json s (.post i now dropped) ((s.setPump i p).setHub i h)
  | hub {i : ι} {l : Hub.Label Raw} {h : Hub Raw × Ledger Raw} (hl : posts l = false)
      (hh : (observedHub Raw).step (s.hub i) l = some h) : Stepped json s (.hub i l) (s.setHub i h)

/-- **What a step can do:** publish, or move the subscriber or the hub of one replica. -/
theorem stepped {l : Label ι Raw} (hs : s.step json l = some t) : Stepped json s l t := by
  cases l with
  | xadd x =>
    simp only [step] at hs
    split_ifs at hs with hx
    exact Option.some.inj hs ▸ .xadd hx
  | pump i l =>
    obtain ⟨hl, hs⟩ := Option.ite_none_right_eq_some.1 hs
    obtain ⟨p, hp, rfl⟩ := Option.map_eq_some_iff.1 hs
    exact .pump hl hp
  | post i now dropped =>
    simp only [step] at hs
    split at hs
    · next msg msgs p hc hp =>
      split at hs
      · next hm => exact Option.some.inj hs ▸ .skipped hc hp hm
      · next m hm =>
        obtain ⟨h, hh, rfl⟩ := Option.map_eq_some_iff.1 hs
        exact .posted hc hp hm hh
    · cases hs
  | hub i l =>
    obtain ⟨hl, hs⟩ := Option.ite_none_left_eq_some.1 hs
    obtain ⟨h, hh, rfl⟩ := Option.map_eq_some_iff.1 hs
    exact .hub (Bool.eq_false_iff.2 hl) hh

/-- **A step as one replica sees it:** not at all; as a step of its subscriber,
an append among them; as an entry that its subscriber passes over or posts; or
as a step of its hub. -/
inductive Seen (json : EventJSON Raw) (s : Fleet ι Raw) (l : Label ι Raw) (t : Fleet ι Raw)
    (j : ι) : Prop
  | same (hp : t.pump j = s.pump j) (hh : t.hub j = s.hub j)
  | moved {pl : Pump.Label Raw} (hl : l = .pump j pl ∨ ∃ x, pl = .xadd x) (hd : pl ≠ .dispatch)
      (hp : (s.pump j).step pl = some (t.pump j)) (hh : t.hub j = s.hub j)
  | skipped {now : Time} {dropped : Bool} {msg : Entry Raw} {msgs : List (Entry Raw)}
      (hl : l = .post j now dropped) (hc : (s.pump j).call = .ranging (msg :: msgs))
      (hp : (s.pump j).step .dispatch = some (t.pump j))
      (hm : Subscriber.dispatch json now msg = none) (hh : t.hub j = s.hub j)
  | posted {now : Time} {dropped : Bool} {msg : Entry Raw} {msgs : List (Entry Raw)}
      {m : DispatchMsg Raw} (hl : l = .post j now dropped)
      (hc : (s.pump j).call = .ranging (msg :: msgs))
      (hp : (s.pump j).step .dispatch = some (t.pump j))
      (hm : Subscriber.dispatch json now msg = some m)
      (hh : (observedHub Raw).step (s.hub j) (if dropped then .discard m else .publish m) =
        some (t.hub j))
  | hub {hl : Hub.Label Raw} (hposts : posts hl = false) (hp : t.pump j = s.pump j)
      (hh : (observedHub Raw).step (s.hub j) hl = some (t.hub j))

omit [DecidableEq ι] in
/-- A replica that does not move sees nothing of the step. -/
theorem Seen.of_ne {l : Label ι Raw} (hs : t.stream = s.stream)
    (hr : t.replica j = s.replica j) : Seen json s l t j :=
  .same (by rw [Fleet.pump, hs, hr]; rfl) (congrArg Replica.hub hr)

omit [DecidableEq ι] in
/-- The subscriber's own steps leave the stream alone. -/
theorem stream_of_reads {p : Pump Raw} {l : Pump.Label Raw} (hl : reads l = true)
    (hp : (s.pump i).step l = some p) : p.stream = s.stream := by
  refine (Pump.step_quiet hp ?_ ?_).1
  · rintro x rfl
    cases hl
  · rintro rfl
    cases hl

omit [DecidableEq ι] in
/-- Passing an entry on leaves the stream as it is. -/
theorem stream_of_dispatch {p : Pump Raw} (hp : (s.pump i).step .dispatch = some p) :
    p.stream = s.stream := by
  simp only [Pump.step] at hp
  split at hp <;> cases hp
  rfl

/-- **What a step is to one replica**, whichever replica it is of. -/
theorem seen {l : Label ι Raw} (hs : s.step json l = some t) (j : ι) : Seen json s l t j := by
  cases stepped hs with
  | @xadd x hx =>
    refine .moved (.inr ⟨x, rfl⟩) nofun ?_ rfl
    exact dif_pos (show (s.pump j).stream.Fresh x.id from hx)
  | @pump i l p hl hp =>
    by_cases hij : j = i
    · subst hij
      have hstream := stream_of_reads hl hp
      refine .moved (.inl rfl) ?_ (by rw [pump_setPump p hstream]; exact hp) (hub_setPump p)
      rintro rfl
      cases hl
    · exact .of_ne rfl (setPump_of_ne p hij)
  | @skipped i now dropped msg msgs p hc hp hm =>
    by_cases hij : j = i
    · subst hij
      have hstream := stream_of_dispatch hp
      exact .skipped rfl hc (by rw [pump_setPump p hstream]; exact hp) hm (hub_setPump p)
    · exact .of_ne rfl (setPump_of_ne p hij)
  | @posted i now dropped msg msgs p m h hc hp hm hh =>
    by_cases hij : j = i
    · subst hij
      have hstream := stream_of_dispatch hp
      refine .posted rfl hc ?_ hm ?_
      · rw [pump_setHub, pump_setPump p hstream]
        exact hp
      · rw [hub_setHub]
        exact hh
    · exact .of_ne rfl ((setHub_of_ne h hij).trans (setPump_of_ne p hij))
  | @hub i l h hl hh =>
    by_cases hij : j = i
    · subst hij
      exact .hub hl (pump_setHub h) (by rw [hub_setHub]; exact hh)
    · exact .of_ne rfl (setHub_of_ne h hij)

end Fleet

/-! ### Order -/

namespace Pump

variable {s t : Pump Raw} {m : ℕ}

/-- What holds of the subscriber whatever it has missed: it has dispatched
entries of the stream in order, all of them before the place `m` that it reads
on from. -/
structure Sound (s : Pump Raw) (m : ℕ) : Prop where
  le : m ≤ s.stream.entries.length
  taken : s.dispatched.Sublist (s.stream.entries.take m)
  cursor : ∀ id, s.lastID = some id → id = s.stream.idAt m
  blocked : ∀ start, s.call = .blocked start →
    ∃ k, m ≤ k ∧ k ≤ s.stream.entries.length ∧ start = s.stream.idAt k
  batch : ∀ msgs, s.call = .answered (some msgs) ∨ s.call = .ranging msgs →
    ∃ k, m ≤ k ∧ msgs <+: s.stream.entries.drop k

/-- The loop moves on without reading or dispatching anything. -/
theorem Sound.move (hi : s.Sound m) {c : Call Raw}
    (hb : ∀ start, c = .blocked start →
      ∃ k, m ≤ k ∧ k ≤ s.stream.entries.length ∧ start = s.stream.idAt k)
    (hc : ∀ msgs, c = .answered (some msgs) ∨ c = .ranging msgs →
      ∃ k, m ≤ k ∧ msgs <+: s.stream.entries.drop k) {started : Option ℕ} :
    ({ s with call := c, started := started } : Pump Raw).Sound m :=
  ⟨hi.le, hi.taken, hi.cursor, hb, hc⟩

/-- A publisher appends an entry. -/
theorem Sound.xadd (hi : s.Sound m) {x : Entry Raw} (hx : s.stream.Fresh x.id) :
    ({ s with stream := s.stream.add x hx } : Pump Raw).Sound m := by
  have hlen : (s.stream.add x hx).entries.length = s.stream.entries.length + 1 :=
    List.length_append
  refine ⟨?_, ?_, ?_, ?_, ?_⟩
  · exact hlen ▸ hi.le.trans (Nat.le_succ _)
  · show s.dispatched.Sublist ((s.stream.entries ++ [x]).take m)
    rw [List.take_append_of_le_length hi.le]
    exact hi.taken
  · exact fun id h => (hi.cursor id h).trans (Stream.idAt_add hx hi.le).symm
  · intro start h
    obtain ⟨k, hmk, hk, hstart⟩ := hi.blocked start h
    exact ⟨k, hmk, hlen ▸ hk.trans (Nat.le_succ _), hstart.trans (Stream.idAt_add hx hk).symm⟩
  · intro msgs h
    obtain ⟨k, hmk, hpre⟩ := hi.batch msgs h
    refine ⟨k, hmk, hpre.trans ?_⟩
    show _ <+: (s.stream.entries ++ [x]).drop k
    rw [List.drop_append]
    exact List.prefix_append _ _

/-- **The inner range passes an entry on**, and reads on after it. -/
theorem Sound.dispatch (hi : s.Sound m) {msg : Entry Raw} {msgs : List (Entry Raw)}
    (hc : s.call = .ranging (msg :: msgs)) : ∃ k, ({ s with
      lastID := some msg.id
      call := .ranging msgs
      dispatched := s.dispatched ++ [msg] } : Pump Raw).Sound (k + 1) := by
  obtain ⟨k, hmk, rest, hrest⟩ := hi.batch _ (.inr hc)
  have hget : s.stream.entries[k]? = some msg := by
    rw [← List.head?_drop, ← hrest]
    rfl
  obtain ⟨hk, hmsg⟩ := List.getElem?_eq_some_iff.1 hget
  refine ⟨k, hk, ?_, ?_, nofun, ?_⟩
  · show (s.dispatched ++ [msg]).Sublist (s.stream.entries.take (k + 1))
    rw [List.take_succ_eq_append_getElem hk, hmsg]
    exact (hi.taken.trans (List.take_sublist_take_left hmk)).append_right _
  · rintro id ⟨⟩
    exact (Stream.idAt_succ hget).symm
  · intro msgs' h
    obtain rfl : msgs = msgs' := by
      rcases h with h | h
      · cases h
      · injection h
    refine ⟨k + 1, Nat.le_refl _, rest, ?_⟩
    have hdrop : s.stream.entries.drop (k + 1) = (msg :: msgs ++ rest).tail := by
      rw [hrest, List.tail_drop]
    rw [hdrop]
    rfl

/-- **The step lemma.**  No step, whatever it misses, puts entries out of order. -/
theorem Sound.step {l : Label Raw} (hi : s.Sound m) (hs : s.step l = some t) :
    ∃ k, t.Sound k := by
  have hquiet : ∀ {c : Call Raw} {started : Option ℕ}, (∀ start, c ≠ .blocked start) →
      (∀ msgs, c ≠ .answered (some msgs)) → (∀ msgs, c ≠ .ranging msgs) →
      ∃ k, ({ s with call := c, started := started } : Pump Raw).Sound k := by
    intro c started hb ha hr
    refine ⟨m, hi.move (fun start h => absurd h (hb start)) fun msgs h => ?_⟩
    exact h.elim (fun h => absurd h (ha msgs)) fun h => absurd h (hr msgs)
  cases l <;> simp only [Pump.step] at hs
  case xadd x =>
    split_ifs at hs with hx
    cases hs
    exact ⟨m, hi.xadd hx⟩
  case receive =>
    split at hs
    case h_1 =>
      cases hs
      refine ⟨m, hi.move (fun start h => ?_) fun msgs h => by rcases h with h | h <;> cases h⟩
      obtain rfl := Call.blocked.inj h
      -- a cursor stands where the subscriber reads on, and `$` at the end
      cases hl : s.lastID with
      | none => exact ⟨_, hi.le, Nat.le_refl _, rfl⟩
      | some id => exact ⟨m, Nat.le_refl _, hi.le, hi.cursor id hl⟩
    case h_2 => cases hs
  case serve =>
    split at hs
    case h_1 start hc =>
      split_ifs at hs
      cases hs
      refine ⟨m, hi.move (fun _ h => by cases h) fun msgs h => ?_⟩
      obtain rfl : (s.stream.after start).take xreadCount = msgs := by
        rcases h with h | h
        · exact Option.some.inj (Call.answered.inj h)
        · cases h
      obtain ⟨k, hmk, hk, rfl⟩ := hi.blocked start hc
      exact ⟨k, hmk, Stream.after_idAt hk ▸ List.take_prefix _ _⟩
    case h_2 => cases hs
  case reply =>
    split at hs
    case h_1 =>
      cases hs
      exact hquiet (fun _ h => by cases h) (fun _ h => by cases h) fun _ h => by cases h
    case h_2 msgs hc =>
      cases hs
      refine ⟨m, hi.move (fun _ h => by cases h) fun msgs' h => ?_⟩
      obtain rfl : msgs = msgs' := by
        rcases h with h | h
        · cases h
        · exact Call.ranging.inj h
      exact hi.batch msgs (.inl hc)
    case h_3 => cases hs
  case dispatch =>
    split at hs
    case h_1 msg msgs hc =>
      cases hs
      obtain ⟨k, hk⟩ := hi.dispatch hc
      exact ⟨_, hk⟩
    case h_2 => cases hs
  all_goals
    split at hs
    all_goals cases hs
    all_goals exact hquiet (fun _ h => by cases h) (fun _ h => by cases h) fun _ h => by cases h

/-- A subscriber that starts. -/
theorem Sound.start (hs : (Notifications.pump Raw).init s) : s.Sound 0 := by
  obtain ⟨hlast, hcall, -, hnil⟩ := hs
  refine ⟨Nat.zero_le _, ?_, ?_, ?_, ?_⟩
  · rw [hnil]
    exact List.nil_sublist _
  · exact fun id h => by cases hlast.symm.trans h
  · exact fun start h => by cases hcall.symm.trans h
  · rintro msgs (h | h)
    · cases hcall.symm.trans h
    · cases hcall.symm.trans h

/-- What a dispatch appends. -/
theorem dispatched_of_ranging {msg : Entry Raw} {msgs : List (Entry Raw)}
    (hc : s.call = .ranging (msg :: msgs)) (hs : s.step .dispatch = some t) :
    t.dispatched = s.dispatched ++ [msg] := by
  simp only [Pump.step, hc] at hs
  cases hs
  rfl

/-- Only a dispatch appends anything. -/
theorem dispatched_of_ne {l : Label Raw} (hl : l ≠ .dispatch) (hs : s.step l = some t) :
    t.dispatched = s.dispatched := by
  cases l <;> simp only [Pump.step] at hs
  case xadd x =>
    split_ifs at hs
    cases hs
    rfl
  case dispatch => exact absurd rfl hl
  case serve =>
    split at hs
    · split_ifs at hs
      cases hs
      rfl
    · cases hs
  all_goals
    split at hs <;> cases hs <;> rfl

end Pump

namespace Fleet

variable [DecidableEq ι] {s t : Fleet ι Raw} {i j : ι} {json : EventJSON Raw}

/-- The message was posted for the entry. -/
def Posts (json : EventJSON Raw) (m : DispatchMsg Raw) (x : Entry Raw) : Prop :=
  ∃ now, Subscriber.dispatch json now x = some m

/-- The frame was made of the entry, which is for the user. -/
def Frames (json : EventJSON Raw) (u : UUID) (raw : Raw) (x : Entry Raw) : Prop :=
  ∃ m, Posts json m x ∧ m.payload = raw ∧ m.addressed u = true

/-- The invariant of one replica. -/
structure Ordered (json : EventJSON Raw) (s : Fleet ι Raw) (j : ι) : Prop where
  sound : ∃ m, (s.pump j).Sound m
  ledger : LedgerInv (s.hub j).1 (s.hub j).2
  posted : (s.hub j).2.accepted.SublistForall₂ (Posts json) (s.pump j).dispatched

/-- A hub that is not posted to accepts nothing. -/
theorem accepted_of_not_posts {u v : Hub Raw × Ledger Raw} {l : Hub.Label Raw}
    (hl : posts l = false) (hs : (observedHub Raw).step u l = some v) :
    v.2.accepted = u.2.accepted := by
  obtain ⟨h, hh, rfl⟩ := Option.map_eq_some_iff.1 hs
  refine (accepted_step hh).resolve_right ?_
  rintro ⟨msg, rfl, -⟩
  cases hl

/-- What the hub accepts of a message that is posted to it. -/
theorem accepted_of_post {u v : Hub Raw × Ledger Raw} {m : DispatchMsg Raw} {dropped : Bool}
    (hs : (observedHub Raw).step u (if dropped then .discard m else .publish m) = some v) :
    v.2.accepted = u.2.accepted ++ if dropped then [] else [m] := by
  obtain ⟨h, hh, rfl⟩ := Option.map_eq_some_iff.1 hs
  cases dropped with
  | true =>
    rw [Hub.discarded hh, Ledger.record_self]
    exact (List.append_nil _).symm
  | false =>
    cases (Hub.step_eq_some hh).2 with
    | publish hq => rw [Ledger.record, Chan.added_of_sent (Chan.trySend_eq_sent hq).2.2.1]; rfl

/-- The invariant of the ledger, for a step of the hub of a replica. -/
theorem ledgerInv_step {u v : Hub Raw × Ledger Raw} {l : Hub.Label Raw}
    (hi : LedgerInv u.1 u.2) (hs : (observedHub Raw).step u l = some v) : LedgerInv v.1 v.2 := by
  obtain ⟨h, hh, rfl⟩ := Option.map_eq_some_iff.1 hs
  exact hi.step hh

/-- **The step lemma.** -/
theorem Ordered.step (hi : Ordered json s j) {l : Label ι Raw} (hs : s.step json l = some t) :
    Ordered json t j := by
  obtain ⟨m, hm⟩ := hi.sound
  cases seen hs j with
  | same hp hh => exact ⟨hp ▸ hi.sound, hh ▸ hi.ledger, by rw [hp, hh]; exact hi.posted⟩
  | moved _ hd hp hh =>
    refine ⟨hm.step hp, hh ▸ hi.ledger, ?_⟩
    rw [hh, Pump.dispatched_of_ne hd hp]
    exact hi.posted
  | skipped _ hc hp _ hh =>
    refine ⟨hm.step hp, hh ▸ hi.ledger, ?_⟩
    rw [hh, Pump.dispatched_of_ranging hc hp]
    exact carried_of_sublist hi.posted (List.sublist_append_left _ _)
  | @posted now dropped msg msgs msg' _ hc hp hmsg hh =>
    refine ⟨hm.step hp, ledgerInv_step hi.ledger hh, ?_⟩
    rw [accepted_of_post hh, Pump.dispatched_of_ranging hc hp]
    cases dropped with
    | true =>
      rw [if_pos rfl, List.append_nil]
      exact carried_of_sublist hi.posted (List.sublist_append_left _ _)
    | false => exact carried_snoc hi.posted ⟨now, hmsg⟩
  | hub hl hp hh =>
    refine ⟨hp ▸ hi.sound, ledgerInv_step hi.ledger hh, ?_⟩
    rw [accepted_of_not_posts hl hh, hp]
    exact hi.posted

/-- At the start nothing was passed on. -/
theorem Ordered.start (hs : (fleet json).init s) (j : ι) : Ordered json s j := by
  obtain ⟨hp, hh⟩ := hs j
  have hnew : s.hub j = (Hub.new, Ledger.new) := hh
  exact ⟨⟨0, .start hp⟩, hnew ▸ LedgerInv.new, by rw [hnew]; exact .nil⟩

end Fleet

/-- What was put into a client's channel comes from what its queue accepted. -/
theorem LedgerInv.put_carried {h : Hub Raw} {b : Ledger Raw} (hi : LedgerInv h b) (c : Client) :
    (b.put c).SublistForall₂ (fun raw m => m.payload = raw ∧ m.addressed c.userID = true)
      b.accepted := by
  cases hj : b.joined c with
  | none =>
    rw [((hi.client c).fresh hj).1]
    exact .nil
  | some i =>
    refine carried_of_sublist_left (hi.put_prefix hj).sublist ?_
    refine carried_of_sublist (carried_map fun m hm => ⟨rfl, (List.mem_filter.1 hm).2⟩) ?_
    exact List.filter_sublist.trans (List.drop_sublist _ _)

namespace Fleet

variable [DecidableEq ι] {s : Fleet ι Raw} {i j : ι} {json : EventJSON Raw}

omit [DecidableEq ι] in
/-- **In the order of the stream.**  What a client was sent was made, frame by
frame, of entries of the stream for its user, in their order. -/
theorem Ordered.put (hi : Ordered json s i) (c : Client) :
    (s.put i c).SublistForall₂ (Frames json c.userID) s.stream.entries := by
  obtain ⟨m, hm⟩ := hi.sound
  have hdispatched := carried_of_sublist hi.posted (hm.taken.trans (List.take_sublist _ _))
  exact carried_trans (fun raw m x ⟨hp, ha⟩ hx => ⟨m, hx, hp, ha⟩)
    (hi.ledger.put_carried c) hdispatched

omit [DecidableEq ι] in
/-- The frame of an entry carries the id of the event of the entry. -/
theorem Frames.eventID {u : UUID} {raw : Raw} {x : Entry Raw} (h : Frames json u raw x) :
    (json.unmarshal raw).map Event.id = eventID json x := by
  obtain ⟨m, ⟨now, hm⟩, rfl, -⟩ := h
  obtain ⟨evt, hevt, hroute⟩ := Option.bind_eq_some_iff.1 hm
  obtain ⟨-, e, he, hid, -⟩ := Hub.route_eq_some hroute
  rw [he, Notifications.eventID, hevt, Option.map_some, Option.map_some, hid]

end Fleet

/-- Two replicas before anything happened. -/
def twoReplicas : Fleet Bool Raw where
  stream := .empty
  replica _ := ⟨none, .ready, none, [], (Hub.new, Ledger.new)⟩

/-- A page connects to a replica, whose subscriber calls `XRead` then. -/
def connects (i : Bool) (c : Client) : List (Fleet.Label Bool Raw) :=
  [.hub i (.register c), .hub i (.takeRegister c), .hub i (.registerReturn c), .pump i .send,
    .pump i .receive]

/-- The replica is served, and hands the entry to its client. -/
def relays (i : Bool) (c : Client) : List (Fleet.Label Bool Raw) :=
  [.pump i .serve, .pump i .reply, .post i ⟨9⟩ false, .hub i (.takeDispatch [c.userID]),
    .hub i (.nextUser [c]), .hub i .nextClient, .hub i .rangeDone, .pump i .rangeDone]

/-- A broadcast is appended, and both replicas relay it to a page of their own. -/
def relayRun : List (Fleet.Label Bool Event) :=
  connects true ⟨0, ⟨7⟩⟩ ++ connects false ⟨1, ⟨7⟩⟩ ++
    [.xadd ⟨.of 1 0, some sharedEvent⟩] ++ relays true ⟨0, ⟨7⟩⟩ ++ relays false ⟨1, ⟨7⟩⟩

/-- They may start so. -/
theorem twoReplicas_init {json : EventJSON Raw} : (fleet json).init twoReplicas :=
  fun _ => ⟨⟨rfl, rfl, rfl, rfl⟩, rfl⟩

end Notifications
end YtShare
