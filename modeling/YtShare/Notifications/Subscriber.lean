/-
# The subscriber

`Subscriber.Run` of `backend/internal/modules/notifications/stream.go`: the
loop that reads the stream with blocking `XREAD`s and passes every entry to
`Subscriber.dispatch`.  One per replica.

The state holds the stream, the loop's `lastID` (`none` while it is still the
symbolic `"$"`) and how far the current `XRead` call is, on the client's side
and on the server's: on its way, received and blocked, answered.  `$` stands
for the last id of the stream at the moment the server receives the call.  A
label says who moves; appends, block timeouts, lost connections and the
cancellation of the context come at any time.  The stream is not trimmed past
the reader, so entries it has read may as well stay.

Once the cursor is a concrete id it stands before the next entry to dispatch,
whatever happens.  While it is `$` it does not: every call that ends without an
entry is repeated with `$`, which the server then resolves anew, and what was
appended in between is passed over.  `subscriber_exact` is about the runs in
which that does not happen.
-/

import YtShare.Lib.Machine
import YtShare.Notifications.Stream

namespace YtShare
namespace Notifications

open Lib

/-- `Count` of the `XREAD`. -/
def xreadCount : ℕ := 100

/-- Where `Subscriber.Run` is.  `answered none` is the reply `redis.Nil`. -/
inductive Call (Raw : Type)
  | ready
  | sent
  | blocked (start : StreamID)
  | answered (reply : Option (List (Entry Raw)))
  | ranging (msgs : List (Entry Raw))
  | backoff
  | stopped

/-- `Subscriber.Run` and the stream it reads, with what it has dispatched and
the length the stream had when the first `XREAD` took effect. -/
structure Pump (Raw : Type) where
  stream : Stream Raw
  lastID : Option StreamID
  call : Call Raw
  started : Option ℕ
  dispatched : List (Entry Raw)

namespace Pump

variable {Raw : Type}

/-- What happens next. -/
inductive Label (Raw : Type)
  /-- a publisher's `XADD` -/
  | xadd (x : Entry Raw)
  /-- the loop calls `XRead` -/
  | send
  /-- the server receives the call -/
  | receive
  /-- the server answers with the entries after the start, 100 at most -/
  | serve
  /-- the server answers `redis.Nil` after the block time -/
  | timeout
  /-- `XRead` returns an error, and the loop backs off -/
  | fail
  /-- `XRead` returns the reply -/
  | reply
  /-- the inner range passes its next entry to `dispatch` -/
  | dispatch
  /-- the inner range is over -/
  | rangeDone
  /-- the back-off is over -/
  | wake
  /-- the context is cancelled and `Run` returns -/
  | cancel

/-- One step. -/
def step (s : Pump Raw) : Label Raw → Option (Pump Raw)
  | .xadd x =>
      if hx : s.stream.Fresh x.id then some { s with stream := s.stream.add x hx } else none
  | .send =>
      match s.call with
      | .ready => some { s with call := .sent }
      | _ => none
  | .receive =>
      match s.call with
      | .sent => some { s with
          call := .blocked (s.lastID.getD s.stream.lastID)
          started := some (s.started.getD s.stream.entries.length) }
      | _ => none
  | .serve =>
      match s.call with
      | .blocked start =>
          if s.stream.after start ≠ [] then
            some { s with call := .answered (some ((s.stream.after start).take xreadCount)) }
          else none
      | _ => none
  | .timeout =>
      match s.call with
      | .blocked _ => some { s with call := .answered none }
      | _ => none
  | .fail =>
      match s.call with
      | .sent | .blocked _ | .answered _ => some { s with call := .backoff }
      | _ => none
  | .reply =>
      match s.call with
      | .answered none => some { s with call := .ready }
      | .answered (some msgs) => some { s with call := .ranging msgs }
      | _ => none
  | .dispatch =>
      match s.call with
      | .ranging (msg :: msgs) => some { s with
          lastID := some msg.id
          call := .ranging msgs
          dispatched := s.dispatched ++ [msg] }
      | _ => none
  | .rangeDone =>
      match s.call with
      | .ranging [] => some { s with call := .ready }
      | _ => none
  | .wake =>
      match s.call with
      | .backoff => some { s with call := .ready }
      | _ => none
  | .cancel =>
      match s.call with
      | .ranging _ | .stopped => none
      | _ => some { s with call := .stopped }

end Pump

/-- `Subscriber.Run`, started on any stream. -/
def pump (Raw : Type) : Machine (Pump Raw) (Pump.Label Raw) where
  init s := s.lastID = none ∧ s.call = .ready ∧ s.started = none ∧ s.dispatched = []
  step := Pump.step

namespace Pump

variable {Raw : Type} {s t : Pump Raw}

/-- What was dispatched is a prefix of what was appended since the first
`XREAD` took effect, and nothing before that. -/
def Exact (s : Pump Raw) : Prop :=
  match s.started with
  | none => s.dispatched = []
  | some n => s.dispatched <+: s.stream.entries.drop n

/-- **The condition on a step:** when the server receives a `$` that is not the
first, nothing was appended since the first. -/
def Guard (s : Pump Raw) (l : Label Raw) : Prop :=
  l = .receive → s.lastID = none → ∀ n, s.started = some n → s.stream.entries.length = n

instance (s : Pump Raw) (l : Label Raw) : Decidable (s.Guard l) :=
  match l with
  | .receive =>
      decidable_of_iff (s.lastID = none → ∀ n ∈ s.started, s.stream.entries.length = n)
        ⟨fun h _ => h, fun h => h rfl⟩
  | .xadd _ | .send | .serve | .timeout | .fail | .reply | .dispatch | .rangeDone | .wake
  | .cancel => isTrue nofun

/-- The position of the next entry to dispatch. -/
def pos (s : Pump Raw) (n : ℕ) : ℕ := n + s.dispatched.length

/-- What holds once the first `XREAD` took effect, at position `n`. -/
structure Reading (s : Pump Raw) (n : ℕ) : Prop where
  le : s.pos n ≤ s.stream.entries.length
  taken : s.dispatched = (s.stream.entries.drop n).take s.dispatched.length
  symbolic : s.lastID = none → s.dispatched = []
  cursor : ∀ id, s.lastID = some id → id = s.stream.idAt (s.pos n)
  blocked : ∀ start, s.call = .blocked start → start = s.stream.idAt (s.pos n)
  batch : ∀ msgs, s.call = .answered (some msgs) ∨ s.call = .ranging msgs →
    msgs <+: s.stream.entries.drop (s.pos n)

/-- What holds before. -/
structure Idle (s : Pump Raw) : Prop where
  symbolic : s.lastID = none
  nothing : s.dispatched = []
  unsent : s.call = .ready ∨ s.call = .sent ∨ s.call = .backoff ∨ s.call = .stopped

/-- The invariant of the subscriber. -/
def Inv (s : Pump Raw) : Prop :=
  s.started = none ∧ s.Idle ∨ ∃ n, s.started = some n ∧ s.Reading n

/-- **The invariant of the subscriber** makes what it has passed on exact. -/
theorem Inv.exact (hi : s.Inv) : s.Exact := by
  unfold Exact
  rcases hi with ⟨hs, hi⟩ | ⟨n, hs, hi⟩
  · rw [hs]
    exact hi.nothing
  · rw [hs, hi.taken]
    exact List.take_prefix _ _

/-- The loop moves on without reading or dispatching anything. -/
theorem Reading.move {n : ℕ} (hi : s.Reading n) {c : Call Raw} (hb : ∀ start, c ≠ .blocked start)
    (hc : ∀ msgs, c = .answered (some msgs) ∨ c = .ranging msgs →
      msgs <+: s.stream.entries.drop (s.pos n)) : ({ s with call := c } : Pump Raw).Reading n :=
  ⟨hi.le, hi.taken, hi.symbolic, hi.cursor, fun start h => absurd h (hb start), hc⟩

/-- A publisher appends an entry. -/
theorem Reading.xadd {n : ℕ} (hi : s.Reading n) {x : Entry Raw} (hx : s.stream.Fresh x.id) :
    ({ s with stream := s.stream.add x hx } : Pump Raw).Reading n := by
  have hle : n + s.dispatched.length ≤ s.stream.entries.length := hi.le
  refine ⟨?_, ?_, hi.symbolic, fun id h => ?_, fun start h => ?_, fun msgs h => ?_⟩
  · show _ ≤ (s.stream.entries ++ [x]).length
    rw [List.length_append]
    exact Nat.le_add_right_of_le hle
  · show s.dispatched = ((s.stream.entries ++ [x]).drop n).take s.dispatched.length
    rw [List.drop_append_of_le_length (by omega), List.take_append_of_le_length
      (by rw [List.length_drop]; omega)]
    exact hi.taken
  · exact (hi.cursor id h).trans (Stream.idAt_add hx hi.le).symm
  · exact (hi.blocked start h).trans (Stream.idAt_add hx hi.le).symm
  · show msgs <+: (s.stream.entries ++ [x]).drop (s.pos n)
    rw [List.drop_append_of_le_length hi.le]
    exact (hi.batch msgs h).trans (List.prefix_append _ _)

/-- The entry that a dispatch passes on stands at the position. -/
theorem Reading.dispatched_at {n : ℕ} (hi : s.Reading n) {msg : Entry Raw}
    {msgs : List (Entry Raw)} (hc : s.call = .ranging (msg :: msgs)) :
    s.stream.entries[s.pos n]? = some msg := by
  obtain ⟨rest, hrest⟩ := hi.batch _ (.inr hc)
  rw [← List.head?_drop, ← hrest]
  rfl

/-- The inner range passes an entry on. -/
theorem Reading.dispatch {n : ℕ} (hi : s.Reading n) {msg : Entry Raw} {msgs : List (Entry Raw)}
    (hc : s.call = .ranging (msg :: msgs)) :
    ({ s with
      lastID := some msg.id
      call := .ranging msgs
      dispatched := s.dispatched ++ [msg] } : Pump Raw).Reading n := by
  obtain ⟨rest, hrest⟩ := hi.batch _ (.inr hc)
  have hget := hi.dispatched_at hc
  have hlt := (List.getElem?_eq_some_iff.1 hget).1
  have hpos : n + (s.dispatched ++ [msg]).length = s.pos n + 1 := by
    rw [List.length_append, List.length_singleton, pos]
    omega
  refine ⟨?_, ?_, nofun, ?_, nofun, ?_⟩
  · rw [pos, hpos]
    exact hlt
  · have hdrop : (s.stream.entries.drop n)[s.dispatched.length]? = some msg := by
      rw [List.getElem?_drop]
      exact hget
    show s.dispatched ++ [msg] = _
    rw [List.length_append, List.length_singleton, List.take_add_one, hdrop, ← hi.taken]
    rfl
  · intro id hid
    rw [← Option.some.inj hid, pos, hpos]
    exact (Stream.idAt_succ hget).symm
  · intro msgs' h
    obtain rfl : msgs = msgs' := by
      rcases h with h | h
      · cases h
      · injection h
    rw [pos, hpos, ← List.drop_drop, ← hrest]
    exact List.prefix_append _ _

/-- The server receives the call, up to the stream. -/
def received (s : Pump Raw) : Pump Raw := { s with
  call := .blocked (s.lastID.getD s.stream.lastID)
  started := some (s.started.getD s.stream.entries.length) }

/-- **A call with `$`:** the subscriber reads from the end of the stream, as
long as it has dispatched nothing. -/
theorem received_symbolic (hl : s.lastID = none) (hnil : s.dispatched = []) :
    s.received.Reading s.stream.entries.length := by
  have hlen : s.dispatched.length = 0 := by rw [hnil]; rfl
  refine ⟨?_, ?_, fun _ => hnil, ?_, ?_, nofun⟩
  · rw [pos, show s.received.dispatched = s.dispatched from rfl, hlen]
    exact Nat.le_refl _
  · rw [show s.received.dispatched = s.dispatched from rfl, hlen, List.take_zero]
    exact hnil
  · intro id hid
    cases hl.symm.trans hid
  · rintro start hstart
    injection hstart with hstart
    rw [← hstart, hl, Option.getD_none, pos, show s.received.dispatched = s.dispatched from rfl,
      hlen]
    rfl

/-- A call with a concrete id: the subscriber goes on from where it is. -/
theorem Reading.received {n : ℕ} (hi : s.Reading n) {id : StreamID} (hl : s.lastID = some id) :
    s.received.Reading n := by
  refine ⟨hi.le, hi.taken, hi.symbolic, hi.cursor, ?_, nofun⟩
  rintro start hstart
  injection hstart with hstart
  rw [← hstart, hl]
  exact hi.cursor id hl

/-- The server receives a call that meets the condition. -/
theorem Inv.receive (hi : s.Inv) (hg : s.Guard .receive) : s.received.Inv := by
  rcases hi with ⟨hs, hi⟩ | ⟨n, hs, hi⟩
  · refine .inr ⟨s.stream.entries.length, ?_, received_symbolic hi.symbolic hi.nothing⟩
    rw [Pump.received, hs]
    rfl
  · refine .inr ⟨n, by rw [Pump.received, hs]; rfl, ?_⟩
    cases hl : s.lastID with
    | some id => exact hi.received hl
    | none =>
      rw [← hg rfl hl n hs]
      exact received_symbolic hl (hi.symbolic hl)

/-- An idle subscriber waits for no answer and holds none. -/
theorem Idle.call_ne (hi : s.Idle) {c : Call Raw} (h₁ : c ≠ .ready) (h₂ : c ≠ .sent)
    (h₃ : c ≠ .backoff) (h₄ : c ≠ .stopped) : s.call ≠ c := by
  rintro rfl
  rcases hi.unsent with h | h | h | h
  · exact h₁ h
  · exact h₂ h
  · exact h₃ h
  · exact h₄ h

/-- **What stays in every step** but the one in which the server receives a
call: where the first `XREAD` took effect, and that the subscriber is idle or
reading from some place. -/
theorem step_keeps {l : Label Raw} (hs : s.step l = some t) (hl : l ≠ .receive) :
    t.started = s.started ∧ (s.Idle → t.Idle) ∧ ∀ n, s.Reading n → t.Reading n := by
  -- the loop moves on and holds no answer
  have hquiet : ∀ {c : Call Raw}, c = .ready ∨ c = .sent ∨ c = .backoff ∨ c = .stopped →
      ({ s with call := c } : Pump Raw).started = s.started ∧
        (s.Idle → ({ s with call := c } : Pump Raw).Idle) ∧
        ∀ n, s.Reading n → ({ s with call := c } : Pump Raw).Reading n := by
    intro c hc
    refine ⟨rfl, fun hi => ⟨hi.symbolic, hi.nothing, hc⟩, fun n hn => hn.move (fun start h => ?_)
      fun msgs h => ?_⟩
    · rw [h] at hc
      rcases hc with hc | hc | hc | hc <;> cases hc
    · rcases h with h | h <;> rw [h] at hc <;> rcases hc with hc | hc | hc | hc <;> cases hc
  cases l <;> simp only [Pump.step] at hs
  case xadd x =>
    split_ifs at hs with hx
    cases hs
    exact ⟨rfl, fun hi => ⟨hi.symbolic, hi.nothing, hi.unsent⟩, fun n hn => hn.xadd hx⟩
  case send =>
    split at hs
    case h_1 => cases hs; exact hquiet (.inr (.inl rfl))
    case h_2 => cases hs
  case receive => exact absurd rfl hl
  case serve =>
    split at hs
    case h_1 start hc =>
      split_ifs at hs
      cases hs
      refine ⟨rfl, fun hi => absurd hc (hi.call_ne nofun nofun nofun nofun), fun n hn => ?_⟩
      refine hn.move nofun fun msgs h => ?_
      obtain rfl : (s.stream.after start).take xreadCount = msgs := by
        rcases h with h | h
        · injection h with h
          injection h
        · cases h
      rw [hn.blocked start hc, Stream.after_idAt hn.le]
      exact List.take_prefix _ _
    case h_2 => cases hs
  case timeout =>
    split at hs
    case h_1 start hc =>
      cases hs
      refine ⟨rfl, fun hi => absurd hc (hi.call_ne nofun nofun nofun nofun), fun n hn => ?_⟩
      refine hn.move nofun fun msgs h => ?_
      rcases h with h | h
      · injection h with h
        cases h
      · cases h
    case h_2 => cases hs
  case fail =>
    split at hs
    case h_4 => cases hs
    all_goals
      cases hs
      exact hquiet (.inr (.inr (.inl rfl)))
  case reply =>
    split at hs
    case h_1 => cases hs; exact hquiet (.inl rfl)
    case h_2 msgs hc =>
      cases hs
      refine ⟨rfl, fun hi => absurd hc (hi.call_ne nofun nofun nofun nofun), fun n hn => ?_⟩
      refine hn.move nofun fun msgs' h => ?_
      obtain rfl : msgs = msgs' := by
        rcases h with h | h
        · cases h
        · injection h
      exact hn.batch msgs (.inl hc)
    case h_3 => cases hs
  case dispatch =>
    split at hs
    case h_1 msg msgs hc =>
      cases hs
      exact ⟨rfl, fun hi => absurd hc (hi.call_ne nofun nofun nofun nofun),
        fun n hn => hn.dispatch hc⟩
    case h_2 => cases hs
  case rangeDone =>
    split at hs
    case h_1 => cases hs; exact hquiet (.inl rfl)
    case h_2 => cases hs
  case wake =>
    split at hs
    case h_1 => cases hs; exact hquiet (.inl rfl)
    case h_2 => cases hs
  case cancel =>
    split at hs
    case h_1 => cases hs
    case h_2 => cases hs
    case h_3 => cases hs; exact hquiet (.inr (.inr (.inr rfl)))

/-- **The step lemma.**  A step that meets the condition keeps the invariant. -/
theorem Inv.step {l : Label Raw} (hi : s.Inv) (hg : s.Guard l) (hs : s.step l = some t) :
    t.Inv := by
  by_cases hl : l = .receive
  · subst hl
    simp only [Pump.step] at hs
    split at hs
    · cases hs
      exact hi.receive hg
    · cases hs
  · obtain ⟨hstarted, hidle, hreading⟩ := step_keeps hs hl
    rcases hi with ⟨hs, hi⟩ | ⟨n, hs, hi⟩
    · exact .inl ⟨hstarted.trans hs, hidle hi⟩
    · exact .inr ⟨n, hstarted.trans hs, hreading n hi⟩

/-! ### How far the subscriber is -/

/-- The position of the next entry to dispatch, or to append when no `XREAD`
has taken effect yet. -/
def next (s : Pump Raw) : ℕ := s.started.getD s.stream.entries.length + s.dispatched.length

/-- The next entry to pass on is in the stream, or the next to come. -/
theorem Inv.next_le (hi : s.Inv) : s.next ≤ s.stream.entries.length := by
  rcases hi with ⟨hs, hi⟩ | ⟨n, hs, hi⟩
  · rw [next, hs, hi.nothing]
    exact Nat.le_refl _
  · rw [next, hs]
    exact hi.le

/-- An append leaves what the subscriber has dispatched. -/
theorem step_xadd {x : Entry Raw} (hs : s.step (.xadd x) = some t) :
    t.stream.entries = s.stream.entries ++ [x] ∧ t.dispatched = s.dispatched := by
  simp only [step] at hs
  split_ifs at hs with hx
  cases hs
  exact ⟨rfl, rfl⟩

/-- Every other step than an append or a dispatch leaves the stream, the
position and what was dispatched. -/
theorem step_quiet {l : Label Raw} (hs : s.step l = some t) (hx : ∀ x, l ≠ .xadd x)
    (hd : l ≠ .dispatch) :
    t.stream = s.stream ∧ t.next = s.next ∧ t.dispatched = s.dispatched := by
  cases l <;> simp only [step] at hs
  case xadd x => exact absurd rfl (hx x)
  case dispatch => exact absurd rfl hd
  case receive =>
    split at hs
    · cases hs
      exact ⟨rfl, rfl, rfl⟩
    · cases hs
  case serve =>
    split at hs
    · split_ifs at hs
      cases hs
      exact ⟨rfl, rfl, rfl⟩
    · cases hs
  all_goals
    split at hs <;> cases hs <;> exact ⟨rfl, rfl, rfl⟩

/-- **A dispatch** passes on the entry at the position and moves it by one. -/
theorem Inv.dispatch_next (hi : s.Inv) (hs : s.step .dispatch = some t) :
    ∃ msg msgs, s.call = .ranging (msg :: msgs) ∧ s.stream.entries[s.next]? = some msg ∧
      t.stream = s.stream ∧ t.next = s.next + 1 ∧ t.started = s.started := by
  simp only [Pump.step] at hs
  split at hs
  · next msg msgs hc =>
    cases hs
    rcases hi with ⟨-, hi⟩ | ⟨n, hst, hr⟩
    · exact absurd hc (hi.call_ne nofun nofun nofun nofun)
    · refine ⟨msg, msgs, hc, ?_, rfl, ?_, rfl⟩
      · rw [next, hst]
        exact hr.dispatched_at hc
      · simp only [next, List.length_append, List.length_singleton]
        omega
  · cases hs

/-! ### Wherever `$` stands -/

/-- The place that `$` stands for after a step, which is `n` before it: a call
whose cursor is still `$` makes it the end of the stream. -/
def origin (s : Pump Raw) (n : ℕ) : Label Raw → ℕ
  | .receive => if s.lastID = none then s.stream.entries.length else n
  | _ => n

/-- The subscriber is idle, or it reads from the place that `$` stands for. -/
def From (s : Pump Raw) (n : ℕ) : Prop := s.Idle ∧ n = 0 ∨ s.Reading n

/-- A place in the stream is not behind its end. -/
theorem From.pos_le {n : ℕ} (hi : s.From n) : s.pos n ≤ s.stream.entries.length := by
  rcases hi with ⟨hi, rfl⟩ | hi
  · rw [pos, hi.nothing]
    exact Nat.zero_le _
  · exact hi.le

/-- What a subscriber has dispatched while its cursor is still `$`: nothing. -/
theorem From.symbolic {n : ℕ} (hi : s.From n) (hl : s.lastID = none) : s.dispatched = [] := by
  rcases hi with ⟨hi, -⟩ | hi
  · exact hi.nothing
  · exact hi.symbolic hl

/-- **Every step** leaves a subscriber that reads from where `$` stands, also one
in which `$` is resolved anew. -/
theorem From.step {n : ℕ} (hi : s.From n) {l : Label Raw} (hs : s.step l = some t) :
    t.From (s.origin n l) := by
  by_cases hl : l = .receive
  · subst hl
    simp only [Pump.step] at hs
    split at hs
    · cases hs
      rcases Option.eq_none_or_eq_some s.lastID with hid | ⟨id, hid⟩
      · rw [origin, if_pos hid]
        exact .inr (received_symbolic hid (hi.symbolic hid))
      · rw [origin, if_neg (by rw [hid]; exact nofun)]
        rcases hi with ⟨hi, -⟩ | hi
        · cases hi.symbolic.symm.trans hid
        · exact .inr (hi.received hid)
    · cases hs
  · obtain ⟨-, hidle, hreading⟩ := step_keeps hs hl
    have hn : s.origin n l = n := by
      cases l with
      | receive => exact absurd rfl hl
      | _ => rfl
    rw [hn]
    exact hi.imp (fun h => ⟨hidle h.1, h.2⟩) (hreading n)

/-- A dispatch passes on the entry at the position, wherever `$` stands. -/
theorem From.dispatch_next {n : ℕ} (hi : s.From n) (hs : s.step .dispatch = some t) :
    ∃ msg msgs, s.call = .ranging (msg :: msgs) ∧ s.stream.entries[s.pos n]? = some msg ∧
      t.stream = s.stream ∧ t.pos n = s.pos n + 1 := by
  simp only [Pump.step] at hs
  split at hs
  · next msg msgs hc =>
    cases hs
    rcases hi with ⟨hi, -⟩ | hr
    · exact absurd hc (hi.call_ne nofun nofun nofun nofun)
    · refine ⟨msg, msgs, hc, hr.dispatched_at hc, rfl, ?_⟩
      simp only [pos, List.length_append, List.length_singleton]
      omega
  · cases hs

end Pump

/-- **The subscriber loses and duplicates nothing while `$` stands for the same
place.**  In every run, from any stream, in which a `$` is received again only
when nothing was appended since it was first received, what was dispatched is
at every moment a prefix of what was appended since then, in stream order. -/
theorem subscriber_exact {Raw : Type} {s : Pump Raw} (hs : (pump Raw).init s)
    {ls : List (Pump.Label Raw)} (hguard : (pump Raw).Steps Pump.Guard s ls) :
    (pump Raw).Always Pump.Exact s ls := by
  obtain ⟨hlast, hcall, hstarted, hnil⟩ := hs
  have hidle : s.Idle := ⟨hlast, hnil, .inl hcall⟩
  have hinv : s.Inv := .inl ⟨hstarted, hidle⟩
  have halways := Machine.always_of_steps (M := pump Raw) (I := Pump.Inv) (C := Pump.Guard)
    (fun _ _ _ hi hg hstep => hi.step hg hstep) hinv hguard
  exact halways.mono fun _ hi => hi.exact

/-- The subscriber before its first call, on an empty stream. -/
def idlePump : Pump ℕ := ⟨.empty, none, .ready, none, []⟩

/-- The first call takes effect, an entry is appended, served and dispatched,
and the second call is answered by the block time. -/
def quietRun : List (Pump.Label ℕ) :=
  [.send, .receive, .xadd ⟨.of 1 0, some 1⟩, .serve, .reply, .dispatch, .rangeDone, .send,
    .receive, .timeout, .reply]

/-- `quietRun` dispatches the entry. -/
theorem subscriber_exact_quietRun :
    (pump ℕ).Always Pump.Exact idlePump quietRun ∧
      ((pump ℕ).exec idlePump quietRun).map (·.dispatched.length) = some 1 := by
  refine ⟨subscriber_exact ⟨rfl, rfl, rfl, rfl⟩ ?_, by decide⟩
  refine .cons rfl nofun (.cons rfl (fun _ _ => nofun) (.cons rfl nofun (.cons rfl nofun ?_)))
  refine .cons rfl nofun (.cons rfl nofun (.cons rfl nofun (.cons rfl nofun ?_)))
  exact .cons rfl (fun _ => nofun) (.cons rfl nofun (.cons rfl nofun trivial))

/-- The first call times out, an entry is appended before `$` is received again,
and another one after. -/
def lossyRun : List (Pump.Label ℕ) :=
  [.send, .receive, .timeout, .reply, .xadd ⟨.of 1 0, some 1⟩, .send, .receive,
    .xadd ⟨.of 2 0, some 2⟩, .serve, .reply, .dispatch]

/-- `lossyRun` dispatches the second entry and never the first. -/
theorem subscriber_loses : ¬(pump ℕ).Always Pump.Exact idlePump lossyRun := by
  intro h
  obtain ⟨t, ht⟩ : ∃ t, (pump ℕ).exec idlePump lossyRun = some t :=
    Option.isSome_iff_exists.1 (by decide)
  have hend : ((pump ℕ).exec idlePump lossyRun).map (fun t =>
      (t.started, t.dispatched.map (·.data), t.stream.entries.map (·.data))) =
      some (some 0, [some 2], [some 1, some 2]) := by decide
  rw [ht] at hend
  simp only [Option.map_some, Option.some.injEq, Prod.mk.injEq] at hend
  obtain ⟨hstarted, hdispatched, hentries⟩ := hend
  have hexact : t.Exact := h.exec ht
  rw [Pump.Exact, hstarted] at hexact
  have hpre := hexact.map (·.data)
  rw [hdispatched, List.drop_zero, hentries] at hpre
  exact absurd hpre (by decide)

end Notifications
end YtShare
