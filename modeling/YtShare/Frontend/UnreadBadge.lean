/-
# The unread badge

The count that a signed-in page keeps under `UNREAD_QUERY_KEY`:
`useNotificationsUnreadCount` fetches it, `handleEvent` of
`useNotificationsSocket` adds one to it, and `useMarkNotificationsSeen` sets it to
zero and fetches it again (`frontend/src/modules/notifications/hooks`).  The
server's side is the tables that `UnreadCount` and `MarkSeen` read and write.

A share commits and its event is published some time later; then the page may be
given the event, once or more often, over the socket, by a replay or by a recovery.
A fetch makes its two reads in two steps and its answer arrives later still.  Of
`@tanstack/react-query` it matters here that there is one fetch of a query at a
time, that an invalidation starts it anew, that a write to the cache leaves it
alone, and that a fetch that fails is tried once more.

`handleEvent` adds one whether or not the count has the share already, and what it
invalidates afterwards are other queries.
-/

import YtShare.Frontend.NotificationsSocket
import YtShare.Lib.Machine
import YtShare.Notifications.Service
import YtShare.Videos.Service

namespace YtShare
namespace Frontend

open Lib Notifications Users Videos

/-- `UNREAD_MAX`. -/
def unreadMax : ℕ := 99

/-- `retry` of `queryClient`. -/
def queryRetry : ℕ := 1

/-- `NotificationEvent`, what `handleEvent` reads of it. -/
structure NotificationEvent where
  id : UUID
  type : EventType
  payload : VideoSharedPayload

/-- `handleEvent`, with what it does to the count. -/
def handleEvent (userID : UUID) (s : NotificationsSocket) (count : Option ℕ)
    (data : NotificationEvent) : NotificationsSocket × Option ℕ :=
  match s.rememberSeen data.id with
  | (false, s) => (s, count)
  | (true, s) =>
      let s := { s with lastEventId := some data.id, handled := s.handled ++ [data.id] }
      if data.type ≠ eventVideoShared then (s, count)
      else if data.payload.sharedByID = userID then (s, count)
      else (s, some (min (count.getD 0 + 1) unreadMax))

/-- How far a fetch has got: `getUnreadCount` was sent, `UnreadCount` has loaded the
user, or has counted these shares. -/
inductive FetchPc
  | requested
  | loaded (seenAt : Option Time)
  | counted (shares : List Video)

/-- The shares that an answer would be about. -/
def FetchPc.answer : FetchPc → Option (List Video)
  | .counted shares => some shares
  | .requested | .loaded _ => none

/-- The fetch of the query. -/
structure Fetch where
  pc : FetchPc
  failureCount : ℕ

/-- A fetch as it starts. -/
def Fetch.start : Fetch := ⟨.requested, 0⟩

/-- The server's tables, the shares that were published with their event ids, and
the page.  Of the `MarkSeen` requests of the page, `requested` have not written the
marker, and `written` have, but are not answered. -/
structure Badge (lower : String → String) where
  users : Table lower
  videos : List Video
  events : List (UUID × Video)
  socket : NotificationsSocket
  count : Option ℕ
  fetch : Option Fetch
  requested : ℕ
  written : ℕ

namespace Badge

/-- What happens next. -/
inductive Label
  /-- the row of a share is inserted -/
  | commit (newID : UUID) (createdAt : Time) (youTubeID : String) (sharer : User)
      (req : ShareRequest)
  /-- the event of a share is published -/
  | publish (id : UUID) (v : Video)
  /-- the page is given an event that was published -/
  | event (id : UUID)
  /-- the page mounts the query, or its window gets the focus -/
  | refetch
  /-- `UnreadCount` loads the user -/
  | load
  /-- `UnreadCount` counts the shares -/
  | read
  /-- the answer of the fetch arrives -/
  | fetched
  /-- the fetch fails -/
  | fetchError
  /-- `markNotificationsSeen` is sent -/
  | mark
  /-- `MarkSeen` writes the marker -/
  | write (now : Time)
  /-- its answer arrives -/
  | marked
  /-- a request that has not written fails -/
  | markError
  /-- the answer of one that has written is lost -/
  | markLost
  /-- `MarkSeen` writes the marker for another page of the user -/
  | markElsewhere (now : Time)

variable {lower : String → String}

/-- The fetch has come to this point. -/
def atPc (s : Badge lower) (f : Fetch) (pc : FetchPc) : Badge lower :=
  { s with fetch := some { f with pc := pc } }

/-- One step. -/
def step (userID : UUID) (s : Badge lower) : Label → Option (Badge lower)
  | .commit newID createdAt youTubeID sharer req =>
      (Store.insertRow s.videos
        (Store.stamp newID createdAt (Service.newVideo youTubeID sharer req))).map fun videos =>
          { s with videos := videos }
  | .publish id v =>
      if v ∈ s.videos ∧ (∀ p ∈ s.events, p.1 ≠ id ∧ p.2 ≠ v) ∧ id ∉ s.socket.handled then
        some { s with events := s.events ++ [(id, v)] }
      else none
  | .event id =>
      (s.events.find? fun p => decide (p.1 = id)).map fun p =>
        let (socket, count) := handleEvent userID s.socket s.count
          ⟨p.1, eventVideoShared, Service.payload p.2⟩
        { s with socket := socket, count := count }
  | .refetch => some { s with fetch := some (s.fetch.getD .start) }
  | .load =>
      match s.fetch with
      | some ⟨.requested, n⟩ => (s.users.findByID userID).map fun u =>
          s.atPc ⟨.requested, n⟩ (.loaded u.lastNotificationsSeenAt)
      | _ => none
  | .read =>
      match s.fetch with
      | some ⟨.loaded seenAt, n⟩ =>
          some (s.atPc ⟨.loaded seenAt, n⟩ (.counted (Store.sharedAfter s.videos seenAt userID)))
      | _ => none
  | .fetched =>
      match s.fetch with
      | some ⟨.counted shares, _⟩ =>
          some { s with count := some (Service.capped shares.length), fetch := none }
      | _ => none
  | .fetchError =>
      s.fetch.map fun f => { s with
        fetch :=
          if f.failureCount < queryRetry then some ⟨.requested, f.failureCount + 1⟩ else none }
  | .mark => some { s with requested := s.requested + 1 }
  | .write now =>
      if 0 < s.requested then
        (s.users.setLastNotificationsSeenAt userID now).map fun users =>
          { s with users := users, requested := s.requested - 1, written := s.written + 1 }
      else none
  | .marked =>
      if 0 < s.written then
        some { s with written := s.written - 1, count := some 0, fetch := some .start }
      else none
  | .markError => if 0 < s.requested then some { s with requested := s.requested - 1 } else none
  | .markLost => if 0 < s.written then some { s with written := s.written - 1 } else none
  | .markElsewhere now =>
      (s.users.setLastNotificationsSeenAt userID now).map fun users => { s with users := users }

/-- The shares that `UnreadCount` counts. -/
def unread (userID : UUID) (s : Badge lower) : List Video :=
  Store.sharedAfter s.videos (s.users.seenAt userID) userID

/-- The event of this share has been handled. -/
def told (s : Badge lower) (v : Video) : Bool :=
  s.events.any fun p => decide (p.2 = v ∧ p.1 ∈ s.socket.handled)

/-- A fetch or a mark-seen request of the page is under way. -/
def Busy (s : Badge lower) : Prop := s.fetch.isSome ∨ 0 < s.requested ∨ 0 < s.written

instance (s : Badge lower) : Decidable s.Busy :=
  inferInstanceAs (Decidable (_ ∨ _))

/-- Nothing is under way, and the event of every share has been handled. -/
def Quiescent (s : Badge lower) : Prop := ¬s.Busy ∧ ∀ v ∈ s.videos, s.told v = true

/-- **The count reconciles:** once all is quiet, it is what `UnreadCount` answers. -/
def Reconciled (userID : UUID) (s : Badge lower) : Prop :=
  s.Quiescent → s.count.getD 0 =
    Service.capped (Store.countSharedAfter s.videos (s.users.seenAt userID) userID)

/-- `UnreadCount`, when nothing comes between its reads. -/
theorem unreadCount_alone {users : Table lower} {userID : UUID} {u : Account}
    (hu : users.findByID userID = some u) (videos : List Video) {env env' : Service.StepEnv}
    (h : env.fails = false) (h' : env'.fails = false) :
    (Service.advanceUnreadCount env users videos userID .load).bind
        (Service.advanceUnreadCount env' users videos userID) =
      some (.done (.ok (Service.capped
        (Store.countSharedAfter videos (users.seenAt userID) userID)))) := by
  simp only [Service.advanceUnreadCount, h, h', hu, Table.seenAt, Option.bind_some,
    Bool.false_eq_true, if_false]

/-- The unread shares that the page has been told of. -/
def news (userID : UUID) (s : Badge lower) : List Video := (s.unread userID).filter s.told

/-- The count is that of the unread shares that the page has been told of. -/
def UpToDate (userID : UUID) (s : Badge lower) : Prop :=
  s.count.getD 0 = Service.capped (s.news userID).length

/-- **The step keeps the count and the news together.**  An event that the page has
not handled yet is the first of its share, and the share is unread, unless it is the
user's own.  The answer of a fetch has counted just the unread shares whose events were
handled, and there is none of them when a mark-seen request is answered.  A marker that
is written leaves them as they are. -/
def KeepsPace (userID : UUID) (s : Badge lower) : Label → Prop
  | .event id => id ∉ s.socket.seenIds → ∀ p ∈ s.events, p.1 = id →
      p.2.sharedByID ≠ userID → p.2 ∈ s.unread userID ∧ id ∉ s.socket.handled
  | .fetched => ∀ f ∈ s.fetch, ∀ shares ∈ f.pc.answer, shares = s.news userID
  | .marked => s.news userID = []
  | .write now | .markElsewhere now =>
      (Store.sharedAfter s.videos (some now.timestamptz) userID).filter s.told = s.news userID
  | _ => True

instance (userID : UUID) (s : Badge lower) : ∀ l, Decidable (s.KeepsPace userID l)
  | .event id =>
      inferInstanceAs (Decidable (id ∉ s.socket.seenIds → ∀ p ∈ s.events, p.1 = id →
        p.2.sharedByID ≠ userID → p.2 ∈ s.unread userID ∧ id ∉ s.socket.handled))
  | .fetched =>
      inferInstanceAs (Decidable (∀ f ∈ s.fetch, ∀ shares ∈ f.pc.answer, shares = s.news userID))
  | .marked => inferInstanceAs (Decidable (s.news userID = []))
  | .write now | .markElsewhere now =>
      inferInstanceAs (Decidable
        ((Store.sharedAfter s.videos (some now.timestamptz) userID).filter s.told = s.news userID))
  | .commit .. | .publish .. | .refetch | .load | .read | .fetchError | .mark | .markError
  | .markLost => isTrue trivial

/-- An answer sets the count, whatever it was. -/
def Label.sets : Label → Bool
  | .fetched | .marked => true
  | _ => false

/-- The page, with a note of its count: since the last answer, that one included, every
step has kept it and the news together, or since the page was loaded without news. -/
structure Paced (lower : String → String) where
  badge : Badge lower
  inPace : Bool

/-- A page as it is loaded. -/
def Paced.load (userID : UUID) (s : Badge lower) : Paced lower := ⟨s, decide (s.news userID = [])⟩

/-- One step, with what becomes of the note. -/
def Paced.step (userID : UUID) (p : Paced lower) (l : Label) : Option (Paced lower) :=
  (p.badge.step userID l).map fun t =>
    ⟨t, decide (p.badge.KeepsPace userID l) && (l.sets || p.inPace)⟩

/-- **The condition on a step.**  While nothing is under way that brings a new count,
an event and a marker that another page writes keep the count and the news together;
so does an answer that arrives while no mark-seen request is under way.  When the last
request fails, every step has done so since the last answer. -/
def InTime (userID : UUID) (p : Paced lower) : Label → Prop
  | .event id => ¬p.badge.Busy → p.badge.KeepsPace userID (.event id)
  | .markElsewhere now => ¬p.badge.Busy → p.badge.KeepsPace userID (.markElsewhere now)
  | .fetched => p.badge.requested = 0 → p.badge.written = 0 → p.badge.KeepsPace userID .fetched
  | .fetchError => p.badge.requested = 0 → p.badge.written = 0 → ∀ f ∈ p.badge.fetch,
      ¬f.failureCount < queryRetry → p.inPace = true
  | .markError | .markLost => p.badge.fetch = none → p.badge.requested + p.badge.written = 1 →
      p.inPace = true
  | _ => True

instance (userID : UUID) (p : Paced lower) : ∀ l, Decidable (InTime userID p l)
  | .event id => inferInstanceAs (Decidable (¬p.badge.Busy → p.badge.KeepsPace userID (.event id)))
  | .markElsewhere now =>
      inferInstanceAs (Decidable (¬p.badge.Busy → p.badge.KeepsPace userID (.markElsewhere now)))
  | .fetched =>
      inferInstanceAs (Decidable
        (p.badge.requested = 0 → p.badge.written = 0 → p.badge.KeepsPace userID .fetched))
  | .fetchError =>
      inferInstanceAs (Decidable (p.badge.requested = 0 → p.badge.written = 0 →
        ∀ f ∈ p.badge.fetch, ¬f.failureCount < queryRetry → p.inPace = true))
  | .markError | .markLost =>
      inferInstanceAs (Decidable (p.badge.fetch = none →
        p.badge.requested + p.badge.written = 1 → p.inPace = true))
  | .commit .. | .publish .. | .refetch | .load | .read | .mark | .write _ | .marked =>
      isTrue trivial

/-- The tables are as `Share` fills them, and every share was published with one
event of its own, at most. -/
structure WellFormed (s : Badge lower) : Prop where
  sharer : ∀ v ∈ s.videos, v.sharedBy.id = v.sharedByID
  index : (s.videos.map fun v => v.youTubeID).Nodup
  published : ∀ p ∈ s.events, p.2 ∈ s.videos
  ids : (s.events.map Prod.fst).Nodup
  shares : (s.events.map Prod.snd).Nodup

end Badge

/-- A page of the user, from its load on: the query is mounted, and its fetch has
begun. -/
def badge (lower : String → String) (userID : UUID) : Machine (Badge lower) Badge.Label where
  init s := s.WellFormed ∧ (∃ lastEventId handled, s.socket = .load lastEventId handled) ∧
    s.count = none ∧ s.fetch = some .start ∧ s.requested = 0 ∧ s.written = 0
  step := Badge.step userID

/-- The page with the note of its count. -/
def pacedBadge (lower : String → String) (userID : UUID) :
    Machine (Badge.Paced lower) Badge.Label where
  init p := ∃ s, (badge lower userID).init s ∧ p = .load userID s
  step := Badge.Paced.step userID

/-- **What an event does:** nothing if its id is known; else it is handled, and one
is added for a share of another user. -/
theorem handleEvent_cases (userID : UUID) (s : NotificationsSocket) (count : Option ℕ)
    (data : NotificationEvent) :
    data.id ∈ s.seenIds ∧ handleEvent userID s count data = (s, count) ∨
      data.id ∉ s.seenIds ∧
        (handleEvent userID s count data).1.handled = s.handled ++ [data.id] ∧
        (handleEvent userID s count data).2 =
          if data.type = eventVideoShared ∧ data.payload.sharedByID ≠ userID then
            some (min (count.getD 0 + 1) unreadMax)
          else count := by
  rcases s.rememberSeen_cases data.id with ⟨hid, hs⟩ | ⟨hid, t, ht, hhandled⟩
  · left
    refine ⟨hid, ?_⟩
    simp only [handleEvent, hs]
  · right
    simp only [handleEvent, ht]
    refine ⟨hid, ?_, ?_⟩
    · split_ifs <;> exact congrArg (· ++ [data.id]) hhandled
    · split_ifs <;> simp_all

/-- The refs are what `NotificationsSocket.handleEvent` makes of them. -/
theorem handleEvent_fst (userID : UUID) (s : NotificationsSocket) (count : Option ℕ)
    {data : NotificationEvent} {e : Event} (h : e.id = data.id) :
    (handleEvent userID s count data).1 = s.handleEvent e := by
  unfold handleEvent NotificationsSocket.handleEvent
  rw [h]
  rcases s.rememberSeen_cases data.id with ⟨-, hs⟩ | ⟨-, t, ht, -⟩
  · simp only [hs]
  · simp only [ht]
    split_ifs <;> rfl

/-- Adding one to the count of the page and counting one more at the server are capped
alike. -/
theorem capped_succ (n : ℕ) :
    Service.capped (n + 1) = min (Service.capped n + 1) unreadMax := by
  unfold Service.capped Service.maxUnread unreadMax
  split_ifs <;> omega

/-- One more element is let through. -/
theorem length_filter_or {α : Type} [DecidableEq α] {p : α → Bool} {v : α} (hp : p v = false) :
    ∀ {l : List α}, l.Nodup → v ∈ l →
      (l.filter fun x => p x || decide (x = v)).length = (l.filter p).length + 1
  | x :: l, hl, hv => by
    obtain ⟨hx, hl⟩ := List.nodup_cons.1 hl
    rcases List.mem_cons.1 hv with rfl | hv
    · have htail : (l.filter fun x => p x || decide (x = v)) = l.filter p := by
        refine List.filter_congr fun y hy => ?_
        have hne : y ≠ v := fun h => hx (h ▸ hy)
        simp [hne]
      rw [List.filter_cons_of_pos (by simp), List.filter_cons_of_neg (by simp [hp]), htail,
        List.length_cons]
    · have hne : x ≠ v := fun h => hx (h ▸ hv)
      have ih := length_filter_or hp hl hv
      cases hpx : p x with
      | true =>
        rw [List.filter_cons_of_pos (by simp [hpx]), List.filter_cons_of_pos hpx,
          List.length_cons, List.length_cons, ih]
      | false =>
        rw [List.filter_cons_of_neg (by simp [hpx, hne]), List.filter_cons_of_neg (by simp [hpx]),
          ih]

end Frontend
end YtShare
