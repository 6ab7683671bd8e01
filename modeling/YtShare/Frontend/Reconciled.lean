/-
# When the unread badge is right

The badge is to show what `UnreadCount` answers once all is quiet.  Besides the
answers of fetches only the events change it, each by one, so it goes wrong with the
first event whose share the count has already, or has no longer to count, unless a
fetch that is answered later puts that right; and with an answer that is older than
the events handled when it arrives.

`badge_reconciled` says that a run without such steps (`Badge.InTime`) keeps the
badge right, and `counted_twice` is a run in which a share is fetched and then added.
When the last request fails nothing is set right any more, so then the steps since
the last answer must all have kept the count and the shares that the page has been told
of together (`Badge.KeepsPace`); `Badge.Paced` keeps note of that.
-/

import YtShare.Frontend.UnreadBadge

namespace YtShare
namespace Frontend

open Lib Notifications Users Videos

namespace Badge

variable {lower : String → String} {userID : UUID} {s t : Badge lower} {l : Label}

/-- **What a step can do.** -/
inductive Stepped (userID : UUID) (s : Badge lower) : Label → Badge lower → Prop
  | commit {newID : UUID} {createdAt : Time} {youTubeID : String} {sharer : User}
      {req : ShareRequest} {videos : List Video} (hinsert : Store.insertRow s.videos
        (Store.stamp newID createdAt (Service.newVideo youTubeID sharer req)) = some videos) :
      Stepped userID s (.commit newID createdAt youTubeID sharer req) { s with videos := videos }
  | publish {id : UUID} {v : Video} (hv : v ∈ s.videos)
      (hfresh : ∀ p ∈ s.events, p.1 ≠ id ∧ p.2 ≠ v) (hid : id ∉ s.socket.handled) :
      Stepped userID s (.publish id v) { s with events := s.events ++ [(id, v)] }
  | event {id : UUID} {v : Video} (hid : (id, v) ∈ s.events)
      {r : NotificationsSocket × Option ℕ}
      (hr : handleEvent userID s.socket s.count ⟨id, eventVideoShared, Service.payload v⟩ = r) :
      Stepped userID s (.event id) { s with socket := r.1, count := r.2 }
  | refetch : Stepped userID s .refetch { s with fetch := some (s.fetch.getD .start) }
  | load {n : ℕ} {u : Account} (hfetch : s.fetch = some ⟨.requested, n⟩)
      (hu : s.users.findByID userID = some u) :
      Stepped userID s .load (s.atPc ⟨.requested, n⟩ (.loaded u.lastNotificationsSeenAt))
  | read {seenAt : Option Time} {n : ℕ} (hfetch : s.fetch = some ⟨.loaded seenAt, n⟩) :
      Stepped userID s .read
        (s.atPc ⟨.loaded seenAt, n⟩ (.counted (Store.sharedAfter s.videos seenAt userID)))
  | fetched {shares : List Video} {n : ℕ} (hfetch : s.fetch = some ⟨.counted shares, n⟩) :
      Stepped userID s .fetched
        { s with count := some (Service.capped shares.length), fetch := none }
  | retried {f : Fetch} (hfetch : s.fetch = some f) (hretry : f.failureCount < queryRetry) :
      Stepped userID s .fetchError { s with fetch := some ⟨.requested, f.failureCount + 1⟩ }
  | failed {f : Fetch} (hfetch : s.fetch = some f) (hretry : ¬f.failureCount < queryRetry) :
      Stepped userID s .fetchError { s with fetch := none }
  | mark : Stepped userID s .mark { s with requested := s.requested + 1 }
  | write {now : Time} {users : Table lower} (hrequested : 0 < s.requested)
      (hset : s.users.setLastNotificationsSeenAt userID now = some users) :
      Stepped userID s (.write now)
        { s with users := users, requested := s.requested - 1, written := s.written + 1 }
  | marked (hwritten : 0 < s.written) : Stepped userID s .marked
      { s with written := s.written - 1, count := some 0, fetch := some .start }
  | markError (hrequested : 0 < s.requested) :
      Stepped userID s .markError { s with requested := s.requested - 1 }
  | markLost (hwritten : 0 < s.written) :
      Stepped userID s .markLost { s with written := s.written - 1 }
  | markElsewhere {now : Time} {users : Table lower}
      (hset : s.users.setLastNotificationsSeenAt userID now = some users) :
      Stepped userID s (.markElsewhere now) { s with users := users }

/-- **What a step can do**, label by label: the requests that fail, and the retry, are
told apart. -/
theorem stepped (h : s.step userID l = some t) : Stepped userID s l t := by
  cases l with
  | commit newID createdAt youTubeID sharer req =>
    obtain ⟨videos, hinsert, rfl⟩ := Option.map_eq_some_iff.1 h
    exact .commit hinsert
  | publish id v =>
    obtain ⟨⟨hv, hfresh, hid⟩, h⟩ := Option.ite_none_right_eq_some.1 h
    exact Option.some.inj h ▸ .publish hv hfresh hid
  | event id =>
    obtain ⟨⟨j, v⟩, hfind, rfl⟩ := Option.map_eq_some_iff.1 h
    obtain rfl : j = id := of_decide_eq_true (List.find?_some hfind :)
    exact .event (List.mem_of_find?_eq_some hfind) rfl
  | refetch => exact Option.some.inj h ▸ .refetch
  | load =>
    simp only [Badge.step] at h
    split at h
    · next n hfetch =>
      obtain ⟨u, hu, rfl⟩ := Option.map_eq_some_iff.1 h
      exact .load hfetch hu
    · cases h
  | read =>
    simp only [Badge.step] at h
    split at h
    · next seenAt n hfetch => exact Option.some.inj h ▸ .read hfetch
    · cases h
  | fetched =>
    simp only [Badge.step] at h
    split at h
    · next shares n hfetch => exact Option.some.inj h ▸ .fetched hfetch
    · cases h
  | fetchError =>
    obtain ⟨f, hfetch, rfl⟩ := Option.map_eq_some_iff.1 h
    split_ifs with hretry
    · exact .retried hfetch hretry
    · exact .failed hfetch hretry
  | mark => exact Option.some.inj h ▸ .mark
  | write now =>
    obtain ⟨hrequested, h⟩ := Option.ite_none_right_eq_some.1 h
    obtain ⟨users, hset, rfl⟩ := Option.map_eq_some_iff.1 h
    exact .write hrequested hset
  | marked =>
    obtain ⟨hwritten, h⟩ := Option.ite_none_right_eq_some.1 h
    exact Option.some.inj h ▸ .marked hwritten
  | markError =>
    obtain ⟨hrequested, h⟩ := Option.ite_none_right_eq_some.1 h
    exact Option.some.inj h ▸ .markError hrequested
  | markLost =>
    obtain ⟨hwritten, h⟩ := Option.ite_none_right_eq_some.1 h
    exact Option.some.inj h ▸ .markLost hwritten
  | markElsewhere now =>
    obtain ⟨users, hset, rfl⟩ := Option.map_eq_some_iff.1 h
    exact .markElsewhere hset

/-- A share has been told of when some event of it was handled. -/
theorem told_iff {v : Video} :
    s.told v = true ↔ ∃ id, (id, v) ∈ s.events ∧ id ∈ s.socket.handled := by
  unfold told
  rw [List.any_eq_true]
  constructor
  · rintro ⟨⟨id, w⟩, hp, h⟩
    obtain ⟨rfl, hid⟩ := of_decide_eq_true h
    exact ⟨id, hp, hid⟩
  · rintro ⟨id, hp, hid⟩
    exact ⟨(id, v), hp, decide_eq_true ⟨rfl, hid⟩⟩

/-- The unread shares are those of the others after the marker. -/
theorem mem_unread {v : Video} : v ∈ s.unread userID ↔ v ∈ s.videos ∧
    v.sharedByID ≠ userID ∧ ∀ m ∈ s.users.seenAt userID, m.ns < v.createdAt.timestamptz.ns := by
  unfold unread Store.sharedAfter
  rw [List.mem_filter, decide_eq_true_iff]

/-- The event of a share has one id, and an id has one share. -/
theorem WellFormed.id_unique (hw : s.WellFormed) {id id' : UUID} {v v' : Video}
    (h : (id, v) ∈ s.events) (h' : (id', v') ∈ s.events) : id = id' ↔ v = v' := by
  constructor
  · intro heq
    have := List.inj_on_of_nodup_map hw.ids h h' heq
    exact (Prod.mk.inj this).2
  · intro heq
    have := List.inj_on_of_nodup_map hw.shares h h' heq
    exact (Prod.mk.inj this).1

/-- Each of them is there once. -/
theorem WellFormed.unread_nodup (hw : s.WellFormed) : (s.unread userID).Nodup :=
  (List.Nodup.of_map _ hw.index).filter _

/-- A step keeps the tables well formed. -/
theorem WellFormed.step (hw : s.WellFormed) (h : s.step userID l = some t) : t.WellFormed := by
  cases stepped h with
  | commit hinsert =>
    obtain ⟨hnew, rfl⟩ := Store.insertRow_eq_some hinsert
    refine ⟨?_, ?_, ?_, hw.ids, hw.shares⟩
    · intro v hv
      rcases List.mem_append.1 hv with hv | hv
      · exact hw.sharer v hv
      · obtain rfl := List.mem_singleton.1 hv
        rfl
    · rw [List.map_append, List.nodup_append]
      refine ⟨hw.index, List.nodup_singleton _, ?_⟩
      intro y hy z hz
      obtain ⟨w, hmem, rfl⟩ := List.mem_map.1 hy
      obtain rfl := List.mem_singleton.1 hz
      exact hnew w hmem
    · exact fun p hp => List.mem_append_left _ (hw.published p hp)
  | publish hv hfresh hid =>
    refine ⟨hw.sharer, hw.index, ?_, ?_, ?_⟩
    · intro p hp
      rcases List.mem_append.1 hp with hp | hp
      · exact hw.published p hp
      · obtain rfl := List.mem_singleton.1 hp
        exact hv
    · rw [List.map_append, List.nodup_append]
      refine ⟨hw.ids, List.nodup_singleton _, ?_⟩
      intro y hy z hz
      obtain ⟨p, hp, rfl⟩ := List.mem_map.1 hy
      obtain rfl := List.mem_singleton.1 hz
      exact (hfresh p hp).1
    · rw [List.map_append, List.nodup_append]
      refine ⟨hw.shares, List.nodup_singleton _, ?_⟩
      intro y hy z hz
      obtain ⟨p, hp, rfl⟩ := List.mem_map.1 hy
      obtain rfl := List.mem_singleton.1 hz
      exact (hfresh p hp).2
  -- the others leave the shares and their events alone
  | _ => exact ⟨hw.sharer, hw.index, hw.published, hw.ids, hw.shares⟩

/-- A share that commits is no news yet. -/
theorem news_commit (hw : s.WellFormed) {videos : List Video} {row : Video}
    (h : Store.insertRow s.videos row = some videos) :
    ({ s with videos := videos } : Badge lower).news userID = s.news userID := by
  obtain ⟨hnew, rfl⟩ := Store.insertRow_eq_some h
  have htold : s.told row = false := by
    rw [← Bool.not_eq_true, told_iff]
    rintro ⟨id, hid, -⟩
    exact hnew row (hw.published _ hid) rfl
  have hlast : ([row].filter fun v => decide (v.sharedByID ≠ userID ∧
      ∀ m ∈ s.users.seenAt userID, m.ns < v.createdAt.timestamptz.ns)).filter s.told = [] := by
    rw [List.filter_eq_nil_iff]
    intro v hv
    obtain rfl := List.mem_singleton.1 (List.mem_of_mem_filter hv)
    simp [htold]
  unfold news unread Store.sharedAfter
  rw [List.filter_append, List.filter_append]
  exact (congrArg _ hlast).trans (List.append_nil _)

/-- Nor does the publication of its event make it news. -/
theorem news_publish {id : UUID} {v : Video} (hid : id ∉ s.socket.handled) :
    ({ s with events := s.events ++ [(id, v)] } : Badge lower).news userID = s.news userID := by
  refine List.filter_congr fun w _ => ?_
  rw [Bool.eq_iff_iff, told_iff, told_iff]
  refine exists_congr fun j => ⟨?_, ?_⟩
  · rintro ⟨hj, hhandled⟩
    rcases List.mem_append.1 hj with hj | hj
    · exact ⟨hj, hhandled⟩
    · obtain ⟨rfl, -⟩ := Prod.mk.inj (List.mem_singleton.1 hj)
      exact absurd hhandled hid
  · rintro ⟨hj, hhandled⟩
    exact ⟨List.mem_append_left _ hj, hhandled⟩

/-- The shares that the page has been told of after one more event. -/
theorem told_handled (hw : s.WellFormed) {id : UUID} {v : Video} (hid : (id, v) ∈ s.events)
    {socket : NotificationsSocket} (hsocket : socket.handled = s.socket.handled ++ [id])
    (count : Option ℕ) (w : Video) :
    ({ s with socket := socket, count := count } : Badge lower).told w =
      (s.told w || decide (w = v)) := by
  rw [Bool.eq_iff_iff, Bool.or_eq_true, decide_eq_true_iff, told_iff, told_iff]
  simp only [hsocket, List.mem_append, List.mem_singleton]
  constructor
  · rintro ⟨j, hj, hhandled | rfl⟩
    · exact .inl ⟨j, hj, hhandled⟩
    · exact .inr ((hw.id_unique hj hid).1 rfl)
  · rintro (⟨j, hj, hhandled⟩ | rfl)
    · exact ⟨j, hj, .inl hhandled⟩
    · exact ⟨id, hid, .inr rfl⟩

/-- **An event that is handled in time** adds to the count what it adds to the news. -/
theorem upToDate_event (hw : s.WellFormed) (hup : s.UpToDate userID) {id : UUID} {v : Video}
    (hid : (id, v) ∈ s.events)
    (hintime : id ∉ s.socket.seenIds → v.sharedByID ≠ userID →
      v ∈ s.unread userID ∧ id ∉ s.socket.handled) :
    let r := handleEvent userID s.socket s.count ⟨id, eventVideoShared, Service.payload v⟩
    ({ s with socket := r.1, count := r.2 } : Badge lower).UpToDate userID := by
  intro r
  have hsharer : (Service.payload v).sharedByID = v.sharedByID := hw.sharer v (hw.published _ hid)
  rcases handleEvent_cases userID s.socket s.count ⟨id, eventVideoShared, Service.payload v⟩ with
    ⟨-, hr⟩ | ⟨hseen, hhandled, hcount⟩
  · have hr' : r = (s.socket, s.count) := hr
    rw [hr']
    exact hup
  · have hnews : ({ s with socket := r.1, count := r.2 } : Badge lower).news userID =
        (s.unread userID).filter fun w => s.told w || decide (w = v) :=
      List.filter_congr fun w _ => told_handled hw hid hhandled r.2 w
    unfold UpToDate at hup ⊢
    rw [hnews]
    change r.2.getD 0 = _
    rw [show r.2 = _ from hcount, hsharer]
    by_cases hown : v.sharedByID = userID
    · -- the user's own share is neither counted nor news
      rw [if_neg fun h => h.2 hown, hup]
      refine congrArg (fun l => Service.capped (List.length l)) (List.filter_congr fun w hw' => ?_)
      have hne : w ≠ v := by
        rintro rfl
        exact (mem_unread.1 hw').2.1 hown
      simp [hne]
    · obtain ⟨hunread, hfirst⟩ := hintime hseen hown
      have htold : s.told v = false := by
        rw [← Bool.not_eq_true, told_iff]
        rintro ⟨j, hj, hjh⟩
        rw [(hw.id_unique hj hid).2 rfl] at hjh
        exact hfirst hjh
      rw [if_pos ⟨rfl, hown⟩, length_filter_or htold hw.unread_nodup hunread, capped_succ]
      exact congrArg (fun n => min (n + 1) unreadMax) hup

/-- The news once a marker is written. -/
theorem news_write {users : Table lower} {now : Time}
    (hset : s.users.setLastNotificationsSeenAt userID now = some users) :
    ({ s with users := users } : Badge lower).news userID =
      (Store.sharedAfter s.videos (some now.timestamptz) userID).filter s.told := by
  have hseen : users.seenAt userID = some now.timestamptz := by
    rw [Table.seenAt_setLastNotificationsSeenAt hset, if_pos rfl]
  unfold news unread
  rw [hseen]
  rfl

/-- **A step that keeps pace** leaves a count that was up to date, or that it sets
itself, up to date. -/
theorem upToDate_step (hw : s.WellFormed) (hpace : s.KeepsPace userID l)
    (hs : l.sets = true ∨ s.UpToDate userID) (h : s.step userID l = some t) :
    t.UpToDate userID := by
  -- most steps set no count, and leave it and the news alone
  have hkeep : l.sets = false → t.count = s.count → t.news userID = s.news userID →
      t.UpToDate userID := by
    intro hl hcount hnews
    rw [hl] at hs
    unfold UpToDate
    rw [hcount, hnews]
    exact hs.resolve_left Bool.false_ne_true
  cases stepped h with
  | commit hinsert => exact hkeep rfl rfl (news_commit hw hinsert)
  | publish _ _ hid => exact hkeep rfl rfl (news_publish hid)
  | event hid hr =>
    subst hr
    have hup := hs.resolve_left Bool.false_ne_true
    exact upToDate_event hw hup hid fun hseen => hpace hseen _ hid rfl
  | fetched hfetch =>
    have hshares : _ = s.news userID := hpace _ hfetch _ rfl
    exact congrArg (fun l => Service.capped (List.length l)) hshares
  | write _ hset | markElsewhere hset => exact hkeep rfl rfl ((news_write hset).trans hpace)
  | marked _ =>
    have hnone : s.news userID = [] := hpace
    show 0 = Service.capped (s.news userID).length
    rw [hnone]
    rfl
  | refetch | load | read | retried | failed | mark | markError | markLost =>
    exact hkeep rfl rfl rfl

namespace Paced

variable {p q : Paced lower}

/-- The invariant: a count that has kept pace is up to date, and while the page has
nothing under way its count has kept pace. -/
structure Inv (userID : UUID) (p : Paced lower) : Prop where
  wellFormed : p.badge.WellFormed
  upToDate : p.inPace = true → p.badge.UpToDate userID
  settled : p.badge.Busy ∨ p.inPace = true

/-- What becomes of the note. -/
theorem inPace_step (p : Paced lower) (l : Label) :
    (decide (p.badge.KeepsPace userID l) && (l.sets || p.inPace)) = true ↔
      p.badge.KeepsPace userID l ∧ (l.sets = true ∨ p.inPace = true) := by
  rw [Bool.and_eq_true, Bool.or_eq_true, decide_eq_true_iff]

/-- **A step in time** ends with something under way, or with a count in pace. -/
theorem Inv.settled_step (hi : p.Inv userID) (hintime : InTime userID p l)
    (h : p.badge.step userID l = some t) :
    t.Busy ∨ p.badge.KeepsPace userID l ∧ (l.sets = true ∨ p.inPace = true) := by
  -- the last mark-seen request has failed
  have hlast : t.fetch = p.badge.fetch →
      t.requested + t.written + 1 = p.badge.requested + p.badge.written →
      (p.badge.fetch = none → p.badge.requested + p.badge.written = 1 → p.inPace = true) →
      t.Busy ∨ p.inPace = true := by
    intro hfetch hone hpace
    by_cases hbusy : t.Busy
    · exact .inl hbusy
    · simp only [Busy, not_or] at hbusy
      obtain ⟨hnone, hreq, hwritten⟩ := hbusy
      rw [hfetch] at hnone
      exact .inr (hpace (Option.not_isSome_iff_eq_none.1 hnone) (by omega))
  cases stepped h with
  | commit _ | publish _ _ _ => exact hi.settled.imp id fun hpace => ⟨trivial, .inr hpace⟩
  | event _ _ | markElsewhere _ =>
    by_cases hbusy : p.badge.Busy
    · exact .inl hbusy
    · exact .inr ⟨hintime hbusy, .inr (hi.settled.resolve_left hbusy)⟩
  | fetched _ =>
    rcases Nat.eq_zero_or_pos p.badge.requested with hreq | hreq
    · rcases Nat.eq_zero_or_pos p.badge.written with hwritten | hwritten
      · exact .inr ⟨hintime hreq hwritten, .inl rfl⟩
      · exact .inl (.inr (.inr hwritten))
    · exact .inl (.inr (.inl hreq))
  | failed hfetch hretry =>
    rcases Nat.eq_zero_or_pos p.badge.requested with hreq | hreq
    · rcases Nat.eq_zero_or_pos p.badge.written with hwritten | hwritten
      · exact .inr ⟨trivial, .inr (hintime hreq hwritten _ hfetch hretry)⟩
      · exact .inl (.inr (.inr hwritten))
    · exact .inl (.inr (.inl hreq))
  | markError hrequested =>
    refine (hlast rfl ?_ hintime).imp id fun hpace => ⟨trivial, .inr hpace⟩
    show p.badge.requested - 1 + p.badge.written + 1 = _
    omega
  | markLost hwritten =>
    refine (hlast rfl ?_ hintime).imp id fun hpace => ⟨trivial, .inr hpace⟩
    show p.badge.requested + (p.badge.written - 1) + 1 = _
    omega
  -- a request is under way afterwards
  | refetch | load | read | retried | marked => exact .inl (.inl rfl)
  | mark => exact .inl (.inr (.inl (Nat.succ_pos _)))
  | write _ _ => exact .inl (.inr (.inr (Nat.succ_pos _)))

/-- **The step lemma.**  A step in time keeps the invariant. -/
theorem Inv.step (hi : p.Inv userID) (hintime : InTime userID p l)
    (h : p.step userID l = some q) : q.Inv userID := by
  obtain ⟨t, ht, rfl⟩ := Option.map_eq_some_iff.1 h
  constructor
  · exact hi.wellFormed.step ht
  · intro hq
    obtain ⟨hpace, hs⟩ := (inPace_step _ _).1 hq
    exact upToDate_step hi.wellFormed hpace (hs.imp id hi.upToDate) ht
  · exact (hi.settled_step hintime ht).imp id (inPace_step _ _).2

/-- Where all is quiet, the page has been told of all there is. -/
theorem Inv.reconciled (hi : p.Inv userID) : p.badge.Reconciled userID := by
  rintro ⟨hbusy, htold⟩
  have hup := hi.upToDate (hi.settled.resolve_left hbusy)
  have hall : p.badge.news userID = p.badge.unread userID :=
    List.filter_eq_self.2 fun v hv => htold v (mem_unread.1 hv).1
  unfold UpToDate at hup
  rw [hup, hall]
  rfl

/-- A page as it is loaded fetches the count, and shows none before. -/
theorem inv_load (hinit : (Frontend.badge lower userID).init s) : (load userID s).Inv userID := by
  obtain ⟨hw, -, hcount, hfetch, -, -⟩ := hinit
  refine ⟨hw, fun hnone => ?_, .inl (.inl ?_)⟩
  · have hnone : s.news userID = [] := of_decide_eq_true hnone
    show s.count.getD 0 = Service.capped (s.news userID).length
    rw [hcount, hnone]
    rfl
  · show s.fetch.isSome = true
    rw [hfetch]
    rfl

end Paced

end Badge

/-- **When the unread badge reconciles.**  In every run whose steps are all in time,
whenever all is quiet the count is what `UnreadCount` answers. -/
theorem badge_reconciled {lower : String → String} {userID : UUID} {s : Badge lower}
    (hinit : (badge lower userID).init s) {run : List Badge.Label}
    (h : (pacedBadge lower userID).Steps (Badge.InTime userID) (.load userID s) run) :
    (badge lower userID).Always (Badge.Reconciled userID) s run := by
  have hinv : (pacedBadge lower userID).Always (Badge.Paced.Inv userID) (.load userID s) run :=
    Machine.always_of_steps (fun _ _ _ hi hintime hst => hi.step hintime hst)
      (Badge.Paced.inv_load hinit) h
  -- the note is of no account to the steps
  refine Machine.Always.map (f := Badge.Paced.badge) (fun p l t ht => ?_)
    (hinv.mono fun _ hi => hi.reconciled)
  exact ⟨_, Option.map_eq_some_iff.2 ⟨t, ht, rfl⟩, rfl⟩

/-- Its id is unique, as the only one. -/
theorem nodup_freshID : [(⟨7⟩ : UUID)].Nodup := List.nodup_singleton _

/-- And so is its address. -/
theorem nodup_freshEmail : ["a@b"].Nodup := List.nodup_singleton _

/-- The page of user 7, who has never seen the notifications, before any share. -/
def freshBadge : Badge id :=
  ⟨⟨[⟨⟨⟨7⟩, "a@b", "a"⟩, "", none⟩], nodup_freshID, nodup_freshEmail⟩, [], [],
    .load none [], none, some .start, 0, 0⟩

/-- The user who shares. -/
def sharer : User := ⟨⟨8⟩, "c@d", "c"⟩

/-- The share commits. -/
def commitLabel : Badge.Label := .commit ⟨1⟩ ⟨1000⟩ "y" sharer ⟨"", "", ""⟩

/-- The row of the share. -/
def sharedRow : Video := Store.stamp ⟨1⟩ ⟨1000⟩ (Service.newVideo "y" sharer ⟨"", "", ""⟩)

/-- Such a page has just been loaded. -/
theorem freshBadge_init : (badge id ⟨7⟩).init freshBadge :=
  ⟨⟨nofun, List.nodup_nil, nofun, List.nodup_nil, List.nodup_nil⟩, ⟨none, [], rfl⟩, rfl, rfl, rfl,
    rfl⟩

/-- The count is fetched and a share commits.  While the count is fetched once more the
page is given the event of the share, and then the fetch fails for good. -/
theorem badge_reconciled_inTime : (badge id ⟨7⟩).Always (Badge.Reconciled ⟨7⟩) freshBadge
    [.load, .read, .fetched, commitLabel, .publish ⟨2⟩ sharedRow, .refetch, .event ⟨2⟩,
      .fetchError, .fetchError] := by
  refine badge_reconciled freshBadge_init ?_
  decide

/-- A share commits, the count is fetched, and the page is given the event of the
share: it shows two where there is one. -/
theorem counted_twice : ¬(badge id ⟨7⟩).Always (Badge.Reconciled ⟨7⟩) freshBadge
    [commitLabel, .load, .read, .fetched, .publish ⟨2⟩ sharedRow, .event ⟨2⟩] := by
  intro h
  have hend : ((badge id ⟨7⟩).exec freshBadge
      [commitLabel, .load, .read, .fetched, .publish ⟨2⟩ sharedRow, .event ⟨2⟩]).map
        (fun s => (s.count, s.fetch.isSome, s.requested, s.written, s.videos.all s.told,
          Service.capped (Store.countSharedAfter s.videos (s.users.seenAt ⟨7⟩) ⟨7⟩))) =
      some (some 2, false, 0, 0, true, 1) := by decide
  obtain ⟨t, ht, hfields⟩ := Option.map_eq_some_iff.1 hend
  simp only [Prod.mk.injEq] at hfields
  obtain ⟨hcount, hfetch, hreq, hwritten, htold, hserver⟩ := hfields
  have hquiet : t.Quiescent := by
    refine ⟨?_, List.all_eq_true.1 htold⟩
    simp [Badge.Busy, hfetch, hreq, hwritten]
  have heq := h.exec ht hquiet
  rw [hcount, hserver] at heq
  exact absurd heq (by decide)

end Frontend
end YtShare
