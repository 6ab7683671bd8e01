/-
# From the wire to the page

What the page makes of an event that arrives as text: `onmessage` and `recoverViaHttp` of
`useNotificationsSocket` (`frontend/src/modules/notifications/hooks`), with all that
`handleEvent` sets going: the refs, the stored cursor, the toasts, the unread count and
the invalidated queries.  `as NotificationEvent` checks nothing; what the page does with
JSON of another type is left out (`none`).

The server writes that text (`Event.frame`, `sinceBody`).  An event is published with a
`VideoSharedPayload`; where it has been through the stream its payload is a map instead,
whose keys are written in another order.  The page is told the same either way
(`Delivery.ofJson`), over its socket or in an answer (`arrivals_eq`), and so what is shown
is what was published, to the character (`shows_published`).
-/

import YtShare.Frontend.SeenEvents
import YtShare.Frontend.SessionStorage
import YtShare.Frontend.UnreadBadge
import YtShare.Notifications.Frame

namespace YtShare
namespace Frontend

open Lib Notifications
open Lib.Json (Numbers field)

namespace MessageHook

/-! ### The types of the page -/

/-- `VideoSharedPayload` of `types/index.ts`. -/
structure VideoSharedPayload where
  videoId : String
  youtubeId : String
  title : String
  thumbnailUrl : String
  sharedById : String
  sharedByName : String

/-- `NotificationEvent` of `types/index.ts`. -/
structure NotificationEvent where
  id : String
  type : String
  timestamp : String
  recipientId : Option String
  payload : VideoSharedPayload

variable {ν : Type} (N : Numbers ν)

/-- A field that holds a string. -/
def stringField (key : String) (fields : List (Text × Lib.Json ν)) : Option String :=
  match field (codes key) fields with
  | some (.str s) => (chars s).map String.ofList
  | _ => none

/-- A payload, of a value that is one. -/
def VideoSharedPayload.ofJson : Lib.Json ν → Option VideoSharedPayload
  | .obj fields => do
      let videoId ← stringField "videoId" fields
      let youtubeId ← stringField "youtubeId" fields
      let title ← stringField "title" fields
      let thumbnailUrl ← stringField "thumbnailUrl" fields
      let sharedById ← stringField "sharedById" fields
      let sharedByName ← stringField "sharedByName" fields
      return ⟨videoId, youtubeId, title, thumbnailUrl, sharedById, sharedByName⟩
  | _ => none

/-- An event, of a value that is one. -/
def NotificationEvent.ofJson : Lib.Json ν → Option NotificationEvent
  | .obj fields => do
      let id ← stringField "id" fields
      let type ← stringField "type" fields
      let timestamp ← stringField "timestamp" fields
      let payload ← (field (codes "payload") fields).bind VideoSharedPayload.ofJson
      return ⟨id, type, timestamp, stringField "recipientId" fields, payload⟩
  | _ => none

end MessageHook

/-! ### The callbacks -/

/-- The refs of the hook, the cursor in `localStorage`, the toasts, the data under
`UNREAD_QUERY_KEY`, and how often the queries of the videos and of the feed were
invalidated. -/
structure MessageHook where
  refs : SeenEvents
  stored : Option String
  toasts : List MessageHook.VideoSharedPayload
  count : Option ℕ
  invalidated : ℕ

namespace MessageHook

variable {ν : Type} (N : Numbers ν)

/-- `handleEvent`, for the user of the session; `writes` says whether `setItem`
succeeds. -/
def handleEvent (userID : Option String) (s : MessageHook) (data : NotificationEvent)
    (writes : Bool) : MessageHook :=
  match s.refs.handleEvent data.id with
  | (false, refs) => { s with refs := refs }
  | (true, refs) =>
      let s := { s with refs := refs, stored := if writes then some data.id else s.stored }
      if data.type ≠ "video_shared" then s
      else if some data.payload.sharedById = userID then s
      else
        { s with
          toasts := s.toasts ++ [data.payload]
          count := some (min (s.count.getD 0 + 1) unreadMax)
          invalidated := s.invalidated + 1 }

/-- `onmessage`: text that is no JSON is malformed and changes nothing. -/
def onmessage (userID : Option String) (s : MessageHook) (data : Text) (writes : Bool) :
    Option MessageHook :=
  match Lib.Json.parse N data with
  | none => some s
  | some v => (NotificationEvent.ofJson v).map fun data => s.handleEvent userID data writes

/-- Some messages, one after the other. -/
def onmessages (userID : Option String) : MessageHook → List (Text × Bool) → Option MessageHook
  | s, [] => some s
  | s, (data, writes) :: messages =>
      (s.onmessage N userID data writes).bind fun s => onmessages userID s messages

/-- Some events, one after the other. -/
def handleEvents (userID : Option String) (s : MessageHook)
    (events : List (NotificationEvent × Bool)) : MessageHook :=
  events.foldl (fun s e => s.handleEvent userID e.1 e.2) s

/-- `recoverViaHttp`, with the body of the answer; `writes` says of each event whether
`setItem` succeeds. -/
def recovered (userID : Option String) (s : MessageHook) (body : Text) (writes : List Bool) :
    Option MessageHook :=
  match Lib.Json.parse N body with
  | some (.obj fields) =>
      match field (codes "events") fields with
      | some (.arr items) =>
          (items.mapM NotificationEvent.ofJson).map fun events =>
            s.handleEvents userID (events.zip writes)
      | _ => none
  | _ => none

end MessageHook

/-! ### The events of the server -/

namespace MessageHook

variable {ν : Type} {N : Numbers ν} {Raw : Type} {lib : JSONLibrary Raw}

/-- The payload of an event is that of a published one: the struct, or the map that
`Unmarshal` makes of its text. -/
def Carries (e : Event) (p : Notifications.VideoSharedPayload) : Prop :=
  e.payload = .videoShared p ∨ e.payload = .decoded (Payload.videoShared p).json.decode

/-- The payload as the page has it. -/
def told (p : Notifications.VideoSharedPayload) : VideoSharedPayload :=
  ⟨p.videoID.string, p.youTubeID, p.title, p.thumbnailURL, p.sharedByID.string, p.sharedByName⟩

variable (lib) in
/-- An event that was published, and the text in which it reaches a page. -/
structure Delivery where
  event : Event
  payload : Notifications.VideoSharedPayload
  text : List Char
  carries : Carries event payload
  framed : event.frame lib = some text

/-- **What was published is delivered**: an event in the stream is read there as one whose
text the page is told. -/
theorem exists_delivery {e : Event} {p : Notifications.VideoSharedPayload} {raw : Raw}
    (hpayload : e.payload = .videoShared p) (hraw : lib.events.marshal e = some raw) :
    ∃ d : Delivery lib, lib.events.unmarshal raw = some d.event ∧ d.event.id = e.id ∧
      d.payload = p := by
  have hcarries : Carries e.reread p := .inr (by rw [Event.reread, hpayload])
  obtain ⟨raw', hraw', -⟩ := JSONLibrary.same_marshal hraw
  obtain ⟨j, hj, -⟩ := Option.map_eq_some_iff.1 hraw'
  have hframe : e.reread.frame lib = some j.text := congrArg (Option.map Json.text) hj
  exact ⟨⟨e.reread, p, j.text, hcarries, hframe⟩, JSONLibrary.unmarshal_of_marshal hraw, rfl, rfl⟩

/-- The event as the page has it. -/
def Delivery.told (d : Delivery lib) : NotificationEvent :=
  ⟨d.event.id.string, d.event.type, (lib.rfc3339 d.event.timestamp).getD "",
    some d.event.recipientID.string, MessageHook.told d.payload⟩

/-! ### What arrives -/

/-- **What the server writes is what the page reads:** the text that `Marshal` makes of a
value is parsed by the page as this value, whatever strings and members stand in it. -/
theorem parse_text (N : Numbers ν) {j : Json} (h : j.Numeric) :
    Lib.Json.parse N (units j.text) = some (j.page N) :=
  (Json.reads_text h).parse_eq

/-- A title with a quotation mark, a backslash, the beginning of a tag, a line separator
and a character that is a surrogate pair, beside numbers and a key that is there twice. -/
theorem parse_text_title :
    Lib.Json.parse AuthState.literals
        (units (Json.text (.obj [("title", .str "\x22\x5c<b>\u2028\n😀"),
          ("n", .arr [.num "-1.5e3", .null]), ("title", .str "&")]))) =
      some (Json.page AuthState.literals (.obj [("title", .str "\x22\x5c<b>\u2028\n😀"),
        ("n", .arr [.num "-1.5e3", .null]), ("title", .str "&")])) := by
  refine parse_text AuthState.literals (.obj fun p hp => ?_)
  simp only [List.mem_cons, List.not_mem_nil, or_false] at hp
  rcases hp with rfl | rfl | rfl
  · exact .str _
  · refine .arr fun j hj => ?_
    simp only [List.mem_cons, List.not_mem_nil, or_false] at hj
    rcases hj with rfl | rfl
    · exact .num (by decide)
    · exact .null
  · exact .str _

/-- A text comes back from its UTF-16 code units. -/
theorem chars_units_string (s : String) : (chars (units s.toList)).map String.ofList = some s := by
  rw [chars_units, Option.map_some, String.ofList_toList]

/-- The payload is read, whichever way its keys stand, and it holds no number. -/
theorem Carries.ofJson {e : Event} {p : Notifications.VideoSharedPayload} (h : Carries e p) :
    VideoSharedPayload.ofJson (e.payload.json.page N) = some (MessageHook.told p) ∧
      e.payload.json.Numeric := by
  have hread : ∀ {fields : List (Text × Lib.Json ν)},
      field (codes "videoId") fields = some (.str (units p.videoID.string.toList)) →
      field (codes "youtubeId") fields = some (.str (units p.youTubeID.toList)) →
      field (codes "title") fields = some (.str (units p.title.toList)) →
      field (codes "thumbnailUrl") fields = some (.str (units p.thumbnailURL.toList)) →
      field (codes "sharedById") fields = some (.str (units p.sharedByID.string.toList)) →
      field (codes "sharedByName") fields = some (.str (units p.sharedByName.toList)) →
        VideoSharedPayload.ofJson (.obj fields) = some (MessageHook.told p) := by
    intro fields h₁ h₂ h₃ h₄ h₅ h₆
    simp only [VideoSharedPayload.ofJson, stringField, h₁, h₂, h₃, h₄, h₅, h₆, chars_units_string,
      Option.bind_eq_bind, Option.bind_some, Option.pure_def]
    rfl
  have hstrings : ∀ {k₁ k₂ k₃ k₄ k₅ k₆ s₁ s₂ s₃ s₄ s₅ s₆ : String},
      Json.Numeric (.obj [(k₁, .str s₁), (k₂, .str s₂), (k₃, .str s₃), (k₄, .str s₄),
        (k₅, .str s₅), (k₆, .str s₆)]) := by
    intro k₁ k₂ k₃ k₄ k₅ k₆ s₁ s₂ s₃ s₄ s₅ s₆
    refine .obj fun q hq => ?_
    simp only [List.mem_cons, List.not_mem_nil, or_false] at hq
    rcases hq with rfl | rfl | rfl | rfl | rfl | rfl
    all_goals exact .str _
  rcases h with h | h
  · rw [h]
    exact ⟨hread rfl rfl rfl rfl rfl rfl, hstrings⟩
  · rw [h]
    exact ⟨hread rfl rfl rfl rfl rfl rfl, hstrings⟩

/-- **A text that was written for an event is read as that event.** -/
theorem Delivery.ofJson (d : Delivery lib) :
    ∃ j, d.event.toJSON lib = some j ∧ d.text = Json.text j ∧ j.Numeric ∧
      NotificationEvent.ofJson (j.page N) = some d.told := by
  obtain ⟨j, hj, htext⟩ := Option.map_eq_some_iff.1 d.framed
  obtain ⟨t, ht, rfl⟩ := Option.map_eq_some_iff.1 hj
  obtain ⟨hpayload, hnumeric⟩ := d.carries.ofJson (N := N)
  refine ⟨_, hj, htext.symm, .obj fun q hq => ?_, ?_⟩
  · have hlen : isEmptyArray UUID.len = false := rfl
    simp only [hlen, Bool.false_eq_true, if_false, List.cons_append, List.nil_append,
      List.mem_cons, List.not_mem_nil, or_false] at hq
    rcases hq with rfl | rfl | rfl | rfl | rfl
    · exact .str _
    · exact .str _
    · exact .str _
    · exact .str _
    · exact hnumeric
  · have hread : ∀ {fields : List (Text × Lib.Json ν)},
        field (codes "id") fields = some (.str (units d.event.id.string.toList)) →
        field (codes "type") fields = some (.str (units d.event.type.toList)) →
        field (codes "timestamp") fields = some (.str (units t.toList)) →
        field (codes "recipientId") fields =
          some (.str (units d.event.recipientID.string.toList)) →
        field (codes "payload") fields = some (d.event.payload.json.page N) →
          NotificationEvent.ofJson (.obj fields) = some d.told := by
      intro fields h₁ h₂ h₃ h₄ h₅
      simp only [NotificationEvent.ofJson, stringField, h₁, h₂, h₃, h₄, h₅, chars_units_string,
        hpayload, Option.bind_eq_bind, Option.bind_some, Option.pure_def]
      rw [Delivery.told, ht]
      rfl
    exact hread rfl rfl rfl rfl rfl

/-- A message is handled as the event it was written for. -/
theorem onmessage_text (userID : Option String) (s : MessageHook) (d : Delivery lib)
    (writes : Bool) :
    s.onmessage N userID (units d.text) writes = some (s.handleEvent userID d.told writes) := by
  obtain ⟨j, -, htext, hnumeric, hread⟩ := d.ofJson (N := N)
  have hparse := (Json.reads_text (N := N) hnumeric).parse_eq
  rw [onmessage, htext, hparse]
  simp only
  rw [hread]
  rfl

/-- **The messages are handled as the events** they were written for. -/
theorem onmessages_texts (userID : Option String) (s : MessageHook)
    (ds : List (Delivery lib × Bool)) :
    s.onmessages N userID (ds.map fun d => (units d.1.text, d.2)) =
      some (s.handleEvents userID (ds.map fun d => (d.1.told, d.2))) := by
  induction ds generalizing s with
  | nil => rfl
  | cons d ds ih =>
    rw [List.map_cons, onmessages, onmessage_text, Option.bind_some, ih]
    rfl

/-- The events of an answer are read. -/
theorem mapM_ofJson (ds : List (Delivery lib)) :
    ∃ js, (ds.map Delivery.event).mapM (Event.toJSON lib) = some js ∧ (∀ j ∈ js, j.Numeric) ∧
      (js.map (Json.page N)).mapM NotificationEvent.ofJson = some (ds.map Delivery.told) := by
  induction ds with
  | nil => exact ⟨[], rfl, fun j hj => absurd hj List.not_mem_nil, rfl⟩
  | cons d ds ih =>
    obtain ⟨js, hjs, hnumeric, hread⟩ := ih
    obtain ⟨j, hj, -, hj', hd⟩ := d.ofJson (N := N)
    refine ⟨j :: js, ?_, List.forall_mem_cons.2 ⟨hj', hnumeric⟩, ?_⟩
    · rw [List.map_cons, List.mapM_cons, hj, hjs]
      rfl
    · rw [List.map_cons, List.mapM_cons, hd, hread]
      rfl

/-- **An answer of `since` is handled as the events** it was written for. -/
theorem recovered_text (userID : Option String) (s : MessageHook)
    (ds : List (Delivery lib × Bool)) :
    ∃ body, sinceBody lib (ds.map fun d => d.1.event) = some body ∧
      s.recovered N userID (units body) (ds.map Prod.snd) =
        some (s.handleEvents userID (ds.map fun d => (d.1.told, d.2))) := by
  obtain ⟨js, hjs, hnumeric, hread⟩ := mapM_ofJson (N := N) (ds.map Prod.fst)
  rw [List.map_map] at hjs hread
  have hevents : Json.Numeric (.obj [("events", .arr js)]) := by
    refine .obj fun p hp => ?_
    rw [List.mem_singleton.1 hp]
    exact .arr hnumeric
  have hline : ∀ c ∈ units ['\n'], Lib.Json.blank c = true := List.forall_mem_singleton.2 rfl
  have hparse := (Json.reads_text (N := N) hevents).parse_append _ hline
  have hpage : Json.page N (.obj [("events", .arr js)]) =
      .obj (Lib.Json.ofMembers [(units "events".toList, .arr (js.map (Json.page N)))]) := by
    rw [Json.page, Json.pageMembers, Json.pageMembers, Json.page, Json.pageItems_eq]
  have hfield : field (codes "events")
      (Lib.Json.ofMembers [(units "events".toList, .arr (js.map (Json.page N)))]) =
        some (.arr (js.map (Json.page N))) := rfl
  have hzip : (ds.map (Delivery.told ∘ Prod.fst)).zip (ds.map Prod.snd) =
      ds.map fun d => (d.1.told, d.2) := List.zip_map'
  refine ⟨_, congrArg (Option.map _) hjs, ?_⟩
  rw [recovered, units_append, hparse, hpage]
  simp only [hfield]
  rw [hread, Option.map_some, hzip]

/-! ### What is shown -/

/-- What comes to a page: a message of its socket, or the answer to a recovery. -/
inductive Arrival (lib : JSONLibrary Raw)
  | message (d : Delivery lib) (writes : Bool)
  | answer (ds : List (Delivery lib × Bool))

/-- The events in it. -/
def Arrival.deliveries : Arrival lib → List (Delivery lib × Bool)
  | .message d writes => [(d, writes)]
  | .answer ds => ds

variable (N) in
/-- The page takes it in. -/
def arrive (userID : Option String) (s : MessageHook) : Arrival lib → Option MessageHook
  | .message d writes => s.onmessage N userID (units d.text) writes
  | .answer ds =>
      (sinceBody lib (ds.map fun d => d.1.event)).bind fun body =>
        s.recovered N userID (units body) (ds.map Prod.snd)

variable (N) in
/-- Messages and answers, in any order. -/
def arrivals (userID : Option String) : MessageHook → List (Arrival lib) → Option MessageHook
  | s, [] => some s
  | s, a :: as => (s.arrive N userID a).bind fun s => arrivals userID s as

/-- The events of some arrivals, as the page has them. -/
def toldBy (as : List (Arrival lib)) : List (NotificationEvent × Bool) :=
  (as.flatMap Arrival.deliveries).map fun d => (d.1.told, d.2)

/-- **Both ways lead to the same**: the page handles the events, one after the other. -/
theorem arrivals_eq (userID : Option String) (s : MessageHook) (as : List (Arrival lib)) :
    s.arrivals N userID as = some (s.handleEvents userID (toldBy as)) := by
  induction as generalizing s with
  | nil => rfl
  | cons a as ih =>
    have harrive : s.arrive N userID a =
        some (s.handleEvents userID (a.deliveries.map fun d => (d.1.told, d.2))) := by
      cases a with
      | message d writes => exact onmessage_text userID s d writes
      | answer ds =>
        obtain ⟨body, hbody, hrecovered⟩ := recovered_text (N := N) userID s ds
        rw [arrive, hbody, Option.bind_some, hrecovered]
        rfl
    rw [arrivals, harrive, Option.bind_some, ih, toldBy, toldBy, List.flatMap_cons,
      List.map_append, handleEvents, handleEvents, handleEvents, List.foldl_append]

/-- The events that are new to a page which has accepted these ids: their ids are none
of the last 256. -/
def fresh : List UUID → List (Delivery lib) → List (Delivery lib)
  | _, [] => []
  | h, d :: ds =>
      if d.event.id ∈ h.rtake seenEventCap then fresh h ds
      else d :: fresh (h ++ [d.event.id]) ds

/-- A share of somebody else. -/
def Delivery.isShown (userID : Option String) (d : Delivery lib) : Bool :=
  decide (d.event.type = eventVideoShared ∧ some d.payload.sharedByID.string ≠ userID)

/-- The count after so many more shares. -/
def unread (count : Option ℕ) (n : ℕ) : Option ℕ :=
  if n = 0 then count else some (min (count.getD 0 + n) unreadMax)

/-- What a page shows after these events were new to it. -/
structure Shown (userID : Option String) (s s' : MessageHook) (new : List (Delivery lib)) :
    Prop where
  toasts : s'.toasts =
    s.toasts ++ (new.filter (Delivery.isShown userID)).map fun d => MessageHook.told d.payload
  count : s'.count = unread s.count (new.filter (Delivery.isShown userID)).length
  invalidated : s'.invalidated = s.invalidated + (new.filter (Delivery.isShown userID)).length

/-- The page has accepted these ids, and the refs are those of it. -/
def Heard (s : MessageHook) (h : List UUID) : Prop :=
  SeenEvents.Receiver.Inv ⟨s.refs, s.stored, h.map UUID.string⟩

/-- Adding `m` and then `n` to the count adds both. -/
theorem unread_unread (count : Option ℕ) (m n : ℕ) :
    unread (unread count m) n = unread count (m + n) := by
  unfold unread
  by_cases hm : m = 0
  · rw [if_pos hm, hm, Nat.zero_add]
  · by_cases hn : n = 0
    · rw [if_pos hn, hn, Nat.add_zero]
    · rw [if_neg hm, if_neg hn, if_neg (by omega), Option.getD_some]
      congr 1
      omega

namespace Shown

variable {userID : Option String} {s s' s'' : MessageHook} {new new' : List (Delivery lib)}

/-- Where nothing new arrives the page stays as it is. -/
theorem refl (s : MessageHook) : Shown userID s s ([] : List (Delivery lib)) :=
  ⟨(List.append_nil _).symm, rfl, rfl⟩

/-- What arrives first is shown, and then what arrives later. -/
theorem trans (h : Shown userID s s' new) (h' : Shown userID s' s'' new') :
    Shown userID s s'' (new ++ new') := by
  refine ⟨?_, ?_, ?_⟩
  · rw [h'.toasts, h.toasts, List.filter_append, List.map_append, List.append_assoc]
  · rw [h'.count, h.count, unread_unread, List.filter_append, List.length_append]
  · rw [h'.invalidated, h.invalidated, List.filter_append, List.length_append, Nat.add_assoc]

end Shown

namespace Heard

variable {s : MessageHook} {h : List UUID} {d : Delivery lib}

/-- An id is known when it is one of the last 256. -/
theorem mem_seenIds (hi : Heard s h) (id : UUID) :
    id.string ∈ s.refs.seenIds ↔ id ∈ h.rtake seenEventCap := by
  rw [SeenEvents.Receiver.Inv.mem_seenIds hi, List.rtake, List.rtake, List.length_map,
    ← List.map_drop, List.mem_map_of_injective SeenEvents.string_injective]

/-- An event that is not new changes nothing. -/
theorem handleEvent_of_known (hi : Heard s h) (hknown : d.event.id ∈ h.rtake seenEventCap)
    (userID : Option String) (writes : Bool) : s.handleEvent userID d.told writes = s := by
  have hskip := (SeenEvents.Receiver.handleEvent_of_known
    (r := ⟨s.refs, s.stored, []⟩) (.inr ((hi.mem_seenIds _).2 hknown)) writes).1
  rw [MessageHook.handleEvent, show d.told.id = d.event.id.string from rfl, hskip]

/-- **A new event** is accepted, and shown when it is a share of somebody else. -/
theorem handleEvent_of_new (hi : Heard s h) (hnew : d.event.id ∉ h.rtake seenEventCap)
    (userID : Option String) (writes : Bool) :
    Heard (s.handleEvent userID d.told writes) (h ++ [d.event.id]) ∧
      Shown userID s (s.handleEvent userID d.told writes) [d] := by
  have hid : d.told.id = d.event.id.string := rfl
  obtain ⟨hgo, hinv, -⟩ := SeenEvents.Receiver.Inv.handleEvent_of_new hi
    (SeenEvents.string_ne_empty d.event.id) (mt (hi.mem_seenIds _).1 hnew) writes
  rcases hrefs : s.refs.handleEvent d.event.id.string with ⟨accepted, refs⟩
  rw [hrefs] at hgo
  obtain rfl : accepted = true := hgo
  rw [SeenEvents.Receiver.handleEvent] at hinv
  simp only [hrefs] at hinv
  have hheard : ∀ s' : MessageHook, s'.refs = refs →
      s'.stored = (if writes then some d.event.id.string else s.stored) →
        Heard s' (h ++ [d.event.id]) := by
    intro s' hr hs
    rw [Heard, hr, hs, List.map_append]
    exact hinv
  rw [MessageHook.handleEvent, hid, hrefs]
  simp only
  by_cases htype : d.told.type ≠ "video_shared"
  · have hnot : d.isShown userID = false := decide_eq_false fun hd => htype hd.1
    rw [if_pos htype]
    exact ⟨hheard _ rfl rfl, by simp [hnot], by simp [hnot, unread], by simp [hnot]⟩
  · rw [if_neg htype]
    by_cases hown : some d.told.payload.sharedById = userID
    · have hnot : d.isShown userID = false := decide_eq_false fun hd => hd.2 hown
      rw [if_pos hown]
      exact ⟨hheard _ rfl rfl, by simp [hnot], by simp [hnot, unread], by simp [hnot]⟩
    · have hshown : d.isShown userID = true := decide_eq_true ⟨not_not.1 htype, hown⟩
      have hpayload : d.told.payload = MessageHook.told d.payload := rfl
      rw [if_neg hown]
      exact ⟨hheard _ rfl rfl, by simp [hshown, hpayload], by simp [hshown, unread],
        by simp [hshown]⟩

/-- **The run lemma.** -/
theorem handleEvents (hi : Heard s h) (userID : Option String) (ds : List (Delivery lib × Bool)) :
    Heard (s.handleEvents userID (ds.map fun d => (d.1.told, d.2)))
        (h ++ (fresh h (ds.map Prod.fst)).map fun d => d.event.id) ∧
      Shown userID s (s.handleEvents userID (ds.map fun d => (d.1.told, d.2)))
        (fresh h (ds.map Prod.fst)) := by
  induction ds generalizing s h with
  | nil =>
    rw [List.map_nil, List.map_nil, fresh, List.map_nil, List.append_nil]
    exact ⟨hi, .refl s⟩
  | cons d ds ih =>
    rw [List.map_cons, List.map_cons, fresh, MessageHook.handleEvents, List.foldl_cons]
    split_ifs with hknown
    · rw [hi.handleEvent_of_known hknown]
      exact ih hi
    · obtain ⟨hheard, hshown⟩ := hi.handleEvent_of_new hknown userID d.2
      obtain ⟨hheard', hshown'⟩ := ih hheard
      rw [List.append_assoc] at hheard'
      exact ⟨hheard', hshown.trans hshown'⟩

end Heard

/-- A page that is loaded. -/
def load (stored : Option String) (count : Option ℕ) : MessageHook :=
  ⟨.load stored, stored, [], count, 0⟩

/-- A page that was loaded has heard nothing. -/
theorem heard_load (stored : Option String) (count : Option ℕ) : Heard (load stored count) [] :=
  SeenEvents.Receiver.inv_load stored

/-- **What is shown is what was published.**  Whatever a page is sent, over its socket and
in answers, and whatever characters stand in it, nothing is malformed; the page accepts
the events whose ids are none of the last 256 it accepted, shows the shares of others
among them with their titles, names and links as they were published, and counts each of
these once, to 99. -/
theorem shows_published (userID : Option String) (stored : Option String) (count : Option ℕ)
    (as : List (Arrival lib)) :
    ∃ s', (load stored count).arrivals N userID as = some s' ∧
      Heard s' ((fresh [] ((as.flatMap Arrival.deliveries).map Prod.fst)).map fun d =>
        d.event.id) ∧
      Shown userID (load stored count) s'
        (fresh [] ((as.flatMap Arrival.deliveries).map Prod.fst)) := by
  obtain ⟨hheard, hshown⟩ := (heard_load stored count).handleEvents userID
    (as.flatMap Arrival.deliveries)
  rw [List.nil_append] at hheard
  exact ⟨_, arrivals_eq userID _ as, hheard, hshown⟩

/-! ### On identifiers -/

/-- The event as the badge has it. -/
def Delivery.badgeEvent (d : Delivery lib) : Frontend.NotificationEvent :=
  ⟨d.event.id, d.event.type, d.payload⟩

/-- What happens to the refs and the count is what the badge says it is. -/
theorem shows_handleEvent {s : MessageHook} {p : NotificationsSocket} (h : s.refs.Shows p)
    (user : UUID) (d : Delivery lib) (writes : Bool) :
    (s.handleEvent (some user.string) d.told writes).refs.Shows
        (Frontend.handleEvent user p s.count d.badgeEvent).1 ∧
      (s.handleEvent (some user.string) d.told writes).count =
        (Frontend.handleEvent user p s.count d.badgeEvent).2 := by
  obtain ⟨hflag, hrefs⟩ := h.rememberSeen d.event.id
  have hid : d.told.id = d.event.id.string := rfl
  have hid' : d.badgeEvent.id = d.event.id := rfl
  have hown : some d.told.payload.sharedById = some user.string ↔
      d.badgeEvent.payload.sharedByID = user := by
    rw [Option.some_inj]
    exact SeenEvents.string_injective.eq_iff
  have htype : d.told.type = d.badgeEvent.type := rfl
  unfold MessageHook.handleEvent Frontend.handleEvent
  rw [hid, hid', SeenEvents.handleEvent, if_neg (SeenEvents.string_ne_empty _)]
  rcases hs : s.refs.rememberSeen d.event.id.string with ⟨_ | _, refs⟩ <;>
    rcases hp : p.rememberSeen d.event.id with ⟨_ | _, p'⟩ <;>
    rw [hs, hp] at hflag hrefs
  · exact ⟨hrefs, rfl⟩
  · cases hflag
  · cases hflag
  · simp only
    have hcursor : SeenEvents.Shows { refs with lastEventId := d.event.id.string }
        { p' with lastEventId := some d.event.id, handled := p'.handled ++ [d.event.id] } :=
      ⟨hrefs.seenIds, hrefs.seenOrder, rfl⟩
    by_cases hshare : d.badgeEvent.type ≠ eventVideoShared
    · rw [if_pos hshare, if_pos (htype ▸ hshare)]
      exact ⟨hcursor, rfl⟩
    · rw [if_neg hshare, if_neg (htype ▸ hshare)]
      by_cases ho : d.badgeEvent.payload.sharedByID = user
      · rw [if_pos ho, if_pos (hown.2 ho)]
        exact ⟨hcursor, rfl⟩
      · rw [if_neg ho, if_neg (mt hown.1 ho)]
        exact ⟨hcursor, rfl⟩

/-- The events of some arrivals, as the badge has them. -/
def badgeEvents (as : List (Arrival lib)) : List Frontend.NotificationEvent :=
  (as.flatMap Arrival.deliveries).map fun d => d.1.badgeEvent

/-- **The badge of the page that reads texts is the badge of the page that is handed
events**: the refs and the count go on together, whatever arrives. -/
theorem refines_badge (user : UUID) (lastEventId : Option UUID) (handled : List UUID)
    (count : Option ℕ) (as : List (Arrival lib)) :
    ∃ s', (load (lastEventId.map UUID.string) count).arrivals N (some user.string) as = some s' ∧
      s'.refs.Shows ((badgeEvents as).foldl
        (fun q data => Frontend.handleEvent user q.1 q.2 data)
        (NotificationsSocket.load lastEventId handled, count)).1 ∧
      s'.count = ((badgeEvents as).foldl
        (fun q data => Frontend.handleEvent user q.1 q.2 data)
        (NotificationsSocket.load lastEventId handled, count)).2 := by
  refine ⟨_, arrivals_eq _ _ as, ?_⟩
  rw [toldBy, badgeEvents]
  generalize as.flatMap Arrival.deliveries = ds
  have hrun : ∀ (s : MessageHook) (p : NotificationsSocket), s.refs.Shows p →
      (s.handleEvents (some user.string) (ds.map fun d => (d.1.told, d.2))).refs.Shows
          ((ds.map fun d => d.1.badgeEvent).foldl
            (fun q data => Frontend.handleEvent user q.1 q.2 data) (p, s.count)).1 ∧
        (s.handleEvents (some user.string) (ds.map fun d => (d.1.told, d.2))).count =
          ((ds.map fun d => d.1.badgeEvent).foldl
            (fun q data => Frontend.handleEvent user q.1 q.2 data) (p, s.count)).2 := by
    induction ds with
    | nil => exact fun s p h => ⟨h, rfl⟩
    | cons d ds ih =>
      intro s p h
      obtain ⟨hrefs, hcount⟩ := shows_handleEvent h user d.1 d.2
      have hrest := ih _ _ hrefs
      rw [hcount] at hrest
      exact hrest
  exact hrun _ _ (SeenEvents.shows_load lastEventId handled)

end MessageHook

end Frontend
end YtShare
