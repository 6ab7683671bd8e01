/-
# Share is all or nothing

`Share` asks the outside for four things, one after the other, before it changes
anything: the id, the lookup, the sharer and the insert.  Where one of them
fails, the call has left no trace.  Where none does, the row is there, and what
is left to do, the deletion of the cached list and the submission of the job,
fails nothing any more.

The row, the answer and the event are built apart from each other;
`share_all_or_nothing` says that they agree.
-/

import YtShare.Videos.Service
import YtShare.Videos.YouTube

namespace YtShare
namespace Videos

open Users Notifications Service

/-! ### What belongs together -/

/-- The row is one that this user shares. -/
structure RowOf (sharer : User) (row : Video) : Prop where
  youTubeID : idPattern (utf8 row.youTubeID) = true
  url : row.url = watchURL row.youTubeID
  thumbnail : row.thumbnailURL = thumbnailURL row.youTubeID
  title_ne : row.title ≠ ""
  title_trimmed : Trimmed row.title
  sharedByID : row.sharedByID = sharer.id

/-- The answer describes the row. -/
structure ViewOf (sharer : User) (row : Video) (view : VideoView) : Prop where
  id : view.id = row.id
  youTubeID : view.youTubeID = row.youTubeID
  url : view.url = row.url
  title : view.title = row.title
  description : view.description = row.description
  thumbnailURL : view.thumbnailURL = row.thumbnailURL
  sharedAt : view.sharedAt = row.createdAt
  sharedBy : view.sharedBy = ⟨sharer.id, sharer.name, sharer.email⟩

/-- The event of the job tells of the row. -/
structure EventOf (sharer : User) (row : Video) (event : VideoSharedPayload) : Prop where
  videoID : event.videoID = row.id
  youTubeID : event.youTubeID = row.youTubeID
  title : event.title = row.title
  thumbnailURL : event.thumbnailURL = row.thumbnailURL
  sharedByID : event.sharedByID = sharer.id
  sharedByName : event.sharedByName = sharer.name

/-! ### The steps -/

/-- The id that is found has the shape of one. -/
theorem idPattern_extract {raw youTubeID : String} (h : extract raw = some youTubeID) :
    idPattern (utf8 youTubeID) = true := by
  rw [extract] at h
  split at h
  · next id hid =>
    have hshape := extractYouTubeID_shape hid
    rw [← Option.some.inj h, utf8_ofASCII_id hshape]
    exact hshape
  · cases h

/-- The sharer that was loaded is a user with the id of the request. -/
theorem loadSharer_eq_ok {s : Store} {fails : Bool} {sharerID : UUID} {sharer : User}
    (h : loadSharer s fails sharerID = .ok sharer) : sharer ∈ s.users ∧ sharer.id = sharerID := by
  rw [loadSharer] at h
  split_ifs at h
  split at h
  · cases h
  · next u hu =>
    cases h
    exact ⟨List.mem_of_find?_eq_some hu, by simpa using List.find?_some hu⟩

/-- A row that was inserted is the stamped one, at the end of the table. -/
theorem insert_eq_ok {s store : Store} {fails : Bool} {newID : UUID} {now : Time} {v row : Video}
    (h : insert s fails newID now v = .ok (store, row)) :
    row = Store.stamp newID now v ∧ store = { s with videos := s.videos ++ [row] } := by
  rw [Service.insert] at h
  split_ifs at h
  split at h
  · cases h
  · next created hcreated =>
    cases h
    exact (Store.create_eq_some hcreated).2

/-- **What a call of `Share` does**: it fails and leaves everything as it was, or
each of its steps succeeds. -/
theorem share_spec {find : String → Option String} {env : ShareEnv} {b b' : Backend}
    {sharerID : UUID} {req : ShareRequest} {result : Except ShareError VideoView}
    (h : share find env b sharerID req = (b', result)) :
    (b' = b ∧ ∃ e, result = .error e) ∨
      ∃ youTubeID sharer store row, find req.url = some youTubeID ∧
        loadSharer b.store env.sharerFails sharerID = .ok sharer ∧
        insert b.store env.createFails env.newID env.now (newVideo youTubeID sharer req) =
          .ok (store, row) ∧
        b' = submit (invalidate { b with store := store } env.deleteFails) row ∧
        result = .ok (toView row) := by
  rw [share] at h
  split at h
  · exact .inl ⟨(Prod.mk.inj h).1.symm, _, (Prod.mk.inj h).2.symm⟩
  · next youTubeID hid =>
    split at h
    · exact .inl ⟨(Prod.mk.inj h).1.symm, _, (Prod.mk.inj h).2.symm⟩
    · split at h
      · exact .inl ⟨(Prod.mk.inj h).1.symm, _, (Prod.mk.inj h).2.symm⟩
      · next sharer hsharer =>
        split at h
        · exact .inl ⟨(Prod.mk.inj h).1.symm, _, (Prod.mk.inj h).2.symm⟩
        · next store row hrow =>
          exact .inr ⟨youTubeID, sharer, store, row, hid, hsharer, hrow,
            (Prod.mk.inj h).1.symm, (Prod.mk.inj h).2.symm⟩

/-! ### The row -/

/-- There is no white space in an id. -/
theorem not_isSpace_of_idByte : ∀ c : UInt8, idByte c = true →
    isSpace (Char.ofNat c.toNat) = false :=
  URL.forall_byte (by decide +kernel)

/-- The title of a video that was shared without one. -/
theorem trimmed_default {raw youTubeID : String} (h : extract raw = some youTubeID) :
    Trimmed ("YouTube video " ++ youTubeID) := by
  rw [extract] at h
  split at h
  · next id hid =>
    have hshape := extractYouTubeID_shape hid
    have hne : id ≠ [] := by
      intro hnil
      have hlen := length_of_idPattern hshape
      rw [hnil] at hlen
      cases hlen
    cases h
    have hlist : ("YouTube video " ++ ofASCII id).toList =
        "YouTube video ".toList ++ id.map fun b => Char.ofNat b.toNat := by
      have hchars : (ofASCII id).toList = id.map fun b => Char.ofNat b.toNat :=
        String.toList_ofList
      rw [String.toList_append, hchars]
    rw [Trimmed, hlist]
    refine ⟨fun c hc => ?_, fun c hc => ?_⟩
    · rw [List.head?_append_of_ne_nil _ (by decide)] at hc
      cases hc
      decide
    · rw [List.getLast?_append_of_ne_nil _ (by simpa using hne), List.getLast?_map] at hc
      obtain ⟨b, hb, rfl⟩ := Option.mem_map.1 hc
      exact not_isSpace_of_idByte b (idByte_of_idPattern hshape b (List.mem_of_mem_getLast? hb))
  · cases h

/-- **The row that is built is one that the sharer shares.** -/
theorem rowOf_newVideo {raw youTubeID : String} (h : extract raw = some youTubeID) (sharer : User)
    (req : ShareRequest) (newID : UUID) (now : Time) :
    RowOf sharer (Store.stamp newID now (newVideo youTubeID sharer req)) := by
  have htitle : (Store.stamp newID now (newVideo youTubeID sharer req)).title =
      if trimSpace req.title = "" then "YouTube video " ++ youTubeID else trimSpace req.title := by
    simp only [Store.stamp, newVideo]
  refine ⟨idPattern_extract h, rfl, rfl, ?_, ?_, rfl⟩
  · rw [htitle]
    split_ifs with hblank
    · intro hnil
      have hlist := congrArg String.toList hnil
      rw [String.toList_append] at hlist
      cases hlist
    · exact hblank
  · rw [htitle]
    split_ifs with hblank
    · exact trimmed_default h
    · exact trimmed_trimSpace req.title

/-- The answer about a row of the sharer describes it. -/
theorem viewOf_toView {sharer : User} {row : Video} (h : row.sharedBy = sharer) :
    ViewOf sharer row (toView row) := by
  subst h
  exact ⟨rfl, rfl, rfl, rfl, rfl, rfl, rfl, rfl⟩

/-- The event of a row of the sharer tells of it. -/
theorem eventOf_payload {sharer : User} {row : Video} (h : row.sharedBy = sharer) :
    EventOf sharer row (payload row) := by
  subst h
  exact ⟨rfl, rfl, rfl, rfl, rfl, rfl⟩

/-- **Share is all or nothing.**  Where it returns an error, there is no new row,
the cached list is as it was and no job was submitted.  Where it succeeds, one
row was added that the caller shares, the answer describes it, and one job was
submitted whose event tells of it, whether the deletion of the cached list
failed or not. -/
theorem share_all_or_nothing (env : ShareEnv) (b : Backend) (sharerID : UUID)
    (req : ShareRequest) :
    (∀ b' e, share extract env b sharerID req = (b', .error e) →
        b'.store = b.store ∧ b'.cache = b.cache ∧ b'.jobs = b.jobs) ∧
      ∀ b' view, share extract env b sharerID req = (b', .ok view) →
        ∃ sharer ∈ b.store.users, sharer.id = sharerID ∧
          ∃ row event, b'.store.videos = b.store.videos ++ [row] ∧
            b'.store.users = b.store.users ∧ b'.jobs = b.jobs ++ [event] ∧
            RowOf sharer row ∧ ViewOf sharer row view ∧ EventOf sharer row event := by
  constructor
  · intro b' e h
    rcases share_spec h with ⟨rfl, -⟩ | ⟨youTubeID, sharer, store, row, -, -, -, -, hok⟩
    · exact ⟨rfl, rfl, rfl⟩
    · cases hok
  · intro b' view h
    rcases share_spec h with ⟨-, e, herror⟩ |
      ⟨youTubeID, sharer, store, row, hid, hsharer, hrow, rfl, hview⟩
    · cases herror
    · obtain ⟨hmem, hsharerID⟩ := loadSharer_eq_ok hsharer
      obtain ⟨hstamp, rfl⟩ := insert_eq_ok hrow
      cases hview
      have hsharedBy : row.sharedBy = sharer := by
        rw [hstamp]
        rfl
      refine ⟨sharer, hmem, hsharerID, row, payload row, ?_, ?_, ?_, ?_, viewOf_toView hsharedBy,
        eventOf_payload hsharedBy⟩
      · rw [submit, invalidate]
        split_ifs <;> rfl
      · rw [submit, invalidate]
        split_ifs <;> rfl
      · rw [submit, invalidate]
        split_ifs <;> rfl
      · exact hstamp ▸ rowOf_newVideo hid sharer req _ _

end Videos
end YtShare
