/-
# What the database takes of a share

`migrations/000001_init.up.sql` bounds the columns of the table `videos`, makes
`id` its primary key and `youtube_id` a unique index, and lets `shared_by_id`
refer to a user.  A text of PostgreSQL holds no NUL.  The code checks some of this
itself, elsewhere and in other words: the validator counts the characters of the
title as it comes, the links are built around an id that was parsed, and the
sharer was loaded two steps before, in a table that other requests have written
since.

`share_insert_iff` says what is left for the database to refuse when a share comes
to its insert: a video that is there already, an id that is taken, and a NUL.
-/

import YtShare.Api.Journal

namespace YtShare
namespace Api

open Auth Notifications Users Videos

/-- The table `videos` takes the row. -/
structure Takes (users : List Account) (videos : List Video) (row : Video) : Prop where
  primaryKey : ∀ w ∈ videos, w.id ≠ row.id
  youTubeID : row.youTubeID.length ≤ 32 ∧ ∀ w ∈ videos, w.youTubeID ≠ row.youTubeID
  url : row.url.length ≤ 512
  title : row.title.length ≤ 255
  thumbnailURL : row.thumbnailURL.length ≤ 512
  sharedByID : ∃ u ∈ users, u.id = row.sharedByID
  noNUL : ∀ s ∈ [row.youTubeID, row.url, row.title, row.description, row.thumbnailURL],
    '\x00' ∉ s.toList

/-! ### The texts of a row -/

/-- There is no NUL in a YouTube id. -/
theorem idByte_ne_nul : ∀ c : UInt8, idByte c = true → Char.ofNat c.toNat ≠ '\x00' :=
  URL.forall_byte (by decide +kernel)

/-- An id has eleven characters, and none of them is a NUL. -/
theorem id_of_extract {raw youTubeID : String} (h : extract raw = some youTubeID) :
    youTubeID.length = 11 ∧ '\x00' ∉ youTubeID.toList := by
  rw [extract] at h
  split at h
  · next id hid =>
    have hshape := extractYouTubeID_shape hid
    have hchars : (ofASCII id).toList = id.map fun b => Char.ofNat b.toNat := String.toList_ofList
    rw [← Option.some.inj h]
    constructor
    · rw [← String.length_toList, hchars, List.length_map]
      exact length_of_idPattern hshape
    · rw [hchars]
      intro hnul
      obtain ⟨b, hb, hzero⟩ := List.mem_map.1 hnul
      exact idByte_ne_nul b (idByte_of_idPattern hshape b hb) hzero
  · cases h

/-- What is no white space is not trimmed. -/
theorem mem_dropWhile_isSpace {c : Char} (hc : isSpace c = false) (cs : List Char) :
    c ∈ cs.dropWhile isSpace ↔ c ∈ cs := by
  have hsplit := List.takeWhile_append_dropWhile (p := isSpace) (l := cs)
  constructor
  · exact fun h => (List.dropWhile_sublist isSpace).subset h
  · intro h
    rw [← hsplit] at h
    rcases List.mem_append.1 h with h | h
    · exact absurd (List.mem_takeWhile_imp h) (by rw [hc]; exact Bool.false_ne_true)
    · exact h

/-- Trimming takes no NUL away, as it is no white space. -/
theorem nul_mem_trimSpace (s : String) : '\x00' ∈ (trimSpace s).toList ↔ '\x00' ∈ s.toList := by
  rw [trimSpace, String.toList_ofList, List.mem_reverse, mem_dropWhile_isSpace (by decide),
    List.mem_reverse, mem_dropWhile_isSpace (by decide)]

/-- A link that is built around an id. -/
theorem link_of_id {youTubeID : String} (hlength : youTubeID.length = 11)
    (hnul : '\x00' ∉ youTubeID.toList) (before after : String)
    (hwidth : before.length + 11 + after.length ≤ 512)
    (hplain : '\x00' ∉ before.toList ∧ '\x00' ∉ after.toList) :
    (before ++ youTubeID ++ after).length ≤ 512 ∧
      '\x00' ∉ (before ++ youTubeID ++ after).toList := by
  rw [String.length_append, String.length_append, String.toList_append, String.toList_append,
    List.mem_append, List.mem_append, hlength]
  exact ⟨hwidth, fun h => h.elim (fun h => h.elim hplain.1 hnul) hplain.2⟩

/-- The title of a row is as long as its column is wide. -/
theorem length_title {youTubeID : String} (hid : youTubeID.length = 11) (sharer : User)
    {req : ShareRequest} (hreq : req.title.length ≤ 255) :
    (Videos.Service.newVideo youTubeID sharer req).title.length ≤ 255 := by
  simp only [Videos.Service.newVideo]
  split_ifs
  · rw [String.length_append, hid]
    decide
  · exact (length_trimSpace_le req.title).trans hreq

/-- The title that a video gets when it is shared without one has no NUL. -/
theorem nul_mem_title {youTubeID : String} (hid : '\x00' ∉ youTubeID.toList) (sharer : User)
    (req : ShareRequest) :
    '\x00' ∈ (Videos.Service.newVideo youTubeID sharer req).title.toList ↔
      '\x00' ∈ req.title.toList := by
  rw [← nul_mem_trimSpace req.title]
  simp only [Videos.Service.newVideo]
  split_ifs with hblank
  · rw [hblank, String.toList_append, List.mem_append]
    exact iff_of_false (fun h => h.elim (by decide) hid) (by decide)
  · rfl

/-- **What the table takes of the row of a share.** -/
theorem takes_newVideo {users : List Account} {videos : List Video} {youTubeID : String}
    {sharer : User} {req : ShareRequest} (newID : UUID) (created : Time)
    (hid : extract req.url = some youTubeID) (hreq : req.title.length ≤ 255)
    (hsharer : ∃ u ∈ users, u.id = sharer.id) :
    Takes users videos (Store.stamp newID created (Videos.Service.newVideo youTubeID sharer req)) ↔
      (∀ w ∈ videos, w.id ≠ newID) ∧ (∀ w ∈ videos, w.youTubeID ≠ youTubeID) ∧
        '\x00' ∉ req.title.toList ∧ '\x00' ∉ req.description.toList := by
  obtain ⟨hlength, hnul⟩ := id_of_extract hid
  have hwatch := link_of_id hlength hnul "https://www.youtube.com/watch?v=" ""
    (by decide) (by decide)
  rw [String.append_empty] at hwatch
  have hthumbnail := link_of_id hlength hnul "https://img.youtube.com/vi/" "/hqdefault.jpg"
    (by decide) (by decide)
  have htitle := nul_mem_title hnul sharer req
  have hdescription := nul_mem_trimSpace req.description
  constructor
  · intro h
    refine ⟨h.primaryKey, h.youTubeID.2, fun ht => ?_, fun hd => ?_⟩
    · exact h.noNUL _ (.tail _ (.tail _ (.head _))) (htitle.2 ht)
    · exact h.noNUL _ (.tail _ (.tail _ (.tail _ (.head _)))) (hdescription.2 hd)
  · rintro ⟨hfresh, hnew, ht, hd⟩
    refine ⟨hfresh, ⟨hlength ▸ by decide, hnew⟩, hwatch.1, length_title hlength sharer hreq,
      hthumbnail.1, hsharer, fun s hs => ?_⟩
    simp only [List.mem_cons, List.not_mem_nil, or_false] at hs
    rcases hs with rfl | rfl | rfl | rfl | rfl
    · exact hnul
    · exact hwatch.2
    · exact fun h => ht (htitle.1 h)
    · exact fun h => hd (hdescription.1 h)
    · exact hthumbnail.2

/-! ### The sharer -/

variable {deps : Deps} {lower : String → String} {s t : State lower}

/-- A user stays. -/
theorem ids_written (w : Option Write) (tables : List Account × List Video) {u : Account}
    (hu : u ∈ tables.1) : ∃ u' ∈ (written w tables).1, u'.id = u.id := by
  obtain ⟨users, videos⟩ := tables
  cases w with
  | none => exact ⟨u, hu, rfl⟩
  | some w =>
    cases w with
    | account row => exact ⟨u, List.mem_append_left _ hu, rfl⟩
    | video row => exact ⟨u, hu, rfl⟩
    | seen userID now =>
      exact ⟨Table.mark userID now u, List.mem_map_of_mem hu, Table.mark_id userID now u⟩

/-- A share that comes to its insert. -/
def Inserts (x : Exchange) (v : Video) : Prop :=
  ∃ userID req, x.pc = .running (.videos (.share userID req (.create v)))

/-- The sharer of a video that comes to its insert is there. -/
def State.Sharers (s : State lower) : Prop :=
  ∀ k x v, s.exchanges k = some x → Inserts x v → ∃ u ∈ s.users.rows, u.id = v.sharedByID

/-- A request whose call goes on was not answered. -/
theorem eq_of_settle {pc : Pc} {c : Call} (h : pc.settle = .running c) : pc = .running c := by
  cases pc with
  | running c' =>
    simp only [Pc.settle] at h
    split at h
    · cases h
    · exact h
  | answered a => cases h

/-- A call that has just come to its insert has loaded its sharer. -/
theorem sharer_of_advance {env : StepEnv} {c c' : Call} {x : Exchange} {v : Video}
    (h : s.advance deps env c = some (t, c')) (hx : x.pc = (Pc.running c').settle)
    (hv : Inserts x v) : ∃ u ∈ s.users.rows, u.id = v.sharedByID := by
  obtain ⟨userID, req, hpc⟩ := hv
  obtain rfl := Pc.running.inj (eq_of_settle (hx.symm.trans hpc))
  rcases c with c | c | c | ⟨id, limit⟩
  · obtain ⟨_, -, heq⟩ := Option.map_eq_some_iff.1 h
    cases (Prod.mk.inj heq).2
  · obtain ⟨⟨b, c'⟩, hadv, heq⟩ := Option.map_eq_some_iff.1 h
    obtain ⟨-, hc'⟩ := Prod.mk.inj heq
    obtain rfl := Call.videos.inj hc'
    rcases c with ⟨userID', req', pc⟩ | ⟨limit, offset, pc⟩
    · obtain ⟨⟨b, pc'⟩, hstep, heq⟩ := Option.map_eq_some_iff.1 hadv
      obtain ⟨-, heq⟩ := Prod.mk.inj heq
      obtain ⟨rfl, rfl, rfl⟩ := Videos.Call.share.inj heq
      rcases Videos.Call.advanceShare_cases hstep with ⟨e, he⟩ | ⟨y, -, he⟩ | ⟨y, v', rfl, -⟩ |
        ⟨_, _, _, -, -, he⟩ | ⟨_, -, he⟩ | ⟨_, -, he⟩
      · cases he
      · cases he
      · simp only [Videos.Call.advanceShare] at hstep
        split at hstep
        · cases hstep
        · next sharer hsharer =>
          obtain ⟨-, hv⟩ := Prod.mk.inj (Option.some.inj hstep)
          obtain ⟨u, hu, hsame⟩ := List.mem_map.1 (loadSharer_eq_ok hsharer).1
          refine ⟨u, hu, ?_⟩
          rw [← SharePc.create.inj hv]
          exact congrArg User.id hsame
      · cases he
      · cases he
      · cases he
    · obtain ⟨_, -, heq⟩ := Option.map_eq_some_iff.1 hadv
      cases (Prod.mk.inj heq).2
  · rcases c with ⟨userID, pc⟩ | ⟨userID, pc⟩ | pc
    · obtain ⟨_, -, heq⟩ := Option.map_eq_some_iff.1 h
      cases (Prod.mk.inj heq).2
    · obtain ⟨_, -, heq⟩ := Option.map_eq_some_iff.1 h
      cases (Prod.mk.inj heq).2
    · cases h
  · cases h

/-- A request that comes in has no video to insert yet. -/
theorem receive_not_inserts (deps : Deps) (now : Time) (r : Request) (v : Video) :
    ¬Inserts ⟨r, now, receive deps now r⟩ v := by
  rintro ⟨userID, req, hpc⟩
  change receive deps now r = _ at hpc
  unfold receive at hpc
  split at hpc
  · cases hpc
  split at hpc
  · cases hpc
  · next e _ _ user _ =>
    have hstart := eq_of_settle hpc
    cases e with
    | healthz | ws | unreadCount | markSeen => cases hstart
    | list => cases Call.videos.inj (Pc.running.inj hstart)
    | signUp | signIn | refresh =>
      simp only [start] at hstart
      split at hstart <;> cases hstart
    | share =>
      simp only [start] at hstart
      split at hstart
      · cases hstart
      · obtain ⟨-, -, hplace⟩ := Videos.Call.share.inj (Call.videos.inj (Pc.running.inj hstart))
        split at hplace <;> cases hplace
    | since =>
      simp only [start] at hstart
      split_ifs at hstart
      cases hstart

/-- **The step lemma.**  Other requests write between the load and the insert,
but no user goes. -/
theorem State.Sharers.step (hi : s.Sharers) {l : State.Label} (h : s.step deps l = some t) :
    t.Sharers := by
  cases l with
  | receive k now r =>
    simp only [State.step] at h
    split at h
    · obtain rfl := Option.some.inj h
      intro j x v hx hv
      rcases Lib.update_eq_some hx with ⟨rfl, rfl⟩ | ⟨-, hx⟩
      · exact absurd hv (receive_not_inserts deps now r v)
      · exact hi j x v hx hv
    · cases h
  | step k env =>
    simp only [State.step] at h
    split at h
    · next r now c hk =>
      unfold State.stepCall at h
      split at h
      · obtain rfl := Option.some.inj h
        intro j x v hx hv
        rcases Lib.update_eq_some hx with ⟨rfl, rfl⟩ | ⟨-, hx⟩
        · obtain ⟨userID, req, hpc⟩ := hv
          cases hpc
        · exact hi j x v hx hv
      · obtain ⟨⟨u, c'⟩, hadv, rfl⟩ := Option.map_eq_some_iff.1 h
        obtain ⟨htables, hexchanges, -⟩ := advance_spec hadv
        intro j x v hx hv
        obtain ⟨w, hw, hid⟩ : ∃ w ∈ s.users.rows, w.id = v.sharedByID := by
          change Function.update u.exchanges k _ j = some x at hx
          rcases Lib.update_eq_some hx with ⟨rfl, rfl⟩ | ⟨-, hx⟩
          · exact sharer_of_advance hadv rfl hv
          · exact hi j x v (hexchanges ▸ hx) hv
        obtain ⟨w', hw', hid'⟩ := ids_written (c.wrote c') s.tables (u := w) hw
        rw [← htables] at hw'
        exact ⟨w', hw', hid'.trans hid⟩
    · cases h
  | panic k =>
    simp only [State.step] at h
    split at h
    · obtain rfl := Option.some.inj h
      intro j x v hx hv
      rcases Lib.update_eq_some hx with ⟨rfl, rfl⟩ | ⟨-, hx⟩
      · obtain ⟨userID, req, hpc⟩ := hv
        cases hpc
      · exact hi j x v hx hv
    · cases h
  | expire =>
    obtain rfl := Option.some.inj h
    exact hi

/-! ### The insert -/

/-- **What is left for the database:** when the share of a video comes to its
insert, the table takes the row exactly when its id is free, the video is not there
yet, and the title and the description of the request have no NUL. -/
def State.InsertsFit (deps : Deps) (s : State lower) : Prop :=
  ∀ k x v, s.exchanges k = some x → Inserts x v → ∃ userID req,
    AsksShare deps x.request x.now userID req ∧
      ∀ newID created, Takes s.users.rows s.videos (Store.stamp newID created v) ↔
        (∀ w ∈ s.videos, w.id ≠ newID) ∧ (∀ w ∈ s.videos, w.youTubeID ≠ v.youTubeID) ∧
          '\x00' ∉ req.title.toList ∧ '\x00' ∉ req.description.toList

/-- **Every row that is about to be inserted fits the columns.** -/
theorem insertsFit_of_inv {tables : List Account × List Video} (hi : s.Inv deps tables)
    (hsharers : s.Sharers) : s.InsertsFit deps := by
  intro k x v hk hv
  obtain ⟨userID, req, hpc⟩ := hv
  have haccounts := hi.accounts k x hk
  rw [hpc] at haccounts
  generalize writesOf k s.journal = ws at haccounts
  cases haccounts with
  | shareCreate hreq hid hsharer =>
    obtain ⟨u, hu, hshared⟩ := hsharers k x _ hk ⟨_, _, hpc⟩
    exact ⟨_, _, hreq, fun newID created =>
      takes_newVideo newID created hid (title_of_bind hreq.2.2) ⟨u, hu, hshared⟩⟩

/-- **The database refuses no share without a reason.**  In every run of the API,
from any tables, what comes to the insert of a share fits the columns and has its
sharer. -/
theorem share_insert_iff (deps : Deps) (users : Table lower) (videos : List Video)
    (cache : Option ListResponse) (run : List State.Label) :
    (api deps lower).Always (State.InsertsFit deps) (.fresh users videos cache) run :=
  (Lib.Machine.always_of_invariant
    (I := fun s : State lower => s.Inv deps (users.rows, videos) ∧ s.Sharers)
    (fun _ _ _ hi h => ⟨hi.1.step h, hi.2.step h⟩)
    ⟨⟨rfl, fun _ _ => rfl, fun _ _ h => by cases h⟩, fun _ _ _ h => by cases h⟩ run).mono
      fun _ hi => insertsFit_of_inv hi.1 hi.2

end Api
end YtShare
