/-
# What a page has caught up with

A page is to handle the events for its user in the order of the stream.  Which
of them it is owed is a property of positions: those after its base, or those
that its connection brings.  `Caught owed k H` says that the owed ones before
`k` are among the handled events `H`, and `Ready` that an event may be handled
next without leaving a gap among the owed ones.  Frames on their way to the page
are as they should be when they are `InOrder` with respect to `Ready`.

Four facts about this carry the rest.  A window of the stream comes in order
and takes the page to its end (`caught_window`).  So do the events at any
positions that grow (`inOrder_eventIDs`).  What the hub has queued may follow
what a replay has read (`Caught.bridge`).  And what the subscriber passes on is
the event at its position (`dispatch_posts`).
-/

import YtShare.Lib.InOrder
import YtShare.Notifications.Site

namespace YtShare
namespace Notifications

open Lib Frontend StreamPublisher

variable {Raw : Type} {json : EventJSON Raw} {u : UUID} {es more : List (Entry Raw)}

/-- Every event for the user that is owed and stands before `k` is among `H`. -/
def Caught (json : EventJSON Raw) (u : UUID) (es : List (Entry Raw)) (owed : ℕ → Prop) (k : ℕ)
    (H : List UUID) : Prop :=
  ∀ i e, owed i → i < k → eventAt json es i = some e → e.isFor u = true → e.id ∈ H

/-- An event that leaves no gap among the owed ones when it is handled after
`H`. -/
def Ready (json : EventJSON Raw) (u : UUID) (es : List (Entry Raw)) (owed : ℕ → Prop)
    (H : List UUID) (id : UUID) : Prop :=
  ∃ k e, eventAt json es k = some e ∧ e.id = id ∧ Caught json u es owed k H

/-- The ids of the events at some positions. -/
def eventIDs (json : EventJSON Raw) (es : List (Entry Raw)) (ps : List ℕ) : List UUID :=
  ps.filterMap fun i => (eventAt json es i).map Event.id

/-- The ids of the events in frames. -/
def frameIDs (json : EventJSON Raw) (frames : List Raw) : List UUID :=
  frames.filterMap fun raw => (json.unmarshal raw).map Event.id

/-! ### Positions -/

/-- A place that has an event lies in the stream. -/
theorem lt_of_eventAt {i : ℕ} {e : Event} (h : eventAt json es i = some e) : i < es.length := by
  obtain ⟨x, hx, -⟩ := Option.bind_eq_some_iff.1 h
  exact (List.getElem?_eq_some_iff.1 hx).1

/-- What is appended leaves the events before it in their places. -/
theorem eventAt_append {i : ℕ} (hi : i < es.length) :
    eventAt json (es ++ more) i = eventAt json es i := by
  rw [eventAt, eventAt, List.getElem?_append_left hi]

/-- The ids at two lists of places, one after the other. -/
theorem eventIDs_append (ps qs : List ℕ) :
    eventIDs json es (ps ++ qs) = eventIDs json es ps ++ eventIDs json es qs :=
  List.filterMap_append

/-- A place with an event gives its id. -/
theorem eventIDs_cons {i : ℕ} {ps : List ℕ} {e : Event} (he : eventAt json es i = some e) :
    eventIDs json es (i :: ps) = e.id :: eventIDs json es ps :=
  List.filterMap_cons_some (by rw [he]; rfl)

/-- A place whose entry does not decode gives none. -/
theorem eventIDs_cons_none {i : ℕ} {ps : List ℕ} (he : eventAt json es i = none) :
    eventIDs json es (i :: ps) = eventIDs json es ps :=
  List.filterMap_cons_none (by rw [he]; rfl)

/-- The ids at some places are those of the events there. -/
theorem mem_eventIDs {ps : List ℕ} {id : UUID} :
    id ∈ eventIDs json es ps ↔ ∃ i ∈ ps, ∃ e, eventAt json es i = some e ∧ e.id = id := by
  rw [eventIDs, List.mem_filterMap]
  refine exists_congr fun i => and_congr_right fun _ => ?_
  exact Option.map_eq_some_iff

/-- Two entries with the same event id are one. -/
theorem Decoded.eq_of_id (hd : Decoded json es) {i j : ℕ} {e e' : Event}
    (hi : eventAt json es i = some e) (hj : eventAt json es j = some e') (hid : e.id = e'.id) :
    i = j := by
  have hget : ∀ {i : ℕ} {e : Event}, eventAt json es i = some e →
      (es.map (eventID json))[i]? = some (some e.id) := by
    intro i e h
    obtain ⟨x, hx, hdec⟩ := Option.bind_eq_some_iff.1 h
    rw [List.getElem?_map, hx, Option.map_some, eventID, hdec]
    rfl
  have hi' := hget hi
  have hj' := hget hj
  rw [hid, ← hj'] at hi'
  refine (List.getElem?_inj ?_ hd.distinct).1 hi'
  rw [List.length_map]
  exact lt_of_eventAt hi

/-- **The position of an event** that the stream carries. -/
theorem Decoded.position (hd : Decoded json es) {k : ℕ} {e : Event}
    (hk : eventAt json es k = some e) : position json es e.id = k := by
  have hlt := lt_of_eventAt hk
  refine (List.findIdx_eq hlt).2 ⟨?_, fun j hj => ?_⟩
  · rw [decide_eq_true_iff, eventID]
    rw [eventAt, List.getElem?_eq_getElem hlt, Option.bind_some] at hk
    rw [hk]
    rfl
  · rw [decide_eq_false_iff_not]
    intro hid
    obtain ⟨e', hdec, hid⟩ := Option.map_eq_some_iff.1 hid
    have hj' : eventAt json es j = some e' := by
      rw [eventAt, List.getElem?_eq_getElem (hj.trans hlt), Option.bind_some, hdec]
    exact absurd (hd.eq_of_id hj' hk hid) (Nat.ne_of_lt hj)

/-- An entry that may be appended decodes, and its event has a new id. -/
theorem Decoded.add (hd : Decoded json es) {x : Entry Raw} (hx : Site.Admits json es x) :
    Decoded json (es ++ [x]) := by
  constructor
  · intro y hy
    rcases List.mem_append.1 hy with hy | hy
    · exact hd.decodes y hy
    · rw [List.mem_singleton.1 hy]
      exact hx.1
  · rw [List.map_append]
    refine List.nodup_append.2 ⟨hd.distinct, List.nodup_singleton _, ?_⟩
    rintro id hid _ hid' rfl
    rw [List.map_singleton, List.mem_singleton] at hid'
    exact hx.2 (hid' ▸ hid)

/-! ### Catching up -/

section Caught

variable {owed queued : ℕ → Prop} {k r : ℕ} {H G : List UUID} {id : UUID}

/-- Who has handled more has caught up as far. -/
theorem Caught.mono (h : Caught json u es owed k H) (hH : H ⊆ G) : Caught json u es owed k G :=
  fun i e hb hk he hu => hH (h i e hb hk he hu)

/-- Who has caught up to `k` has caught up to every position before it. -/
theorem Caught.le (h : Caught json u es owed k H) {j : ℕ} (hj : j ≤ k) :
    Caught json u es owed j H :=
  fun i e hb hij => h i e hb (hij.trans_le hj)

/-- Who is owed less has caught up as far. -/
theorem Caught.anti (h : Caught json u es owed k H) (ho : ∀ i, queued i → owed i) :
    Caught json u es queued k H :=
  fun i e hq => h i e (ho i hq)

/-- Nothing that is owed stands before the base. -/
theorem caught_self {b : ℕ} : Caught json u es (b ≤ ·) b H :=
  fun _ _ hb hk => absurd hk (Nat.not_lt.2 hb)

/-- Events that are published later play no part. -/
theorem Caught.append (h : Caught json u es owed k H) (hk : k ≤ es.length) :
    Caught json u (es ++ more) owed k H := by
  intro i e hb hik he
  rw [eventAt_append (hik.trans_le hk)] at he
  exact h i e hb hik he

/-- One position further, with the event there handled if it is for the user. -/
theorem Caught.succ (h : Caught json u es owed k H)
    (hk : ∀ e, eventAt json es k = some e → e.isFor u = true → e.id ∈ H) :
    Caught json u es owed (k + 1) H := by
  intro i e hb hik he hu
  rcases Nat.lt_succ_iff_lt_or_eq.1 hik with hik | rfl
  · exact h i e hb hik he hu
  · exact hk e he hu

/-- **From a replay to the queue.**  When everything before `r` was read and the
queue holds what is queued, both together hold what is either. -/
theorem Caught.bridge {both : ℕ → Prop} (hG : Caught json u es owed r G)
    (hH : Caught json u es queued k H)
    (hb : ∀ i, both i → owed i ∧ (i < r ∨ queued i)) : Caught json u es both k (G ++ H) := by
  intro i e hi hk he hu
  obtain ⟨ho, hr | hq⟩ := hb i hi
  · exact List.mem_append_left H (hG i e ho hr he hu)
  · exact List.mem_append_right G (hH i e hq hk he hu)

/-- Who has handled more is ready for the same events. -/
theorem Ready.mono (hH : H ⊆ G) (h : Ready json u es owed H id) : Ready json u es owed G id := by
  obtain ⟨k, e, he, hid, hc⟩ := h
  exact ⟨k, e, he, hid, hc.mono hH⟩

/-- Events that are published later play no part in what is ready. -/
theorem Ready.append (h : Ready json u es owed H id) : Ready json u (es ++ more) owed H id := by
  obtain ⟨k, e, he, hid, hc⟩ := h
  have hk := lt_of_eventAt he
  exact ⟨k, e, (eventAt_append hk).trans he, hid, hc.append (Nat.le_of_lt hk)⟩

/-- Who is owed less is ready for the same events. -/
theorem Ready.anti (ho : ∀ i, queued i → owed i) (h : Ready json u es owed H id) :
    Ready json u es queued H id := by
  obtain ⟨k, e, he, hid, hc⟩ := h
  exact ⟨k, e, he, hid, hc.anti ho⟩

/-- An event that is ready by the queue alone is ready behind what a replay has
read. -/
theorem Ready.bridge {both : ℕ → Prop} (hG : Caught json u es owed r G)
    (hb : ∀ i, both i → owed i ∧ (i < r ∨ queued i)) (h : Ready json u es queued H id) :
    Ready json u es both (G ++ H) id := by
  obtain ⟨k, e, he, hid, hc⟩ := h
  exact ⟨k, e, he, hid, hG.bridge hc hb⟩

/-- The next event of the stream comes after what is on its way, if it is for
the user. -/
theorem InOrder.extend (ho : InOrder (Ready json u es owed) H G)
    (hc : Caught json u es owed k (H ++ G)) {e : Event} (he : eventAt json es k = some e) :
    InOrder (Ready json u es owed) H (G ++ if e.isFor u = true then [e.id] else []) ∧
      Caught json u es owed (k + 1)
        (H ++ (G ++ if e.isFor u = true then [e.id] else [])) := by
  rw [← List.append_assoc]
  by_cases hu : e.isFor u = true
  · rw [if_pos hu]
    refine ⟨ho.snoc ⟨k, e, he, rfl, hc⟩, ?_⟩
    refine (hc.mono (List.subset_append_left _ _)).succ fun e' he' _ => ?_
    obtain rfl := Option.some.inj (he.symm.trans he')
    exact List.mem_append_right _ (List.mem_singleton_self _)
  · rw [if_neg hu, List.append_nil, List.append_nil]
    refine ⟨ho, hc.succ fun e' he' hu' => ?_⟩
    obtain rfl := Option.some.inj (he.symm.trans he')
    exact absurd hu' hu

/-- **A window of the stream** comes in order, with or without the events that
are not for the user, and takes the page to its end. -/
theorem caught_window {p : Event → Bool} (hp : ∀ e, e.isFor u = true → p e = true) (n : ℕ)
    {a : ℕ} (h : Caught json u es owed a H) :
    InOrder (Ready json u es owed) H
        (((((es.drop a).take n).filterMap (decode json)).filter p).map Event.id) ∧
      Caught json u es owed (min (a + n) es.length)
        (H ++ ((((es.drop a).take n).filterMap (decode json)).filter p).map Event.id) := by
  induction n generalizing a H with
  | zero => exact ⟨trivial, by simpa using h.le (Nat.min_le_left a es.length)⟩
  | succ n ih =>
    rcases Nat.lt_or_ge a es.length with ha | ha
    · have hat : eventAt json es a = decode json es[a] := by
        rw [eventAt, List.getElem?_eq_getElem ha, Option.bind_some]
      have hsum : a + (n + 1) = a + 1 + n := by omega
      -- an event that is left out, or an entry without one
      have hskip : (∀ e, eventAt json es a = some e → e.isFor u = false) →
          Caught json u es owed (a + 1) H := by
        intro hno
        refine h.succ fun e he hu => ?_
        rw [hno e he] at hu
        cases hu
      rw [List.drop_eq_getElem_cons ha, List.take_succ_cons, hsum]
      cases hdec : decode json es[a] with
      | none =>
        rw [List.filterMap_cons_none hdec]
        refine ih (hskip fun e he => ?_)
        rw [hat, hdec] at he
        cases he
      | some e =>
        rw [List.filterMap_cons_some hdec]
        have he : eventAt json es a = some e := hat.trans hdec
        by_cases hpe : p e = true
        · rw [List.filter_cons_of_pos hpe, List.map_cons]
          have hnext : Caught json u es owed (a + 1) (H ++ [e.id]) := by
            refine (h.mono (List.subset_append_left _ _)).succ fun e' he' _ => ?_
            obtain rfl := Option.some.inj (he.symm.trans he')
            exact List.mem_append_right H (List.mem_singleton_self _)
          obtain ⟨horder, hcaught⟩ := ih hnext
          refine ⟨⟨⟨a, e, he, rfl, h⟩, horder⟩, ?_⟩
          rw [List.append_assoc] at hcaught
          exact hcaught
        · rw [List.filter_cons_of_neg hpe]
          refine ih (hskip fun e' he' => ?_)
          obtain rfl := Option.some.inj (he.symm.trans he')
          exact Bool.eq_false_iff.2 fun hu => hpe (hp e hu)
    · rw [List.drop_eq_nil_of_le ha, List.take_nil]
      refine ⟨trivial, ?_⟩
      rw [List.filterMap_nil, List.filter_nil, List.map_nil, List.append_nil]
      exact h.le ((Nat.min_le_right _ _).trans ha)

/-- **Events at positions that grow** come in order, when they include all that
is owed before the last of them. -/
theorem inOrder_eventIDs (hd : Decoded json es) (before : List ℕ) {after : List ℕ}
    (hsorted : (before ++ after).Pairwise (· < ·))
    (hall : ∀ i e, owed i → (∃ j ∈ after, i < j) → eventAt json es i = some e →
      e.isFor u = true → e.id ∈ eventIDs json es (before ++ after)) :
    InOrder (Ready json u es owed) (eventIDs json es before) (eventIDs json es after) := by
  induction after generalizing before with
  | nil => trivial
  | cons k after ih =>
    have hsplit : before ++ k :: after = before ++ [k] ++ after := by
      rw [List.append_assoc]
      rfl
    have hrest := ih (before ++ [k]) (hsplit ▸ hsorted) fun i e ho hj => by
      obtain ⟨j, hj, hij⟩ := hj
      rw [← hsplit]
      exact hall i e ho ⟨j, List.mem_cons_of_mem k hj, hij⟩
    rw [eventIDs_append] at hrest
    cases hk : eventAt json es k with
    | none =>
      rw [eventIDs_cons_none hk, show eventIDs json es [] = [] from rfl, List.append_nil] at hrest
      rwa [eventIDs_cons_none hk]
    | some e =>
      rw [eventIDs_cons hk] at hrest
      rw [eventIDs_cons hk]
      refine ⟨⟨k, e, hk, rfl, fun i e' ho hik he' hu => ?_⟩, hrest⟩
      -- what is owed before `k` stands at one of the positions, and so before `k` among them
      obtain ⟨j, hj, hid⟩ := mem_eventIDs.1 (hall i e' ho ⟨k, List.mem_cons_self, hik⟩ he' hu)
      obtain ⟨e'', he'', hid⟩ := hid
      obtain rfl := hd.eq_of_id he'' he' hid
      refine mem_eventIDs.2 ⟨j, ?_, e'', he'', hid⟩
      refine (List.mem_append.1 hj).resolve_right fun hmem => ?_
      rcases List.mem_cons.1 hmem with rfl | hmem
      · exact absurd hik (Nat.lt_irrefl _)
      · have hafter := (List.pairwise_append.1 hsorted).2.1
        exact absurd hik (Nat.lt_asymm ((List.pairwise_cons.1 hafter).1 j hmem))

end Caught

/-! ### Frames -/

/-- The ids of two lists of frames, one after the other. -/
theorem frameIDs_append (xs ys : List Raw) :
    frameIDs json (xs ++ ys) = frameIDs json xs ++ frameIDs json ys :=
  List.filterMap_append

/-- The id of a frame that can be read. -/
theorem frameIDs_singleton {raw : Raw} {id : UUID}
    (h : (json.unmarshal raw).map Event.id = some id) :
    frameIDs json [raw] = [id] := by
  simp only [frameIDs, List.filterMap_cons, h, List.filterMap_nil]

/-- **The frames of a backlog** carry the events for the user. -/
theorem frameIDs_writeBacklog (events : List Event) (writes : ℕ) (hw : events.length ≤ writes)
    (hm : ∀ e ∈ events, (json.marshal e).isSome = true) :
    frameIDs json (Handler.writeBacklog json u events writes) =
      (events.filter (·.isFor u)).map Event.id := by
  induction events generalizing writes with
  | nil => rfl
  | cons e events ih =>
    have hrest : ∀ w, events.length ≤ w → frameIDs json (Handler.writeBacklog json u events w) =
        (events.filter (·.isFor u)).map Event.id :=
      fun w hw' => ih w hw' fun e' he' => hm e' (List.mem_cons_of_mem e he')
    rw [List.length_cons] at hw
    rw [Handler.writeBacklog]
    split_ifs with hskip
    · have hno : ¬e.isFor u = true := by
        rw [Event.isFor_iff]
        rintro (hnil | hu)
        · exact hskip.1 hnil
        · exact hskip.2 hu
      rw [@List.filter_cons_of_neg _ (·.isFor u) e events hno]
      exact hrest writes (by omega)
    · have hfor : e.isFor u = true := by
        rw [Event.isFor_iff]
        by_contra hno
        exact hskip ⟨fun h => hno (.inl h), fun h => hno (.inr h)⟩
      obtain ⟨raw, hraw⟩ := Option.isSome_iff_exists.1 (hm e List.mem_cons_self)
      obtain ⟨j, hj⟩ := json.unmarshal_marshal e raw hraw
      obtain ⟨w, rfl⟩ : ∃ w, writes = w + 1 := ⟨writes - 1, by omega⟩
      rw [hraw, @List.filter_cons_of_pos _ (·.isFor u) e events hfor, List.map_cons,
        ← hrest w (by omega)]
      simp only [frameIDs, List.filterMap_cons, hj, Option.map_some]

/-- **What the subscriber passes on:** a message with the recipient and the id
of the event. -/
theorem dispatch_posts {x : Entry Raw} (hx : Decodes json x) (now : Time) :
    ∃ e m, decode json x = some e ∧ Subscriber.dispatch json now x = some m ∧
      (∀ u, m.addressed u = e.isFor u) ∧
      (json.unmarshal m.payload).map Event.id = some e.id := by
  obtain ⟨e, hdec, htime, hmarshal⟩ := hx
  obtain ⟨raw, hraw⟩ := Option.isSome_iff_exists.1 hmarshal
  have hpublish : ∀ r, Hub.publish json now e r = some ⟨r, raw⟩ := by
    intro r
    simp only [Hub.publish, htime, Bool.false_eq_true, if_false, hraw, Option.map_some]
  have hroute : Hub.route json now e = some ⟨e.recipientID, raw⟩ := by
    unfold Hub.route Hub.broadcast Hub.sendToUser
    split_ifs with hnil
    · rw [hnil]
      exact hpublish _
    · exact hpublish _
  obtain ⟨j, hj⟩ := json.unmarshal_marshal e raw hraw
  refine ⟨e, ⟨e.recipientID, raw⟩, hdec, ?_, fun _ => rfl, ?_⟩
  · rw [Subscriber.dispatch, hdec, Option.bind_some, hroute]
  · rw [hj]
    rfl

/-! ### Messages -/

/-- The id of the event in a message of the hub. -/
def msgID (json : EventJSON Raw) (m : DispatchMsg Raw) : Option UUID :=
  (json.unmarshal m.payload).map Event.id

/-- The messages carry the events at positions that grow, all of them before
`pos`. -/
def Follow (json : EventJSON Raw) (es : List (Entry Raw)) (pos : ℕ) (ms : List (DispatchMsg Raw)) :
    Prop :=
  ∃ ps : List ℕ, ps.Pairwise (· < ·) ∧ (∀ i ∈ ps, i < pos) ∧
    ms.map (msgID json) = ps.map fun i => (eventAt json es i).map Event.id

section Follow

variable {pos pos' : ℕ} {ms : List (DispatchMsg Raw)}

/-- The subscriber is further. -/
theorem Follow.le (h : Follow json es pos ms) (hle : pos ≤ pos') : Follow json es pos' ms := by
  obtain ⟨ps, hsorted, hlt, hids⟩ := h
  exact ⟨ps, hsorted, fun i hi => (hlt i hi).trans_le hle, hids⟩

/-- Events that are published later play no part. -/
theorem Follow.append (h : Follow json es pos ms) (hle : pos ≤ es.length) :
    Follow json (es ++ more) pos ms := by
  obtain ⟨ps, hsorted, hlt, hids⟩ := h
  refine ⟨ps, hsorted, hlt, hids.trans (List.map_congr_left fun i hi => ?_)⟩
  rw [eventAt_append ((hlt i hi).trans_le hle)]

/-- The hub accepts the event at the position. -/
theorem Follow.snoc (h : Follow json es pos ms) {m : DispatchMsg Raw} {e : Event}
    (he : eventAt json es pos = some e) (hid : msgID json m = some e.id) :
    Follow json es (pos + 1) (ms ++ [m]) := by
  obtain ⟨ps, hsorted, hlt, hids⟩ := h
  refine ⟨ps ++ [pos], ?_, ?_, ?_⟩
  · refine List.pairwise_append.2 ⟨hsorted, List.pairwise_singleton _ _, fun i hi j hj => ?_⟩
    rw [List.mem_singleton.1 hj]
    exact hlt i hi
  · intro i hi
    rcases List.mem_append.1 hi with hi | hi
    · exact Nat.lt_succ_of_lt (hlt i hi)
    · rw [List.mem_singleton.1 hi]
      exact Nat.lt_succ_self pos
  · rw [List.map_append, List.map_append, hids, List.map_singleton, List.map_singleton, hid, he]
    rfl

/-- **Some of the messages,** as frames, carry the events at some of the
positions. -/
theorem Follow.frames (h : Follow json es pos ms) {ms' : List (DispatchMsg Raw)}
    (hsub : ms'.Sublist ms) : ∃ ps : List ℕ, ps.Pairwise (· < ·) ∧ (∀ i ∈ ps, i < pos) ∧
      frameIDs json (ms'.map (·.payload)) = eventIDs json es ps := by
  obtain ⟨ps, hsorted, hlt, hids⟩ := h
  have hmap := hsub.map (msgID json)
  rw [hids] at hmap
  obtain ⟨ps', hps, hids'⟩ := List.sublist_map_iff.1 hmap
  refine ⟨ps', hsorted.sublist hps, fun i hi => hlt i (hps.subset hi), ?_⟩
  have hcollect := congrArg (List.filterMap id) hids'
  rw [List.filterMap_map, List.filterMap_map] at hcollect
  rw [frameIDs, List.filterMap_map]
  exact hcollect

end Follow

/-! ### The page -/

section Page

variable (json u) {base : Option ℕ} {H G : List UUID} {id : UUID}

/-- The page has caught up to the event. -/
def Reached (es : List (Entry Raw)) (base : Option ℕ) (H : List UUID) (id : UUID) : Prop :=
  ∃ b k e, base = some b ∧ eventAt json es k = some e ∧ e.id = id ∧
    Caught json u es (b ≤ ·) (k + 1) H

/-- A call of `recoverViaHttp` asks from an event that the page has caught up
to, and the answer may be handled. -/
def Recovery.Fits (es : List (Entry Raw)) (base : Option ℕ) (H : List UUID) : Recovery → Prop
  | .asked id => Reached json u es base H id
  | .answered events =>
      ∃ b, base = some b ∧ InOrder (Ready json u es (b ≤ ·)) H (events.map Event.id)

/-- What holds of the hook and its calls of `recoverViaHttp`. -/
structure PageInv (es : List (Entry Raw)) (base : Option ℕ) (page : NotificationsSocket)
    (recoveries : List Recovery) : Prop where
  seen : ∀ id ∈ page.seenIds, id ∈ page.handled
  cursor : ∀ id, page.lastEventId = some id → Reached json u es base page.handled id
  recoveries : ∀ r ∈ recoveries, r.Fits json u es base page.handled

variable {json u}

/-- A page that has handled more has caught up to the event all the same. -/
theorem Reached.mono (h : Reached json u es base H id) (hH : H ⊆ G) :
    Reached json u es base G id := by
  obtain ⟨b, k, e, hb, he, hid, hc⟩ := h
  exact ⟨b, k, e, hb, he, hid, hc.mono hH⟩

/-- And so it has when more is appended to the stream. -/
theorem Reached.append (h : Reached json u es base H id) :
    Reached json u (es ++ more) base H id := by
  obtain ⟨b, k, e, hb, he, hid, hc⟩ := h
  have hk := lt_of_eventAt he
  exact ⟨b, k, e, hb, (eventAt_append hk).trans he, hid, hc.append hk⟩

/-- A base that is set stays. -/
theorem Reached.based (h : Reached json u es base H id) (d : ℕ) :
    Reached json u es (some (base.getD d)) H id := by
  obtain ⟨b, k, e, rfl, hrest⟩ := h
  exact ⟨b, k, e, rfl, hrest⟩

/-- An event that was ready and is handled now is reached. -/
theorem Ready.reached {b : ℕ} (h : Ready json u es (b ≤ ·) H id) (hH : H ⊆ G) (hid : id ∈ G) :
    Reached json u es (some b) G id := by
  obtain ⟨k, e, he, rfl, hc⟩ := h
  refine ⟨b, k, e, rfl, he, rfl, (hc.mono hH).succ fun e' he' _ => ?_⟩
  obtain rfl := Option.some.inj (he.symm.trans he')
  exact hid

/-- A call of `recoverViaHttp` that fits the page fits it when it has handled more. -/
theorem Recovery.Fits.mono {r : Recovery} (h : r.Fits json u es base H) (hH : H ⊆ G) :
    r.Fits json u es base G := by
  cases r with
  | asked id => exact Reached.mono h hH
  | answered events =>
    obtain ⟨b, hb, ho⟩ := h
    exact ⟨b, hb, ho.mono (fun _ _ _ hsub hr => hr.mono hsub) hH⟩

/-- And when more is appended to the stream. -/
theorem Recovery.Fits.append {r : Recovery} (h : r.Fits json u es base H) :
    r.Fits json u (es ++ more) base H := by
  cases r with
  | asked id => exact Reached.append h
  | answered events =>
    obtain ⟨b, hb, ho⟩ := h
    exact ⟨b, hb, ho.imp fun _ _ hr => hr.append⟩

/-- The invariant of the page does not look behind the end of the stream. -/
theorem PageInv.append {page : NotificationsSocket} {recoveries : List Recovery}
    (h : PageInv json u es base page recoveries) :
    PageInv json u (es ++ more) base page recoveries :=
  ⟨h.seen, fun id hid => (h.cursor id hid).append, fun r hr => (h.recoveries r hr).append⟩

/-- A page without a base has caught up to nothing, so that any base may be set. -/
theorem PageInv.based {page : NotificationsSocket} {recoveries : List Recovery}
    (h : PageInv json u es base page recoveries) (d : ℕ) :
    PageInv json u es (some (base.getD d)) page recoveries := by
  refine ⟨h.seen, fun id hid => (h.cursor id hid).based d, fun r hr => ?_⟩
  have hfits := h.recoveries r hr
  cases r with
  | asked id => exact Reached.based hfits d
  | answered events =>
    obtain ⟨b, rfl, ho⟩ := hfits
    exact ⟨b, rfl, ho⟩

/-- **`handleEvent`** of an event that is ready if it is new to the page: it is
handled then, and the cursor has no gap behind it. -/
theorem PageInv.handleEvent {page : NotificationsSocket} {recoveries : List Recovery} {b : ℕ}
    (h : PageInv json u es (some b) page recoveries) {data : Event}
    (hr : data.id ∉ page.seenIds → Ready json u es (b ≤ ·) page.handled data.id) :
    PageInv json u es (some b) (page.handleEvent data) recoveries ∧
      page.handled ⊆ (page.handleEvent data).handled ∧
      data.id ∈ (page.handleEvent data).handled := by
  rcases page.handleEvent_cases data with ⟨hseen, heq⟩ | ⟨hnew, hcursor, hhandled, hseen⟩
  · rw [heq]
    exact ⟨h, List.Subset.refl _, h.seen _ hseen⟩
  · have hsub : page.handled ⊆ (page.handleEvent data).handled := by
      rw [hhandled]
      exact List.subset_append_left _ _
    have hmem : data.id ∈ (page.handleEvent data).handled := by
      rw [hhandled]
      exact List.mem_append_right _ (List.mem_singleton_self _)
    refine ⟨⟨?_, ?_, ?_⟩, hsub, hmem⟩
    · intro id hid
      rcases hseen id hid with rfl | hid
      · exact hmem
      · exact hsub (h.seen id hid)
    · intro id hid
      obtain rfl := Option.some.inj (hcursor.symm.trans hid)
      exact (hr hnew).reached hsub hmem
    · intro r hr'
      exact (h.recoveries r hr').mono hsub

/-- **An answer of `/since`** is handled event by event. -/
theorem PageInv.handleAll {page : NotificationsSocket} {recoveries : List Recovery} {b : ℕ}
    (h : PageInv json u es (some b) page recoveries) {events : List Event}
    (ho : InOrder (Ready json u es (b ≤ ·)) page.handled (events.map Event.id)) :
    PageInv json u es (some b) (events.foldl NotificationsSocket.handleEvent page) recoveries ∧
      page.handled ⊆ (events.foldl NotificationsSocket.handleEvent page).handled := by
  induction events generalizing page with
  | nil => exact ⟨h, List.Subset.refl _⟩
  | cons data events ih =>
    obtain ⟨hr, hrest⟩ := ho
    obtain ⟨h', hsub, hmem⟩ := h.handleEvent fun _ => hr
    have hrest' := hrest.mono (fun _ _ _ hH hr => hr.mono hH)
      (List.append_subset.2 ⟨hsub, List.cons_subset.2 ⟨hmem, List.nil_subset _⟩⟩)
    obtain ⟨h'', hsub'⟩ := ih h' hrest'
    exact ⟨h'', List.Subset.trans hsub hsub'⟩

end Page

end Notifications
end YtShare
