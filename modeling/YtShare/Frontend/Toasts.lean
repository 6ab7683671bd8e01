/-
# From a share to the toasts

All the way from `Publish` to the toasts of a page: the event is marshalled into the
stream, every replica's subscriber unmarshals it and hands it to its hub, which marshals
it again for the clients it is for, and the page parses the text and shows it.

The stream holds what was published (`Publishes`), and a library of JSON writes the texts
of `Json.text` (`Renders`).  Then the frames that a client is owed are deliveries of the
events for its user (`deliveries_of_frames`), and a page that stays connected while
nothing is lost at its replica shows every share of somebody else once, in the order of
the stream, with the title, the name and the links it was published with
(`shows_every_share`).
-/

import YtShare.Frontend.MessageHook
import YtShare.Notifications.Agreement

namespace YtShare
namespace Frontend

open Lib Notifications
open Lib.Json (Numbers)

namespace MessageHook

variable {ν : Type} {N : Numbers ν} {ι Raw : Type} {lib : JSONLibrary Raw}

/-- An event, and the payload it is published with. -/
abbrev Published := Event × Notifications.VideoSharedPayload

variable (lib) in
/-- The entry that `Publish` appends for the event. -/
structure Publishes (p : Published) (x : Notifications.Entry Raw) : Prop where
  payload : p.1.payload = .videoShared p.2
  stamped : p.1.timestamp.isZero = false
  stored : ∃ raw, lib.events.marshal p.1 = some raw ∧ x.data = some raw

variable (lib) in
/-- The texts of the library are those that `json.Marshal` writes. -/
def Renders (render : Raw → List Char) : Prop := ∀ j, render (lib.encode j) = Json.text j

/-- The shares among published events that a user is told of: those of others. -/
def news (user : UUID) (ps : List Published) : List Notifications.VideoSharedPayload :=
  (ps.filter fun p => p.1.isFor user &&
    decide (p.1.type = eventVideoShared ∧ p.2.sharedByID ≠ user)).map Prod.snd

/-! ### What a client is sent -/

/-- What an entry comes to: the event as it is read back, marshalled again. -/
theorem Publishes.posted {p : Published} {x : Notifications.Entry Raw} (h : Publishes lib p x) :
    ∃ j, p.1.reread.toJSON lib = some j ∧
      posted lib.events x = some ⟨p.1.recipientID, lib.encode j⟩ := by
  obtain ⟨raw, hraw, hdata⟩ := h.stored
  obtain ⟨raw', hraw', -⟩ := JSONLibrary.same_marshal hraw
  obtain ⟨j, hj, hencode⟩ := Option.map_eq_some_iff.1 hraw'
  have hdecode : StreamPublisher.decode lib.events x = some p.1.reread := by
    rw [StreamPublisher.decode, hdata, Option.bind_some, JSONLibrary.unmarshal_of_marshal hraw]
  refine ⟨j, hj, ?_⟩
  rw [Notifications.posted, hdecode, Option.bind_some, hraw', hencode]
  rfl

/-- **The frames for a user are deliveries** of the events that are for the user. -/
theorem deliveries_of_frames {render : Raw → List Char} (hrender : Renders lib render)
    (user : UUID) {ps : List Published} {es : List (Notifications.Entry Raw)}
    (h : List.Forall₂ (Publishes lib) ps es) :
    ∃ ds : List (Delivery lib), (framesFor lib.events user es).map render = ds.map Delivery.text ∧
      ds.map (fun d => (d.event, d.payload)) =
        (ps.filter fun p => p.1.isFor user).map fun p => (p.1.reread, p.2) := by
  induction h with
  | nil => exact ⟨[], rfl, rfl⟩
  | @cons p x ps es hx _ ih =>
    obtain ⟨ds, htexts, hevents⟩ := ih
    obtain ⟨j, hj, hposted⟩ := hx.posted
    have hframe : frameFor lib.events user x =
        if p.1.isFor user then some (lib.encode j) else none := by
      rw [frameFor, hposted, Option.filter_some, apply_ite (Option.map DispatchMsg.payload)]
      rfl
    rw [framesFor, List.filterMap_cons, hframe]
    by_cases hfor : p.1.isFor user = true
    · have hcarries : Carries p.1.reread p.2 := .inr (by rw [Event.reread, hx.payload])
      have hframed : p.1.reread.frame lib = some j.text := congrArg (Option.map Json.text) hj
      refine ⟨⟨p.1.reread, p.2, j.text, hcarries, hframed⟩ :: ds, ?_, ?_⟩
      · rw [if_pos hfor, List.map_cons, List.map_cons, hrender j]
        exact congrArg _ htexts
      · rw [List.filter_cons, if_pos hfor, List.map_cons, List.map_cons, hevents]
    · refine ⟨ds, ?_, ?_⟩
      · rw [if_neg hfor]
        exact htexts
      · rw [List.filter_cons, if_neg hfor, hevents]

/-! ### What is shown of it -/

/-- Events with ids of their own are all new. -/
theorem fresh_of_nodup {ds : List (Delivery lib)} {h : List UUID}
    (hnodup : (h ++ ds.map fun d => d.event.id).Nodup) : fresh h ds = ds := by
  induction ds generalizing h with
  | nil => rfl
  | cons d ds ih =>
    rw [List.map_cons, ← List.singleton_append, ← List.append_assoc] at hnodup
    have hnew : d.event.id ∉ h.rtake seenEventCap := fun hmem =>
      List.disjoint_of_nodup_append (List.nodup_append.1 hnodup).1
        (List.mem_of_mem_drop hmem) List.mem_cons_self
    rw [fresh, if_neg hnew, ih hnodup]

/-- What is shown of the deliveries is what is news to the user. -/
theorem told_isShown {ps : List Published} {ds : List (Delivery lib)} {user : UUID}
    (h : ds.map (fun d => (d.event, d.payload)) =
      (ps.filter fun p => p.1.isFor user).map fun p => (p.1.reread, p.2)) :
    (ds.filter (Delivery.isShown (some user.string))).map (fun d => d.payload) = news user ps := by
  have hshown : (ds.filter (Delivery.isShown (some user.string))).map (fun d => d.payload) =
      ((ds.map fun d => (d.event, d.payload)).filter fun q =>
        decide (q.1.type = eventVideoShared ∧ q.2.sharedByID ≠ user)).map Prod.snd := by
    rw [List.filter_map, List.map_map]
    refine congrArg _ (List.filter_congr fun d _ => ?_)
    rw [Delivery.isShown, Function.comp_apply, decide_eq_decide, ne_eq, Option.some_inj,
      SeenEvents.string_injective.eq_iff]
  rw [hshown, h, List.filter_map, List.map_map, List.filter_filter, news]
  refine congrArg _ (List.filter_congr fun p _ => ?_)
  rw [Bool.and_comm]
  rfl

/-- Messages with the texts of deliveries. -/
theorem exists_pairs {α β γ : Type*} {f : α → β} {as : List α} {ms : List (β × γ)}
    (h : ms.map Prod.fst = as.map f) :
    ∃ qs : List (α × γ), qs.map Prod.fst = as ∧ qs.map (fun q => (f q.1, q.2)) = ms := by
  induction as generalizing ms with
  | nil => exact ⟨[], rfl, (List.map_eq_nil_iff.1 h).symm⟩
  | cons a as ih =>
    cases ms with
    | nil => cases h
    | cons m ms =>
      obtain ⟨hm, hms⟩ := List.cons.inj h
      obtain ⟨qs, hqs, hmap⟩ := ih hms
      refine ⟨(a, m.2) :: qs, by rw [List.map_cons, hqs], ?_⟩
      rw [List.map_cons, hmap, ← hm]

/-- **A page shows what is news to its user**, of frames whose events have ids of their
own. -/
theorem shows_news {render : Raw → List Char} (hrender : Renders lib render) {user : UUID}
    {ps : List Published} {es : List (Notifications.Entry Raw)}
    (h : List.Forall₂ (Publishes lib) ps es)
    (hids : (ps.map fun p => p.1.id).Nodup) (stored : Option String) (count : Option ℕ)
    {messages : List (Text × Bool)}
    (hmessages : messages.map Prod.fst =
      (framesFor lib.events user es).map fun raw => units (render raw)) :
    ∃ s', (load stored count).onmessages N (some user.string) messages = some s' ∧
      s'.toasts = (news user ps).map told ∧ s'.count = unread count (news user ps).length := by
  obtain ⟨ds, htexts, hevents⟩ := deliveries_of_frames hrender user h
  have hunits : messages.map Prod.fst = ds.map fun d => units d.text := by
    have hmap := congrArg (List.map units) htexts
    rw [List.map_map, List.map_map] at hmap
    exact hmessages.trans hmap
  have hnodup : (([] : List UUID) ++ ds.map fun d => d.event.id).Nodup := by
    have hmap := congrArg (List.map fun q => q.1.id) hevents
    rw [List.map_map, List.map_map] at hmap
    have hkept : ((ps.filter fun p => p.1.isFor user).map fun p => p.1.id).Nodup :=
      hids.sublist (List.filter_sublist.map _)
    exact (congrArg List.Nodup hmap).mpr hkept
  obtain ⟨qs, rfl, rfl⟩ := exists_pairs hunits
  obtain ⟨-, hshown⟩ := (heard_load stored count).handleEvents (some user.string) qs
  rw [fresh_of_nodup hnodup] at hshown
  have hnews := told_isShown hevents
  refine ⟨_, onmessages_texts _ _ qs, ?_, ?_⟩
  · rw [hshown.toasts, ← hnews, List.map_map]
    rfl
  · rw [hshown.count, ← hnews, List.length_map]
    rfl

/-! ### All the way -/

/-- What was published has a timestamp. -/
theorem stamped_of_publishes {ps : List Published} {es : List (Notifications.Entry Raw)}
    (h : List.Forall₂ (Publishes lib) ps es) : Stamped lib.events es := by
  induction h with
  | nil => exact fun x hx => absurd hx List.not_mem_nil
  | @cons p x ps es hx _ ih =>
    refine List.forall_mem_cons.2 ⟨fun e he => ?_, ih⟩
    obtain ⟨raw, hraw, hdata⟩ := hx.stored
    rw [StreamPublisher.decode, hdata, Option.bind_some,
      JSONLibrary.unmarshal_of_marshal hraw] at he
    rw [← Option.some.inj he]
    exact hx.stamped

/-- **Every share is shown once.**  Let a client be connected to a replica whose
subscriber has started to read, and stay connected in a run that loses nothing there,
until nothing is under way; let the stream hold what was published, under ids of their
own.  The page that is sent what the client was sent shows, in order and once each, all
shares of others from some entry on that was there when it was connected, as they were
published, and counts them. -/
theorem shows_every_share [DecidableEq ι] (N : Numbers ν) {render : Raw → List Char}
    (hrender : Renders lib render) {s₀ s₁ s₂ : Fleet ι Raw} (hinit : (fleet lib.events).init s₀)
    {run₁ run₂ : List (Fleet.Label ι Raw)} (h₁ : (fleet lib.events).exec s₀ run₁ = some s₁)
    (h₂ : (fleet lib.events).exec s₁ run₂ = some s₂) {i : ι}
    (hkept₁ : (fleet lib.events).Steps (Fleet.Kept i) s₀ run₁)
    (hkept₂ : (fleet lib.events).Steps (Fleet.Kept i) s₁ run₂)
    (hstarted : (s₁.pump i).started ≠ none) (hsettled : s₂.Settled i) {c : Client}
    (hc₁ : (s₁.hub i).1.registry.Has c) (hc₂ : (s₂.hub i).1.registry.Has c)
    {ps : List Published} (hps : List.Forall₂ (Publishes lib) ps s₂.stream.entries)
    (hids : (ps.map fun p => p.1.id).Nodup) (stored : Option String) (count : Option ℕ)
    {messages : List (Text × Bool)}
    (hmessages : messages.map Prod.fst = (s₂.put i c).map fun raw => units (render raw)) :
    ∃ n, n ≤ s₁.stream.entries.length ∧
      ∃ s', (load stored count).onmessages N (some c.userID.string) messages = some s' ∧
        s'.toasts = (news c.userID (ps.drop n)).map told ∧
        s'.count = unread count (news c.userID (ps.drop n)).length := by
  obtain ⟨n, hn, hput⟩ := ((Fleet.Whole.start hinit i).run hkept₁ h₁).put_attached h₂ hkept₂
    (stamped_of_publishes hps) hstarted hsettled hc₁ hc₂
  rw [hput] at hmessages
  have hdrop : ((ps.drop n).map fun p => p.1.id).Nodup :=
    hids.sublist ((List.drop_sublist n ps).map _)
  exact ⟨n, hn, shows_news hrender (List.forall₂_drop n hps) hdrop stored count hmessages⟩

/-- A share of Ann's. -/
def annShares : Published :=
  (⟨⟨7⟩, eventVideoShared, JSONLibrary.newYear, UUID.nil, .videoShared ⟨⟨1⟩, "dQw4w9WgXcQ",
    "<b>\u2028", "t", ⟨2⟩, "Ann"⟩⟩, ⟨⟨1⟩, "dQw4w9WgXcQ", "<b>\u2028", "t", ⟨2⟩, "Ann"⟩)

/-- The entry of it. -/
def annEntry : Notifications.Entry Json :=
  ⟨.of 1 0, JSONLibrary.reference.events.marshal annShares.1⟩

/-- The share is appended and relayed to a page at the first replica. -/
def annRun : List (Fleet.Label Bool Json) := .xadd annEntry :: relays true ⟨0, ⟨7⟩⟩

set_option maxRecDepth 20000 in
/-- `shows_every_share` for a page that is connected before the share. -/
theorem shows_every_share_annRun :
    ∃ s₁ s₂ : Fleet Bool Json,
      (fleet JSONLibrary.reference.events).exec twoReplicas (connects true ⟨0, ⟨7⟩⟩) = some s₁ ∧
      (fleet JSONLibrary.reference.events).exec s₁ annRun = some s₂ ∧
      ∃ n, n ≤ s₁.stream.entries.length ∧
        ∃ s', (load none none).onmessages AuthState.literals (some (UUID.string ⟨7⟩))
            ((s₂.put true ⟨0, ⟨7⟩⟩).map fun raw => (units (Json.text raw), true)) = some s' ∧
          s'.toasts = (news ⟨7⟩ ([annShares].drop n)).map told ∧
          s'.count = unread none (news ⟨7⟩ ([annShares].drop n)).length := by
  have hkept : (fleet JSONLibrary.reference.events).Steps (Fleet.Kept true) twoReplicas
      (connects true ⟨0, ⟨7⟩⟩) := by decide
  have hmid : ((fleet JSONLibrary.reference.events).exec twoReplicas
      (connects true ⟨0, ⟨7⟩⟩)).any (fun s₁ => decide
        ((s₁.pump true).started ≠ none ∧ (s₁.hub true).1.registry.Has ⟨0, ⟨7⟩⟩ ∧
          (fleet JSONLibrary.reference.events).Steps (Fleet.Kept true) s₁ annRun) &&
        ((fleet JSONLibrary.reference.events).exec s₁ annRun).any fun s₂ => decide
          (s₂.Settled true ∧ (s₂.hub true).1.registry.Has ⟨0, ⟨7⟩⟩)) := by decide
  have hentries : ((fleet JSONLibrary.reference.events).exec twoReplicas
      (connects true ⟨0, ⟨7⟩⟩ ++ annRun)).map (fun s => s.stream.entries) = some [annEntry] := rfl
  obtain ⟨s₁, h₁, hdec⟩ := (Option.any_eq_true _ _).1 hmid
  obtain ⟨hdec₁, hend⟩ := Bool.and_eq_true_iff.1 hdec
  obtain ⟨s₂, h₂, hdec₂⟩ := (Option.any_eq_true _ _).1 hend
  obtain ⟨hstarted, hc₁, hkept₂⟩ := of_decide_eq_true hdec₁
  obtain ⟨hsettled, hc₂⟩ := of_decide_eq_true hdec₂
  rw [Machine.exec_append, h₁, Option.bind_some, h₂] at hentries
  have hpublishes : Publishes JSONLibrary.reference annShares annEntry :=
    ⟨rfl, rfl, ⟨_, rfl, rfl⟩⟩
  have hps : List.Forall₂ (Publishes JSONLibrary.reference) [annShares] s₂.stream.entries := by
    have hstream : s₂.stream.entries = [annEntry] := Option.some.inj hentries
    rw [hstream]
    exact .cons hpublishes .nil
  have hmessages : ((s₂.put true ⟨0, ⟨7⟩⟩).map fun raw => (units (Json.text raw), true)).map
      Prod.fst = (s₂.put true ⟨0, ⟨7⟩⟩).map fun raw => units (Json.text raw) := by
    rw [List.map_map]
    rfl
  exact ⟨s₁, s₂, h₁, h₂, shows_every_share AuthState.literals (fun _ => rfl) twoReplicas_init h₁ h₂
    hkept hkept₂ hstarted hsettled hc₁ hc₂ hps (List.nodup_singleton _) none none hmessages⟩

end MessageHook

end Frontend
end YtShare
