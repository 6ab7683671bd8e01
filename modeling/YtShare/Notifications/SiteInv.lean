/-
# The invariant of the site

What an observer of one browser and one replica writes down: the ledger of the
hub, and positions in the stream (`Marks`).  The base is where the page is owed
events from.  Of its connection the observer keeps what the pipe of the client
misses, and how far the replay has read.

`Bridged` is the condition on the steps, and it is on one kind of step only: a
frame that is new to the page, and so moves its cursor, passes over no event
that the page lacks and its connection does not bring.  Everything else may
happen at any time: drops, failed replays, a subscriber that passes events over
or begins to read late.  Under the condition every step keeps `SiteInv`, which
puts together what is known of the subscriber, of the hub, of the connection
(`SocketInv`) and of the page (`PageInv`).
-/

import YtShare.Notifications.Connection

namespace YtShare
namespace Notifications

open Lib Frontend StreamPublisher

variable {Raw : Type} {json : EventJSON Raw} {u : UUID}

/-- The entries of the stream. -/
def Site.entries (s : Site Raw) : List (Entry Raw) := s.pump.stream.entries

/-- What an observer of the site has written down. -/
structure Notes (Raw : Type) where
  ledger : Ledger Raw
  marks : Marks

/-- What is marked about a step.  The base is the position after the initial
cursor, or else the length of the stream when the page's client was first
registered.  What the pipe of a client misses is what the subscriber has passed
on before the client is registered, unless it is in the queue still, and since
then what the hub drops and what the subscriber passes over when `$` is resolved
anew. -/
def Marks.record (json : EventJSON Raw) (m : Marks) (s t : Site Raw) : Site.Label Raw → Marks
  | .pump l =>
      let origin := s.pump.origin m.origin l
      { m with origin, missed := m.missed ++ List.range' m.origin (origin - m.origin) }
  | .post _ true => { m with missed := m.missed ++ [s.pump.pos m.origin] }
  | .hub _ =>
      match s.socket with
      | some k =>
          if ¬s.hub.registry.Has k.client ∧ t.hub.registry.Has k.client then
            { m with
              base := some (m.base.getD s.entries.length)
              missed := absent json s.entries (s.pump.pos m.origin) (t.hub.pipe k.client) }
          else m
      | none => m
  | .connect _ => { m with read := 0 }
  | .run fails =>
      match s.socket with
      | some k => { m with read := readTo json m.base s.entries k.since fails }
      | none => m
  | _ => m

/-- Without a socket the hub leaves no mark. -/
theorem Marks.record_of_none {m : Marks} {s t : Site Raw} (hs : s.socket = none)
    {l : Hub.Label Raw} : m.record json s t (.hub l) = m := by
  simp only [record, hs]

/-- With one it sets the marks anew when it registers the client of the page. -/
theorem Marks.record_hub {m : Marks} {s t : Site Raw} {k : Socket Raw} (hs : s.socket = some k)
    {l : Hub.Label Raw} : m.record json s t (.hub l) =
      if ¬s.hub.registry.Has k.client ∧ t.hub.registry.Has k.client then
        { m with
          base := some (m.base.getD s.entries.length)
          missed := absent json s.entries (s.pump.pos m.origin) (t.hub.pipe k.client) }
      else m := by
  simp only [record, hs]

/-- What is written down about a step. -/
def Notes.record (json : EventJSON Raw) (n : Notes Raw) (s t : Site Raw) (l : Site.Label Raw) :
    Notes Raw :=
  ⟨n.ledger.record s.hub t.hub, n.marks.record json s t l⟩

/-- The notes on a page that has just been loaded. -/
def Notes.start (json : EventJSON Raw) (s : Site Raw) : Notes Raw :=
  ⟨.new, s.page.lastEventId.map fun id => position json s.entries id + 1, 0, [], 0⟩

/-- The site under observation. -/
def observedSite (json : EventJSON Raw) (u : UUID) :
    Machine (Site Raw × Notes Raw) (Site.Label Raw) where
  init p := (site json u).init p.1 ∧ p.2 = .start json p.1
  step p l := ((site json u).step p.1 l).map fun t => (t, p.2.record json p.1 t l)

/-- **The condition on a step.**  When the page receives a frame that is new to
it, it lacks no event before that of the frame which its connection does not
bring. -/
def Bridged (json : EventJSON Raw) (u : UUID) (p : Site Raw × Notes Raw) :
    Site.Label Raw → Prop
  | .receive => ∀ k ∈ p.1.socket, ∀ raw ∈ k.wire.head?, ∀ data ∈ json.unmarshal raw,
      data.id ∉ p.1.page.seenIds → p.2.marks.LosesNone json u p.1.entries p.1.page.handled
        (position json p.1.entries data.id)
  | _ => True

instance (p : Site Raw × Notes Raw) (l : Site.Label Raw) : Decidable (Bridged json u p l) :=
  match l with
  | .receive => inferInstanceAs (Decidable (∀ k ∈ p.1.socket, _))
  | .pump _ | .hub _ | .post _ _ | .xadd _ | .connect _ | .run _ | .write | .opened | .close
  | .cleanup | .reload | .answer _ _ | .recover _ => isTrue trivial

/-- What the subscriber does when it passes an entry on. -/
theorem Site.post_cases (s : Site Raw) {n : ℕ} (hi : s.pump.From n) (hd : Decoded json s.entries)
    {now : Time} {dropped : Bool} {t : Site Raw}
    (ht : s.step json u (.post now dropped) = some t) :
    ∃ p e m h', p.From n ∧ p.stream = s.pump.stream ∧ p.pos n = s.pump.pos n + 1 ∧
      eventAt json s.entries (s.pump.pos n) = some e ∧ (∀ v, m.addressed v = e.isFor v) ∧
      msgID json m = some e.id ∧
      s.hub.step (if dropped then .discard m else .publish m) = some h' ∧
      t = { s with pump := p, hub := h' } := by
  simp only [step] at ht
  split at ht
  · next msg msgs p hc hp =>
    obtain ⟨msg', msgs', hc', hget, hstream, hnext⟩ := hi.dispatch_next hp
    obtain ⟨rfl, -⟩ := List.cons.inj (Call.ranging.inj (hc.symm.trans hc'))
    obtain ⟨e, m, hdec, hpost, haddr, hid⟩ :=
      dispatch_posts (hd.decodes msg (List.mem_of_getElem? hget)) now
    rw [hpost] at ht
    obtain ⟨h', hh, rfl⟩ := Option.map_eq_some_iff.1 ht
    have he : eventAt json s.entries (s.pump.pos n) = some e := by
      rw [eventAt, show s.entries[s.pump.pos n]? = some msg from hget, Option.bind_some, hdec]
    exact ⟨p, e, m, h', hi.step hp, hstream, hnext, he, haddr, hid, hh, rfl⟩
  · cases ht

/-! ### The invariant -/

/-- The position of the subscriber. -/
def Marks.pos (m : Marks) (s : Site Raw) : ℕ := s.pump.pos m.origin

/-- The invariant of the site. -/
structure SiteInv (json : EventJSON Raw) (u : UUID) (p : Site Raw × Notes Raw) : Prop where
  pump : p.1.pump.From p.2.marks.origin
  ledger : LedgerInv p.1.hub p.2.ledger
  decoded : Decoded json p.1.entries
  base : ∀ b, p.2.marks.base = some b → b ≤ p.1.entries.length
  posted : Follow json p.1.entries (p.2.marks.pos p.1) p.2.ledger.accepted
  page : PageInv json u p.1.entries p.2.marks.base p.1.page p.1.recoveries
  socket : ∀ k, p.1.socket = some k →
    SocketInv json u p.1.entries (p.2.marks.pos p.1) p.1.hub p.2.marks p.1.page.handled k

namespace SiteInv

variable {s : Site Raw} {n : Notes Raw}

/-- **An event is published.** -/
theorem xadd (hi : SiteInv json u (s, n)) {x : Entry Raw} {t : Site Raw}
    (ht : Site.step json u s (.xadd x) = some t) :
    SiteInv json u (t, n.record json s t (.xadd x)) := by
  simp only [Site.step] at ht
  split_ifs at ht with hx
  obtain ⟨p, hp, rfl⟩ := Option.map_eq_some_iff.1 ht
  obtain ⟨hmore, hdispatched⟩ := Pump.step_xadd hp
  have hes : ({ s with pump := p } : Site Raw).entries = s.entries ++ [x] := hmore
  have hpos : n.marks.pos { s with pump := p } = n.marks.pos s := by
    rw [Marks.pos, Marks.pos, Pump.pos, Pump.pos, hdispatched]
  have hle : n.marks.pos s ≤ s.entries.length := hi.pump.pos_le
  rw [Notes.record, Ledger.record_self]
  refine ⟨hi.pump.step hp, hi.ledger, ?_, ?_, ?_, ?_, ?_⟩
  · rw [hes]
    exact hi.decoded.add hx
  · intro b hb
    rw [hes, List.length_append]
    exact (hi.base b hb).trans (Nat.le_add_right _ _)
  · show Follow json _ (n.marks.pos { s with pump := p }) _
    rw [hes, hpos]
    exact hi.posted.append hle
  · rw [hes]
    exact hi.page.append
  · intro k hk
    show SocketInv json u _ (n.marks.pos { s with pump := p }) _ _ _ _
    rw [hes, hpos]
    exact (hi.socket k hk).append hle

/-- **The subscriber reads.**  When `$` is resolved anew, its position moves to
the end of the stream, and the pipe misses what is in between. -/
theorem read (hi : SiteInv json u (s, n)) {l : Pump.Label Raw} {p : Pump Raw}
    (hx : ∀ x, l ≠ .xadd x) (hd : l ≠ .dispatch) (hp : s.pump.step l = some p) :
    SiteInv json u ({ s with pump := p }, n.record json s { s with pump := p } (.pump l)) := by
  obtain ⟨hstream, -, hdispatched⟩ := Pump.step_quiet hp hx hd
  have hes : ({ s with pump := p } : Site Raw).entries = s.entries :=
    congrArg Stream.entries hstream
  -- where the subscriber is before the step and after it
  have hmove : s.pump.origin n.marks.origin l = n.marks.origin ∨
      s.pump.dispatched = [] ∧ n.marks.origin ≤ s.pump.origin n.marks.origin l := by
    cases l with
    | receive =>
      rw [Pump.origin]
      split_ifs with hl
      · have hnil := hi.pump.symbolic hl
        have hle : s.pump.pos n.marks.origin ≤ s.entries.length := hi.pump.pos_le
        rw [Pump.pos, hnil] at hle
        exact .inr ⟨hnil, hle⟩
      · exact .inl rfl
    | _ => exact .inl rfl
  have hpos : (n.marks.record json s { s with pump := p } (.pump l)).pos { s with pump := p } =
      s.pump.pos (s.pump.origin n.marks.origin l) := by
    show p.pos (s.pump.origin n.marks.origin l) = _
    rw [Pump.pos, Pump.pos, hdispatched]
  have hle : n.marks.pos s ≤ s.pump.pos (s.pump.origin n.marks.origin l) := by
    rcases hmove with h | ⟨-, h⟩
    · rw [h]
      exact Nat.le_refl _
    · exact Nat.add_le_add_right h _
  rw [Notes.record, Ledger.record_self]
  refine ⟨hi.pump.step hp, hi.ledger, ?_, ?_, ?_, ?_, ?_⟩
  · rw [hes]
    exact hi.decoded
  · rw [hes]
    exact hi.base
  · rw [hes, hpos]
    exact hi.posted.le hle
  · rw [hes]
    exact hi.page
  · intro k hk
    rw [hes, hpos]
    refine (hi.socket k hk).miss rfl rfl (List.subset_append_left _ _) fun i hge hlt => ?_
    refine List.mem_append_right _ (List.mem_range'_1.2 ?_)
    rcases hmove with h | ⟨hnil, -⟩
    · rw [h] at hlt
      exact absurd hge (Nat.not_le.2 hlt)
    · simp only [Marks.pos, Pump.pos, hnil, List.length_nil, Nat.add_zero] at hge hlt
      omega

/-- **The page and its connections move,** and the rest stays. -/
theorem front (hi : SiteInv json u (s, n)) {socket : Option (Socket Raw)}
    {recoveries : List Recovery} {page : NotificationsSocket} {m : Marks}
    (hbase : m.base = n.marks.base) (horigin : m.origin = n.marks.origin)
    (hpage : PageInv json u s.entries n.marks.base page recoveries)
    (hsocket : ∀ k, socket = some k →
      SocketInv json u s.entries (n.marks.pos s) s.hub m page.handled k) :
    SiteInv json u ({ s with socket := socket, recoveries := recoveries, page := page },
      ⟨n.ledger, m⟩) := by
  have hpos : m.pos { s with socket := socket, recoveries := recoveries, page := page } =
      n.marks.pos s := congrArg s.pump.pos horigin
  constructor
  · rw [show (⟨n.ledger, m⟩ : Notes Raw).marks.origin = n.marks.origin from horigin]
    exact hi.pump
  · exact hi.ledger
  · exact hi.decoded
  · intro b hb
    exact hi.base b (hbase ▸ hb)
  · rw [hpos]
    exact hi.posted
  · rw [show (⟨n.ledger, m⟩ : Notes Raw).marks.base = n.marks.base from hbase]
    exact hpage
  · rw [hpos]
    exact hsocket

/-- **The hub moves,** without the subscriber and the page's writer. -/
theorem hub (hi : SiteInv json u (s, n)) {l : Hub.Label Raw} {h' : Hub Raw}
    (hfree : s.Free l = true) (hs : s.hub.step l = some h') :
    SiteInv json u ({ s with hub := h' }, n.record json s { s with hub := h' } (.hub l)) := by
  have hpub : ∀ msg, l ≠ .publish msg := by
    rintro msg rfl
    cases hfree
  have hacc : (n.ledger.record s.hub h').accepted = n.ledger.accepted := by
    refine (accepted_step hs).resolve_right ?_
    rintro ⟨msg, rfl, -⟩
    exact hpub msg rfl
  -- everything but the page's socket
  have hrest : ∀ m : Marks, m.origin = n.marks.origin →
      (∀ b, m.base = some b → b ≤ s.entries.length) →
      PageInv json u s.entries m.base s.page s.recoveries →
      (∀ k, s.socket = some k →
        SocketInv json u s.entries (n.marks.pos s) h' m s.page.handled k) →
      SiteInv json u ({ s with hub := h' }, ⟨n.ledger.record s.hub h', m⟩) := by
    intro m horigin hbase hpage hsocket
    have hpos : m.pos { s with hub := h' } = n.marks.pos s := congrArg s.pump.pos horigin
    refine ⟨?_, hi.ledger.step hs, hi.decoded, hbase, ?_, hpage, ?_⟩
    · show s.pump.From m.origin
      rw [horigin]
      exact hi.pump
    · show Follow json _ (m.pos { s with hub := h' }) (n.ledger.record s.hub h').accepted
      rw [hpos, hacc]
      exact hi.posted
    · rw [hpos]
      exact hsocket
  unfold Notes.record
  rcases Option.eq_none_or_eq_some s.socket with hsock | ⟨k, hsock⟩
  · rw [Marks.record_of_none hsock]
    refine hrest _ rfl hi.base hi.page fun k hk => ?_
    cases hsock.symm.trans hk
  · have hwrite : l ≠ .write k.client := by
      rintro rfl
      simp [Site.Free, hsock] at hfree
    have hk := hi.socket k hsock
    have honly : ∀ k', s.socket = some k' → k' = k := fun k' hk' =>
      Option.some.inj (hk'.symm.trans hsock)
    rw [Marks.record_hub hsock]
    rcases hi.ledger.pipe_step hs hpub hwrite with ⟨hhas, hpipe⟩ | ⟨hhas, hout, hpipe⟩ |
      ⟨hhas, hin, rfl, hreg, hnil, hpipe⟩
    · rw [if_neg fun hj => hj.1 (hhas.1 hj.2)]
      refine hrest _ rfl hi.base hi.page fun k' hk' => ?_
      obtain rfl := honly k' hk'
      exact hk.cut hhas.1 (hpipe ▸ List.prefix_refl _) (fun _ => hpipe)
        (Hub.register_returned hs)
    · rw [if_neg fun hj => hj.1 hhas]
      refine hrest _ rfl hi.base hi.page fun k' hk' => ?_
      obtain rfl := honly k' hk'
      exact hk.cut (fun hhas' => absurd hhas' hout) hpipe (fun hhas' => absurd hhas' hout)
        (Hub.register_returned hs)
    · rw [if_pos ⟨hhas, hin⟩]
      refine hrest _ rfl ?_ (hi.page.based _) ?_
      · intro b hb
        cases hbase : n.marks.base with
        | none =>
          rw [hbase] at hb
          rw [← Option.some.inj hb]
          exact Nat.le_refl _
        | some b' =>
          rw [hbase] at hb
          rw [← Option.some.inj hb]
          exact hi.base b' hbase
      · intro k' hk'
        obtain rfl := honly k' hk'
        -- the messages in the queue were accepted last
        have hqueued : (s.hub.dispatch.buf.filter (·.addressed k'.client.userID)).Sublist
            n.ledger.accepted := by
          rw [show n.ledger.accepted = _ from hi.ledger.queue]
          exact List.filter_sublist.trans (List.sublist_append_right _ _)
        obtain ⟨ps, hsorted, hlt, hids⟩ := hi.posted.frames hqueued
        exact hk.join hi.decoded hreg (by rw [hpipe]; exact hids) hsorted hlt

/-- **The subscriber passes an entry on,** to a hub that drops it or not. -/
theorem post (hi : SiteInv json u (s, n)) {now : Time} {dropped : Bool} {t : Site Raw}
    (ht : Site.step json u s (.post now dropped) = some t) :
    SiteInv json u (t, n.record json s t (.post now dropped)) := by
  obtain ⟨p, e, msg, h', hp, hstream, hnext, he, haddr, hid, hh, rfl⟩ :=
    s.post_cases hi.pump hi.decoded ht
  have hes : ({ s with pump := p, hub := h' } : Site Raw).entries = s.entries :=
    congrArg Stream.entries hstream
  -- everything but the hub and the page's socket
  have hrest : ∀ m : Marks, m.origin = n.marks.origin → m.base = n.marks.base →
      LedgerInv h' (n.ledger.record s.hub h') →
      Follow json s.entries (n.marks.pos s + 1) (n.ledger.record s.hub h').accepted →
      (∀ k, s.socket = some k →
        SocketInv json u s.entries (n.marks.pos s + 1) h' m s.page.handled k) →
      SiteInv json u ({ s with pump := p, hub := h' }, ⟨n.ledger.record s.hub h', m⟩) := by
    intro m horigin hbase hledger hposted hsocket
    have hpos : m.pos { s with pump := p, hub := h' } = n.marks.pos s + 1 := by
      rw [Marks.pos, horigin]
      exact hnext
    refine ⟨?_, hledger, ?_, ?_, ?_, ?_, ?_⟩
    · show p.From m.origin
      rw [horigin]
      exact hp
    · rw [hes]
      exact hi.decoded
    · intro b hb
      rw [hes]
      exact hi.base b (hbase ▸ hb)
    · rw [hes, hpos]
      exact hposted
    · rw [hes, show (⟨n.ledger.record s.hub h', m⟩ : Notes Raw).marks.base = n.marks.base
        from hbase]
      exact hi.page
    · rw [hes, hpos]
      exact hsocket
  unfold Notes.record
  cases dropped with
  | false =>
    have hh : s.hub.step (.publish msg) = some h' := hh
    refine hrest _ rfl rfl (hi.ledger.step hh) ?_ fun k hk => ?_
    · rcases accepted_step (b := n.ledger) hh with hacc | ⟨m', hm', hacc⟩
      · rw [hacc]
        exact hi.posted.le (Nat.le_succ _)
      · obtain rfl := Hub.Label.publish.inj hm'
        rw [hacc]
        exact hi.posted.snoc he hid
    · have hki := hi.socket k hk
      obtain ⟨hreg, hregister, hpipe⟩ := Hub.pipe_publish hh k.client
      refine hki.advance he hreg hregister hpipe (fun hhas => ?_) fun hout => ?_
      · rw [hki.user, haddr]
        by_cases hu : e.isFor u = true
        · rw [if_pos ⟨hhas, hu⟩, if_pos hu]
          exact frameIDs_singleton hid
        · rw [if_neg fun hb => hu hb.2, if_neg hu]
          rfl
      · exact if_neg fun hb => hout hb.1
  | true =>
    obtain rfl : h' = s.hub := Hub.discarded hh
    rw [Ledger.record_self] at hrest ⊢
    refine hrest _ rfl rfl hi.ledger (hi.posted.le (Nat.le_succ _)) fun k hk => ?_
    refine (hi.socket k hk).miss rfl rfl (List.subset_append_left _ _) fun i hge hlt => ?_
    refine List.mem_append_right _ (List.mem_singleton.2 ?_)
    exact Nat.le_antisymm (Nat.le_of_lt_succ hlt) hge

/-- The writer of the page's client writes a frame. -/
theorem write (hi : SiteInv json u (s, n)) {t : Site Raw}
    (ht : Site.step json u s .write = some t) :
    SiteInv json u (t, n.record json s t .write) := by
  simp only [Site.step] at ht
  split at ht
  · next k hsock =>
    split at ht
    · next raw ch hr hrecv =>
      obtain ⟨h', hh, rfl⟩ := Option.map_eq_some_iff.1 ht
      have hk := hi.socket k hsock
      obtain rfl : h' = s.hub.setSend k.client ch := Hub.written hh hrecv
      have hacc : (n.ledger.record s.hub (s.hub.setSend k.client ch)).accepted =
          n.ledger.accepted := by
        refine (accepted_step hh).resolve_right ?_
        rintro ⟨msg, heq, -⟩
        cases heq
      refine ⟨hi.pump, hi.ledger.step hh, hi.decoded, hi.base, ?_, hi.page, ?_⟩
      · show Follow json _ _ (n.ledger.record s.hub (s.hub.setSend k.client ch)).accepted
        rw [hacc]
        exact hi.posted
      · rintro k' hk'
        obtain rfl := Option.some.inj hk'
        exact hk.write hr rfl rfl (Hub.pipe_write hrecv)
    · cases ht
  · cases ht

/-- A connection starts to run. -/
theorem run (hi : SiteInv json u (s, n)) {fails : Bool} {t : Site Raw}
    (ht : Site.step json u s (.run fails) = some t) :
    SiteInv json u (t, n.record json s t (.run fails)) := by
  simp only [Site.step] at ht
  split at ht
  · next k hsock =>
    split_ifs at ht with hrun
    obtain rfl := Option.some.inj ht
    have hmarks : ∀ socket, n.record json s { s with socket := socket } (.run fails) =
        ⟨n.ledger, { n.marks with
          read := readTo json n.marks.base s.entries k.since fails }⟩ := by
      intro socket
      rw [Notes.record, Ledger.record_self]
      simp only [Marks.record, hsock]
    rw [hmarks]
    refine hi.front rfl rfl hi.page fun k' hk' => ?_
    obtain rfl := Option.some.inj hk'
    exact (hi.socket k hsock).run hi.decoded hi.base hrun.1 hrun.2 fails
  · cases ht

/-- The page connects: nothing is under way to its new client. -/
theorem connect (hi : SiteInv json u (s, n)) {addr : ℕ} {t : Site Raw}
    (ht : Site.step json u s (.connect addr) = some t) :
    SiteInv json u (t, n.record json s t (.connect addr)) := by
  simp only [Site.step] at ht
  split at ht
  · split_ifs at ht with hidle
    obtain rfl := Option.some.inj ht
    have hpending : (s.hub.register ⟨addr, u⟩).Pending := .inl hidle
    have hout : ¬s.hub.registry.Has ⟨addr, u⟩ := fun hhas =>
      hi.ledger.hub.called _ hhas hpending
    have hpipe : s.hub.pipe ⟨addr, u⟩ = [] := hi.ledger.pipe_of_pending hpending
    rw [Notes.record, Ledger.record_self]
    refine hi.front (m := { n.marks with read := 0 }) rfl rfl hi.page fun k hk => ?_
    obtain rfl := Option.some.inj hk
    refine ⟨rfl, fun hhas => absurd hhas hout, fun _ => hpipe, Nat.zero_le _,
      fun _ => ⟨rfl, hi.page.cursor⟩, fun _ => ?_, nofun, nofun⟩
    rw [hpipe]
    exact ⟨trivial, fun hhas => absurd hhas hout⟩
  · cases ht

/-- The page receives a frame. -/
theorem receive (hi : SiteInv json u (s, n)) {t : Site Raw}
    (hg : Bridged json u (s, n) .receive)
    (ht : Site.step json u s .receive = some t) :
    SiteInv json u (t, n.record json s t .receive) := by
  simp only [Site.step] at ht
  split at ht
  · next k hsock =>
    split at ht
    · next raw rest hopened hw =>
      obtain rfl := Option.some.inj ht
      have hover := hg k hsock raw (by rw [hw]; rfl)
      obtain ⟨hpage, hk⟩ := (hi.socket k hsock).receive hi.page hw hover hi.decoded
      rw [Notes.record, Ledger.record_self]
      refine hi.front rfl rfl hpage fun k' hk' => ?_
      obtain rfl := Option.some.inj hk'
      exact hk
    · cases ht
  · cases ht

/-- A call of `recoverViaHttp` is answered, or fails. -/
theorem answer (hi : SiteInv json u (s, n)) {i : ℕ} {fails : Bool} {t : Site Raw}
    (ht : Site.step json u s (.answer i fails) = some t) :
    SiteInv json u (t, n.record json s t (.answer i fails)) := by
  simp only [Site.step] at ht
  split at ht
  · next id hask =>
    obtain rfl := Option.some.inj ht
    have hfits := hi.page.recoveries _ (List.mem_of_getElem? hask)
    rw [Notes.record, Ledger.record_self]
    refine hi.front rfl rfl ⟨hi.page.seen, hi.page.cursor, fun r hr => ?_⟩ hi.socket
    cases fails with
    | true => exact hi.page.recoveries r (List.mem_of_mem_eraseIdx hr)
    | false =>
      rcases List.mem_or_eq_of_mem_set hr with hr | rfl
      · exact hi.page.recoveries r hr
      · obtain ⟨b, k, e, hb, he, rfl, hc⟩ := hfits
        refine ⟨b, hb, ?_⟩
        rw [replayAfter, show position json s.pump.stream.entries e.id = k from
          hi.decoded.position he, ← List.filter_true (l := List.filterMap _ _)]
        exact (caught_window (fun _ _ => rfl) _ hc).1
  · cases ht

/-- The page receives an answer. -/
theorem recover (hi : SiteInv json u (s, n)) {i : ℕ} {t : Site Raw}
    (ht : Site.step json u s (.recover i) = some t) :
    SiteInv json u (t, n.record json s t (.recover i)) := by
  simp only [Site.step] at ht
  split at ht
  · next events hanswer =>
    obtain rfl := Option.some.inj ht
    obtain ⟨b, hb, ho⟩ := hi.page.recoveries _ (List.mem_of_getElem? hanswer)
    have hpage : PageInv json u s.entries (some b) s.page s.recoveries := hb ▸ hi.page
    obtain ⟨hpage', hsub⟩ := hpage.handleAll ho
    rw [Notes.record, Ledger.record_self]
    refine hi.front rfl rfl ⟨hpage'.seen, ?_, fun r hr => ?_⟩ fun k hk => ?_
    · rw [show n.marks.base = some b from hb]
      exact hpage'.cursor
    · rw [show n.marks.base = some b from hb]
      exact hpage'.recoveries r (List.mem_of_mem_eraseIdx hr)
    · exact (hi.socket k hk).handled hsub
  · cases ht

/-- **The step lemma.** -/
theorem step (hi : SiteInv json u (s, n)) {l : Site.Label Raw} {t : Site Raw}
    (hg : Bridged json u (s, n) l) (ht : Site.step json u s l = some t) :
    SiteInv json u (t, n.record json s t l) := by
  cases l with
  | xadd x => exact hi.xadd ht
  | pump l =>
    simp only [Site.step] at ht
    split at ht
    · cases ht
    · cases ht
    · next hx hd =>
      obtain ⟨p, hp, rfl⟩ := Option.map_eq_some_iff.1 ht
      exact hi.read hx hd hp
  | post now dropped => exact hi.post ht
  | hub l =>
    simp only [Site.step] at ht
    split_ifs at ht with hfree
    obtain ⟨h', hh, rfl⟩ := Option.map_eq_some_iff.1 ht
    exact hi.hub hfree hh
  | connect addr => exact hi.connect ht
  | run fails => exact hi.run ht
  | write => exact hi.write ht
  | opened =>
    obtain ⟨k, hsock, rfl⟩ := Option.map_eq_some_iff.1 ht
    have hk := hi.socket k hsock
    rw [Notes.record, Ledger.record_self]
    refine hi.front rfl rfl hi.page fun k' hk' => ?_
    obtain rfl := Option.some.inj hk'
    exact ⟨hk.user, hk.based, hk.unbased, hk.read, hk.waiting, hk.queued, hk.returned, hk.inbound⟩
  | receive => exact hi.receive hg ht
  | close =>
    obtain ⟨k, -, rfl⟩ := Option.map_eq_some_iff.1 ht
    rw [Notes.record, Ledger.record_self]
    refine hi.front rfl rfl ⟨hi.page.seen, hi.page.cursor, fun r hr => ?_⟩ nofun
    split_ifs at hr
    · exact hi.page.recoveries r hr
    · rcases List.mem_append.1 hr with hr | hr
      · exact hi.page.recoveries r hr
      · obtain ⟨id, hid, rfl⟩ := Option.map_eq_some_iff.1 (Option.mem_toList.1 hr)
        exact hi.page.cursor id hid
  | cleanup =>
    obtain rfl := Option.some.inj ht
    rw [Notes.record, Ledger.record_self]
    exact hi.front rfl rfl hi.page nofun
  | reload =>
    obtain rfl := Option.some.inj ht
    rw [Notes.record, Ledger.record_self]
    refine hi.front rfl rfl ⟨?_, hi.page.cursor, nofun⟩ nofun
    intro id hid
    exact absurd hid (Finset.notMem_empty id)
  | answer i fails => exact hi.answer ht
  | recover i => exact hi.recover ht

end SiteInv

/-- A page that has just been loaded. -/
theorem siteInv_init {p : Site Raw × Notes Raw} (hp : (observedSite json u).init p) :
    SiteInv json u p := by
  obtain ⟨s, n⟩ := p
  obtain ⟨⟨hpump, hhub, hsock, hrec, hd, lastEventId, hpage, hknown⟩, hn⟩ := hp
  obtain rfl : n = Notes.start json s := hn
  obtain ⟨hlast, hcall, -, hnil⟩ := hpump
  have hcursor : s.page.lastEventId = lastEventId := by rw [hpage]; rfl
  -- the entry that an initial cursor is at
  have hat : ∀ id, lastEventId = some id → ∃ k e, eventAt json s.entries k = some e ∧
      e.id = id ∧ position json s.entries id = k := by
    intro id hid
    obtain ⟨x, hx, heq⟩ := List.mem_map.1 (hknown id hid)
    obtain ⟨e, hdec, rfl⟩ := Option.map_eq_some_iff.1 heq
    obtain ⟨k, hk⟩ := List.getElem?_of_mem hx
    have he : eventAt json s.entries k = some e := by
      rw [eventAt, show s.entries[k]? = some x from hk, Option.bind_some, hdec]
    exact ⟨k, e, he, rfl, hd.position he⟩
  refine ⟨.inl ⟨⟨hlast, hnil, .inl hcall⟩, rfl⟩, ?_, hd, ?_,
    ⟨[], .nil, fun _ h => absurd h List.not_mem_nil, rfl⟩, ⟨?_, ?_, ?_⟩, ?_⟩
  · rw [show (s, Notes.start json s).1.hub = Hub.new from hhub]
    exact LedgerInv.new
  · intro b hb
    obtain ⟨id, hid, rfl⟩ := Option.map_eq_some_iff.1 hb
    obtain ⟨k, e, he, -, hpos⟩ := hat id (hcursor ▸ hid)
    rw [hpos]
    exact lt_of_eventAt he
  · intro id hid
    rw [show (s, Notes.start json s).1.page = _ from hpage] at hid
    exact absurd hid (Finset.notMem_empty id)
  · intro id hid
    obtain ⟨k, e, he, heid, hpos⟩ := hat id (hcursor ▸ hid)
    refine ⟨k + 1, k, e, ?_, he, heid, caught_self⟩
    rw [Notes.start, show s.page.lastEventId = some id from hid, Option.map_some, hpos]
  · intro r hr
    rw [show (s, Notes.start json s).1.recoveries = [] from hrec] at hr
    cases hr
  · intro k hk
    cases hsock.symm.trans hk

end Notifications
end YtShare
