/-
# A connection

What is on its way to the page over its current socket: the frames written to
the socket, and behind them the pipe of its client in the hub.

Of a connection an observer writes down the positions that its pipe misses: what
the subscriber had passed on before the client was registered, what the hub
dropped since, and what the subscriber passed over.  Before the connection runs,
the pipe is in order by itself, in what it does not miss (`SocketInv.queued`).
When it starts to run, the frames of the replay come in front, and the whole is
in order behind what the page has handled, in what the replay has read or the
pipe does not miss (`SocketInv.run`).  It stays so while the hub appends to the
pipe (`SocketInv.advance`), cuts it off (`SocketInv.cut`) or drops an event
(`SocketInv.miss`), and while the page takes frame by frame
(`SocketInv.receive`).  Only there does it matter what is missed: no frame may
come that is new to the page and stands behind an event that it lacks.
-/

import YtShare.Notifications.Coverage

namespace YtShare
namespace Notifications

open Lib Frontend StreamPublisher

variable {Raw : Type}

/-- The positions that an observer of the page has written down: the one from
which on it is to handle its events, the one that `$` stood for when the
subscriber used it last, those whose events do not come through the pipe of its
client, and the one up to which the replay of its connection has read. -/
structure Marks where
  base : Option ℕ
  origin : ℕ
  missed : List ℕ
  read : ℕ

/-- The event comes through the pipe, if the subscriber passes it on. -/
def Marks.Piped (m : Marks) (i : ℕ) : Prop := i ∉ m.missed

/-- The event is owed to the page and comes over its connection. -/
def Marks.Brings (m : Marks) (b i : ℕ) : Prop := b ≤ i ∧ (i < m.read ∨ m.Piped i)

/-- The position up to which the replay of a connection reads. -/
def readTo (json : EventJSON Raw) (base : Option ℕ) (es : List (Entry Raw)) (since : Option UUID)
    (fails : Bool) : ℕ :=
  match since with
  | none => base.getD 0
  | some id =>
      if fails then position json es id + 1
      else min (position json es id + 1 + clampLimit wsReplayLimit) es.length

/-- The positions before `pos` whose events are not among the frames. -/
def absent (json : EventJSON Raw) (es : List (Entry Raw)) (pos : ℕ) (frames : List Raw) : List ℕ :=
  (List.range pos).filter fun i =>
    !(eventAt json es i).any fun e => decide (e.id ∈ frameIDs json frames)

/-- The event at a position is for the user and not among `H`. -/
def lacks (json : EventJSON Raw) (u : UUID) (es : List (Entry Raw)) (H : List UUID) (i : ℕ) :
    Bool :=
  (eventAt json es i).any fun e => e.isFor u && decide (e.id ∉ H)

/-- Of the events after the base and before position `k` a page that has handled
`H` lacks none that its connection does not bring: none that the pipe misses and
the replay has not read. -/
def Marks.LosesNone (json : EventJSON Raw) (u : UUID) (m : Marks) (es : List (Entry Raw))
    (H : List UUID) (k : ℕ) : Prop :=
  ∀ b ∈ m.base, ∀ i ∈ m.missed, b ≤ i → m.read ≤ i → i < k → lacks json u es H i = false

instance (json : EventJSON Raw) (u : UUID) (m : Marks) (es : List (Entry Raw)) (H : List UUID)
    (k : ℕ) : Decidable (m.LosesNone json u es H k) :=
  inferInstanceAs (Decidable (∀ b ∈ m.base, _))

/-- An event before `pos` that is not absent is among the frames. -/
theorem mem_frameIDs_of_not_absent {json : EventJSON Raw} {es : List (Entry Raw)} {pos i : ℕ}
    {frames : List Raw} {e : Event} (hi : i ∉ absent json es pos frames) (hlt : i < pos)
    (he : eventAt json es i = some e) : e.id ∈ frameIDs json frames := by
  by_contra hno
  refine hi (List.mem_filter.2 ⟨List.mem_range.2 hlt, ?_⟩)
  rw [he, Option.any_some, decide_eq_false hno]
  rfl

/-- What holds of a socket, with the subscriber at position `pos` and the events
`H` handled by the page. -/
structure SocketInv (json : EventJSON Raw) (u : UUID) (es : List (Entry Raw)) (pos : ℕ)
    (h : Hub Raw) (m : Marks) (H : List UUID) (k : Socket Raw) : Prop where
  user : k.client.userID = u
  based : h.registry.Has k.client → m.base ≠ none
  unbased : m.base = none → k.wire ++ h.pipe k.client = []
  read : m.read ≤ es.length
  waiting : k.running = false → k.wire = [] ∧ ∀ id, k.since = some id →
    Reached json u es m.base H id
  queued : k.running = false →
    InOrder (Ready json u es m.Piped) [] (frameIDs json (h.pipe k.client)) ∧
      (h.registry.Has k.client →
        Caught json u es m.Piped pos ([] ++ frameIDs json (h.pipe k.client)))
  returned : k.running = true → h.register k.client = .returned
  inbound : k.running = true → ∀ b, m.base = some b →
    InOrder (Ready json u es (m.Brings b)) H (frameIDs json (k.wire ++ h.pipe k.client)) ∧
      Caught json u es (b ≤ ·) m.read (H ++ frameIDs json k.wire) ∧
      (h.registry.Has k.client →
        Caught json u es (m.Brings b) pos (H ++ frameIDs json (k.wire ++ h.pipe k.client)))

namespace SocketInv

variable {json : EventJSON Raw} {u : UUID} {es more : List (Entry Raw)} {pos pos' : ℕ}
  {h h' : Hub Raw} {m : Marks} {H G : List UUID} {k : Socket Raw}

/-- Events are published. -/
theorem append (hi : SocketInv json u es pos h m H k) (hle : pos ≤ es.length) :
    SocketInv json u (es ++ more) pos h m H k := by
  constructor
  · exact hi.user
  · exact hi.based
  · exact hi.unbased
  · rw [List.length_append]
    exact hi.read.trans (Nat.le_add_right _ _)
  · intro hr
    obtain ⟨hw, hs⟩ := hi.waiting hr
    exact ⟨hw, fun id hid => (hs id hid).append⟩
  · intro hr
    obtain ⟨ho, hc⟩ := hi.queued hr
    exact ⟨ho.imp fun _ _ h => h.append, fun hhas => (hc hhas).append hle⟩
  · exact hi.returned
  · intro hr b hb
    obtain ⟨ho, hread, hc⟩ := hi.inbound hr b hb
    exact ⟨ho.imp fun _ _ h => h.append, hread.append hi.read, fun hhas => (hc hhas).append hle⟩

/-- The page handles events that did not come over this socket. -/
theorem handled (hi : SocketInv json u es pos h m H k) (hH : H ⊆ G) :
    SocketInv json u es pos h m G k := by
  have happend : ∀ ids : List UUID, H ++ ids ⊆ G ++ ids := fun ids =>
    List.append_subset.2 ⟨List.Subset.trans hH (List.subset_append_left _ _),
      List.subset_append_right _ _⟩
  constructor
  · exact hi.user
  · exact hi.based
  · exact hi.unbased
  · exact hi.read
  · intro hr
    obtain ⟨hw, hs⟩ := hi.waiting hr
    exact ⟨hw, fun id hid => (hs id hid).mono hH⟩
  · exact hi.queued
  · exact hi.returned
  · intro hr b hb
    obtain ⟨ho, hread, hc⟩ := hi.inbound hr b hb
    exact ⟨ho.mono (fun _ _ _ hsub h => h.mono hsub) hH, hread.mono (happend _),
      fun hhas => (hc hhas).mono (happend _)⟩

/-- **The subscriber passes an event on,** which enters the pipe when it is for
the user and the client is registered. -/
theorem advance (hi : SocketInv json u es pos h m H k) {e : Event}
    (he : eventAt json es pos = some e) (hreg : h'.registry = h.registry)
    (hregister : h'.register = h.register) {new : List Raw}
    (hpipe : h'.pipe k.client = h.pipe k.client ++ new)
    (hnew : h.registry.Has k.client →
      frameIDs json new = if e.isFor u = true then [e.id] else [])
    (hnone : ¬h.registry.Has k.client → new = []) :
    SocketInv json u es (pos + 1) h' m H k := by
  have hsame : ¬h.registry.Has k.client → h'.pipe k.client = h.pipe k.client := by
    intro hout
    rw [hpipe, hnone hout, List.append_nil]
  constructor
  · exact hi.user
  · rw [hreg]
    exact hi.based
  · intro hb
    rw [hsame fun hhas => hi.based hhas hb]
    exact hi.unbased hb
  · exact hi.read
  · exact hi.waiting
  · intro hr
    obtain ⟨ho, hc⟩ := hi.queued hr
    rw [hreg]
    by_cases hhas : h.registry.Has k.client
    · obtain ⟨ho', hc'⟩ := InOrder.extend ho (hc hhas) he
      rw [hpipe, frameIDs_append, hnew hhas]
      exact ⟨ho', fun _ => hc'⟩
    · rw [hsame hhas]
      exact ⟨ho, fun hh => absurd hh hhas⟩
  · rw [hregister]
    exact hi.returned
  · intro hr b hb
    obtain ⟨ho, hread, hc⟩ := hi.inbound hr b hb
    rw [hreg]
    by_cases hhas : h.registry.Has k.client
    · obtain ⟨ho', hc'⟩ := InOrder.extend ho (hc hhas) he
      rw [hpipe, ← List.append_assoc, frameIDs_append, hnew hhas]
      exact ⟨ho', hread, fun _ => hc'⟩
    · rw [hsame hhas]
      exact ⟨ho, hread, fun hh => absurd hh hhas⟩

/-- **The pipe misses what the subscriber goes past,** because the hub drops it or
because the subscriber passes it over. -/
theorem miss (hi : SocketInv json u es pos h m H k) {n : Marks} (hbase : n.base = m.base)
    (hread : n.read = m.read) (hsub : m.missed ⊆ n.missed)
    (hnew : ∀ i, pos ≤ i → i < pos' → i ∈ n.missed) : SocketInv json u es pos' h n H k := by
  have hpiped : ∀ i, n.Piped i → m.Piped i := fun i hn hm => hn (hsub hm)
  have hbrings : ∀ b i, n.Brings b i → m.Brings b i := by
    rintro b i ⟨hb, hi⟩
    rw [hread] at hi
    exact ⟨hb, hi.imp_right (hpiped i)⟩
  constructor
  · exact hi.user
  · rw [hbase]
    exact hi.based
  · rw [hbase]
    exact hi.unbased
  · rw [hread]
    exact hi.read
  · rw [hbase]
    exact hi.waiting
  · intro hr
    obtain ⟨ho, hc⟩ := hi.queued hr
    refine ⟨ho.imp fun _ _ h => h.anti hpiped, fun hhas i e hp hlt he hu => ?_⟩
    rcases Nat.lt_or_ge i pos with hi | hi
    · exact hc hhas i e (hpiped i hp) hi he hu
    · exact absurd (hnew i hi hlt) hp
  · exact hi.returned
  · intro hr b hb
    obtain ⟨ho, hpast, hc⟩ := hi.inbound hr b (hbase ▸ hb)
    rw [hread]
    refine ⟨ho.imp fun _ _ h => h.anti (hbrings b), hpast, fun hhas i e hp hlt he hu => ?_⟩
    rcases Nat.lt_or_ge i pos with hi | hi
    · exact hc hhas i e (hbrings b i hp) hi he hu
    · -- what is missed can only come by the replay
      have hlt : i < m.read := hread ▸ hp.2.resolve_right fun hn => hn (hnew i hi hlt)
      rw [frameIDs_append, ← List.append_assoc]
      exact List.mem_append_left _ (hpast i e hp.1 hlt he hu)

/-- **The hub moves on.**  The pipe stays, or its end is cut off with the client
leaving. -/
theorem cut (hi : SocketInv json u es pos h m H k)
    (hhas : h'.registry.Has k.client → h.registry.Has k.client)
    (hpre : h'.pipe k.client <+: h.pipe k.client)
    (hsame : h'.registry.Has k.client → h'.pipe k.client = h.pipe k.client)
    (hreturned : h.register k.client = .returned → h'.register k.client = .returned) :
    SocketInv json u es pos h' m H k := by
  have hids : ∀ {xs ys : List Raw}, xs <+: ys → frameIDs json xs <+: frameIDs json ys :=
    fun hp => hp.filterMap _
  have hinbound : k.wire ++ h'.pipe k.client <+: k.wire ++ h.pipe k.client :=
    (List.prefix_append_right_inj _).2 hpre
  constructor
  · exact hi.user
  · exact fun hh => hi.based (hhas hh)
  · intro hb
    rw [hi.unbased hb] at hinbound
    exact List.prefix_nil.1 hinbound
  · exact hi.read
  · exact hi.waiting
  · intro hr
    obtain ⟨ho, hc⟩ := hi.queued hr
    refine ⟨ho.of_prefix (hids hpre), fun hh => ?_⟩
    rw [hsame hh]
    exact hc (hhas hh)
  · exact fun hr => hreturned (hi.returned hr)
  · intro hr b hb
    obtain ⟨ho, hread, hc⟩ := hi.inbound hr b hb
    refine ⟨ho.of_prefix (hids hinbound), hread, fun hh => ?_⟩
    rw [hsame hh]
    exact hc (hhas hh)

/-- **The client is registered,** with nothing in its pipe but what lay in the
queue already, in the order of the stream. -/
theorem join (hi : SocketInv json u es pos h m H k) (hd : Decoded json es)
    (hregister : h.register k.client = .selecting) {ps : List ℕ}
    (hids : frameIDs json (h'.pipe k.client) = eventIDs json es ps)
    (hsorted : ps.Pairwise (· < ·)) (hlt : ∀ i ∈ ps, i < pos) :
    SocketInv json u es pos h'
      { m with
        base := some (m.base.getD es.length)
        missed := absent json es pos (h'.pipe k.client) } H k := by
  have hrunning : ¬k.running = true := by
    intro hr
    cases hregister.symm.trans (hi.returned hr)
  constructor
  · exact hi.user
  · exact fun _ => nofun
  · exact nofun
  · exact hi.read
  · intro hr
    obtain ⟨hw, hs⟩ := hi.waiting hr
    exact ⟨hw, fun id hid => (hs id hid).based es.length⟩
  · intro _
    constructor
    · rw [hids]
      refine inOrder_eventIDs hd [] hsorted fun i e hp hj he _ => ?_
      obtain ⟨j, hj, hij⟩ := hj
      rw [List.nil_append, ← hids]
      exact mem_frameIDs_of_not_absent hp (hij.trans (hlt j hj)) he
    · intro _ i e hp hlt he _
      exact mem_frameIDs_of_not_absent hp hlt he
  · exact fun hr => absurd hr hrunning
  · exact fun hr => absurd hr hrunning

/-- **What the replay brings** follows what the page has handled. -/
theorem backlog_caught (hd : Decoded json es) {b : ℕ} (hb : m.base = some b)
    {since : Option UUID} (hs : ∀ id, since = some id → Reached json u es m.base H id)
    (fails : Bool) :
    InOrder (Ready json u es (b ≤ ·)) H (frameIDs json (Site.backlog json u es since fails)) ∧
      Caught json u es (b ≤ ·) (readTo json m.base es since fails)
        (H ++ frameIDs json (Site.backlog json u es since fails)) := by
  cases since with
  | none =>
    refine ⟨trivial, ?_⟩
    rw [readTo, hb]
    exact caught_self
  | some id =>
    obtain ⟨b', i, e, hb', he, rfl, hc⟩ := hs id rfl
    obtain rfl := Option.some.inj (hb.symm.trans hb')
    rw [Site.backlog, readTo, hd.position he]
    cases fails with
    | true =>
      refine ⟨trivial, ?_⟩
      exact hc.mono (List.subset_append_left _ _)
    | false =>
      have hmarshal : ∀ e' ∈ replayAfter json es e.id wsReplayLimit,
          (json.marshal e').isSome = true := by
        intro e' he'
        obtain ⟨x, hx, hdec⟩ := List.mem_filterMap.1 he'
        obtain ⟨e'', hdec', -, hm⟩ :=
          hd.decodes x (List.mem_of_mem_drop (List.mem_of_mem_take hx))
        obtain rfl := Option.some.inj (hdec.symm.trans hdec')
        exact hm
      simp only [Bool.false_eq_true, if_false]
      rw [frameIDs_writeBacklog _ _ (Nat.le_refl _) hmarshal, replayAfter, hd.position he]
      exact caught_window (fun _ hu => hu) _ hc

/-- **The connection starts to run:** the frames of the replay come in front of
the pipe. -/
theorem run (hi : SocketInv json u es pos h m H k) (hd : Decoded json es)
    (hbase : ∀ b, m.base = some b → b ≤ es.length) (hr : k.running = false)
    (hreg : h.register k.client = .returned) (fails : Bool) :
    SocketInv json u es pos h { m with read := readTo json m.base es k.since fails } H
      { k with running := true, wire := Site.backlog json u es k.since fails } := by
  obtain ⟨hwire, hs⟩ := hi.waiting hr
  obtain ⟨hqueued, hcomplete⟩ := hi.queued hr
  constructor
  · exact hi.user
  · exact hi.based
  · intro hb
    have hpipe := hi.unbased hb
    rw [hwire] at hpipe
    cases hsince : k.since with
    | none => exact hpipe
    | some id =>
      obtain ⟨b, -, -, hb', -⟩ := hs id hsince
      cases hb.symm.trans hb'
  · cases hsince : k.since with
    | none =>
      cases hb : m.base with
      | none => exact Nat.zero_le _
      | some b => exact hbase b hb
    | some id =>
      obtain ⟨b, i, e, -, he, rfl, -⟩ := hs id hsince
      show readTo json m.base es (some e.id) fails ≤ es.length
      rw [readTo, hd.position he]
      split_ifs
      · exact lt_of_eventAt he
      · exact Nat.min_le_right _ _
  · exact nofun
  · exact nofun
  · exact fun _ => hreg
  · intro _ b hb
    obtain ⟨ho, hread⟩ := backlog_caught hd hb hs fails
    rw [frameIDs_append]
    refine ⟨inOrder_append.2 ⟨ho.imp fun _ _ h => h.anti fun _ hi => hi.1, ?_⟩, hread,
      fun hhas => ?_⟩
    · have hshift := hqueued.shift (G := H ++ frameIDs json (Site.backlog json u es k.since fails))
        fun _ _ hready => hready.bridge hread fun _ hi => hi
      rwa [List.append_nil] at hshift
    · rw [← List.append_assoc]
      exact hread.bridge (hcomplete hhas) fun _ hi => hi

/-- The writer of the client takes a frame from the pipe to the wire. -/
theorem write (hi : SocketInv json u es pos h m H k) (hr : k.running = true) {raw : Raw}
    (hreg : h'.registry = h.registry) (hregister : h'.register = h.register)
    (hpipe : h.pipe k.client = raw :: h'.pipe k.client) :
    SocketInv json u es pos h' m H { k with wire := k.wire ++ [raw] } := by
  have hsame : k.wire ++ [raw] ++ h'.pipe k.client = k.wire ++ h.pipe k.client := by
    rw [hpipe, List.append_assoc]
    rfl
  constructor
  · exact hi.user
  · rw [hreg]
    exact hi.based
  · intro hb
    exact hsame.trans (hi.unbased hb)
  · exact hi.read
  · exact fun hw => absurd (hr.symm.trans hw) nofun
  · exact fun hw => absurd (hr.symm.trans hw) nofun
  · rw [hregister]
    exact hi.returned
  · intro _ b hb
    obtain ⟨ho, hread, hc⟩ := hi.inbound hr b hb
    rw [hreg, hsame]
    refine ⟨ho, hread.mono ?_, hc⟩
    rw [frameIDs_append, ← List.append_assoc]
    exact List.subset_append_left _ _

/-- **The page receives a frame.**  If it is new to the page, no event stands
before it that the page lacks and the connection does not bring. -/
theorem receive {page : NotificationsSocket} {recoveries : List Recovery}
    (hi : SocketInv json u es pos h m page.handled k)
    (hp : PageInv json u es m.base page recoveries) {raw : Raw} {rest : List Raw}
    (hw : k.wire = raw :: rest)
    (hover : ∀ data, json.unmarshal raw = some data → data.id ∉ page.seenIds →
      m.LosesNone json u es page.handled (position json es data.id))
    (hd : Decoded json es) :
    PageInv json u es m.base (Site.onMessage json page raw) recoveries ∧
      SocketInv json u es pos h m (Site.onMessage json page raw).handled
        { k with wire := rest } := by
  have hr : k.running = true := by
    by_contra hno
    have hnil := (hi.waiting (Bool.eq_false_iff.2 hno)).1
    rw [hw] at hnil
    cases hnil
  obtain ⟨b, hb⟩ : ∃ b, m.base = some b := by
    refine Option.ne_none_iff_exists'.1 fun hb => ?_
    have hnil := hi.unbased hb
    rw [hw] at hnil
    cases hnil
  obtain ⟨ho, hread, hc⟩ := hi.inbound hr b hb
  -- what remains, once the frame has been dealt with
  have hrest : ∀ G,
      InOrder (Ready json u es (m.Brings b)) G (frameIDs json (rest ++ h.pipe k.client)) →
      (page.handled ++ frameIDs json [raw] ⊆ G) →
      SocketInv json u es pos h m G { k with wire := rest } := by
    intro G hG hsub
    have hmono : ∀ ids, page.handled ++ (frameIDs json [raw] ++ ids) ⊆ G ++ ids := by
      intro ids
      rw [← List.append_assoc]
      exact List.append_subset.2 ⟨List.Subset.trans hsub (List.subset_append_left _ _),
        List.subset_append_right _ _⟩
    have hcons : ∀ xs : List Raw, raw :: xs = [raw] ++ xs := fun _ => rfl
    refine ⟨hi.user, hi.based, fun hb' => absurd (hb.symm.trans hb') nofun, hi.read,
      fun hw' => absurd (hr.symm.trans hw') nofun, fun hw' => absurd (hr.symm.trans hw') nofun,
      hi.returned, fun _ b' hb' => ?_⟩
    obtain rfl := Option.some.inj (hb.symm.trans hb')
    rw [hw, hcons, frameIDs_append] at hread
    refine ⟨hG, hread.mono (hmono _), fun hhas => ?_⟩
    have hall := hc hhas
    rw [hw, List.cons_append, hcons, frameIDs_append] at hall
    exact hall.mono (hmono _)
  rw [hw, List.cons_append] at ho
  unfold Site.onMessage
  cases hdata : json.unmarshal raw with
  | none =>
    have hnil : frameIDs json [raw] = [] := by
      simp only [frameIDs, List.filterMap_cons, hdata, Option.map_none, List.filterMap_nil]
    have hskip : frameIDs json (raw :: (rest ++ h.pipe k.client)) =
        frameIDs json (rest ++ h.pipe k.client) := by
      simp only [frameIDs, List.filterMap_cons, hdata, Option.map_none]
    rw [hskip] at ho
    refine ⟨hp, hrest _ ho ?_⟩
    rw [hnil, List.append_nil]
    exact List.Subset.refl _
  | some data =>
    have hone : frameIDs json [raw] = [data.id] := frameIDs_singleton (by rw [hdata]; rfl)
    have htake : frameIDs json (raw :: (rest ++ h.pipe k.client)) =
        data.id :: frameIDs json (rest ++ h.pipe k.client) := by
      simp only [frameIDs, List.filterMap_cons, hdata, Option.map_some]
    rw [htake] at ho
    -- what the page is owed before the frame comes over the connection, or it has it
    have hready : data.id ∉ page.seenIds → Ready json u es (b ≤ ·) page.handled data.id := by
      intro hnew
      obtain ⟨j, e, he, hid, hc⟩ := ho.1
      refine ⟨j, e, he, hid, fun i e' hbi hij he' hu => ?_⟩
      by_cases hbrings : m.Brings b i
      · exact hc i e' hbrings hij he' hu
      · obtain ⟨hmissed, hread⟩ : i ∈ m.missed ∧ m.read ≤ i := by
          by_contra hno
          refine hbrings ⟨hbi, ?_⟩
          by_cases hlt : i < m.read
          · exact .inl hlt
          · exact .inr fun hmem => hno ⟨hmem, not_lt.1 hlt⟩
        have hbefore : i < position json es data.id := by
          rw [← hid, hd.position he]
          exact hij
        have hhas := hover data hdata hnew b hb i hmissed hbi hread hbefore
        rw [lacks, he', Option.any_some, hu, Bool.true_and] at hhas
        exact not_not.1 (of_decide_eq_false hhas)
    rw [hb] at hp ⊢
    obtain ⟨hpage, hsub, hmem⟩ := hp.handleEvent hready
    have hsub' : page.handled ++ frameIDs json [raw] ⊆ (page.handleEvent data).handled := by
      rw [hone]
      exact List.append_subset.2 ⟨hsub, List.cons_subset.2 ⟨hmem, List.nil_subset _⟩⟩
    refine ⟨hpage, hrest _ (ho.2.mono (fun _ _ _ hH hr => hr.mono hH) ?_) hsub'⟩
    rw [hone] at hsub'
    exact hsub'

end SocketInv

end Notifications
end YtShare
