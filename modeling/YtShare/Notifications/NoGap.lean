/-
# No gap behind the cursor

The page reconnects from its cursor, so an event that it passed over before the
cursor is lost to it.  `NoGap` says that there is none: every event for the user
after its base, and before the cursor, has been handled.

The page keeps it exactly as long as no frame that is new to it stands behind an
event that it lacks and its connection does not bring (`no_gap`).  A connection
does not bring what neither its replay has read nor the pipe of its client
holds: the replay fails, more than 100 entries follow the cursor, there is no
cursor to replay from, the hub drops an event, the subscriber passes one over or
begins to read too late.  None of these does harm as long as the connection
brings nothing that comes later, and another connection or an answer over HTTP
makes up for it.  Each of them leaves a gap in some run (`gap_runs`).
-/

import Mathlib.Data.List.Range
import YtShare.Notifications.SiteInv

namespace YtShare
namespace Notifications

open Lib Frontend StreamPublisher

variable {Raw : Type} {json : EventJSON Raw} {u : UUID}

/-- The cursor is at an event of the stream, and every event for the user from
the base up to it has been handled. -/
def NoGap (json : EventJSON Raw) (u : UUID) (p : Site Raw × Notes Raw) : Prop :=
  ∀ id, p.1.page.lastEventId = some id → ∃ b k e, p.2.marks.base = some b ∧
    eventAt json p.1.entries k = some e ∧ e.id = id ∧ ∀ i e', b ≤ i → i < k →
      eventAt json p.1.entries i = some e' → e'.isFor u = true → e'.id ∈ p.1.page.handled

/-- **The invariant of the site leaves no gap** behind the cursor. -/
theorem SiteInv.noGap {p : Site Raw × Notes Raw} (hi : SiteInv json u p) : NoGap json u p := by
  intro id hid
  obtain ⟨b, k, e, hb, he, rfl, hc⟩ := hi.page.cursor id hid
  exact ⟨b, k, e, hb, he, rfl, hc.le (Nat.le_succ k)⟩

/-- The page of a site just loaded, with its cursor where it was left, has no gap
behind it. -/
theorem noGap_init {p : Site Raw × Notes Raw} (hp : (observedSite json u).init p) :
    NoGap json u p :=
  (siteInv_init hp).noGap

/-- **A frame that loses an event** leaves a gap: it is new to the page, and
before it stands an event that the page lacks and its connection does not
bring. -/
theorem bridged_of_noGap {s t : Site Raw} {n : Notes Raw} (hi : SiteInv json u (s, n))
    {l : Site.Label Raw} (ht : s.step json u l = some t)
    (hgap : NoGap json u (t, n.record json s t l)) : Bridged json u (s, n) l := by
  cases l with
  | receive =>
    intro k hsock raw hraw data hdata hnew b hb i hmissed hbi hread hlt
    have hsock : s.socket = some k := hsock
    have hdata : json.unmarshal raw = some data := hdata
    simp only [Site.step, hsock] at ht
    split at ht
    · next raw' rest hopened hw =>
      obtain rfl := Option.some.inj ht
      obtain rfl : raw' = raw := by
        rw [hw] at hraw
        exact Option.some.inj hraw
      have hpage : Site.onMessage json s.page raw' = s.page.handleEvent data := by
        rw [Site.onMessage, hdata]
      rw [hpage] at hgap
      rcases s.page.handleEvent_cases data with ⟨hseen, -⟩ | ⟨-, hcursor, hhandled, -⟩
      · exact absurd hseen hnew
      -- the frame moves the cursor, so every event before it has been handled
      obtain ⟨b', j, e, hb', he, hid, hall⟩ := hgap data.id hcursor
      obtain rfl := Option.some.inj (hb.symm.trans hb')
      have hpos : position json s.entries data.id = j := hid ▸ hi.decoded.position he
      rw [lacks]
      cases hei : eventAt json s.entries i with
      | none => rfl
      | some e' =>
        rw [Option.any_some, Bool.and_eq_false_iff]
        by_cases hu : e'.isFor u = true
        · have hmem := hall i e' hbi (hpos ▸ hlt) hei hu
          rw [show (s.page.handleEvent data).handled = _ from hhandled] at hmem
          refine .inr (decide_eq_false (not_not.2 ((List.mem_append.1 hmem).resolve_right ?_)))
          intro hlast
          obtain rfl := hi.decoded.eq_of_id hei he ((List.mem_singleton.1 hlast).trans hid.symm)
          exact absurd (hpos ▸ hlt) (Nat.lt_irrefl _)
        · exact .inl (Bool.eq_false_iff.2 hu)
    · cases ht
  | _ => trivial

/-- **No gap behind the cursor.**  In a run of the site every event for the user
after the base and before the cursor has been handled, at every moment at which
the page has a cursor, exactly when every step meets the condition: no frame
that is new to the page stands behind an event that the page lacks and its
connection does not bring. -/
theorem no_gap (json : EventJSON Raw) (u : UUID) {p : Site Raw × Notes Raw}
    (hp : (observedSite json u).init p) {run : List (Site.Label Raw)} :
    (observedSite json u).Always (NoGap json u) p run ↔
      (observedSite json u).Steps (Bridged json u) p run := by
  refine Machine.always_iff_steps (I := SiteInv json u) ?_ (siteInv_init hp) (noGap_init hp)
  rintro ⟨s, n⟩ l q hi - h
  obtain ⟨t, ht, rfl⟩ := Option.map_eq_some_iff.1 h
  have hstep : Bridged json u (s, n) l → SiteInv json u (t, n.record json s t l) := fun hg =>
    hi.step hg ht
  exact ⟨⟨bridged_of_noGap hi ht, fun hg => (hstep hg).noGap⟩, hstep⟩

/-! ### A page with a short past -/

/-- The entry of the `n`-th event that is published. -/
def shareEntry (recipientID : UUID) (n : ℕ) : Entry Event :=
  ⟨.of (n + 1) 0, some ⟨⟨.ofNat 128 n⟩, eventVideoShared, ⟨1⟩, recipientID, .decoded .null⟩⟩

/-- A stream of `n` events. -/
def shareStream (recipientID : ℕ → UUID) (n : ℕ) : Stream Event where
  entries := (List.range n).map fun k => shareEntry (recipientID k) k
  ordered := by
    refine List.pairwise_map.2 (List.pairwise_lt_range.imp fun hab => ?_)
    exact Prod.Lex.toLex_lt_toLex.2 (.inl (Nat.succ_lt_succ hab))
  positive x hx := by
    obtain ⟨k, -, rfl⟩ := List.mem_map.1 hx
    exact Prod.Lex.toLex_lt_toLex.2 (.inl (Nat.succ_pos k))

/-- The entries of such a stream decode, each with an id of its own. -/
theorem decoded_shareStream (recipientID : ℕ → UUID) {n : ℕ} (hn : n ≤ 2 ^ 128) :
    Decoded .verbatim (shareStream recipientID n).entries := by
  constructor
  · intro x hx
    obtain ⟨k, -, rfl⟩ := List.mem_map.1 hx
    exact ⟨_, rfl, rfl, rfl⟩
  · rw [shareStream, List.map_map]
    refine List.Nodup.map_on (fun a ha b hb hab => ?_) List.nodup_range
    have hbits := congrArg (BitVec.toNat ∘ UUID.bits) (Option.some.inj hab)
    simp only [Function.comp, BitVec.toNat_ofNat] at hbits
    rw [List.mem_range] at ha hb
    rwa [Nat.mod_eq_of_lt (ha.trans_le hn), Nat.mod_eq_of_lt (hb.trans_le hn)] at hbits

/-- The page as it is loaded, after `n` events and with its cursor at one of
them or with none. -/
def loaded (recipientID : ℕ → UUID) (n : ℕ) (cursor : Option (Fin n)) :
    Site Event × Notes Event :=
  let page := .load (cursor.map fun k : Fin n => ⟨.ofNat 128 k⟩) []
  let s := ⟨⟨shareStream recipientID n, none, .ready, none, []⟩, .new, none, [], page⟩
  (s, .start .verbatim s)

/-- The page starts so. -/
theorem loaded_init (u : UUID) (recipientID : ℕ → UUID) {n : ℕ} (hn : n ≤ 2 ^ 128)
    (cursor : Option (Fin n)) :
    (observedSite .verbatim u).init (loaded recipientID n cursor) := by
  have hdecoded := decoded_shareStream recipientID hn
  refine ⟨⟨⟨rfl, rfl, rfl, rfl⟩, rfl, rfl, rfl, hdecoded, _, rfl, fun id hid => ?_⟩, rfl⟩
  obtain ⟨k, -, rfl⟩ := Option.map_eq_some_iff.1 hid
  refine List.mem_map.2 ⟨shareEntry (recipientID k) k, ?_, rfl⟩
  exact List.mem_map.2 ⟨k, List.mem_range.2 k.isLt, rfl⟩

/-- The client that the user 7 connects with. -/
def client7 (addr : ℕ) : Client := ⟨addr, ⟨7⟩⟩

/-- The subscriber calls `XREAD`. -/
def calls : List (Site.Label Event) := [.pump .send, .pump .receive]

/-- The `n`-th event is published, to everyone. -/
def shares (n : ℕ) : List (Site.Label Event) := [.xadd (shareEntry .nil n)]

/-- The call is answered by one entry, which the hub drops or not. -/
def pumps (dropped : Bool) : List (Site.Label Event) :=
  [.pump .serve, .pump .reply, .post ⟨1⟩ dropped, .pump .rangeDone]

/-- The page connects, and its client is registered. -/
def joins (addr : ℕ) : List (Site.Label Event) :=
  [.connect addr, .hub (.register (client7 addr)), .hub (.takeRegister (client7 addr)),
    .hub (.registerReturn (client7 addr))]

/-- The owner passes the oldest message on to these clients of the user. -/
def delivers (clients : List ℕ) : List (Site.Label Event) :=
  .hub (.takeDispatch [⟨7⟩]) :: .hub (.nextUser (clients.map client7)) ::
    (clients.map fun _ => .hub .nextClient) ++ [.hub .rangeDone]

/-- The oldest frame is written and received. -/
def arrives : List (Site.Label Event) := [.write, .opened, .receive]

/-- Event 1 is published before the page connects, and the replay of its first
connection fails.  The second connection replays it, and then it is delivered
once more. -/
def repairedRun : List (Site.Label Event) :=
  calls ++ shares 1 ++ joins 0 ++ [.run true, .opened, .close] ++ joins 1 ++
    [.run false, .opened, .receive] ++ pumps false ++ delivers [1, 0] ++ arrives

/-- `repairedRun` meets the condition, and the page handles event 1 once. -/
theorem no_gap_repairedRun :
    (observedSite .verbatim ⟨7⟩).Always (NoGap .verbatim ⟨7⟩) (loaded (fun _ => .nil) 1 (some 0))
        repairedRun ∧
      ((observedSite .verbatim ⟨7⟩).exec (loaded (fun _ => .nil) 1 (some 0)) repairedRun).map
        (fun p => p.1.page.handled) = some [⟨1⟩] := by
  have hbridged : (observedSite .verbatim ⟨7⟩).Steps (Bridged .verbatim ⟨7⟩)
      (loaded (fun _ => .nil) 1 (some 0)) repairedRun := by decide +kernel
  exact ⟨(no_gap .verbatim ⟨7⟩ (loaded_init _ _ (by decide) _)).2 hbridged, by decide +kernel⟩

/-! ### Runs that leave a gap -/

/-- An event for the user after the base and before the cursor has not been
handled. -/
def passedOver (json : EventJSON Raw) (u : UUID) (p : Site Raw × Notes Raw) : Bool :=
  match p.1.page.lastEventId, p.2.marks.base with
  | some id, some b =>
      (List.range (position json p.1.entries id)).any fun i =>
        decide (b ≤ i) && (eventAt json p.1.entries i).any fun e =>
          e.isFor u && decide (e.id ∉ p.1.page.handled)
  | _, _ => false

/-- An event that is passed over is a gap. -/
theorem not_noGap {p : Site Raw × Notes Raw} (h : passedOver json u p = true) :
    ¬NoGap json u p := by
  intro hp
  unfold passedOver at h
  split at h
  · next id b hid hb =>
    obtain ⟨i, hi, hgap⟩ := List.any_eq_true.1 h
    obtain ⟨hbi, hgap⟩ := Bool.and_eq_true_iff.1 hgap
    obtain ⟨e, he, hgap⟩ := (Option.any_eq_true _ _).1 hgap
    obtain ⟨hfor, hgap⟩ := Bool.and_eq_true_iff.1 hgap
    obtain ⟨b', k, e', hb', he', rfl, hk⟩ := hp id hid
    obtain rfl := Option.some.inj (hb.symm.trans hb')
    -- no entry before the first one with the id of the cursor is the cursor's
    have hik : i < k := by
      refine (List.mem_range.1 hi).trans_le (not_lt.1 fun hlt => ?_)
      obtain ⟨x, hx, hdec⟩ := Option.bind_eq_some_iff.1 he'
      obtain ⟨hlen, rfl⟩ := List.getElem?_eq_some_iff.1 hx
      have hnot := List.not_of_lt_findIdx hlt
      rw [eventID, hdec] at hnot
      exact absurd rfl (of_decide_eq_false hnot)
    exact of_decide_eq_true hgap (hk i e (of_decide_eq_true hbi) hik he hfor)
  · cases h

/-- A run that ends with an event passed over. -/
theorem not_always_noGap {p : Site Raw × Notes Raw} {run : List (Site.Label Raw)}
    (h : ((observedSite json u).exec p run).any (passedOver json u) = true) :
    ¬(observedSite json u).Always (NoGap json u) p run := by
  obtain ⟨q, hq, hgap⟩ := (Option.any_eq_true _ _).1 h
  exact fun halways => not_noGap hgap (halways.exec hq)

/-- Six pages of the user 7 that pass an event over, each with its run. -/
def gapRuns : List ((Site Event × Notes Event) × List (Site.Label Event)) :=
  let new := loaded (fun _ => .nil) 0 none
  [ -- event 1 follows the cursor, and the replay fails
    (loaded (fun _ => .nil) 1 (some 0), calls ++ shares 1 ++ pumps false ++ calls ++
      [.hub (.takeDispatch []), .hub .rangeDone] ++ joins 0 ++ [.run true] ++ shares 2 ++
      pumps false ++ delivers [0] ++ arrives),
    -- 100 entries for someone else and one for the user follow the cursor
    (loaded (fun k => if k % 101 = 0 then .nil else ⟨8⟩) 102 (some 0), calls ++ joins 0 ++
      [.run false] ++ shares 102 ++ pumps false ++ delivers [0] ++ arrives),
    -- a first connection breaks before event 0 arrives, and the second has no cursor
    (new, calls ++ joins 0 ++ [.run false, .close] ++ shares 0 ++ pumps false ++ delivers [0] ++
      calls ++ joins 1 ++ [.run false] ++ shares 1 ++ pumps false ++ delivers [0, 1] ++ arrives),
    -- the hub drops event 0 while it stops
    (new, calls ++ joins 0 ++ [.run false] ++ shares 0 ++ [.hub .close] ++ pumps true ++ calls ++
      shares 1 ++ pumps false ++ delivers [0] ++ arrives),
    -- the subscriber calls with `$` once more after event 0
    (new, calls ++ joins 0 ++ [.run false, .pump .timeout, .pump .reply] ++ shares 0 ++ calls ++
      shares 1 ++ pumps false ++ delivers [0] ++ arrives),
    -- the subscriber calls for the first time after event 0
    (new, joins 0 ++ [.run false] ++ shares 0 ++ calls ++ shares 1 ++ pumps false ++ delivers [0] ++
      arrives)]

/-- **Each of the six leaves a gap** behind the cursor. -/
theorem gap_runs : gapRuns.Forall fun r => (observedSite .verbatim ⟨7⟩).init r.1 ∧
    ¬(observedSite .verbatim ⟨7⟩).Always (NoGap .verbatim ⟨7⟩) r.1 r.2 := by
  have hgaps : gapRuns.all (fun r =>
      ((observedSite .verbatim ⟨7⟩).exec r.1 r.2).any (passedOver .verbatim ⟨7⟩)) = true := by
    decide +kernel
  refine List.forall_iff_forall_mem.2 fun r hr => ⟨?_, ?_⟩
  · simp only [gapRuns, List.mem_cons, List.not_mem_nil, or_false] at hr
    rcases hr with rfl | rfl | rfl | rfl | rfl | rfl <;> exact loaded_init _ _ (by decide) _
  · exact not_always_noGap (List.all_eq_true.1 hgaps r hr)

end Notifications
end YtShare
