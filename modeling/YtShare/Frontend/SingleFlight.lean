/-
# One refresh at a time

While no user signs in or out, a request that is refused for the first time and
finds a refresh token awaits one refresh, and is sent again with the token that
this refresh brings, or is rejected, and then there is no session any more
(`Page.Fresh`).  A request that is refused again is rejected at once.
-/

import YtShare.Frontend.RefreshPromise
import Mathlib.Algebra.Order.Ring.Int

namespace YtShare
namespace Frontend

open Lib

namespace Page

variable {s t : Page} {l : Label} {k : ℕ} {ph : Phase}

/-- The steps that no user takes. -/
def Automatic (_ : Page) : Label → Prop
  | .signIn _ | .signOut => False
  | _ => True

instance (s : Page) : ∀ l, Decidable (s.Automatic l)
  | .signIn _ | .signOut => isFalse id
  | .request _ | .respond .. | .unauthorized _ | .refreshed .. | .refreshFailed _ | .run _ =>
      isTrue trivial

/-- What holds besides while no user signs in or out: a request that is about to
be sent again meets no token but the new one, and has been sent with it then; and
a refresh that failed has left no session, once the request that awaited it has
gone on. -/
structure Fresh (s : Page) : Prop where
  current : ∀ k a, s.Resending k a → ∀ x, s.store.getAccessToken = some x → x = a
  carried : ∀ k b x y, s.Settled k (some b) [x, y] → y = some b
  cleared : ∀ k tokens, s.Settled k none tokens →
    s.store.session = none ∨ s.phase k = some (.resuming none)

/-- On a page that was loaded no request is sent again, and no refresh has failed. -/
theorem fresh_load (stored : Option AuthSession) : (load stored).Fresh where
  current _ _ h := by rcases h with h | h <;> cases h
  carried _ _ _ _ h := by obtain ⟨h, -⟩ := h; cases h
  cleared _ _ h := by obtain ⟨-, p, hp, -⟩ := h; cases hp

/-- Nobody signs in by itself. -/
theorem session_step (hi : s.Inv) (ha : s.Automatic l) (h : s.step l = some t)
    (hs : s.store.session = none) : t.store.session = none := by
  cases stepped h with
  | signIn session => exact ha.elim
  | signOut => exact ha.elim
  | refreshed a r e =>
    change (s.store.updateTokens a r e).session = none
    rw [AuthStore.session_updateTokens, hs]
    rfl
  | noToken => rfl
  | @refresh k a token hk =>
    obtain ⟨p, hp⟩ := hi.joined hk token
    rw [hp.store]
    exact hs
  | @resume k o =>
    cases o with
    | none => rfl
    | some a => exact hs
  | _ => exact hs

/-- **An automatic step keeps it.** -/
theorem Fresh.step (hf : s.Fresh) (hi : s.Inv) (ha : s.Automatic l) (h : s.step l = some t) :
    t.Fresh := by
  constructor
  · intro k a hk x hx
    rcases Resending.step hi h hk with ⟨-, ⟨hs, hstore | hstore | ⟨session, rfl, -⟩⟩ |
      ⟨p, r, e, -, -, hstore⟩⟩
    · exact hf.current k a hs x (hstore ▸ hx)
    · rw [hstore] at hx
      cases hx
    · exact ha.elim
    · rw [hstore] at hx
      exact AuthStore.getAccessToken_updateTokens hx
  · intro k b x y hk
    rcases hk.step hi h with hs | ⟨⟨z, hz⟩, -⟩
    · rcases sent_step hi h k with hsent | ⟨a, c, hphase, hsent⟩
      · exact hf.carried k b x y ⟨hsent.symm.trans hk.1, hs.2⟩
      · -- the second transmission carries what the refresh brought
        have hstory := hi.story k
        rw [hphase] at hstory
        obtain ⟨-, p, -, hp, ho⟩ := hs
        cases c with
        | false => cases hstory.2.symm.trans hp
        | true =>
          obtain ⟨z, d, rfl, hz⟩ := hstory
          obtain rfl := Option.some.inj (Option.some.inj ((hz.outcome hp).symm.trans ho))
          rw [hz.1, List.singleton_append] at hsent
          obtain ⟨-, hy⟩ := List.cons.inj (hsent.symm.trans hk.1)
          rw [← (List.cons.inj hy).1]
          unfold authorize
          split
          · next token htoken => rw [hf.current k d (.inr hphase) token htoken]
          · rfl
    · cases hz
  · intro k tokens hk
    rcases hk.step hi h with hs | ⟨-, hresuming⟩
    · rcases hf.cleared k _ hs with hnone | hresuming
      · exact .inl (session_step hi ha h hnone)
      · exact (step_resuming_none hi h hresuming).symm
    · exact .inr hresuming

/-- A request that was refused for the first time while there was a refresh token:
the response interceptor is to run with it, or has awaited a refresh. -/
def Offered (s : Page) (k : ℕ) : Prop :=
  (∃ a, s.phase k = some (.intercepting a false)) ∧ s.store.getRefreshToken ≠ none ∨
    ∃ p, s.awaited k = some p

/-- Nothing that runs before it takes the refresh token away. -/
theorem Offered.step (ho : s.Offered k) (hi : s.Inv) (ha : s.Automatic l)
    (h : s.step l = some t) : t.Offered k := by
  rcases ho with ⟨⟨a, hk⟩, htoken⟩ | ⟨p, hp⟩
  · have hother : ∀ {j ph}, j ≠ k → (∃ a, Function.update s.phase j (some ph) k =
        some (.intercepting a false)) := fun hj => by
      rw [Function.update_of_ne hj.symm]
      exact ⟨a, hk⟩
    cases stepped h with
    | signIn session => exact ha.elim
    | signOut => exact ha.elim
    | @request j hj =>
      refine .inl ⟨hother ?_, htoken⟩
      rintro rfl
      cases hj.symm.trans hk
    | respond ok htasks => cases hi.not_queued htasks hk
    | unauthorized htasks => cases hi.not_queued htasks hk
    | refreshed b r e htasks => cases hi.not_queued htasks hk
    | refreshFailed htasks => cases hi.not_queued htasks hk
    | @send j b c hj =>
      refine .inl ⟨hother ?_, htoken⟩
      rintro rfl
      cases hj.symm.trans hk
    | @again j b hj =>
      refine .inl ⟨hother ?_, htoken⟩
      rintro rfl
      cases hj.symm.trans hk
    | noToken _ hnone => exact absurd hnone htoken
    | @refresh j b token hj =>
      obtain ⟨p, hp⟩ := hi.joined hj token
      rcases eq_or_ne j k with rfl | hjk
      · refine .inr ⟨p, ?_⟩
        rw [hp.awaited, Function.update_self]
      · refine .inl ⟨?_, ?_⟩
        · rw [hp.phase]
          exact hother hjk
        · rw [hp.store]
          exact htoken
    | @resume j o hj => exact absurd hj (hi.apart k a false hk j o)
  · right
    cases stepped h with
    | @refresh j b token hj =>
      obtain ⟨q, hq⟩ := hi.joined hj token
      rw [hq.awaited]
      rcases eq_or_ne k j with rfl | hkj
      · exact ⟨q, Function.update_self ..⟩
      · exact ⟨p, (Function.update_of_ne hkj ..).trans hp⟩
    | @resume j o hj => exact ⟨p, (congrFun (s.moved_resume j o).awaited k).trans hp⟩
    | _ => exact ⟨p, hp⟩

/-- A request that was refused once more. -/
def Refused (s : Page) (k : ℕ) : Prop :=
  (∃ a, s.phase k = some (.intercepting a true)) ∨ s.phase k = some (.done false)

/-- A request that was refused once more stays so: it is not sent a third time. -/
theorem Refused.step (hr : s.Refused k) (hi : s.Inv) (h : s.step l = some t) : t.Refused k := by
  -- whatever moves is another request, or this one is rejected
  have hother : ∀ {j} ph, j ≠ k → t.phase = Function.update s.phase j (some ph) → t.Refused k := by
    intro j ph hj hphase
    unfold Refused
    rw [hphase, Function.update_of_ne hj.symm]
    exact hr
  have hsettle : ∀ {p o} {store : AuthStore}, s.tasks = [] → s.Outstanding p →
      ({ s with store := store }.settle p o).Refused k := by
    intro p o store htasks hp
    rcases hr with ⟨a, hk⟩ | hk
    · cases hi.not_queued htasks hk
    · right
      refine (if_neg fun hmem => ?_).trans hk
      cases hk.symm.trans ((hi.waiting k p).2 ⟨hp, hmem⟩)
  have hne : ∀ {j ph}, s.phase j = ph → (∀ a, ph ≠ some (.intercepting a true)) →
      ph ≠ some (.done false) → j ≠ k := by
    rintro j ph hj hph hph' rfl
    rcases hr with ⟨a, hk⟩ | hk
    · exact hph a (hj.symm.trans hk)
    · exact hph' (hj.symm.trans hk)
  cases stepped h with
  | signIn session => exact hr
  | signOut => exact hr
  | request hj => exact hother _ (hne hj nofun nofun) rfl
  | respond ok _ hj => exact hother _ (hne hj nofun nofun) rfl
  | unauthorized _ hj => exact hother _ (hne hj nofun nofun) rfl
  | refreshed b r e htasks hp => exact hsettle htasks hp
  | refreshFailed htasks hp => exact hsettle htasks hp
  | send hj => exact hother _ (hne hj nofun nofun) rfl
  | @again j b hj =>
    rcases eq_or_ne j k with rfl | hjk
    · exact .inr (Function.update_self ..)
    · exact hother _ hjk rfl
  | noToken hj => exact hother _ (hne hj nofun nofun) rfl
  | @refresh j b token hj =>
    obtain ⟨p, hp⟩ := hi.joined hj token
    exact hother _ (hne hj nofun nofun) hp.phase
  | @resume j o hj => exact hother _ (hne hj nofun nofun) (s.moved_resume j o).phase

/-- The microtasks that a request has left in a turn. -/
def left : Option Phase → ℕ
  | some (.sending ..) | some (.intercepting ..) => 1
  | some (.resuming _) => 2
  | _ => 0

/-- Leaving some out does not make a sum larger. -/
theorem sum_filter_le (f : ℕ → ℕ) (p : ℕ → Bool) :
    ∀ l : List ℕ, ((l.filter p).map f).sum ≤ (l.map f).sum
  | [] => Nat.le_refl 0
  | j :: l => by
    have ih := sum_filter_le f p l
    rw [List.filter_cons, List.map_cons, List.sum_cons]
    split
    · rw [List.map_cons, List.sum_cons]
      omega
    · omega

/-- Leaving one out takes its value away, at least. -/
theorem sum_filter_ne (f : ℕ → ℕ) : ∀ {l : List ℕ}, k ∈ l →
    ((l.filter fun j => decide (j ≠ k)).map f).sum + f k ≤ (l.map f).sum
  | j :: l, h => by
    rw [List.filter_cons, List.map_cons, List.sum_cons]
    rcases List.mem_cons.1 h with rfl | h
    · have := sum_filter_le f (fun j => decide (j ≠ k)) l
      rw [if_neg (by simp)]
      omega
    · have ih := sum_filter_ne f h
      split
      · rw [List.map_cons, List.sum_cons]
        omega
      · omega

/-- The microtasks that are left in the turn. -/
def work (s : Page) : ℕ := (s.tasks.map fun k => left (s.phase k)).sum

/-- A request that has less before it leaves less to do. -/
theorem work_lt (hk : k ∈ s.tasks) (hphase : t.phase = Function.update s.phase k (some ph))
    (htasks : t.tasks = (s.enter k ph).tasks) (hlt : left (some ph) < left (s.phase k)) :
    t.work < s.work := by
  have hsum := sum_filter_ne (fun j => left (s.phase j)) hk
  have hfilter : ((s.tasks.filter fun j => decide (j ≠ k)).map fun j => left (t.phase j)) =
      (s.tasks.filter fun j => decide (j ≠ k)).map fun j => left (s.phase j) := by
    refine List.map_congr_left fun j hj => ?_
    have hjk : j ≠ k := by simpa using (List.mem_filter.1 hj).2
    rw [hphase, Function.update_of_ne hjk]
  have hlast : ((if ph.queued then [k] else []).map fun j => left (t.phase j)).sum ≤
      left (some ph) := by
    split
    · simp [hphase]
    · simp
  unfold work
  rw [htasks]
  simp only [enter, List.map_append, List.sum_append, hfilter]
  omega

/-- A microtask can run, and leaves less to do. -/
theorem Inv.run (hi : s.Inv) (hk : k ∈ s.tasks) :
    ∃ t, s.step (.run k) = some t ∧ t.work < s.work := by
  obtain ⟨ph, hph, hq⟩ := (hi.tasks k).1 hk
  have hstep : s.step (.run k) = s.runTask k := if_pos hk
  obtain ⟨t, ht⟩ : ∃ t, s.step (.run k) = some t := by
    rw [hstep, runTask, hph]
    cases ph <;> first | exact ⟨_, rfl⟩ | cases hq
  refine ⟨t, ht, ?_⟩
  cases stepped ht with
  | send hj => exact work_lt hk rfl rfl (by rw [hj]; exact Nat.zero_lt_one)
  | again hj => exact work_lt hk rfl rfl (by rw [hj]; exact Nat.zero_lt_one)
  | noToken hj => exact work_lt hk rfl rfl (by rw [hj]; exact Nat.zero_lt_one)
  | @refresh _ a token hj =>
    obtain ⟨p, hp⟩ := hi.joined hj token
    exact work_lt hk hp.phase hp.tasks (by rw [hj]; exact Nat.zero_lt_one)
  | @resume _ o hj =>
    have hm := s.moved_resume k o
    refine work_lt hk hm.phase hm.tasks ?_
    rw [hj]
    cases o with
    | none => exact Nat.zero_lt_two
    | some a => exact Nat.one_lt_two

end Page

/-- A page on which no user signs in or out. -/
def unattended : Machine Page Page.Label := page.restrict Page.Automatic

namespace Page

variable {s t : Page} {l : Label} {k : ℕ}

/-- A step of the page that is left alone is an automatic one. -/
theorem unattended_step (h : unattended.step s l = some t) : s.Automatic l ∧ s.step l = some t :=
  Machine.restrict_step.1 h

/-- **Every turn ends:** the microtasks run until none is left. -/
theorem Inv.turn_ends (hi : s.Inv) :
    ∃ (ks : List ℕ) (u : Page), unattended.exec s (ks.map .run) = some u ∧ u.tasks = [] := by
  induction hn : s.work using Nat.strongRecOn generalizing s with
  | ind n ih =>
    rcases htasks : s.tasks with _ | ⟨k, ks⟩
    · exact ⟨[], s, rfl, htasks⟩
    · obtain ⟨t, ht, hlt⟩ := hi.run (htasks ▸ List.mem_cons_self (a := k) (l := ks))
      obtain ⟨ks', u, hu, hempty⟩ := ih t.work (hn ▸ hlt) (hi.step ht) rfl
      have hstep : unattended.step s (.run k) = some t := Machine.restrict_step.2 ⟨trivial, ht⟩
      refine ⟨k :: ks', u, ?_, hempty⟩
      rw [List.map_cons, Machine.exec_cons, hstep]
      exact hu

/-- What has become of a request, at the end of a turn, by the outcome of the
refresh that it has awaited. -/
def Outcome (s : Page) (k : ℕ) : Option (Option String) → Prop
  | none => (∃ x, s.sent k = [x]) ∧ ∃ p, s.phase k = some (.waiting p)
  | some (some newAccess) => ∃ x, s.sent k = [x, some newAccess]
  | some none => (∃ x, s.sent k = [x]) ∧ s.phase k = some (.done false) ∧ s.store.session = none

/-- At the end of a turn, what has become of a request that has awaited a refresh is
what the outcome of the refresh says. -/
theorem Inv.outcome (hi : s.Inv) (hf : s.Fresh) (htasks : s.tasks = []) {p : ℕ}
    (h : s.awaited k = some p) : s.Outcome k (s.refreshes p).outcome := by
  rcases hi.story_cases k with ⟨_, hu, -⟩ | ⟨q, x, hk, hx, hq⟩ | ⟨o, x, hx, hk⟩ | ⟨b, x, y, hx, -⟩
  · cases hu.2.symm.trans h
  · obtain rfl := Option.some.inj (hq.symm.trans h)
    have hout : (s.refreshes q).outcome = none := ((hi.waiting k q).1 hk).1
    rw [hout]
    exact ⟨⟨x, hx⟩, q, hk⟩
  · rw [hx.outcome h]
    rcases hk with ⟨rfl, hk⟩ | ⟨ph, hk, hq⟩
    · refine ⟨⟨x, hx.1⟩, hk, ?_⟩
      rcases hf.cleared k _ hx with hnone | hresuming
      · exact hnone
      · cases hk.symm.trans hresuming
    · cases (hi.not_queued htasks hk).symm.trans hq
  · rw [hx.outcome h]
    obtain rfl := hf.carried k b x y hx
    exact ⟨x, hx.1⟩

/-- What the interceptors promise at every moment, for the rest of the run. -/
structure SingleFlight (s : Page) : Prop where
  /-- at most one refresh is outstanding -/
  single : ∀ p q, s.Outstanding p → s.Outstanding q → p = q
  /-- every request is sent twice at most -/
  twice : ∀ k, (s.sent k).length ≤ 2
  /-- a request that is refused for the first time while there is a refresh token
  has awaited one refresh when the turn ends, and at the end of every later turn it
  waits, was sent again with the token of that refresh, or was rejected and the
  session cleared, as that refresh has turned out -/
  first : ∀ k t ls u, (s.sent k).length = 1 → s.store.getRefreshToken ≠ none →
    s.step (.unauthorized k) = some t → unattended.exec t ls = some u → u.tasks = [] →
      ∃ p, u.awaited k = some p ∧ u.Outcome k (u.refreshes p).outcome
  /-- a request that is refused again is rejected when the turn ends -/
  second : ∀ k t ls u, (s.sent k).length = 2 → s.step (.unauthorized k) = some t →
    unattended.exec t ls = some u → u.tasks = [] → u.phase k = some (.done false)
  /-- and no microtask of it starts a refresh -/
  noRefresh : ∀ k t, (s.sent k).length = 2 → s.step (.run k) = some t →
    t.started = s.started ∧ t.phase k = some (.done false)
  /-- the turn ends -/
  turn : ∃ (ks : List ℕ) (u : Page), unattended.exec s (ks.map .run) = some u ∧ u.tasks = []

/-- What an automatic step keeps together with the invariants holds at the end of
a run. -/
theorem exec_unattended {P : Page → Prop} (hi : s.Inv) (hf : s.Fresh) (hP : P s)
    (hstep : ∀ s l t, s.Inv → P s → s.Automatic l → s.step l = some t → P t) {ls : List Label}
    (h : unattended.exec s ls = some t) : t.Inv ∧ t.Fresh ∧ P t := by
  refine (Machine.always_of_invariant (M := unattended) (I := fun s => s.Inv ∧ s.Fresh ∧ P s)
    ?_ ⟨hi, hf, hP⟩ ls).exec h
  rintro s l t ⟨hi, hf, hP⟩ hst
  obtain ⟨ha, hst⟩ := unattended_step hst
  exact ⟨hi.step hst, hf.step hi ha hst, hstep s l t hi hP ha hst⟩

/-- The request that a 401 answers is in flight. -/
theorem step_unauthorized (h : s.step (.unauthorized k) = some t) :
    ∃ a b, s.phase k = some (.inFlight a b) ∧ t = s.enter k (.intercepting a b) := by
  cases stepped h with
  | @unauthorized _ a b _ hk => exact ⟨a, b, hk, rfl⟩

/-- In flight, a request has been sent again exactly if its flag is set. -/
theorem Inv.inFlight (hi : s.Inv) {a : Option String} {b : Bool}
    (hk : s.phase k = some (.inFlight a b)) : (s.sent k).length = if b then 2 else 1 := by
  have hs := hi.story k
  rw [hk] at hs
  cases b with
  | false => simp [hs.1]
  | true =>
    obtain ⟨x, c, hx⟩ := hs
    simp [hx.1]

/-- **Both invariants together give single flight.** -/
theorem Inv.singleFlight (hi : s.Inv) (hf : s.Fresh) : s.SingleFlight where
  single p q hp hq := Option.some.inj ((hi.promise p hp).symm.trans (hi.promise q hq))
  twice := hi.length_sent
  first k t ls u hlen htoken hstep hexec hu := by
    obtain ⟨a, b, hk, rfl⟩ := step_unauthorized hstep
    have hb : b = false := by
      cases b with
      | false => rfl
      | true => exact absurd ((hi.inFlight hk).symm.trans hlen) (by decide)
    subst hb
    have hoffered : (s.enter k (.intercepting a false)).Offered k :=
      .inl ⟨⟨a, Function.update_self ..⟩, htoken⟩
    have hfresh := hf.step (l := .unauthorized k) hi trivial hstep
    obtain ⟨hi', hf', ho⟩ := exec_unattended (P := fun s => s.Offered k) (hi.step hstep) hfresh
      hoffered (fun _ _ _ hi ho ha h => ho.step hi ha h) hexec
    rcases ho with ⟨⟨c, hc⟩, -⟩ | ⟨p, hp⟩
    · cases hi'.not_queued hu hc
    · exact ⟨p, hp, hi'.outcome hf' hu hp⟩
  second k t ls u hlen hstep hexec hu := by
    obtain ⟨a, b, hk, rfl⟩ := step_unauthorized hstep
    have hb : b = true := by
      cases b with
      | true => rfl
      | false => exact absurd ((hi.inFlight hk).symm.trans hlen) (by decide)
    subst hb
    have hrefused : (s.enter k (.intercepting a true)).Refused k :=
      .inl ⟨a, Function.update_self ..⟩
    have hfresh := hf.step (l := .unauthorized k) hi trivial hstep
    obtain ⟨hi', -, hr⟩ := exec_unattended (P := fun s => s.Refused k) (hi.step hstep) hfresh
      hrefused (fun _ _ _ hi hr _ h => hr.step hi h) hexec
    rcases hr with ⟨c, hc⟩ | hdone
    · cases hi'.not_queued hu hc
    · exact hdone
  noRefresh k t hlen hstep := by
    have hmem : k ∈ s.tasks := (Option.ite_none_right_eq_some.1 hstep).1
    obtain ⟨ph, hph, hq⟩ := (hi.tasks k).1 hmem
    have hk : ∃ y, s.phase k = some (.intercepting y true) := by
      rcases hi.story_cases k with ⟨_, hu, hle⟩ | ⟨q, x, -, hx, -⟩ | ⟨o, x, hx, -⟩ |
        ⟨b, x, y, hx, hk | hk | ⟨ok, hk⟩⟩
      · rw [hu.1] at hlen
        omega
      · rw [hx] at hlen
        cases hlen
      · rw [hx.1] at hlen
        cases hlen
      · obtain rfl := Option.some.inj (hph.symm.trans hk)
        cases hq
      · exact ⟨y, hk⟩
      · obtain rfl := Option.some.inj (hph.symm.trans hk)
        cases hq
    obtain ⟨y, hk⟩ := hk
    have hrun : s.step (.run k) = some (s.enter k (.done false)) := by
      simp only [Page.step, runTask, hmem, if_true, hk, onUnauthorized]
    obtain rfl := Option.some.inj (hrun.symm.trans hstep)
    exact ⟨rfl, Function.update_self ..⟩
  turn := hi.turn_ends

end Page

/-- **One refresh at a time, and one retry.**  On every page, for any requests,
any order of their answers and any outcomes of the refreshes, while no user signs
in or out. -/
theorem single_flight (stored : Option AuthSession) (run : List Page.Label) :
    unattended.Always Page.SingleFlight (.load stored) run :=
  (Machine.always_of_invariant (M := unattended) (I := fun s => s.Inv ∧ s.Fresh)
    (fun _ _ _ hi h => ⟨hi.1.step (Page.unattended_step h).2,
      hi.2.step hi.1 (Page.unattended_step h).1 (Page.unattended_step h).2⟩)
    ⟨Page.inv_load stored, Page.fresh_load stored⟩ run).mono fun _ hi => hi.1.singleFlight hi.2

/-- Two requests are refused one after the other, and both are sent again with the
token of one refresh. -/
example : (unattended.exec (.load (some ⟨⟨"u", "", ""⟩, "a", "r", ""⟩))
    [.request 0, .request 1, .run 0, .run 1, .unauthorized 0, .run 0, .unauthorized 1, .run 1,
      .refreshed 0 "b" "s" "", .run 0, .run 1, .run 0, .run 1, .unauthorized 1, .run 1]).map
      (fun s => (s.sent 0, s.sent 1, s.started)) =
    some ([some "a", some "b"], [some "a", some "b"], 1) := by
  decide

end Frontend
end YtShare
