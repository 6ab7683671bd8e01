/-
# What a page's requests have behind them

What the interceptors do with `refreshPromise` while requests come and are
answered in any order, and users sign in and out (`Page.Inv`).  A refresh that is
outstanding is the one that `refreshPromise` names, and the requests that wait are
its reactions.  When it settles they are all queued, and each resets the variable; no
answer comes before the queue is empty again, so no request starts a refresh in
between and none of these resets can hide one that is outstanding.

What a request has behind it can be read off its phase (`Page.Story`).
-/

import YtShare.Frontend.Interceptors

namespace YtShare
namespace Frontend

open Lib

namespace Page

variable {s t : Page} {l : Label} {k : ℕ} {ph : Phase}

/-- A request has moved to another phase, and no refresh has changed. -/
structure Moved (s t : Page) (k : ℕ) (ph : Phase) : Prop where
  phase : t.phase = Function.update s.phase k (some ph)
  tasks : t.tasks = (s.enter k ph).tasks
  refreshes : t.refreshes = s.refreshes
  started : t.started = s.started
  sent : ∀ j, j ≠ k → t.sent j = s.sent j
  awaited : t.awaited = s.awaited

/-- A task that enters a phase moves, and no other. -/
theorem moved_enter (s : Page) (k : ℕ) (ph : Phase) : s.Moved (s.enter k ph) k ph :=
  ⟨rfl, rfl, rfl, rfl, fun _ _ => rfl, rfl⟩

/-- What a step does. -/
inductive Stepped (s : Page) : Label → Page → Prop
  | signIn (session : AuthSession) : Stepped s (.signIn session) { s with store := .signIn session }
  | signOut : Stepped s .signOut { s with store := .signOut }
  | request {k : ℕ} : s.phase k = none → Stepped s (.request k) (s.enter k (.sending none false))
  | respond {k : ℕ} {a : Option String} {b : Bool} (ok : Bool) : s.tasks = [] →
      s.phase k = some (.inFlight a b) → Stepped s (.respond k ok) (s.enter k (.done ok))
  | unauthorized {k : ℕ} {a : Option String} {b : Bool} : s.tasks = [] →
      s.phase k = some (.inFlight a b) → Stepped s (.unauthorized k) (s.enter k (.intercepting a b))
  | refreshed {p : ℕ} (a r e : String) : s.tasks = [] → s.Outstanding p →
      Stepped s (.refreshed p a r e)
        ({ s with store := s.store.updateTokens a r e }.settle p (some a))
  | refreshFailed {p : ℕ} : s.tasks = [] → s.Outstanding p →
      Stepped s (.refreshFailed p) (s.settle p none)
  | send {k : ℕ} {a : Option String} {b : Bool} : s.phase k = some (.sending a b) →
      Stepped s (.run k) (s.send k a b)
  | again {k : ℕ} {a : Option String} : s.phase k = some (.intercepting a true) →
      Stepped s (.run k) (s.enter k (.done false))
  | noToken {k : ℕ} {a : Option String} : s.phase k = some (.intercepting a false) →
      s.store.getRefreshToken = none →
      Stepped s (.run k) ({ s with store := .signOut }.enter k (.done false))
  | refresh {k : ℕ} {a : Option String} {token : String} :
      s.phase k = some (.intercepting a false) → s.store.getRefreshToken = some token →
      Stepped s (.run k) ((s.startRefresh token).2.await k (s.startRefresh token).1)
  | resume {k : ℕ} {o : Option String} : s.phase k = some (.resuming o) →
      Stepped s (.run k) (s.resume k o)

/-- **What a step can do**, task by task. -/
theorem stepped (h : s.step l = some t) : s.Stepped l t := by
  cases l with
  | signIn session => obtain rfl := Option.some.inj h; exact .signIn session
  | signOut => obtain rfl := Option.some.inj h; exact .signOut
  | request k =>
    obtain ⟨hnone, h⟩ := Option.ite_none_right_eq_some.1 h
    obtain rfl := Option.some.inj h
    exact .request (Option.isNone_iff_eq_none.1 hnone)
  | respond k ok =>
    obtain ⟨htasks, h⟩ := Option.ite_none_right_eq_some.1 h
    simp only [answer] at h
    split at h
    · next a b hphase => obtain rfl := Option.some.inj h; exact .respond ok htasks hphase
    · cases h
  | unauthorized k =>
    obtain ⟨htasks, h⟩ := Option.ite_none_right_eq_some.1 h
    simp only [answer] at h
    split at h
    · next a b hphase => obtain rfl := Option.some.inj h; exact .unauthorized htasks hphase
    · cases h
  | refreshed p a r e =>
    obtain ⟨htasks, h⟩ := Option.ite_none_right_eq_some.1 h
    obtain ⟨hp, h⟩ := Option.ite_none_right_eq_some.1 h
    obtain rfl := Option.some.inj h
    exact .refreshed a r e htasks hp
  | refreshFailed p =>
    obtain ⟨htasks, h⟩ := Option.ite_none_right_eq_some.1 h
    obtain ⟨hp, h⟩ := Option.ite_none_right_eq_some.1 h
    obtain rfl := Option.some.inj h
    exact .refreshFailed htasks hp
  | run k =>
    obtain ⟨-, h⟩ := Option.ite_none_right_eq_some.1 h
    simp only [runTask] at h
    split at h
    · next a b hphase => obtain rfl := Option.some.inj h; exact .send hphase
    · next a b hphase =>
      obtain rfl := Option.some.inj h
      cases b with
      | true => exact .again hphase
      | false =>
        cases htoken : s.store.getRefreshToken with
        | none =>
          simp only [onUnauthorized, htoken]
          exact .noToken hphase htoken
        | some token =>
          simp only [onUnauthorized, htoken]
          exact .refresh hphase htoken
    · next o hphase => obtain rfl := Option.some.inj h; exact .resume hphase
    · cases h

/-- The request has been sent with these tokens and has awaited no refresh. -/
def Untried (s : Page) (k : ℕ) (tokens : List (Option String)) : Prop :=
  s.sent k = tokens ∧ s.awaited k = none

/-- The request has been sent with these tokens, and the refresh that it has
awaited has settled. -/
def Settled (s : Page) (k : ℕ) (outcome : Option String) (tokens : List (Option String)) : Prop :=
  s.sent k = tokens ∧ ∃ p < s.started, s.awaited k = some p ∧ (s.refreshes p).outcome = some outcome

/-- What a request in this phase has behind it. -/
def Story (s : Page) (k : ℕ) : Option Phase → Prop
  | none | some (.sending _ false) => s.Untried k []
  | some (.inFlight a false) | some (.intercepting a false) => s.Untried k [a]
  | some (.waiting p) => ∃ x, s.sent k = [x] ∧ s.awaited k = some p
  | some (.resuming o) => ∃ x, s.Settled k o [x]
  | some (.sending a true) => ∃ x b, a = some b ∧ s.Settled k (some b) [x]
  | some (.inFlight a true) | some (.intercepting a true) => ∃ x b, s.Settled k (some b) [x, a]
  | some (.done ok) =>
      (∃ x, s.Untried k [x]) ∨ (∃ x y b, s.Settled k (some b) [x, y]) ∨
        ok = false ∧ ∃ x, s.Settled k none [x]

/-- Refreshes that have settled stay as they are. -/
def Keeps (s t : Page) : Prop :=
  s.started ≤ t.started ∧ ∀ p < s.started, ∀ o,
    (s.refreshes p).outcome = some o → (t.refreshes p).outcome = some o

/-- A request that is settled stays so, where what it was sent with and what it awaits
is kept. -/
theorem Settled.keeps (h : Keeps s t) (hsent : t.sent k = s.sent k)
    (hawaited : t.awaited k = s.awaited k) {o : Option String} {tokens : List (Option String)}
    (hs : s.Settled k o tokens) : t.Settled k o tokens := by
  obtain ⟨htokens, p, hp, hk, ho⟩ := hs
  exact ⟨hsent.trans htokens, p, Nat.lt_of_lt_of_le hp h.1, hawaited.trans hk, h.2 p hp o ho⟩

/-- And so does the story of a request, in each of its phases. -/
theorem Story.keeps (h : Keeps s t) (hsent : t.sent k = s.sent k)
    (hawaited : t.awaited k = s.awaited k) {o : Option Phase} (hs : s.Story k o) : t.Story k o := by
  have huntried : ∀ {tokens}, s.Untried k tokens → t.Untried k tokens := fun hu =>
    ⟨hsent.trans hu.1, hawaited.trans hu.2⟩
  rcases o with _ | ⟨a, _ | _⟩ | ⟨a, _ | _⟩ | ⟨a, _ | _⟩ | p | o | ok
  · exact huntried hs
  · exact huntried hs
  · obtain ⟨x, b, hab, hx⟩ := hs
    exact ⟨x, b, hab, hx.keeps h hsent hawaited⟩
  · exact huntried hs
  · obtain ⟨x, b, hx⟩ := hs
    exact ⟨x, b, hx.keeps h hsent hawaited⟩
  · exact huntried hs
  · obtain ⟨x, b, hx⟩ := hs
    exact ⟨x, b, hx.keeps h hsent hawaited⟩
  · obtain ⟨x, hx, hp⟩ := hs
    exact ⟨x, hsent.trans hx, hawaited.trans hp⟩
  · obtain ⟨x, hx⟩ := hs
    exact ⟨x, hx.keeps h hsent hawaited⟩
  · rcases hs with ⟨x, hx⟩ | ⟨x, y, b, hx⟩ | ⟨hok, x, hx⟩
    · exact .inl ⟨x, huntried hx⟩
    · exact .inr (.inl ⟨x, y, b, hx.keeps h hsent hawaited⟩)
    · exact .inr (.inr ⟨hok, x, hx.keeps h hsent hawaited⟩)

/-- The invariant: the queue holds the requests that can go on; a refresh that
is outstanding was started, is the one that `refreshPromise` names, and has the
requests that wait for it as its reactions, one at least; when it has settled,
the variable names it only until the last of them has gone on, and until then
nothing is outstanding and no 401 is being handled. -/
structure Inv (s : Page) : Prop where
  tasks : ∀ k, k ∈ s.tasks ↔ ∃ ph, s.phase k = some ph ∧ ph.queued = true
  started : ∀ p, s.Outstanding p → p < s.started
  promise : ∀ p, s.Outstanding p → s.refreshPromise = some p
  named : ∀ p, s.refreshPromise = some p → s.Outstanding p ∨ ∃ k o, s.phase k = some (.resuming o)
  resuming : ∀ k o, s.phase k = some (.resuming o) → ∀ p, ¬s.Outstanding p
  apart : ∀ k a b, s.phase k = some (.intercepting a b) → ∀ j o, s.phase j ≠ some (.resuming o)
  waiting : ∀ k p, s.phase k = some (.waiting p) ↔
    s.Outstanding p ∧ k ∈ (s.refreshes p).reactions
  reactions : ∀ p, s.Outstanding p → (s.refreshes p).reactions ≠ []
  story : ∀ k, s.Story k (s.phase k)

/-- A page that was loaded has sent nothing. -/
theorem inv_load (stored : Option AuthSession) : (load stored).Inv where
  tasks k := iff_of_false List.not_mem_nil (by rintro ⟨ph, h, -⟩; cases h)
  started p h := nomatch h
  promise p h := nomatch h
  named p h := nomatch h
  resuming k o h := nomatch h
  apart k a b h := nomatch h
  waiting k p := iff_of_false nofun fun h => nomatch h.1
  reactions p h := nomatch h
  story _ := ⟨rfl, rfl⟩

/-- The tasks after one of them has entered a phase: it is queued in the phases that say
so. -/
theorem mem_tasks_enter {j : ℕ} :
    j ∈ (s.enter k ph).tasks ↔ j ∈ s.tasks ∧ j ≠ k ∨ j = k ∧ ph.queued = true := by
  simp only [enter, List.mem_append, List.mem_filter, decide_eq_true_eq]
  cases ph.queued <;> simp

/-- The queue after a request has moved. -/
theorem Inv.tasks_enter (hi : s.Inv) (k : ℕ) (ph : Phase) (j : ℕ) :
    j ∈ (s.enter k ph).tasks ↔
      ∃ x, Function.update s.phase k (some ph) j = some x ∧ x.queued = true := by
  rw [mem_tasks_enter, hi.tasks]
  rcases eq_or_ne j k with rfl | hj
  · simp
  · rw [Function.update_of_ne hj]
    simp [hj]

/-- **A request moves**, neither into nor out of a wait.  It may leave
`refreshPromise` as it is, or reset it when it goes on after a refresh. -/
theorem Inv.moved (hi : s.Inv) (hm : s.Moved t k ph)
    (hpromise : t.refreshPromise = s.refreshPromise ∧ (∀ o, s.phase k ≠ some (.resuming o)) ∨
      t.refreshPromise = none ∧ ∃ o, s.phase k = some (.resuming o))
    (hwait : ∀ p, s.phase k ≠ some (.waiting p)) (hwait' : ∀ p, ph ≠ .waiting p)
    (hresume : ∀ o, ph ≠ .resuming o)
    (hintercept : ∀ a b, ph = .intercepting a b → ∀ j o, s.phase j ≠ some (.resuming o))
    (hstory : t.Story k (some ph)) : t.Inv := by
  have hout : ∀ p, t.Outstanding p ↔ s.Outstanding p := fun p => by
    unfold Outstanding
    rw [hm.refreshes]
  have hresuming : ∀ j o, t.phase j = some (.resuming o) → s.phase j = some (.resuming o) := by
    intro j o h
    rw [hm.phase] at h
    rcases update_eq_some h with ⟨-, hph⟩ | ⟨-, hph⟩
    · exact absurd hph.symm (hresume o)
    · exact hph
  constructor
  · intro j
    rw [hm.tasks, hm.phase]
    exact hi.tasks_enter k ph j
  · intro p hp
    rw [hm.started]
    exact hi.started p ((hout p).1 hp)
  · intro p hp
    have hp' := (hout p).1 hp
    rcases hpromise with ⟨hsame, -⟩ | ⟨-, o, hk⟩
    · exact hsame.trans (hi.promise p hp')
    · exact absurd hp' (hi.resuming k o hk p)
  · intro p hp
    rcases hpromise with ⟨hsame, hk⟩ | ⟨hnone, -⟩
    · rcases hi.named p (hsame.symm.trans hp) with hp' | ⟨j, o, hj⟩
      · exact .inl ((hout p).2 hp')
      · refine .inr ⟨j, o, ?_⟩
        have hjk : j ≠ k := by
          rintro rfl
          exact hk o hj
        rw [hm.phase, Function.update_of_ne hjk]
        exact hj
    · cases hnone.symm.trans hp
  · intro j o hj p hp
    exact hi.resuming j o (hresuming j o hj) p ((hout p).1 hp)
  · intro j a b hj i o hr
    have hr' := hresuming i o hr
    rw [hm.phase] at hj
    rcases update_eq_some hj with ⟨-, hph⟩ | ⟨-, hph⟩
    · exact hintercept a b hph.symm i o hr'
    · exact hi.apart j a b hph i o hr'
  · intro j p
    have hiff : t.phase j = some (.waiting p) ↔ s.phase j = some (.waiting p) := by
      rw [hm.phase]
      rcases eq_or_ne j k with rfl | hj
      · rw [Function.update_self]
        exact iff_of_false (fun h => hwait' p (Option.some.inj h)) (hwait p)
      · rw [Function.update_of_ne hj]
    rw [hiff, hout, hm.refreshes]
    exact hi.waiting j p
  · intro p hp
    rw [hm.refreshes]
    exact hi.reactions p ((hout p).1 hp)
  · intro j
    rw [hm.phase]
    rcases eq_or_ne j k with rfl | hj
    · rw [Function.update_self]
      exact hstory
    · rw [Function.update_of_ne hj]
      have hkeeps : Keeps s t := by
        refine ⟨Nat.le_of_eq hm.started.symm, fun p _ o ho => ?_⟩
        rw [hm.refreshes]
        exact ho
      exact (hi.story j).keeps hkeeps (hm.sent j hj) (congrFun hm.awaited j)

/-- An answer comes while no request can go on. -/
theorem Inv.not_queued (hi : s.Inv) (h : s.tasks = []) (hk : s.phase k = some ph) :
    ph.queued = false := by
  by_contra hq
  have hmem := (hi.tasks k).2 ⟨ph, hk, by simpa using hq⟩
  rw [h] at hmem
  exact List.not_mem_nil hmem

/-- A refresh is settled. -/
theorem Inv.settle (hi : s.Inv) (htasks : s.tasks = []) {p : ℕ} (hp : s.Outstanding p)
    (store : AuthStore) (o : Option String) : ({ s with store := store }.settle p o).Inv := by
  have hnone : ∀ q, ¬({ s with store := store }.settle p o).Outstanding q := by
    intro q hq
    unfold Outstanding at hq
    rcases eq_or_ne q p with rfl | hqp
    · rw [settle_self] at hq
      cases hq
    · rw [settle_of_ne _ hqp] at hq
      exact hqp (Option.some.inj ((hi.promise q hq).symm.trans (hi.promise p hp)))
  have hin : ∀ j, j ∈ (s.refreshes p).reactions →
      ({ s with store := store }.settle p o).phase j = some (.resuming o) := fun j hj => if_pos hj
  have hout : ∀ j, j ∉ (s.refreshes p).reactions →
      ({ s with store := store }.settle p o).phase j = s.phase j := fun j hj => if_neg hj
  constructor
  · intro j
    by_cases hj : j ∈ (s.refreshes p).reactions
    · exact iff_of_true hj ⟨_, hin j hj, rfl⟩
    · refine iff_of_false hj ?_
      rintro ⟨ph, hph, hq⟩
      rw [hout j hj] at hph
      exact Bool.false_ne_true ((hi.not_queued htasks hph).symm.trans hq)
  · exact fun q hq => absurd hq (hnone q)
  · exact fun q hq => absurd hq (hnone q)
  · intro q hq
    right
    obtain rfl : q = p := Option.some.inj (hq.symm.trans (hi.promise p hp))
    obtain ⟨j, hj⟩ := List.exists_mem_of_ne_nil _ (hi.reactions q hp)
    exact ⟨j, o, hin j hj⟩
  · exact fun _ _ _ q => hnone q
  · intro j a b hj
    have hj' : j ∉ (s.refreshes p).reactions := by
      intro hmem
      rw [hin j hmem] at hj
      cases hj
    rw [hout j hj'] at hj
    cases hi.not_queued htasks hj
  · intro j q
    refine iff_of_false (fun hj => ?_) fun h => hnone q h.1
    by_cases hmem : j ∈ (s.refreshes p).reactions
    · rw [hin j hmem] at hj
      cases hj
    · rw [hout j hmem] at hj
      obtain ⟨hq, hjq⟩ := (hi.waiting j q).1 hj
      obtain rfl : q = p := Option.some.inj ((hi.promise q hq).symm.trans (hi.promise p hp))
      exact hmem hjq
  · exact fun q hq => absurd hq (hnone q)
  · intro j
    by_cases hj : j ∈ (s.refreshes p).reactions
    · rw [hin j hj]
      have hwait := hi.story j
      rw [(hi.waiting j p).2 ⟨hp, hj⟩] at hwait
      obtain ⟨x, hx, hawaited⟩ := hwait
      refine ⟨x, hx, p, hi.started p hp, hawaited, ?_⟩
      rw [settle_self]
    · rw [hout j hj]
      suffices hkeeps : Keeps s ({ s with store := store }.settle p o) from
        (hi.story j).keeps hkeeps rfl rfl
      refine ⟨Nat.le_refl s.started, fun q _ o' ho' => ?_⟩
      have hqp : q ≠ p := by
        rintro rfl
        exact nomatch hp.symm.trans ho'
      rw [settle_of_ne _ hqp]
      exact ho'

/-- A request has started the refresh `p` with this token, or joined it. -/
structure Joined (s t : Page) (k p : ℕ) (token : String) : Prop where
  store : t.store = s.store
  phase : t.phase = Function.update s.phase k (some (.waiting p))
  tasks : t.tasks = (s.enter k (.waiting p)).tasks
  sent : t.sent = s.sent
  awaited : t.awaited = Function.update s.awaited k (some p)
  promise : t.refreshPromise = some p
  others : ∀ q, q ≠ p → t.refreshes q = s.refreshes q
  refresh : s.refreshPromise = none ∧ p = s.started ∧ t.started = s.started + 1 ∧
      t.refreshes p = ⟨token, [k], none⟩ ∨
    s.Outstanding p ∧ t.started = s.started ∧
      t.refreshes p = { s.refreshes p with reactions := (s.refreshes p).reactions ++ [k] }

/-- **The first 401 of a request starts a refresh or joins the one that is
outstanding:** the refresh that `refreshPromise` names has not settled. -/
theorem Inv.joined (hi : s.Inv) {a : Option String} {b : Bool}
    (hk : s.phase k = some (.intercepting a b)) (token : String) :
    ∃ p, s.Joined ((s.startRefresh token).2.await k (s.startRefresh token).1) k p token := by
  cases hpromise : s.refreshPromise with
  | none =>
    simp only [startRefresh, hpromise, Page.await, Function.update_self, List.nil_append]
    refine ⟨s.started, rfl, rfl, rfl, rfl, rfl, rfl, fun q hq => ?_, .inl ⟨hpromise, rfl, rfl, ?_⟩⟩
    · simp only [enter]
      rw [Function.update_of_ne hq, Function.update_of_ne hq]
    · simp only [enter]
      rw [Function.update_self]
  | some p =>
    have hp : s.Outstanding p := by
      rcases hi.named p hpromise with hp | ⟨j, o, hj⟩
      · exact hp
      · exact absurd hj (hi.apart k a b hk j o)
    have hnone : (s.refreshes p).outcome = none := hp
    simp only [startRefresh, hpromise, Page.await, hnone]
    refine ⟨p, rfl, rfl, rfl, rfl, rfl, rfl, fun q hq => ?_, .inr ⟨hp, rfl, ?_⟩⟩
    · simp only [enter]
      rw [Function.update_of_ne hq]
    · simp only [enter]
      rw [Function.update_self]
      simp only [hnone]

/-- A request joins a refresh while no request goes on after one. -/
theorem Inv.of_joined (hi : s.Inv) {a : Option String} {p : ℕ} {token : String}
    (hk : s.phase k = some (.intercepting a false)) (hj : s.Joined t k p token) : t.Inv := by
  have hp : t.Outstanding p := by
    rcases hj.refresh with ⟨-, -, -, hr⟩ | ⟨hp, -, hr⟩
    · rw [Outstanding, hr]
    · rw [Outstanding, hr]
      exact hp
  have hmem : k ∈ (t.refreshes p).reactions := by
    rcases hj.refresh with ⟨-, -, -, hr⟩ | ⟨-, -, hr⟩ <;> rw [hr]
    · exact List.mem_singleton_self k
    · exact List.mem_append_right _ (List.mem_singleton_self k)
  have hsame : ∀ q, q ≠ p → (t.Outstanding q ↔ s.Outstanding q) := fun q hq => by
    rw [Outstanding, Outstanding, hj.others q hq]
  -- the only refresh that may be outstanding is the one joined
  have honly : ∀ q, t.Outstanding q → q = p := by
    intro q hq
    by_contra hqp
    have hpromise := hi.promise q ((hsame q hqp).1 hq)
    rcases hj.refresh with ⟨hnone, -⟩ | ⟨hp, -⟩
    · cases hpromise.symm.trans hnone
    · exact hqp (Option.some.inj (hpromise.symm.trans (hi.promise p hp)))
  have hresuming : ∀ j o, t.phase j ≠ some (.resuming o) := by
    intro j o h
    rw [hj.phase] at h
    rcases update_eq_some h with ⟨-, hph⟩ | ⟨-, hph⟩
    · cases hph
    · exact hi.apart k a false hk j o hph
  have hstarted : p < t.started ∧ s.started ≤ t.started := by
    rcases hj.refresh with ⟨-, hp, hn, -⟩ | ⟨hp, hn, -⟩
    · omega
    · have := hi.started p hp
      omega
  constructor
  · intro j
    rw [hj.tasks, hj.phase]
    exact hi.tasks_enter k _ j
  · intro q hq
    obtain rfl := honly q hq
    exact hstarted.1
  · intro q hq
    obtain rfl := honly q hq
    exact hj.promise
  · intro q hq
    obtain rfl := Option.some.inj (hj.promise.symm.trans hq)
    exact .inl hp
  · exact fun j o h => absurd h (hresuming j o)
  · exact fun _ _ _ _ => hresuming
  · intro j q
    rw [hj.phase]
    rcases eq_or_ne j k with rfl | hjk
    · rw [Function.update_self]
      constructor
      · intro h
        cases h
        exact ⟨hp, hmem⟩
      · rintro ⟨hq, -⟩
        rw [honly q hq]
    · rw [Function.update_of_ne hjk, hi.waiting]
      rcases eq_or_ne q p with rfl | hqp
      · rcases hj.refresh with ⟨-, rfl, -, hr⟩ | ⟨hq, -, hr⟩ <;> rw [hr]
        · refine iff_of_false (fun h => ?_) fun h => hjk (List.mem_singleton.1 h.2)
          exact Nat.lt_irrefl _ (hi.started _ h.1)
        · rw [List.mem_append, List.mem_singleton, or_iff_left hjk]
          exact and_congr_left fun _ => iff_of_true hq hp
      · rw [hsame q hqp, hj.others q hqp]
  · intro q hq
    obtain rfl := honly q hq
    exact List.ne_nil_of_mem hmem
  · intro j
    rw [hj.phase]
    rcases eq_or_ne j k with rfl | hjk
    · rw [Function.update_self]
      have hstory := hi.story j
      rw [hk] at hstory
      refine ⟨a, (congrFun hj.sent j).trans hstory.1, ?_⟩
      rw [hj.awaited, Function.update_self]
    · rw [Function.update_of_ne hjk]
      refine (hi.story j).keeps ⟨hstarted.2, fun q hq o ho => ?_⟩ (congrFun hj.sent j) ?_
      · have hqp : q ≠ p := by
          rintro rfl
          rcases hj.refresh with ⟨-, rfl, -⟩ | ⟨hq', -⟩
          · exact Nat.lt_irrefl _ hq
          · exact nomatch hq'.symm.trans ho
        rw [hj.others q hqp]
        exact ho
      · rw [hj.awaited, Function.update_of_ne hjk]

/-- The request interceptor has run: the request has been sent once more. -/
theorem moved_send (s : Page) (k : ℕ) (a : Option String) (b : Bool) :
    s.Moved (s.send k a b) k (.inFlight (s.authorize a) b) :=
  ⟨rfl, rfl, rfl, rfl, fun _ hj => Function.update_of_ne hj .., rfl⟩

/-- What was sent for a request has one more header. -/
theorem sent_send (s : Page) (k : ℕ) (a : Option String) (b : Bool) :
    (s.send k a b).sent k = s.sent k ++ [s.authorize a] :=
  Function.update_self ..

/-- A request that goes on after the refresh is sent again with the new token, or done. -/
theorem moved_resume (s : Page) (k : ℕ) (o : Option String) :
    s.Moved (s.resume k o) k
      (match o with | some newAccess => .sending (some newAccess) true | none => .done false) := by
  cases o <;> exact ⟨rfl, rfl, rfl, rfl, fun _ _ => rfl, rfl⟩

/-- A step keeps the invariant. -/
theorem Inv.step (hi : s.Inv) (h : s.step l = some t) : t.Inv := by
  have hstory := hi.story
  cases stepped h with
  | signIn session | signOut => exact ⟨hi.1, hi.2, hi.3, hi.4, hi.5, hi.6, hi.7, hi.8, hi.9⟩
  | @request k hk =>
    have hs := hstory k
    rw [hk] at hs
    refine hi.moved (s.moved_enter k _) (.inl ⟨rfl, ?_⟩) ?_ nofun nofun nofun hs
    · exact fun o ho => nomatch hk.symm.trans ho
    · exact fun p hp => nomatch hk.symm.trans hp
  | @respond k a b ok htasks hk =>
    have hs := hstory k
    rw [hk] at hs
    refine hi.moved (s.moved_enter k _) (.inl ⟨rfl, ?_⟩) ?_ nofun nofun nofun ?_
    · exact fun o ho => nomatch hk.symm.trans ho
    · exact fun p hp => nomatch hk.symm.trans hp
    · cases b with
      | false => exact .inl ⟨a, hs⟩
      | true =>
        obtain ⟨x, y, hxy⟩ := hs
        exact .inr (.inl ⟨x, a, y, hxy⟩)
  | @unauthorized k a b htasks hk =>
    have hs := hstory k
    rw [hk] at hs
    refine hi.moved (s.moved_enter k _) (.inl ⟨rfl, ?_⟩) ?_ nofun nofun ?_ ?_
    · exact fun o ho => nomatch hk.symm.trans ho
    · exact fun p hp => nomatch hk.symm.trans hp
    · intro _ _ _ j o hj
      cases hi.not_queued htasks hj
    · cases b <;> exact hs
  | refreshed a r e htasks hp => exact hi.settle htasks hp _ _
  | refreshFailed htasks hp => exact hi.settle htasks hp _ _
  | @send k a b hk =>
    have hs := hstory k
    rw [hk] at hs
    refine hi.moved (s.moved_send k a b) (.inl ⟨rfl, ?_⟩) ?_ nofun nofun nofun ?_
    · exact fun o ho => nomatch hk.symm.trans ho
    · exact fun p hp => nomatch hk.symm.trans hp
    · cases b with
      | false =>
        refine ⟨?_, hs.2⟩
        rw [sent_send, hs.1, List.nil_append]
      | true =>
        obtain ⟨x, y, -, hx, hp⟩ := hs
        refine ⟨x, y, ?_, hp⟩
        rw [sent_send, hx, List.singleton_append]
  | @again k a hk =>
    have hs := hstory k
    rw [hk] at hs
    refine hi.moved (s.moved_enter k _) (.inl ⟨rfl, ?_⟩) ?_ nofun nofun nofun ?_
    · exact fun o ho => nomatch hk.symm.trans ho
    · exact fun p hp => nomatch hk.symm.trans hp
    · obtain ⟨x, y, hxy⟩ := hs
      exact .inr (.inl ⟨x, a, y, hxy⟩)
  | @noToken k a hk htoken =>
    have hs := hstory k
    rw [hk] at hs
    refine hi.moved (k := k) ⟨rfl, rfl, rfl, rfl, fun _ _ => rfl, rfl⟩ (.inl ⟨rfl, ?_⟩) ?_ nofun
      nofun nofun (.inl ⟨a, hs⟩)
    · exact fun o ho => nomatch hk.symm.trans ho
    · exact fun p hp => nomatch hk.symm.trans hp
  | @refresh k a token hk htoken =>
    obtain ⟨p, hp⟩ := hi.joined hk token
    exact hi.of_joined hk hp
  | @resume k o hk =>
    have hs := hstory k
    rw [hk] at hs
    obtain ⟨x, hx⟩ := hs
    refine hi.moved (s.moved_resume k o) (.inr ⟨?_, o, hk⟩) ?_ ?_ ?_ ?_ ?_
    · cases o <;> rfl
    · exact fun p hp => nomatch hk.symm.trans hp
    · cases o <;> exact nofun
    · cases o <;> exact nofun
    · cases o <;> exact nofun
    · cases o with
      | none => exact .inr (.inr ⟨rfl, x, hx⟩)
      | some a => exact ⟨x, a, rfl, hx⟩

/-- **Four kinds of requests:** one that has awaited nothing; one that waits; one
that was sent once, and is about to go on or was rejected; and one that was sent
again. -/
theorem Inv.story_cases (hi : s.Inv) (k : ℕ) :
    (∃ tokens, s.Untried k tokens ∧ tokens.length ≤ 1) ∨
    (∃ p x, s.phase k = some (.waiting p) ∧ s.sent k = [x] ∧ s.awaited k = some p) ∨
    (∃ o x, s.Settled k o [x] ∧ (o = none ∧ s.phase k = some (.done false) ∨
      ∃ ph, s.phase k = some ph ∧ ph.queued = true)) ∨
    ∃ b x y, s.Settled k (some b) [x, y] ∧ (s.phase k = some (.inFlight y true) ∨
      s.phase k = some (.intercepting y true) ∨ ∃ ok, s.phase k = some (.done ok)) := by
  have hs := hi.story k
  rcases hk : s.phase k with _ | ⟨a, _ | _⟩ | ⟨a, _ | _⟩ | ⟨a, _ | _⟩ | q | o | ok <;> rw [hk] at hs
  · exact .inl ⟨_, hs, Nat.zero_le _⟩
  · exact .inl ⟨_, hs, Nat.zero_le _⟩
  · obtain ⟨x, b, -, hx⟩ := hs
    exact .inr (.inr (.inl ⟨_, x, hx, .inr ⟨_, rfl, rfl⟩⟩))
  · exact .inl ⟨_, hs, Nat.le_refl _⟩
  · obtain ⟨x, b, hx⟩ := hs
    exact .inr (.inr (.inr ⟨b, x, a, hx, .inl rfl⟩))
  · exact .inl ⟨_, hs, Nat.le_refl _⟩
  · obtain ⟨x, b, hx⟩ := hs
    exact .inr (.inr (.inr ⟨b, x, a, hx, .inr (.inl rfl)⟩))
  · obtain ⟨x, hx, hq⟩ := hs
    exact .inr (.inl ⟨q, x, rfl, hx, hq⟩)
  · obtain ⟨x, hx⟩ := hs
    exact .inr (.inr (.inl ⟨o, x, hx, .inr ⟨_, rfl, rfl⟩⟩))
  · rcases hs with ⟨x, hx⟩ | ⟨x, y, b, hx⟩ | ⟨rfl, x, hx⟩
    · exact .inl ⟨_, hx, Nat.le_refl _⟩
    · exact .inr (.inr (.inr ⟨b, x, y, hx, .inr (.inr ⟨ok, rfl⟩)⟩))
    · exact .inr (.inr (.inl ⟨none, x, hx, .inl ⟨rfl, rfl⟩⟩))

/-- What a request has awaited has settled, or it waits. -/
theorem Settled.outcome {o : Option String} {tokens : List (Option String)} {p : ℕ}
    (hs : s.Settled k o tokens) (h : s.awaited k = some p) :
    (s.refreshes p).outcome = some o := by
  obtain ⟨-, q, -, hq, ho⟩ := hs
  obtain rfl := Option.some.inj (hq.symm.trans h)
  exact ho

/-- A request that has awaited an outstanding refresh waits for it. -/
theorem Inv.awaiting (hi : s.Inv) {p : ℕ} (h : s.awaited k = some p) (hp : s.Outstanding p) :
    s.phase k = some (.waiting p) := by
  rcases hi.story_cases k with ⟨_, hu, -⟩ | ⟨q, x, hk, -, hq⟩ | ⟨o, x, hx, -⟩ | ⟨b, x, y, hx, -⟩
  · cases hu.2.symm.trans h
  · rw [hk, Option.some.inj (hq.symm.trans h)]
  · cases hp.symm.trans (hx.outcome h)
  · cases hp.symm.trans (hx.outcome h)

/-- **No request is sent more than twice.** -/
theorem Inv.length_sent (hi : s.Inv) (k : ℕ) : (s.sent k).length ≤ 2 := by
  rcases hi.story_cases k with ⟨_, hu, hlen⟩ | ⟨q, x, -, hx, -⟩ | ⟨o, x, hx, -⟩ | ⟨b, x, y, hx, -⟩
  · rw [hu.1]
    omega
  · simp [hx]
  · simp [hx.1]
  · simp [hx.1]

/-- A step sends a request whose request interceptor is to run, or none. -/
theorem sent_step (hi : s.Inv) (h : s.step l = some t) (k : ℕ) :
    t.sent k = s.sent k ∨ ∃ a b, s.phase k = some (.sending a b) ∧
      t.sent k = s.sent k ++ [s.authorize a] := by
  cases stepped h with
  | @send j a b hj =>
    rcases eq_or_ne k j with rfl | hk
    · exact .inr ⟨a, b, hj, s.sent_send k a b⟩
    · exact .inl ((s.moved_send j a b).sent k hk)
  | @refresh j a token hj =>
    obtain ⟨p, hp⟩ := hi.joined hj token
    exact .inl (congrFun hp.sent k)
  | @resume j o hj =>
    left
    cases o <;> rfl
  | _ => exact .inl rfl

/-- A refresh that a request has awaited settles while the request waits, or it
had settled before. -/
theorem Settled.step {o : Option String} {tokens : List (Option String)} (hi : s.Inv)
    (h : s.step l = some t) (hs : t.Settled k o tokens) :
    s.Settled k o (s.sent k) ∨ (∃ x, tokens = [x]) ∧ t.phase k = some (.resuming o) := by
  have hmoved : ∀ {j ph}, s.Moved t j ph → s.Settled k o (s.sent k) := by
    intro j ph hm
    obtain ⟨-, p, hp, hk, ho⟩ := hs
    rw [hm.awaited] at hk
    rw [hm.started] at hp
    rw [hm.refreshes] at ho
    exact ⟨rfl, p, hp, hk, ho⟩
  have hsettle : ∀ {p o'} {store : AuthStore}, s.Outstanding p →
      t = { s with store := store }.settle p o' →
      s.Settled k o (s.sent k) ∨ (∃ x, tokens = [x]) ∧ t.phase k = some (.resuming o) := by
    rintro p o' store hp rfl
    obtain ⟨hsent, q, hq, hk, ho⟩ := hs
    rcases eq_or_ne q p with rfl | hqp
    · have hwait := hi.awaiting hk hp
      have hstory := hi.story k
      rw [hwait] at hstory
      obtain ⟨x, hx, -⟩ := hstory
      rw [settle_self] at ho
      obtain rfl := Option.some.inj ho
      exact .inr ⟨⟨x, hsent.symm.trans hx⟩, if_pos ((hi.waiting k q).1 hwait).2⟩
    · rw [settle_of_ne _ hqp] at ho
      exact .inl ⟨rfl, q, hq, hk, ho⟩
  cases stepped h with
  | signIn session => exact .inl ⟨rfl, hs.2⟩
  | signOut => exact .inl ⟨rfl, hs.2⟩
  | request hj => exact .inl (hmoved (moved_enter ..))
  | respond ok _ hj => exact .inl (hmoved (moved_enter ..))
  | unauthorized _ hj => exact .inl (hmoved (moved_enter ..))
  | refreshed a r e htasks hp => exact hsettle hp rfl
  | refreshFailed htasks hp => exact hsettle hp rfl
  | send hj => exact .inl (hmoved (moved_send ..))
  | again hj => exact .inl (hmoved (moved_enter ..))
  | noToken hj => exact .inl ⟨rfl, hs.2⟩
  | resume hj => exact .inl (hmoved (moved_resume ..))
  | @refresh j a token hj =>
    left
    obtain ⟨p, hp⟩ := hi.joined hj token
    obtain ⟨-, q, hq, hk, ho⟩ := hs
    have hqp : q ≠ p := by
      rintro rfl
      rcases hp.refresh with ⟨-, -, -, hr⟩ | ⟨hout, -, hr⟩ <;> rw [hr] at ho
      · cases ho
      · cases hout.symm.trans ho
    have hkj : k ≠ j := by
      rintro rfl
      rw [hp.awaited, Function.update_self] at hk
      exact hqp (Option.some.inj hk).symm
    rw [hp.awaited, Function.update_of_ne hkj] at hk
    rw [hp.others q hqp] at ho
    refine ⟨rfl, q, ?_, hk, ho⟩
    rcases hp.refresh with ⟨-, _, hn, -⟩ | ⟨-, hn, -⟩ <;> omega

/-- The request is about to be sent again, with this token unless the store has
another. -/
def Resending (s : Page) (k : ℕ) (a : String) : Prop :=
  s.phase k = some (.resuming (some a)) ∨ s.phase k = some (.sending (some a) true)

/-- **Who is about to be sent again:** a request that was before, while the store
is as it was, or signed in or out; or one that waited for the refresh that is
answered. -/
theorem Resending.step {a : String} (hi : s.Inv) (h : s.step l = some t) (hr : t.Resending k a) :
    t.sent k = s.sent k ∧
      (s.Resending k a ∧ (t.store = s.store ∨ t.store = .signOut ∨
          ∃ session, l = .signIn session ∧ t.store = .signIn session) ∨
        ∃ p r e, l = .refreshed p a r e ∧ s.phase k = some (.waiting p) ∧
          t.store = s.store.updateTokens a r e) := by
  have hmoved : ∀ {j ph}, t.phase = Function.update s.phase j (some ph) →
      (∀ a, ph ≠ .resuming (some a)) → (∀ a, ph ≠ .sending (some a) true) →
      s.Resending k a ∧ k ≠ j := by
    intro j ph hphase hph hph'
    rw [Resending, hphase] at hr
    rcases hr with hr | hr <;> rcases update_eq_some hr with ⟨-, hx⟩ | ⟨hj, hx⟩
    · exact absurd hx.symm (hph a)
    · exact ⟨.inl hx, hj⟩
    · exact absurd hx.symm (hph' a)
    · exact ⟨.inr hx, hj⟩
  have hsettle : ∀ {p o} {store : AuthStore}, s.tasks = [] → s.Outstanding p →
      t = { s with store := store }.settle p o → o = some a ∧ s.phase k = some (.waiting p) := by
    rintro p o store htasks hp rfl
    by_cases hmem : k ∈ (s.refreshes p).reactions
    · have hphase : ({ s with store := store }.settle p o).phase k = some (.resuming o) :=
        if_pos hmem
      rw [Resending, hphase] at hr
      refine ⟨?_, (hi.waiting k p).2 ⟨hp, hmem⟩⟩
      rcases hr with hr | hr
      · cases hr
        rfl
      · cases hr
    · have hphase : ({ s with store := store }.settle p o).phase k = s.phase k := if_neg hmem
      rw [Resending, hphase] at hr
      rcases hr with hr | hr <;> cases hi.not_queued htasks hr
  cases stepped h with
  | signIn session => exact ⟨rfl, .inl ⟨hr, .inr (.inr ⟨session, rfl, rfl⟩)⟩⟩
  | signOut => exact ⟨rfl, .inl ⟨hr, .inr (.inl rfl)⟩⟩
  | request hj => exact ⟨rfl, .inl ⟨(hmoved rfl nofun nofun).1, .inl rfl⟩⟩
  | respond ok _ hj => exact ⟨rfl, .inl ⟨(hmoved rfl nofun nofun).1, .inl rfl⟩⟩
  | unauthorized _ hj => exact ⟨rfl, .inl ⟨(hmoved rfl nofun nofun).1, .inl rfl⟩⟩
  | refreshed b r e htasks hp =>
    obtain ⟨hb, hk⟩ := hsettle htasks hp rfl
    obtain rfl := Option.some.inj hb
    exact ⟨rfl, .inr ⟨_, r, e, rfl, hk, rfl⟩⟩
  | refreshFailed htasks hp => cases (hsettle htasks hp rfl).1
  | @send j b c hj =>
    obtain ⟨hs, hk⟩ := hmoved (s.moved_send j b c).phase nofun nofun
    exact ⟨(s.moved_send j b c).sent k hk, .inl ⟨hs, .inl rfl⟩⟩
  | again hj => exact ⟨rfl, .inl ⟨(hmoved rfl nofun nofun).1, .inl rfl⟩⟩
  | noToken hj => exact ⟨rfl, .inl ⟨(hmoved rfl nofun nofun).1, .inr (.inl rfl)⟩⟩
  | @refresh j b token hj =>
    obtain ⟨p, hp⟩ := hi.joined hj token
    exact ⟨congrFun hp.sent k, .inl ⟨(hmoved hp.phase nofun nofun).1, .inl hp.store⟩⟩
  | @resume j o hj =>
    cases o with
    | none => exact ⟨rfl, .inl ⟨(hmoved rfl nofun nofun).1, .inr (.inl rfl)⟩⟩
    | some b =>
      refine ⟨rfl, .inl ⟨?_, .inl rfl⟩⟩
      rw [Resending, (s.moved_resume j (some b)).phase] at hr
      rcases hr with hr | hr <;> rcases update_eq_some hr with ⟨rfl, hx⟩ | ⟨-, hx⟩
      · cases hx
      · exact .inl hx
      · cases hx
        exact .inl hj
      · exact .inr hx

/-- **What is queued to be rejected** after a failed refresh stays so until it is,
and then nobody is signed in. -/
theorem step_resuming_none (hi : s.Inv) (h : s.step l = some t)
    (hk : s.phase k = some (.resuming none)) :
    t.phase k = some (.resuming none) ∨ t.store.session = none := by
  have hother : ∀ {j ph}, j ≠ k → Function.update s.phase j (some ph) k = some (.resuming none) :=
    fun hj => (Function.update_of_ne hj.symm ..).trans hk
  have hne : ∀ {j ph}, s.phase j = ph → ph ≠ some (.resuming none) → j ≠ k := by
    rintro j ph hj hph rfl
    exact hph (hj.symm.trans hk)
  cases stepped h with
  | signIn session => exact .inl hk
  | signOut => exact .inl hk
  | request hj => exact .inl (hother (hne hj nofun))
  | respond ok htasks => cases hi.not_queued htasks hk
  | unauthorized htasks => cases hi.not_queued htasks hk
  | refreshed b r e htasks => cases hi.not_queued htasks hk
  | refreshFailed htasks => cases hi.not_queued htasks hk
  | send hj => exact .inl (hother (hne hj nofun))
  | again hj => exact .inl (hother (hne hj nofun))
  | noToken hj => exact .inr rfl
  | @refresh j b token hj => exact absurd hk (hi.apart j b false hj k none)
  | @resume j o hj =>
    rcases eq_or_ne j k with rfl | hjk
    · obtain rfl := Phase.resuming.inj (Option.some.inj (hj.symm.trans hk))
      exact .inr rfl
    · left
      rw [(s.moved_resume j o).phase]
      exact hother hjk

end Page

end Frontend
end YtShare
