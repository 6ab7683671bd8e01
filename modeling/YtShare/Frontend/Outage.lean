/-
# Who is signed out by an outage

The response interceptor ends the session when a refresh fails, and does not ask
why it failed: the server may have refused the token, it may have answered by an
error of its own, or it may not have answered at all.

`Watched` is a page with the answer that each failed refresh got.
`outages_spare_sessions` says when an outage signs nobody out: the service
returns its errors faithfully but where `Refresh` fails to load a user, and the
interceptor ends a session with cause as long as every refresh that fails was
refused by the server.
-/

import YtShare.Auth.Outages
import YtShare.Frontend.RefreshPromise

namespace YtShare
namespace Frontend

open Lib

/-- What the server answers when credentials are invalid. -/
def refusal : ℕ × APIError := Auth.writeAuthError .invalidCredentials

/-- A page, and what its failed refreshes were answered, `none` also for those
that were not. -/
structure Watched where
  page : Page
  answers : ℕ → Option (ℕ × APIError)

namespace Watched

/-- What happens next. -/
inductive Label
  /-- anything but a refresh that fails -/
  | page (l : Page.Label)
  /-- a refresh fails, with this answer or without one -/
  | refreshFailed (p : ℕ) (answer : Option (ℕ × APIError))

/-- One step. -/
def step (s : Watched) : Label → Option Watched
  | .page (.refreshFailed _) => none
  | .page l => (s.page.step l).map fun page => { s with page := page }
  | .refreshFailed p answer =>
      (s.page.step (.refreshFailed p)).map fun page =>
        ⟨page, Function.update s.answers p answer⟩

/-- The page after its load. -/
def load (stored : Option AuthSession) : Watched := ⟨.load stored, fun _ => none⟩

/-- **The condition on a step:** a refresh that fails was refused by the server. -/
def Refused (_ : Watched) : Label → Prop
  | .refreshFailed _ answer => answer = some refusal
  | .page _ => True

/-- When the response interceptor ends the session, the server has refused the
refresh that the request awaited, or has answered the request by 401 and there
is no refresh token. -/
def Justified (s : Watched) : Label → Prop
  | .page (.run k) => ∀ t, s.page.step (.run k) = some t →
      s.page.store.session ≠ none → t.store.session = none →
        (∃ p, s.page.awaited k = some p ∧ s.answers p = some refusal) ∨
          ∃ a, s.page.phase k = some (.intercepting a false) ∧
            s.page.store.getRefreshToken = none
  | _ => True

end Watched

/-- A watched page, from its load on. -/
def watched : Machine Watched Watched.Label where
  init s := ∃ stored, s = .load stored
  step := Watched.step

namespace Page

variable {s t : Page} {l : Label}

/-- **Which refreshes have failed** after a step: those that had, and the one that
fails in it. -/
theorem failed_step (hi : s.Inv) (h : s.step l = some t) {p : ℕ} (hp : p < t.started)
    (hnone : (t.refreshes p).outcome = some none) :
    p < s.started ∧ (s.refreshes p).outcome = some none ∨ l = .refreshFailed p := by
  have hmoved : ∀ {j ph}, s.Moved t j ph → p < s.started ∧ (s.refreshes p).outcome = some none := by
    intro j ph hm
    rw [hm.started] at hp
    rw [hm.refreshes] at hnone
    exact ⟨hp, hnone⟩
  cases stepped h with
  | signIn session => exact .inl ⟨hp, hnone⟩
  | signOut => exact .inl ⟨hp, hnone⟩
  | request hj => exact .inl (hmoved (moved_enter ..))
  | respond ok _ hj => exact .inl (hmoved (moved_enter ..))
  | unauthorized _ hj => exact .inl (hmoved (moved_enter ..))
  | send hj => exact .inl (hmoved (moved_send ..))
  | again hj => exact .inl (hmoved (moved_enter ..))
  | noToken hj => exact .inl ⟨hp, hnone⟩
  | resume hj => exact .inl (hmoved (moved_resume ..))
  | @refreshed q a r e _ hq =>
    rcases eq_or_ne p q with rfl | hne
    · rw [settle_self] at hnone
      cases hnone
    · rw [settle_of_ne _ hne] at hnone
      exact .inl ⟨hp, hnone⟩
  | @refreshFailed q _ hq =>
    rcases eq_or_ne p q with rfl | hne
    · exact .inr rfl
    · rw [settle_of_ne _ hne] at hnone
      exact .inl ⟨hp, hnone⟩
  | @refresh j a token hj =>
    left
    obtain ⟨q, hq⟩ := hi.joined hj token
    have hne : p ≠ q := by
      rintro rfl
      rcases hq.refresh with ⟨-, -, -, hr⟩ | ⟨hout, -, hr⟩ <;> rw [hr] at hnone
      · cases hnone
      · cases hout.symm.trans hnone
    rw [hq.others p hne] at hnone
    refine ⟨?_, hnone⟩
    rcases hq.refresh with ⟨-, _, hn, -⟩ | ⟨-, hn, -⟩ <;> omega

/-- **How a microtask ends the session:** a request is rejected after a failed
refresh, or was answered by 401 when there is no refresh token. -/
theorem session_ended (hi : s.Inv) {k : ℕ} (h : s.step (.run k) = some t)
    (hsome : s.store.session ≠ none) (hnone : t.store.session = none) :
    (∃ p < s.started, s.awaited k = some p ∧ (s.refreshes p).outcome = some none) ∨
      ∃ a, s.phase k = some (.intercepting a false) ∧ s.store.getRefreshToken = none := by
  cases stepped h with
  | send hj => exact absurd hnone hsome
  | again hj => exact absurd hnone hsome
  | noToken hj htoken => exact .inr ⟨_, hj, htoken⟩
  | @refresh _ a token hj =>
    obtain ⟨q, hq⟩ := hi.joined hj token
    rw [hq.store] at hnone
    exact absurd hnone hsome
  | @resume _ o hj =>
    cases o with
    | some a => exact absurd hnone hsome
    | none =>
      have hstory := hi.story k
      rw [hj] at hstory
      obtain ⟨x, -, hsettled⟩ := hstory
      exact .inl hsettled

end Page

namespace Watched

variable {s t : Watched} {l : Label}

/-- The invariant: a refresh that has failed was refused. -/
structure Inv (s : Watched) : Prop where
  page : s.page.Inv
  refused : ∀ p < s.page.started, (s.page.refreshes p).outcome = some none →
    s.answers p = some refusal

/-- What a step does: the page takes it, and a failed refresh has its answer. -/
theorem step_cases (h : s.step l = some t) :
    (∃ pl, l = .page pl ∧ (∀ p, pl ≠ .refreshFailed p) ∧ s.page.step pl = some t.page ∧
        t.answers = s.answers) ∨
      ∃ p answer, l = .refreshFailed p answer ∧ s.page.step (.refreshFailed p) = some t.page ∧
        t.answers = Function.update s.answers p answer := by
  cases l with
  | page pl =>
    by_cases hpl : ∃ p, pl = .refreshFailed p
    · obtain ⟨p, rfl⟩ := hpl
      cases h
    · have hmap : (s.page.step pl).map (fun page => { s with page := page }) = some t := by
        cases pl <;> first | exact h | exact absurd ⟨_, rfl⟩ hpl
      obtain ⟨page, hpage, rfl⟩ := Option.map_eq_some_iff.1 hmap
      exact .inl ⟨pl, rfl, fun p hp => hpl ⟨p, hp⟩, hpage, rfl⟩
  | refreshFailed p answer =>
    obtain ⟨page, hpage, rfl⟩ := Option.map_eq_some_iff.1 h
    exact .inr ⟨p, answer, rfl, hpage, rfl⟩

/-- **The step lemma.**  A step that meets the condition keeps the invariant, and
ends no session without cause. -/
theorem Inv.step (hi : s.Inv) (hc : s.Refused l) (h : s.step l = some t) :
    s.Justified l ∧ t.Inv := by
  rcases step_cases h with ⟨pl, rfl, hne, hpage, hanswers⟩ | ⟨p, answer, rfl, hpage, hanswers⟩
  · refine ⟨?_, hi.page.step hpage, fun q hq hnone => ?_⟩
    · cases pl with
      | run k =>
        intro page hrun hsome hnone
        rcases Page.session_ended hi.page hrun hsome hnone with ⟨p, hp, hawait, hfailed⟩ | hno
        · exact .inl ⟨p, hawait, hi.refused p hp hfailed⟩
        · exact .inr hno
      | _ => trivial
    · rw [hanswers]
      rcases Page.failed_step hi.page hpage hq hnone with ⟨hlt, hold⟩ | hl
      · exact hi.refused q hlt hold
      · exact absurd hl (hne q)
  · refine ⟨trivial, hi.page.step hpage, fun q hq hnone => ?_⟩
    rw [hanswers]
    rcases eq_or_ne q p with rfl | hqp
    · rw [Function.update_self]
      exact hc
    · rw [Function.update_of_ne hqp]
      rcases Page.failed_step hi.page hpage hq hnone with ⟨hlt, hold⟩ | hl
      · exact hi.refused q hlt hold
      · exact absurd (Page.Label.refreshFailed.inj hl).symm hqp

/-- On a page that was loaded no refresh has failed. -/
theorem inv_load (stored : Option AuthSession) : (load stored).Inv :=
  ⟨Page.inv_load stored, fun _ hp => absurd hp (Nat.not_lt_zero _)⟩

/-- The pages of watched runs. -/
theorem inv_page (h : watched.Reachable s) : s.page.Inv := by
  refine Machine.invariant (I := fun s => s.page.Inv) (fun s hs => ?_)
    (fun s l t hi hst => ?_) h
  · obtain ⟨stored, rfl⟩ := hs
    exact Page.inv_load stored
  · rcases step_cases hst with ⟨pl, -, -, hpage, -⟩ | ⟨p, answer, -, hpage, -⟩
    · exact hi.step hpage
    · exact hi.step hpage

/-- **A refresh that fails without having been refused** is followed by a
microtask that ends the session without cause. -/
theorem signed_out_of_failed (hs : watched.Reachable s) {p : ℕ} {answer : Option (ℕ × APIError)}
    (h : s.step (.refreshFailed p answer) = some t) (hanswer : answer ≠ some refusal)
    (hsome : t.page.store.session ≠ none) :
    ∃ k u, t.step (.page (.run k)) = some u ∧ u.page.store.session = none ∧
      ¬t.Justified (.page (.run k)) := by
  have hi := inv_page hs
  rcases step_cases h with ⟨pl, hl, -⟩ | ⟨q, answer', hl, hpage, hanswers⟩
  · cases hl
  · obtain ⟨rfl, rfl⟩ := Label.refreshFailed.inj hl
    obtain ⟨page, answers⟩ := t
    cases Page.stepped hpage with
    | refreshFailed _ hp =>
      obtain ⟨k, hk⟩ := List.exists_mem_of_ne_nil _ (hi.reactions p hp)
      have hawait : s.page.awaited k = some p := by
        have hstory := hi.story k
        rw [(hi.waiting k p).2 ⟨hp, hk⟩] at hstory
        obtain ⟨x, -, hx⟩ := hstory
        exact hx
      have hphase : (s.page.settle p none).phase k = some (.resuming none) := if_pos hk
      have hrun : (s.page.settle p none).step (.run k) =
          some ((s.page.settle p none).resume k none) := by
        show (if k ∈ (s.page.refreshes p).reactions then
          (s.page.settle p none).runTask k else none) = _
        rw [if_pos hk, Page.runTask, hphase]
      refine ⟨k, ⟨(s.page.settle p none).resume k none, answers⟩, ?_, rfl, fun hjust => ?_⟩
      · show ((s.page.settle p none).step (.run k)).map _ = _
        rw [hrun]
        rfl
      · rcases hjust _ hrun hsome rfl with ⟨q, hq, hrefused⟩ | ⟨a, ha, -⟩
        · obtain rfl := Option.some.inj (hawait.symm.trans hq)
          simp only at hrefused hanswers
          rw [hanswers, Function.update_self] at hrefused
          exact hanswer hrefused
        · cases hphase.symm.trans ha

end Watched

/-- **When an outage signs nobody out.**  The service returns an error of the
domain only for its cause, and an error of a repository as such, exactly when the
user of a valid refresh token is loaded without an error.  In every run in which
each refresh that fails was refused by the server, the interceptor ends no session
without cause; and a refresh that fails otherwise while somebody is signed in is
followed by a microtask that does. -/
theorem outages_spare_sessions (lib : Auth.Library) (cfg : Auth.JWTConfig)
    {lower : String → String} (request : Auth.Request)
    (seen : List (Auth.StepEnv × Users.Table lower)) (stored : Option AuthSession)
    (run : List Watched.Label) :
    (Auth.Service.Faithful lib cfg request seen ↔
        Auth.Service.RefreshLoads lib cfg request seen) ∧
      (watched.Steps Watched.Refused (.load stored) run →
        watched.Steps Watched.Justified (.load stored) run) ∧
      ∀ (s t : Watched) (p : ℕ) (answer : Option (ℕ × APIError)),
        watched.exec (.load stored) run = some s →
        s.step (.refreshFailed p answer) = some t → answer ≠ some refusal →
        t.page.store.session ≠ none →
          ∃ k u, t.step (.page (.run k)) = some u ∧ u.page.store.session = none ∧
            ¬t.Justified (.page (.run k)) :=
  ⟨Auth.Service.faithful_iff_refreshLoads request seen,
    fun h => Machine.Steps.of_invariant (fun _ _ _ hi hc hs => hi.step hc hs)
      (Watched.inv_load stored) h,
    fun _ _ _ _ hexec hstep hanswer hsome => Watched.signed_out_of_failed
      (Machine.reachable_of_exec ⟨stored, rfl⟩ hexec) hstep hanswer hsome⟩

/-- A session of user 7. -/
def sevenSession : AuthSession := ⟨⟨"7", "", ""⟩, "access", "refresh", ""⟩

/-- A request is answered by 401, and the server refuses the refresh token. -/
def refusedRun : List Watched.Label :=
  [.page (.request 1), .page (.run 1), .page (.unauthorized 1), .page (.run 1),
    .refreshFailed 0 (some refusal), .page (.run 1)]

/-- The refresh token of user 7, who signed in at the zero time. -/
def sevenRefresh : Auth.RefreshRequest :=
  ⟨((Auth.TokenIssuer.issue .reference Auth.oneSecret ⟨0⟩ ⟨7⟩).map (·.refreshToken)).getD ""⟩

/-- A refresh token of nobody is refused with cause, and so ends the session. -/
theorem outages_spare_sessions_refusedRun :
    Auth.Service.Faithful Auth.plain Auth.oneSecret (.refresh sevenRefresh ⟨1⟩)
        [(⟨false, ⟨0⟩, ⟨1⟩, 0⟩, (.empty : Users.Table id))] ∧
      watched.Steps Watched.Justified (.load (some sevenSession)) refusedRun := by
  have h := outages_spare_sessions Auth.plain Auth.oneSecret (.refresh sevenRefresh ⟨1⟩)
    [(⟨false, ⟨0⟩, ⟨1⟩, 0⟩, (.empty : Users.Table id))] (some sevenSession) refusedRun
  constructor
  · refine h.1.2 fun req now claims _ _ x hx => ?_
    obtain rfl := Option.some.inj hx
    rfl
  · exact h.2.1 fun _ _ => ⟨trivial, fun _ _ => ⟨trivial, fun _ _ => ⟨trivial, fun _ _ =>
      ⟨trivial, fun _ _ => ⟨rfl, fun _ _ => ⟨trivial, trivial⟩⟩⟩⟩⟩⟩

/-- A request is answered by 401, and the network fails in the refresh. -/
def networkRun : List Watched.Label :=
  [.page (.request 1), .page (.run 1), .page (.unauthorized 1), .page (.run 1),
    .refreshFailed 0 none, .page (.run 1)]

/-- A step in which the database fails. -/
def databaseDown : Auth.StepEnv := ⟨true, ⟨0⟩, ⟨1⟩, 0⟩

/-- The refresh token of the user 7 is accepted, and the account is looked up next. -/
theorem start_sevenRefresh :
    Auth.Service.start Auth.plain Auth.oneSecret (.refresh sevenRefresh ⟨1⟩) =
      .refresh sevenRefresh ⟨1⟩ (.load ⟨7⟩) := by
  have hclaims : (Auth.TokenIssuer.verifyRefresh Auth.plain.jwt Auth.oneSecret ⟨1⟩
      sevenRefresh.refreshToken).map (·.userID) = .ok ⟨7⟩ := by decide
  rw [Auth.Service.start, Auth.Service.startRefresh]
  cases hv : Auth.TokenIssuer.verifyRefresh Auth.plain.jwt Auth.oneSecret ⟨1⟩
      sevenRefresh.refreshToken with
  | error e =>
    rw [hv] at hclaims
    cases hclaims
  | ok claims =>
    rw [hv] at hclaims
    rw [← Except.ok.inj hclaims]

/-- A database that fails signs the user out, and so does a network that fails. -/
theorem not_outages_spare_sessions :
    (¬∀ (lib : Auth.Library) (cfg : Auth.JWTConfig) (lower : String → String)
        (request : Auth.Request) (seen : List (Auth.StepEnv × Users.Table lower)),
        Auth.Service.Faithful lib cfg request seen) ∧
      ¬∀ (stored : Option AuthSession) (run : List Watched.Label),
        watched.Steps Watched.Justified (.load stored) run := by
  constructor
  · intro h
    have hfails := (h Auth.plain Auth.oneSecret id (.refresh sevenRefresh ⟨1⟩)
      [(databaseDown, .empty)]).2
    obtain ⟨e, hr, rfl, -⟩ := hfails ⟨[], databaseDown, .empty, [], rfl, rfl, by
      rw [Auth.Service.runSeen, start_sevenRefresh]
      trivial⟩
    rw [start_sevenRefresh] at hr
    cases hr
  · intro h
    obtain ⟨-, h⟩ := h (some sevenSession) networkRun _ rfl
    obtain ⟨-, h⟩ := h _ rfl
    obtain ⟨-, h⟩ := h _ rfl
    obtain ⟨-, h⟩ := h _ rfl
    obtain ⟨-, h⟩ := h _ rfl
    obtain ⟨hjust, -⟩ := h _ rfl
    rcases hjust _ rfl (fun h => by cases h) rfl with ⟨p, -, hp⟩ | ⟨a, ha, -⟩
    · rcases update_eq_iff.1 hp with ⟨-, hanswer⟩ | ⟨-, hanswer⟩ <;> cases hanswer
    · cases ha

end Frontend
end YtShare
