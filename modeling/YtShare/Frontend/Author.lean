/-
# Who a request is sent again for

A request is sent with the access token of the user who is signed in then, and
sent again with the token that a refresh brought.  The refresh token of that
refresh is read from the store when a request is refused, not when it was sent,
and a request that is refused later joins a refresh that another has started.
Nothing compares the two users.

Which user a token was issued for is a fact of the server, `owner`.  It is
trusted to answer a refresh with tokens of the owner of the refresh token it was
sent, and the sign-in form to pass on consistent sessions.  `author_kept` says
which switches of the user keep every request with the user who made it, and
`switched_author` is a run in which `b` sends a request that `a` made.
-/

import YtShare.Frontend.HttpClient
import YtShare.Frontend.RefreshPromise

namespace YtShare
namespace Frontend

open Lib

namespace Page

/-- What the server and the sign-in form are trusted with. -/
def Trusted (owner : String → String) (s : Page) : Label → Prop
  | .signIn session => HttpClient.Consistent owner session
  | .refreshed p accessToken refreshToken _ =>
      owner accessToken = owner (s.refreshes p).refreshToken ∧
        owner refreshToken = owner (s.refreshes p).refreshToken
  | _ => True

instance (owner : String → String) (s : Page) : ∀ l, Decidable (s.Trusted owner l)
  | .signIn session => inferInstanceAs (Decidable (HttpClient.Consistent owner session))
  | .refreshed .. => inferInstanceAs (Decidable (_ ∧ _))
  | .signOut | .request _ | .respond .. | .unauthorized _ | .refreshFailed _ | .run _ =>
      isTrue trivial

/-- The request was made with this access token: it was first sent with it. -/
def MadeWith (s : Page) (k : ℕ) (token : String) : Prop := (s.sent k).head? = some (some token)

/-- A request that was made with an access token is sent again with access tokens
of the same user only. -/
def AuthorKept (owner : String → String) (s : Page) : Prop :=
  ∀ k token again, s.sent k = some token :: again →
    ∀ x ∈ again, ∃ b, x = some b ∧ owner b = owner token

/-- **The condition on a step:** when a refresh is answered with new tokens, the
refresh token it sent belongs to the makers of all requests that wait for it; and
while a request is about to be sent again, in that same turn, nobody signs in but
its maker. -/
def SameUser (owner : String → String) (s : Page) : Label → Prop
  | .refreshed p _ _ _ => ∀ k token, s.phase k = some (.waiting p) → s.MadeWith k token →
      owner (s.refreshes p).refreshToken = owner token
  | .signIn session => ∀ k a token, s.Resending k a → s.MadeWith k token →
      owner session.accessToken = owner token
  | _ => True

end Page

/-- A page in front of a server that can be trusted. -/
def trustedPage (owner : String → String) : Machine Page Page.Label :=
  page.restrict (Page.Trusted owner)

namespace Page

variable {owner : String → String} {s t : Page} {l : Label} {k : ℕ}

/-- A step of the page is one with a trusted owner of the refresh. -/
theorem trustedPage_step (h : (trustedPage owner).step s l = some t) :
    s.Trusted owner l ∧ s.step l = some t :=
  Machine.restrict_step.1 h

/-- What holds while the condition is met: a request that is about to be sent
again finds tokens of its maker only. -/
structure Authored (owner : String → String) (s : Page) : Prop where
  resending : ∀ k a token, s.Resending k a → s.MadeWith k token →
    owner a = owner token ∧ ∀ x, s.store.getAccessToken = some x → owner x = owner token
  kept : s.AuthorKept owner

/-- A page that was loaded has sent nothing under anyone's name. -/
theorem authored_load (stored : Option AuthSession) : (load stored).Authored owner where
  resending _ _ _ h := by rcases h with h | h <;> cases h
  kept _ _ _ h := by cases h

/-- What a request was made with depends on what was sent for it only. -/
theorem MadeWith.of_sent {token : String} (hsent : t.sent k = s.sent k)
    (h : t.MadeWith k token) : s.MadeWith k token := by
  unfold MadeWith at h ⊢
  rw [← hsent]
  exact h

/-- The tokens that a request which is about to be sent again can be sent with. -/
theorem Authored.resending_step (ha : s.Authored owner) (hi : s.Inv) (htrust : s.Trusted owner l)
    (hsame : s.SameUser owner l) (h : s.step l = some t) {a token : String}
    (hr : t.Resending k a) (hm : t.MadeWith k token) :
    owner a = owner token ∧ ∀ x, t.store.getAccessToken = some x → owner x = owner token := by
  obtain ⟨hsent, hcases⟩ := hr.step hi h
  have hm' := hm.of_sent hsent
  rcases hcases with ⟨hs, hstore⟩ | ⟨p, r, e, rfl, hk, hstore⟩
  · obtain ⟨howner, hcurrent⟩ := ha.resending k a token hs hm'
    refine ⟨howner, fun x hx => ?_⟩
    rcases hstore with hstore | hstore | ⟨session, rfl, hstore⟩ <;> rw [hstore] at hx
    · exact hcurrent x hx
    · cases hx
    · obtain rfl := Option.some.inj (Option.filter_eq_some_iff.1 hx).1
      exact hsame k a token hs hm'
  · have howner : owner a = owner token := htrust.1.trans (hsame k token hk hm')
    refine ⟨howner, fun x hx => ?_⟩
    rw [hstore] at hx
    rw [AuthStore.getAccessToken_updateTokens hx]
    exact howner

/-- **A step that meets the condition keeps it.** -/
theorem Authored.step (ha : s.Authored owner) (hi : s.Inv) (htrust : s.Trusted owner l)
    (hsame : s.SameUser owner l) (h : s.step l = some t) : t.Authored owner := by
  constructor
  · exact fun k a token hr hm => ha.resending_step hi htrust hsame h hr hm
  · intro k token again hk x hx
    rcases sent_step hi h k with hsent | ⟨b, c, hphase, hsent⟩
    · exact ha.kept k token again (hsent.symm.trans hk) x hx
    · have hstory := hi.story k
      rw [hphase] at hstory
      cases c with
      | false =>
        -- it is sent for the first time
        rw [hstory.1, List.nil_append] at hsent
        obtain ⟨-, rfl⟩ := List.cons.inj (hsent.symm.trans hk)
        cases hx
      | true =>
        obtain ⟨y, d, rfl, hy⟩ := hstory
        rw [hy.1, List.singleton_append] at hsent
        obtain ⟨rfl, rfl⟩ := List.cons.inj (hsent.symm.trans hk)
        obtain rfl := List.mem_singleton.1 hx
        have hmade : s.MadeWith k token := by rw [MadeWith, hy.1]; rfl
        obtain ⟨howner, hcurrent⟩ := ha.resending k d token (.inr hphase) hmade
        unfold authorize
        split
        · next x hx => exact ⟨x, rfl, hcurrent x hx⟩
        · exact ⟨d, rfl, howner⟩

end Page

/-- **When a retried request keeps its author.**  In every run whose steps all
meet the condition, every request is sent again with tokens of the user who made
it only. -/
theorem author_kept {owner : String → String} {stored : Option AuthSession}
    {run : List Page.Label}
    (h : (trustedPage owner).Steps (Page.SameUser owner) (.load stored) run) :
    (trustedPage owner).Always (Page.AuthorKept owner) (.load stored) run := by
  refine Machine.Always.mono (P := fun s => s.Inv ∧ s.Authored owner) (fun s hs => hs.2.kept) ?_
  refine Machine.always_of_steps ?_ ⟨Page.inv_load stored, Page.authored_load stored⟩ h
  rintro s l t ⟨hi, ha⟩ hsame hst
  obtain ⟨htrust, hst⟩ := Page.trustedPage_step hst
  exact ⟨hi.step hst, ha.step hi htrust hsame hst⟩

/-- User `a` signs in, a request of theirs is refused, and it is sent again after
the refresh. -/
def retryRun : List Page.Label :=
  [.signIn (sessionOf "a"), .request 0, .run 0, .unauthorized 0, .run 0, .refreshed 0 "a" "a" "",
    .run 0, .run 0]

/-- The request of `retryRun` keeps its author. -/
theorem author_kept_retryRun :
    (trustedPage textOwner).Always (Page.AuthorKept textOwner) (.load none) retryRun := by
  refine author_kept (.cons rfl ?_ (.cons rfl trivial (.cons rfl trivial (.cons rfl trivial
    (.cons rfl trivial (.cons rfl ?_ (.cons rfl trivial (.cons rfl trivial trivial))))))))
  · intro k b token hr
    rcases hr with hr | hr <;> cases hr
  · intro k token hk hm
    rcases eq_or_ne k 0 with rfl | hk0
    · obtain rfl := Option.some.inj (Option.some.inj hm)
      rfl
    · -- nobody else has made a request
      have hnone : ∀ w x y z : Option Phase, Function.update (Function.update (Function.update
          (Function.update (fun _ => none) 0 w) 0 x) 0 y) 0 z k = none := fun w x y z => by
        simp [Function.update_of_ne hk0]
      cases (hnone _ _ _ _).symm.trans hk

/-- A request of `a` is on its way when `a` signs out and `b` signs in; then it is
refused. -/
def switchAuthorRun : List Page.Label :=
  [.signIn (sessionOf "a"), .request 0, .run 0, .signOut, .signIn (sessionOf "b"),
    .unauthorized 0, .run 0, .refreshed 0 "b" "b" "", .run 0, .run 0]

/-- At the end of `switchAuthorRun`, the request of `a` has been sent again as
`b`. -/
theorem switched_author :
    ((trustedPage textOwner).exec (.load none) switchAuthorRun).map (·.sent 0) =
        some [some "a", some "b"] ∧
      ¬(trustedPage textOwner).Always (Page.AuthorKept textOwner) (.load none)
        switchAuthorRun := by
  have hend : ((trustedPage textOwner).exec (.load none) switchAuthorRun).map (·.sent 0) =
      some [some "a", some "b"] := by decide
  refine ⟨hend, fun h => ?_⟩
  obtain ⟨t, ht, hsent⟩ := Option.map_eq_some_iff.1 hend
  obtain ⟨b, hb, howner⟩ := h.exec ht 0 "a" _ hsent _ (List.mem_singleton_self _)
  obtain rfl := Option.some.inj hb
  exact absurd howner (by decide)

end Frontend
end YtShare
