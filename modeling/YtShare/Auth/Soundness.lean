/-
# Who a request can speak for

The server of `Auth.Service` behind the authenticator, and an adversary that has
seen every token issued so far.  It calls `SignUp`, `SignIn` and `Refresh` as it
likes and sends requests to the private handlers, with any text that it can
build for a token: a text whose tag, if the library makes out one, is a tag that
it has seen or one under no secret of the server (`Site.Buildable`).  The two
secrets may be one.

`Site` keeps what `Issue` has produced and which requests a private handler has
run for.  `authentication_sound` says that every such request carries a live
access token of its user, and every refreshed session goes back to a live
refresh token of an existing user.  Nothing but the kind in the claims tells the
two tokens apart when the secrets are equal, and that is enough.
-/

import YtShare.Auth.Service
import YtShare.Middleware.Auth
import YtShare.Lib.Machine

namespace YtShare
namespace Auth

open Lib Users

/-- Two texts of one token. -/
def Carries (jwt : JWT) (text token : String) : Prop :=
  ∃ x, jwt.parse text = some x ∧ jwt.parse token = some x

/-- A key of the server, with any hash function. -/
def JWTConfig.Secret (cfg : JWTConfig) (key : MacKey) : Prop :=
  key.2 = cfg.accessSecret ∨ key.2 = cfg.refreshSecret

instance (cfg : JWTConfig) : DecidablePred cfg.Secret := fun key =>
  inferInstanceAs (Decidable (key.2 = _ ∨ key.2 = _))

/-- What a call of `Issue` has produced. -/
structure Issued where
  userID : UUID
  now : Time
  pair : TokenPair

/-- A request that a private handler has run for, with the user in its context. -/
structure Handled where
  request : Middleware.Request
  now : Time
  userID : UUID

/-- The user that a call is about to make a session for. -/
def Call.atSession : Call → Option Account
  | .signUp _ (.session user) | .signIn _ (.session user) | .refresh _ _ (.session user) =>
      some user
  | _ => none

/-- The server and its history. -/
structure Site (lower : String → String) where
  server : Server lower
  issued : List Issued
  handled : List Handled

namespace Site

variable (lib : Library) (cfg : JWTConfig) {lower : String → String}

/-- What happens next. -/
inductive Label
  /-- the service -/
  | server (l : Server.Label)
  /-- a request to a private handler -/
  | request (r : Middleware.Request) (now : Time)

/-- A server with these users, before its first call. -/
def start (users : Table lower) : Site lower := ⟨⟨users, fun _ => none⟩, [], []⟩

/-- What `Issue` produces in a step of the server. -/
def issues (s : Server lower) : Server.Label → List Issued
  | .step k env =>
      match (s.calls k).bind Call.atSession with
      | none => []
      | some user =>
          match TokenIssuer.issue lib.jwt cfg env.now user.id with
          | none => []
          | some pair => [⟨user.id, env.now, pair⟩]
  | _ => []

/-- One step. -/
def step (s : Site lower) : Label → Option (Site lower)
  | .server l => (s.server.step lib cfg l).map fun server =>
      { s with server := server, issued := s.issued ++ issues lib cfg s.server l }
  | .request r now =>
      match Middleware.authenticator lib.jwt cfg now r with
      | .error _ => some s
      | .ok userID => some { s with handled := s.handled ++ [⟨r, now, userID⟩] }

/-- The tag of a text. -/
def tagOf (text : String) : List (Tag MacKey String) :=
  match lib.jwt.parse text with
  | none => []
  | some (_, tag) => [tag]

/-- The tags that were issued. -/
def seen (s : Site lower) : List (Tag MacKey String) :=
  s.issued.flatMap fun i => tagOf lib i.pair.accessToken ++ tagOf lib i.pair.refreshToken

/-- A text that the adversary can build. -/
def Buildable (s : Site lower) (text : String) : Prop :=
  ∀ tag ∈ tagOf lib text, Tag.Known cfg.Secret (s.seen lib) tag

instance (s : Site lower) (text : String) : Decidable (s.Buildable lib cfg text) :=
  inferInstanceAs (Decidable (∀ tag ∈ tagOf lib text, _))

/-- The tokens that the adversary sends are texts that it can build. -/
def Built (s : Site lower) : Label → Prop
  | .server (.refresh _ req _) => s.Buildable lib cfg req.refreshToken
  | .server _ => True
  | .request r _ => s.Buildable lib cfg r.token

instance (s : Site lower) (l : Label) : Decidable (s.Built lib cfg l) := by
  unfold Built
  split <;> infer_instance

end Site

/-- The site against the adversary. -/
def site (lib : Library) (cfg : JWTConfig) (lower : String → String) :
    Machine (Site lower) Site.Label :=
  Machine.restrict ⟨fun s => ∃ users, s = .start users, Site.step lib cfg⟩ (Site.Built lib cfg)

namespace Site

variable {lib : Library} {cfg : JWTConfig} {lower : String → String} {s t : Site lower}

/-- A user there is. -/
def Exists (s : Site lower) (userID : UUID) : Prop := ∃ w ∈ s.server.users.rows, w.id = userID

/-- A refresh token of `userID` was issued, is carried by `text` and has not
expired. -/
def Refreshable (lib : Library) (cfg : JWTConfig) (s : Site lower) (text : String) (now : Time)
    (userID : UUID) : Prop :=
  ∃ i ∈ s.issued, i.userID = userID ∧ Carries lib.jwt text i.pair.refreshToken ∧
    now.ns < i.now.ns + cfg.refreshTTL

/-- Every token was issued by `Issue` for a user there is; a private handler ran
only for a request with an access token of its user that had not expired; a
session was refreshed only on a refresh token of its user, who exists, that had
not expired; and a token of one kind is never taken for one of the other. -/
structure Sound (lib : Library) (cfg : JWTConfig) (s : Site lower) : Prop where
  issued : ∀ i ∈ s.issued,
    TokenIssuer.issue lib.jwt cfg i.now i.userID = some i.pair ∧ s.Exists i.userID
  handled : ∀ h ∈ s.handled, ∃ i ∈ s.issued, i.userID = h.userID ∧
    Carries lib.jwt h.request.token i.pair.accessToken ∧ h.now.ns < i.now.ns + cfg.accessTTL
  refreshed : ∀ k req now resp, s.server.calls k = some (.refresh req now (.done (.ok resp))) →
    s.Refreshable lib cfg req.refreshToken now resp.user.id ∧ s.Exists resp.user.id
  refreshNoAccess : ∀ i ∈ s.issued, ∀ text now c,
    Carries lib.jwt text i.pair.refreshToken → TokenIssuer.verifyAccess lib.jwt cfg now text ≠ .ok c
  accessNoRefresh : ∀ i ∈ s.issued, ∀ text now c,
    Carries lib.jwt text i.pair.accessToken → TokenIssuer.verifyRefresh lib.jwt cfg now text ≠ .ok c

/-! ### The invariant -/

/-- The user of a session. -/
def granted : Except AuthError Response → Option UUID
  | .ok resp => some resp.user.id
  | .error _ => none

/-- The user that a call of `Refresh` is for, until it fails. -/
def subject : RefreshPc → Option UUID
  | .load userID => some userID
  | .session user => some user.id
  | .done r => granted r

/-- The user that a call has made a session for, or is about to. -/
def holder : Call → Option UUID
  | .signUp _ (.session user) | .signIn _ (.session user) | .refresh _ _ (.session user) =>
      some user.id
  | .signUp _ (.done r) | .signIn _ (.done r) | .refresh _ _ (.done r) => granted r
  | _ => none

/-- `Sound`, with what the calls that still run hold. -/
structure Inv (lib : Library) (cfg : JWTConfig) (s : Site lower) : Prop where
  issued : ∀ i ∈ s.issued,
    TokenIssuer.issue lib.jwt cfg i.now i.userID = some i.pair ∧ s.Exists i.userID
  handled : ∀ h ∈ s.handled, ∃ i ∈ s.issued, i.userID = h.userID ∧
    Carries lib.jwt h.request.token i.pair.accessToken ∧ h.now.ns < i.now.ns + cfg.accessTTL
  refreshed : ∀ k req now pc, s.server.calls k = some (.refresh req now pc) →
    ∀ userID ∈ subject pc, s.Refreshable lib cfg req.refreshToken now userID
  user : ∀ k c, s.server.calls k = some c → ∀ userID ∈ holder c, s.Exists userID

/-! ### Where an accepted token comes from -/

/-- The tag of a token is the one that it was parsed with. -/
theorem mem_tagOf_iff {text : String} {tag : Tag MacKey String} :
    tag ∈ tagOf lib text ↔ ∃ input, lib.jwt.parse text = some (input, tag) := by
  unfold tagOf
  constructor
  · intro h
    split at h
    · exact absurd h List.not_mem_nil
    · next input _ hparse => exact ⟨input, List.mem_singleton.1 h ▸ hparse⟩
  · rintro ⟨input, h⟩
    rw [h]
    exact List.mem_singleton_self tag

/-- A text with a tag of an issued token carries that token, and has its
claims. -/
theorem carries_of_tag {text token input : String} {key key' : MacKey} {alg alg' : Alg}
    {c c' : Claims} (hparse : lib.jwt.parse text = some (input, .mac key input))
    (hdecode : lib.jwt.decode input = some (alg, c))
    (htoken : ∃ input', lib.jwt.parse token = some (input', .mac key' input') ∧
      lib.jwt.decode input' = some (alg', c')) (htag : .mac key input ∈ tagOf lib token) :
    Carries lib.jwt text token ∧ c = c' := by
  obtain ⟨input', htoken, hclaims⟩ := htoken
  obtain ⟨input'', hsame⟩ := mem_tagOf_iff.1 htag
  obtain ⟨rfl, hmac⟩ := Prod.mk.inj (Option.some.inj (hsame.symm.trans htoken))
  obtain ⟨rfl, rfl⟩ := Tag.mac.inj hmac
  obtain ⟨-, rfl⟩ := Prod.mk.inj (Option.some.inj (hdecode.symm.trans hclaims))
  exact ⟨⟨_, hparse, htoken⟩, rfl⟩

/-- **No forgery.**  A text that the adversary can build and `verify` accepts
carries an issued token of the kind that is wanted, and the claims are those
that were signed. -/
theorem Inv.origin (hi : s.Inv lib cfg) {text secret : String} {now : Time} {want : TokenKind}
    {c : Claims} (hsecret : ∀ alg, cfg.Secret (alg, secret)) (hb : s.Buildable lib cfg text)
    (h : TokenIssuer.verify lib.jwt now text want secret = .ok c) :
    ∃ i ∈ s.issued, c.Valid now ∧
      ((want = accessKind ∧ Carries lib.jwt text i.pair.accessToken ∧
          c = TokenIssuer.claims i.userID accessKind i.now cfg.accessTTL) ∨
        (want = refreshKind ∧ Carries lib.jwt text i.pair.refreshToken ∧
          c = TokenIssuer.claims i.userID refreshKind i.now cfg.refreshTTL)) := by
  obtain ⟨input, alg, hparse, hdecode, hvalid, hkind⟩ := TokenIssuer.verify_eq_ok h
  have hseen := (hb _ (mem_tagOf_iff.2 ⟨input, hparse⟩)).mem_of_secret (hsecret alg)
  obtain ⟨i, hmem, htag⟩ := List.mem_flatMap.1 hseen
  have hissue := (hi.issued i hmem).1
  refine ⟨i, hmem, hvalid, ?_⟩
  rcases List.mem_append.1 htag with htag | htag
  · obtain ⟨hcarries, rfl⟩ :=
      carries_of_tag hparse hdecode (TokenIssuer.issue_access hissue) htag
    exact .inl ⟨hkind.symm, hcarries, rfl⟩
  · obtain ⟨hcarries, rfl⟩ :=
      carries_of_tag hparse hdecode (TokenIssuer.issue_refresh hissue) htag
    exact .inr ⟨hkind.symm, hcarries, rfl⟩

/-- Texts of one token have the claims of that token. -/
theorem kind_of_carries {text token secret : String} {now : Time} {want : TokenKind}
    {key : MacKey} {alg : Alg} {c c' : Claims} (hcarries : Carries lib.jwt text token)
    (htoken : ∃ input, lib.jwt.parse token = some (input, .mac key input) ∧
      lib.jwt.decode input = some (alg, c'))
    (h : TokenIssuer.verify lib.jwt now text want secret = .ok c) : c'.kind = want := by
  obtain ⟨input, _, hparse, hdecode, -, hkind⟩ := TokenIssuer.verify_eq_ok h
  obtain ⟨x, htext, hx⟩ := hcarries
  obtain ⟨input', htoken, hclaims⟩ := htoken
  obtain ⟨rfl, -⟩ := Prod.mk.inj
    (Option.some.inj (hparse.symm.trans (htext.trans (hx.symm.trans htoken))))
  obtain ⟨-, rfl⟩ := Prod.mk.inj (Option.some.inj (hdecode.symm.trans hclaims))
  exact hkind

/-- The two kinds of tokens are told apart, even where the secrets are equal. -/
theorem accessKind_ne_refreshKind : accessKind ≠ refreshKind := by decide

/-- A live access token of the user that the authenticator finds. -/
theorem Inv.access (hi : s.Inv lib cfg) {text : String} {now : Time} {c : Claims}
    (hb : s.Buildable lib cfg text) (h : TokenIssuer.verifyAccess lib.jwt cfg now text = .ok c) :
    ∃ i ∈ s.issued, i.userID = c.userID ∧ Carries lib.jwt text i.pair.accessToken ∧
      now.ns < i.now.ns + cfg.accessTTL := by
  obtain ⟨i, hmem, hvalid, ⟨-, hcarries, rfl⟩ | ⟨hkind, -, -⟩⟩ :=
    hi.origin (fun _ => .inl rfl) hb h
  · exact ⟨i, hmem, rfl, hcarries, TokenIssuer.lt_of_valid hvalid⟩
  · exact absurd hkind accessKind_ne_refreshKind

/-- A live refresh token of the user that `Refresh` goes on with. -/
theorem Inv.refresh (hi : s.Inv lib cfg) {text : String} {now : Time} {c : Claims}
    (hb : s.Buildable lib cfg text) (h : TokenIssuer.verifyRefresh lib.jwt cfg now text = .ok c) :
    s.Refreshable lib cfg text now c.userID := by
  obtain ⟨i, hmem, hvalid, ⟨hkind, -, -⟩ | ⟨-, hcarries, rfl⟩⟩ :=
    hi.origin (fun _ => .inr rfl) hb h
  · exact absurd hkind.symm accessKind_ne_refreshKind
  · exact ⟨i, hmem, rfl, hcarries, TokenIssuer.lt_of_valid hvalid⟩

/-- **What the invariant says of the tokens** makes every acceptance sound. -/
theorem Inv.sound (hi : s.Inv lib cfg) : s.Sound lib cfg := by
  constructor
  · exact hi.issued
  · exact hi.handled
  · intro k req now resp hk
    exact ⟨hi.refreshed k req now _ hk _ rfl, hi.user k _ hk _ rfl⟩
  · intro i hmem text now c hcarries h
    have hkind := kind_of_carries hcarries (TokenIssuer.issue_refresh (hi.issued i hmem).1) h
    exact accessKind_ne_refreshKind hkind.symm
  · intro i hmem text now c hcarries h
    have hkind := kind_of_carries hcarries (TokenIssuer.issue_access (hi.issued i hmem).1) h
    exact accessKind_ne_refreshKind hkind

/-! ### One step -/

/-- A session is of the user that it was made for. -/
theorem granted_session {now : Time} {user : Account} {userID : UUID}
    (h : userID ∈ granted (Service.session lib cfg now user)) : userID ∈ some user.id := by
  cases hr : Service.session lib cfg now user with
  | error e =>
    rw [hr] at h
    cases h
  | ok resp =>
    rw [hr] at h
    rw [← (Service.session_eq_ok hr).1]
    exact h

/-- A step of a call keeps the rows, has a row for the user it makes a session
for, and refreshes for no other user. -/
theorem advance_spec {env : StepEnv} {users users' : Table lower} {c c' : Call}
    (h : Service.advance lib cfg env users c = some (users', c'))
    (hholder : ∀ userID ∈ holder c, ∃ w ∈ users.rows, w.id = userID) :
    (∀ w ∈ users.rows, w ∈ users'.rows) ∧
      (∀ userID ∈ holder c', ∃ w ∈ users'.rows, w.id = userID) ∧
      ∀ req now pc', c' = .refresh req now pc' →
        ∃ pc, c = .refresh req now pc ∧ ∀ userID ∈ subject pc', userID ∈ subject pc := by
  rcases c with ⟨req, pc⟩ | ⟨req, pc⟩ | ⟨req, now, pc⟩
  · obtain ⟨⟨t, pc'⟩, hadv, heq⟩ := Option.map_eq_some_iff.1 h
    obtain ⟨rfl, rfl⟩ := Prod.mk.inj heq
    rcases Service.advanceSignUp_cases hadv with
      ⟨_, rfl, rfl, ⟨rfl, -⟩ | ⟨rfl, -⟩ | ⟨_, rfl⟩⟩ |
      ⟨user, rfl, ⟨rfl, rfl, -⟩ | ⟨row, hcreate, rfl⟩⟩ | ⟨user, rfl, rfl, rfl⟩
    · exact ⟨fun _ => id, nofun, nofun⟩
    · exact ⟨fun _ => id, nofun, nofun⟩
    · exact ⟨fun _ => id, nofun, nofun⟩
    · exact ⟨fun _ => id, nofun, nofun⟩
    · obtain ⟨-, -, hrows⟩ := Table.create_eq_some hcreate
      rw [hrows]
      refine ⟨fun w => List.mem_append_left _, fun userID hid => ?_, nofun⟩
      exact ⟨row, List.mem_append_right _ (List.mem_singleton_self row), Option.some.inj hid⟩
    · refine ⟨fun _ => id, fun userID hid => hholder userID ?_, nofun⟩
      exact granted_session hid
  · obtain ⟨⟨t, pc'⟩, hadv, heq⟩ := Option.map_eq_some_iff.1 h
    obtain ⟨rfl, rfl⟩ := Prod.mk.inj heq
    obtain ⟨rfl, ⟨_, rfl⟩ | ⟨user, huser, rfl⟩ | ⟨user, rfl, rfl⟩⟩ :=
      Service.advanceSignIn_cases hadv
    · exact ⟨fun _ => id, nofun, nofun⟩
    · exact ⟨fun _ => id, fun userID hid => ⟨user, huser, Option.some.inj hid⟩, nofun⟩
    · refine ⟨fun _ => id, fun userID hid => hholder userID ?_, nofun⟩
      exact granted_session hid
  · obtain ⟨⟨t, pc'⟩, hadv, heq⟩ := Option.map_eq_some_iff.1 h
    obtain ⟨rfl, rfl⟩ := Prod.mk.inj heq
    obtain ⟨rfl, ⟨_, rfl⟩ | ⟨user, rfl, huser, rfl⟩ | ⟨user, rfl, rfl⟩⟩ :=
      Service.advanceRefresh_cases hadv
    · refine ⟨fun _ => id, nofun, ?_⟩
      rintro _ _ _ ⟨⟩
      exact ⟨pc, rfl, nofun⟩
    · refine ⟨fun _ => id, fun userID hid => ⟨user, huser, Option.some.inj hid⟩, ?_⟩
      rintro _ _ _ ⟨⟩
      exact ⟨_, rfl, fun _ => id⟩
    · refine ⟨fun _ => id, fun userID hid => hholder userID ?_, ?_⟩
      · exact granted_session hid
      · rintro _ _ _ ⟨⟩
        exact ⟨_, rfl, fun _ => granted_session⟩

/-- One call moves, and some tokens are issued. -/
theorem Inv.setCall (hi : s.Inv lib cfg) {k : ℕ} {c : Call} {users : Table lower}
    {new : List Issued} (hrows : ∀ w ∈ s.server.users.rows, w ∈ users.rows)
    (hnew : ∀ i ∈ new, TokenIssuer.issue lib.jwt cfg i.now i.userID = some i.pair ∧
      ∃ w ∈ users.rows, w.id = i.userID)
    (hrefreshed : ∀ req now pc, c = .refresh req now pc →
      ∀ userID ∈ subject pc, s.Refreshable lib cfg req.refreshToken now userID)
    (huser : ∀ userID ∈ holder c, ∃ w ∈ users.rows, w.id = userID) :
    Inv lib cfg ⟨{ s.server.setCall k c with users := users }, s.issued ++ new, s.handled⟩ := by
  have hold : ∀ userID, s.Exists userID → ∃ w ∈ users.rows, w.id = userID := by
    rintro userID ⟨w, hw, hid⟩
    exact ⟨w, hrows w hw, hid⟩
  have hmem : ∀ i ∈ s.issued, i ∈ s.issued ++ new := fun i => List.mem_append_left new
  constructor
  · intro i h
    rcases List.mem_append.1 h with h | h
    · exact ⟨(hi.issued i h).1, hold _ (hi.issued i h).2⟩
    · exact hnew i h
  · intro h hh
    obtain ⟨i, hissued, hcarries⟩ := hi.handled h hh
    exact ⟨i, hmem i hissued, hcarries⟩
  · intro j req now pc hj userID hid
    have hfrom : s.Refreshable lib cfg req.refreshToken now userID := by
      rcases Server.setCall_eq_some hj with ⟨-, rfl⟩ | ⟨-, hj⟩
      · exact hrefreshed req now pc rfl userID hid
      · exact hi.refreshed j req now pc hj userID hid
    obtain ⟨i, hissued, hcarries⟩ := hfrom
    exact ⟨i, hmem i hissued, hcarries⟩
  · intro j d hj userID hid
    rcases Server.setCall_eq_some hj with ⟨-, rfl⟩ | ⟨-, hj⟩
    · exact huser userID hid
    · exact hold userID (hi.user j d hj userID hid)

/-- What a step issues, it issues to the user of a session. -/
theorem issues_spec {server : Server lower} {k : ℕ} {env : StepEnv} {c : Call} {i : Issued}
    (hk : server.calls k = some c) (h : i ∈ issues lib cfg server (.step k env)) :
    TokenIssuer.issue lib.jwt cfg i.now i.userID = some i.pair ∧ i.userID ∈ holder c := by
  simp only [issues, hk, Option.bind_some] at h
  split at h
  · cases h
  · next user huser =>
    split at h
    · cases h
    · next pair hpair =>
      obtain rfl := List.mem_singleton.1 h
      refine ⟨hpair, ?_⟩
      unfold Call.atSession at huser
      split at huser
      · exact congrArg (·.map fun user => user.id) huser
      · exact congrArg (·.map fun user => user.id) huser
      · exact congrArg (·.map fun user => user.id) huser
      · cases huser

/-- A call of `Refresh` that begins goes on only with a live refresh token. -/
theorem Inv.startRefresh (hi : s.Inv lib cfg) {req : RefreshRequest} {now : Time}
    (hb : s.Buildable lib cfg req.refreshToken) {pc : RefreshPc}
    (h : Service.startRefresh lib cfg req now = .refresh req now pc) :
    ∀ userID ∈ subject pc, s.Refreshable lib cfg req.refreshToken now userID := by
  obtain ⟨-, -, rfl⟩ := Call.refresh.inj h
  intro userID hid
  split at hid
  · cases hid
  · next c hc =>
    obtain rfl := Option.some.inj hid
    exact hi.refresh hb hc

/-- A call begins. -/
theorem Inv.begin (hi : s.Inv lib cfg) {l : Server.Label} (hb : s.Built lib cfg (.server l))
    {k : ℕ} {c : Call} (h : Server.begun lib cfg l = some (k, c)) :
    Inv lib cfg ⟨s.server.setCall k c, s.issued ++ issues lib cfg s.server l, s.handled⟩ := by
  have hkeep : ∀ new, new = [] → (∀ req now pc, c = .refresh req now pc →
      ∀ userID ∈ subject pc, s.Refreshable lib cfg req.refreshToken now userID) →
      (∀ userID, userID ∉ holder c) →
      Inv lib cfg ⟨s.server.setCall k c, s.issued ++ new, s.handled⟩ := by
    rintro new rfl hrefreshed hholder
    exact hi.setCall (fun _ => id) nofun hrefreshed fun userID hid => absurd hid (hholder userID)
  cases l with
  | signUp j req =>
    obtain ⟨rfl, rfl⟩ := Prod.mk.inj (Option.some.inj h)
    exact hkeep _ rfl nofun nofun
  | signIn j req =>
    obtain ⟨rfl, rfl⟩ := Prod.mk.inj (Option.some.inj h)
    exact hkeep _ rfl nofun nofun
  | refresh j req now =>
    obtain ⟨rfl, rfl⟩ := Prod.mk.inj (Option.some.inj h)
    refine hkeep _ rfl ?_ ?_
    · intro req' now' pc hpc userID hid
      obtain ⟨rfl, rfl, -⟩ := Call.refresh.inj hpc
      exact hi.startRefresh hb hpc userID hid
    · unfold Service.startRefresh
      intro userID hid
      split at hid
      · cases hid
      · cases hid
  | step => cases h

/-- **The step lemma.** -/
theorem Inv.step (hi : s.Inv lib cfg) {l : Label} (h : (site lib cfg lower).step s l = some t) :
    t.Inv lib cfg := by
  obtain ⟨hbuilt, h⟩ := Machine.restrict_step.1 h
  cases l with
  | request r now =>
    simp only [Site.step] at h
    split at h
    · obtain rfl := Option.some.inj h
      exact hi
    · next userID huser =>
      obtain rfl := Option.some.inj h
      obtain ⟨c, hc, rfl⟩ := Middleware.authenticator_eq_ok huser
      refine ⟨hi.issued, fun x hx => ?_, hi.refreshed, hi.user⟩
      rcases List.mem_append.1 hx with hx | hx
      · exact hi.handled x hx
      · obtain rfl := List.mem_singleton.1 hx
        exact hi.access hbuilt hc
  | server l =>
    obtain ⟨server, hserver, rfl⟩ := Option.map_eq_some_iff.1 h
    rcases Server.step_cases hserver with ⟨k, c, hbegun, hk, rfl⟩ |
      ⟨k, env, c, users, c', rfl, hk, hadv, rfl⟩
    · exact hi.begin hbuilt hbegun
    · obtain ⟨hrows, hholder, hsubject⟩ := advance_spec hadv (hi.user k c hk)
      refine hi.setCall hrows ?_ ?_ hholder
      · intro i hmem
        obtain ⟨hissue, hid⟩ := issues_spec hk hmem
        obtain ⟨w, hw, hwid⟩ := hi.user k c hk _ hid
        exact ⟨hissue, w, hrows w hw, hwid⟩
      · intro req now pc' hc userID hid
        obtain ⟨pc, rfl, hpc⟩ := hsubject req now pc' hc
        exact hi.refreshed k req now pc hk userID (hpc userID hid)

/-- Nothing has been issued at the start. -/
theorem inv_start (users : Table lower) : (start users).Inv lib cfg := by
  constructor
  · exact nofun
  · exact nofun
  · exact nofun
  · exact nofun

end Site

/-- **Authentication is sound.**  Whatever the adversary does with the tokens it
has seen, and whatever the two secrets are, at every moment of every run. -/
theorem authentication_sound (lib : Library) (cfg : JWTConfig) {lower : String → String}
    (users : Users.Table lower) (run : List Site.Label) :
    (site lib cfg lower).Always (Site.Sound lib cfg) (.start users) run :=
  (Machine.always_of_invariant (fun _ _ _ (hi : Site.Inv lib cfg _) h => hi.step h)
    (Site.inv_start users) run).mono fun _ => Site.Inv.sound

/-- A token that user 7 was issued at the zero time. -/
def issuedToken (f : TokenPair → String) : String :=
  ((TokenIssuer.issue .reference oneSecret ⟨0⟩ ⟨7⟩).map f).getD ""

/-- A step at the zero time. -/
def atZero : StepEnv := ⟨false, ⟨7⟩, ⟨0⟩, 0⟩

/-- User 7 signs up, and sends the access token in the header and in the query;
then the adversary sends the refresh token to a private handler. -/
def visit : List Site.Label :=
  [.server (.signUp 0 ⟨"a@b", "a", "pw"⟩), .server (.step 0 atZero), .server (.step 0 atZero),
    .server (.step 0 atZero), .request ⟨"Bearer " ++ issuedToken (·.accessToken), ""⟩ ⟨5⟩,
    .request ⟨"", issuedToken (·.accessToken)⟩ ⟨6⟩, .request ⟨"", issuedToken (·.refreshToken)⟩ ⟨7⟩]

/-- In `visit` two requests of user 7 are handled. -/
theorem authentication_sound_visit :
    (site plain oneSecret id).Always (Site.Sound plain oneSecret) (.start .empty) visit ∧
      ((site plain oneSecret id).exec (.start .empty) visit).map
        (fun s => s.handled.map fun h => (h.now.ns, h.userID)) = some [(5, ⟨7⟩), (6, ⟨7⟩)] :=
  ⟨authentication_sound plain oneSecret .empty visit, by decide⟩

end Auth
end YtShare
