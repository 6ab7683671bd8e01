/-
# Accounts and sessions

`backend/internal/modules/auth/service.go`, `dto.go` and `writeAuthError` of
`handler.go`.  `SignUp`, `SignIn` and `Refresh` run concurrently: a call is at
one of its repository calls or at `session`, and a step takes it over that one
to the next.  What it computes in between for itself belongs to the step before.

`Library` is what the service stands on: the token library, `bcrypt` and
`strings.ToLower`.  What the outside decides about a step, whether the repository
call fails, what the clock and `uuid.New` say and which salt `bcrypt` draws, is
its `StepEnv`.
-/

import YtShare.Auth.Jwt
import YtShare.Core.Http
import YtShare.Core.Strings
import YtShare.Lib.Machine
import YtShare.Users.Repository

namespace YtShare
namespace Auth

open Users

/-! ### Requests and answers -/

/-- `SignUpRequest`. -/
structure SignUpRequest where
  email : String
  name : String
  password : String

/-- `SignInRequest`. -/
structure SignInRequest where
  email : String
  password : String

/-- `RefreshRequest`. -/
structure RefreshRequest where
  refreshToken : String

/-- `SessionUser`. -/
structure SessionUser where
  id : UUID
  email : String
  name : String
deriving DecidableEq

/-- `Response`. -/
structure Response where
  user : SessionUser
  accessToken : String
  refreshToken : String
  expiresAt : Time
deriving DecidableEq

/-- The errors of the service: `ErrEmailTaken`, `ErrInvalidCredentials`, and any
other. -/
inductive AuthError
  | emailTaken
  | invalidCredentials
  | other
deriving DecidableEq

/-- `Handler.writeAuthError`. -/
def writeAuthError : AuthError → Nat × APIError
  | .emailTaken => writeError (.http ⟨409, "email_taken", "email already registered"⟩)
  | .invalidCredentials =>
      writeError (.http ⟨401, "invalid_credentials", "invalid email or password"⟩)
  | .other => writeError .other

/-- What the service stands on.  `generate` is `bcrypt.GenerateFromPassword` with
the salt that it draws, and `compare` is `bcrypt.CompareHashAndPassword`. -/
structure Library where
  jwt : JWT
  generate : String → ℕ → Option String
  compare : String → String → Bool
  toLower : String → String

/-- `normalizeEmail`. -/
def Library.normalizeEmail (lib : Library) (s : String) : String := lib.toLower (trimSpace s)

/-- What the outside decides about a step. -/
structure StepEnv where
  fails : Bool
  newID : UUID
  now : Time
  salt : ℕ

/-! ### Calls -/

/-- Where a call of `SignUp` is. -/
inductive SignUpPc
  | lookup (email : String)
  | create (user : Account)
  | session (user : Account)
  | done (result : Except AuthError Response)

/-- Where a call of `SignIn` is. -/
inductive SignInPc
  | lookup (email : String)
  | session (user : Account)
  | done (result : Except AuthError Response)

/-- Where a call of `Refresh` is. -/
inductive RefreshPc
  | load (userID : UUID)
  | session (user : Account)
  | done (result : Except AuthError Response)

/-- A call with its argument; a call of `Refresh` also with the instant at which
it verified its token. -/
inductive Call
  | signUp (req : SignUpRequest) (pc : SignUpPc)
  | signIn (req : SignInRequest) (pc : SignInPc)
  | refresh (req : RefreshRequest) (now : Time) (pc : RefreshPc)

namespace Service

variable (lib : Library) (cfg : JWTConfig) {lower : String → String}

/-- `Service.session`. -/
def session (now : Time) (user : Account) : Except AuthError Response :=
  match TokenIssuer.issue lib.jwt cfg now user.id with
  | none => .error .other
  | some pair =>
      .ok ⟨⟨user.id, user.email, user.name⟩, pair.accessToken, pair.refreshToken, pair.expiresAt⟩

/-- The row that `SignUp` builds. -/
def newUser (email : String) (req : SignUpRequest) (hash : String) : Account where
  id := UUID.nil
  email := email
  name := trimSpace req.name
  passwordHash := hash
  lastNotificationsSeenAt := none

/-- A call of `SignUp` as it begins. -/
def startSignUp (req : SignUpRequest) : Call :=
  .signUp req (.lookup (lib.normalizeEmail req.email))

/-- A call of `SignIn` as it begins. -/
def startSignIn (req : SignInRequest) : Call :=
  .signIn req (.lookup (lib.normalizeEmail req.email))

/-- A call of `Refresh` as it begins: it verifies the token. -/
def startRefresh (req : RefreshRequest) (now : Time) : Call :=
  .refresh req now
    (match TokenIssuer.verifyRefresh lib.jwt cfg now req.refreshToken with
    | .error _ => .done (.error .invalidCredentials)
    | .ok claims => .load claims.userID)

/-- One step of `SignUp`. -/
def advanceSignUp (env : StepEnv) (t : Table lower) (req : SignUpRequest) :
    SignUpPc → Option (Table lower × SignUpPc)
  | .lookup email => some (t,
      if env.fails then .done (.error .other)
      else
        match t.findByEmail email with
        | some _ => .done (.error .emailTaken)
        | none =>
            match lib.generate req.password env.salt with
            | none => .done (.error .other)
            | some hash => .create (newUser email req hash))
  | .create user => some (
      if env.fails then (t, .done (.error .other))
      else
        match t.create env.newID user with
        | none => (t, .done (.error .other))
        | some (t', user) => (t', .session user))
  | .session user => some (t, .done (session lib cfg env.now user))
  | .done _ => none

/-- One step of `SignIn`. -/
def advanceSignIn (env : StepEnv) (t : Table lower) (req : SignInRequest) :
    SignInPc → Option (Table lower × SignInPc)
  | .lookup email => some (t,
      if env.fails then .done (.error .other)
      else
        match t.findByEmail email with
        | none => .done (.error .invalidCredentials)
        | some user =>
            if lib.compare user.passwordHash req.password then .session user
            else .done (.error .invalidCredentials))
  | .session user => some (t, .done (session lib cfg env.now user))
  | .done _ => none

/-- One step of `Refresh`.  It takes any error of `FindByID` for a user that is
not there. -/
def advanceRefresh (env : StepEnv) (t : Table lower) :
    RefreshPc → Option (Table lower × RefreshPc)
  | .load userID => some (t,
      if env.fails then .done (.error .invalidCredentials)
      else
        match t.findByID userID with
        | none => .done (.error .invalidCredentials)
        | some user => .session user)
  | .session user => some (t, .done (session lib cfg env.now user))
  | .done _ => none

/-- One step of a call, `none` when it has returned. -/
def advance (env : StepEnv) (t : Table lower) : Call → Option (Table lower × Call)
  | .signUp req pc =>
      (advanceSignUp lib cfg env t req pc).map fun (t, pc) => (t, .signUp req pc)
  | .signIn req pc =>
      (advanceSignIn lib cfg env t req pc).map fun (t, pc) => (t, .signIn req pc)
  | .refresh req now pc =>
      (advanceRefresh lib cfg env t pc).map fun (t, pc) => (t, .refresh req now pc)

/-! ### What a step does -/

variable {lib : Library} {cfg : JWTConfig} {env : StepEnv} {t t' : Table lower}

/-- A session is of the user it was made for. -/
theorem session_eq_ok {now : Time} {user : Account} {resp : Response}
    (h : session lib cfg now user = .ok resp) :
    resp.user.id = user.id ∧
      TokenIssuer.issue lib.jwt cfg now user.id = some
        ⟨resp.accessToken, resp.refreshToken, resp.expiresAt⟩ := by
  unfold session at h
  split at h
  · cases h
  · next pair hpair =>
    obtain rfl := Except.ok.inj h
    exact ⟨rfl, hpair⟩

/-- A session is made when its tokens can be signed. -/
theorem session_of_issue {now : Time} {user : Account}
    (h : (TokenIssuer.issue lib.jwt cfg now user.id).isSome = true) :
    ∃ resp, session lib cfg now user = .ok resp := by
  obtain ⟨pair, hpair⟩ := Option.isSome_iff_exists.1 h
  unfold session
  rw [hpair]
  exact ⟨_, rfl⟩

/-- **What a step of `SignUp` does:** it looks the email up, and fails, finds it
or goes on to a row for it; it inserts the row or fails; or it makes the session. -/
theorem advanceSignUp_cases {req : SignUpRequest} {pc pc' : SignUpPc}
    (h : advanceSignUp lib cfg env t req pc = some (t', pc')) :
    (∃ email, pc = .lookup email ∧ t' = t ∧
      ((pc' = .done (.error .other) ∧
          (env.fails = true ∨ lib.generate req.password env.salt = none)) ∨
        (pc' = .done (.error .emailTaken) ∧ ∃ user, t.findByEmail email = some user) ∨
        ∃ hash, pc' = .create (newUser email req hash))) ∨
    (∃ user, pc = .create user ∧
      ((t' = t ∧ pc' = .done (.error .other) ∧
          (env.fails = true ∨ t.create env.newID user = none)) ∨
        ∃ row, t.create env.newID user = some (t', row) ∧ pc' = .session row)) ∨
    ∃ user, pc = .session user ∧ t' = t ∧ pc' = .done (session lib cfg env.now user) := by
  rcases pc with email | user | user | r
  · obtain ⟨rfl, rfl⟩ := Prod.mk.inj (Option.some.inj h)
    refine .inl ⟨email, rfl, rfl, ?_⟩
    split_ifs with hfails
    · exact .inl ⟨rfl, .inl hfails⟩
    · split
      · next user huser => exact .inr (.inl ⟨rfl, user, huser⟩)
      · split
        · next hgenerate => exact .inl ⟨rfl, .inr hgenerate⟩
        · exact .inr (.inr ⟨_, rfl⟩)
  · simp only [advanceSignUp] at h
    refine .inr (.inl ⟨user, rfl, ?_⟩)
    split_ifs at h with hfails
    · obtain ⟨rfl, rfl⟩ := Prod.mk.inj (Option.some.inj h)
      exact .inl ⟨rfl, rfl, .inl hfails⟩
    · split at h
      · next hcreate =>
        obtain ⟨rfl, rfl⟩ := Prod.mk.inj (Option.some.inj h)
        exact .inl ⟨rfl, rfl, .inr hcreate⟩
      · next row hrow =>
        obtain ⟨rfl, rfl⟩ := Prod.mk.inj (Option.some.inj h)
        exact .inr ⟨row, hrow, rfl⟩
  · obtain ⟨rfl, rfl⟩ := Prod.mk.inj (Option.some.inj h)
    exact .inr (.inr ⟨user, rfl, rfl, rfl⟩)
  · cases h

/-- **What a step of `SignIn` does:** it leaves the table, and fails, goes on
with a row of the table, or makes the session. -/
theorem advanceSignIn_cases {req : SignInRequest} {pc pc' : SignInPc}
    (h : advanceSignIn lib cfg env t req pc = some (t', pc')) : t' = t ∧
    ((∃ e, pc' = .done (.error e)) ∨
    (∃ user, user ∈ t.rows ∧ pc' = .session user) ∨
    ∃ user, pc = .session user ∧ pc' = .done (session lib cfg env.now user)) := by
  rcases pc with email | user | r
  · obtain ⟨rfl, rfl⟩ := Prod.mk.inj (Option.some.inj h)
    refine ⟨rfl, ?_⟩
    split_ifs
    · exact .inl ⟨_, rfl⟩
    · split
      · exact .inl ⟨_, rfl⟩
      · next user huser =>
        split_ifs
        · exact .inr (.inl ⟨user, (Table.findByEmail_eq_some huser).1, rfl⟩)
        · exact .inl ⟨_, rfl⟩
  · obtain ⟨rfl, rfl⟩ := Prod.mk.inj (Option.some.inj h)
    exact ⟨rfl, .inr (.inr ⟨user, rfl, rfl⟩)⟩
  · cases h

/-- **What a step of `Refresh` does:** it leaves the table, and fails, goes on
with the row of its user, or makes the session. -/
theorem advanceRefresh_cases {pc pc' : RefreshPc}
    (h : advanceRefresh lib cfg env t pc = some (t', pc')) : t' = t ∧
    ((∃ e, pc' = .done (.error e)) ∨
    (∃ user, pc = .load user.id ∧ user ∈ t.rows ∧ pc' = .session user) ∨
    ∃ user, pc = .session user ∧ pc' = .done (session lib cfg env.now user)) := by
  rcases pc with userID | user | r
  · obtain ⟨rfl, rfl⟩ := Prod.mk.inj (Option.some.inj h)
    refine ⟨rfl, ?_⟩
    split_ifs
    · exact .inl ⟨_, rfl⟩
    · split
      · exact .inl ⟨_, rfl⟩
      · next user huser =>
        obtain ⟨hmem, rfl⟩ := Table.findByID_eq_some huser
        exact .inr (.inl ⟨user, rfl, hmem, rfl⟩)
  · obtain ⟨rfl, rfl⟩ := Prod.mk.inj (Option.some.inj h)
    exact ⟨rfl, .inr (.inr ⟨user, rfl, rfl⟩)⟩
  · cases h

end Service

/-- What a call has returned. -/
def Call.result : Call → Option (Except AuthError Response)
  | .signUp _ (.done r) | .signIn _ (.done r) | .refresh _ _ (.done r) => some r
  | _ => none

namespace Service

variable {lib : Library} {cfg : JWTConfig} {lower : String → String} {env : StepEnv}
  {t : Table lower} {c : Call}

/-- A call that has returned does nothing any more. -/
theorem advance_of_result {r : Except AuthError Response} (h : c.result = some r) :
    advance lib cfg env t c = none := by
  rcases c with ⟨req, pc⟩ | ⟨req, pc⟩ | ⟨req, now, pc⟩ <;> cases pc <;> first | rfl | cases h

/-- A call that does nothing has returned. -/
theorem result_of_advance (h : advance lib cfg env t c = none) : ∃ r, c.result = some r := by
  rcases c with ⟨req, pc⟩ | ⟨req, pc⟩ | ⟨req, now, pc⟩ <;> cases pc <;>
    first | exact ⟨_, rfl⟩ | cases h

end Service

/-! ### The server -/

/-- The table of users and the calls, by number. -/
structure Server (lower : String → String) where
  users : Table lower
  calls : ℕ → Option Call

namespace Server

variable {lib : Library} {cfg : JWTConfig} {lower : String → String} {s t : Server lower}

/-- What happens next. -/
inductive Label
  /-- a call of `SignUp` begins -/
  | signUp (k : ℕ) (req : SignUpRequest)
  /-- a call of `SignIn` begins -/
  | signIn (k : ℕ) (req : SignInRequest)
  /-- a call of `Refresh` begins, at this instant -/
  | refresh (k : ℕ) (req : RefreshRequest) (now : Time)
  /-- a call takes its next step -/
  | step (k : ℕ) (env : StepEnv)

/-- The server with another call `k`. -/
def setCall (s : Server lower) (k : ℕ) (c : Call) : Server lower :=
  { s with calls := Function.update s.calls k (some c) }

/-- The call that a label begins. -/
def begun (lib : Library) (cfg : JWTConfig) : Label → Option (ℕ × Call)
  | .signUp k req => some (k, Service.startSignUp lib req)
  | .signIn k req => some (k, Service.startSignIn lib req)
  | .refresh k req now => some (k, Service.startRefresh lib cfg req now)
  | .step .. => none

/-- One step. -/
def step (lib : Library) (cfg : JWTConfig) (s : Server lower) : Label → Option (Server lower)
  | .step k env =>
      (s.calls k).bind fun c => (Service.advance lib cfg env s.users c).map fun (users, c) =>
        { s.setCall k c with users := users }
  | l =>
      (begun lib cfg l).bind fun (k, c) =>
        match s.calls k with
        | none => some (s.setCall k c)
        | some _ => none

/-- The call that was set. -/
theorem setCall_self (s : Server lower) (k : ℕ) (c : Call) : (s.setCall k c).calls k = some c :=
  Function.update_self ..

/-- Setting one call leaves the others. -/
theorem setCall_of_ne (s : Server lower) {k j : ℕ} (c : Call) (hj : j ≠ k) :
    (s.setCall k c).calls j = s.calls j :=
  Function.update_of_ne hj ..

/-- A call after call `k` was set: that one, or one of the others. -/
theorem setCall_eq_some {k j : ℕ} {c d : Call} (h : (s.setCall k c).calls j = some d) :
    j = k ∧ d = c ∨ j ≠ k ∧ s.calls j = some d :=
  Lib.update_eq_some h

/-- **What a step can do:** a call begins, or one takes its next step. -/
theorem step_cases {l : Label} (h : s.step lib cfg l = some t) :
    (∃ k c, begun lib cfg l = some (k, c) ∧ s.calls k = none ∧ t = s.setCall k c) ∨
    ∃ k env c users c', l = .step k env ∧ s.calls k = some c ∧
      Service.advance lib cfg env s.users c = some (users, c') ∧
      t = { s.setCall k c' with users := users } := by
  have hbegin : ∀ k c, begun lib cfg l = some (k, c) →
      (match s.calls k with | none => some (s.setCall k c) | some _ => none) = some t →
      ∃ k c, begun lib cfg l = some (k, c) ∧ s.calls k = none ∧ t = s.setCall k c := by
    intro k c hb ht
    split at ht
    · next hk => exact ⟨k, c, hb, hk, (Option.some.inj ht).symm⟩
    · cases ht
  cases l with
  | step k env =>
    obtain ⟨c, hc, h⟩ := Option.bind_eq_some_iff.1 h
    obtain ⟨⟨users, c'⟩, hadv, rfl⟩ := Option.map_eq_some_iff.1 h
    exact .inr ⟨k, env, c, users, c', rfl, hc, hadv, rfl⟩
  | signUp k req => exact .inl (hbegin k _ rfl h)
  | signIn k req => exact .inl (hbegin k _ rfl h)
  | refresh k req now => exact .inl (hbegin k _ rfl h)

end Server

/-! ### A small setup -/

/-- A library whose passwords are stored as they are. -/
def plain : Library where
  jwt := .reference
  generate password _ := some password
  compare hash password := decide (hash = password)
  toLower := id

/-- One secret for both kinds, and tokens for an hour and for a day. -/
def oneSecret : JWTConfig := ⟨"k", "k", 3600000000000, 86400000000000⟩

end Auth
end YtShare
