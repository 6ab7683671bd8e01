/-
# What an error of the service means

`ErrEmailTaken` and `ErrInvalidCredentials` say something about the user, and any
other error that something is broken.  `writeAuthError` answers the first two by
409 and 401 and the others by 500.

`SignUp` and `SignIn` tell a repository that does not find a row from one that
fails.  `Refresh` does not: it takes every error of `FindByID` for a user that is
not there.  `faithful_iff` says that this is the only place where an error is
returned without its cause.

A call is followed from its beginning, and each of its steps finds the table as
the other calls have left it (`runSeen`).
-/

import YtShare.Auth.Service

namespace YtShare
namespace Auth

open Users

/-- A request to one of the three handlers; the refresh with the instant at which
its token is verified. -/
inductive Request
  | signUp (req : SignUpRequest)
  | signIn (req : SignInRequest)
  | refresh (req : RefreshRequest) (now : Time)

/-- The call is at a call of the repository. -/
def Call.AtRepository : Call → Prop
  | .signUp _ (.lookup _) | .signUp _ (.create _) | .signIn _ (.lookup _)
  | .refresh _ _ (.load _) => True
  | _ => False

namespace Service

variable (lib : Library) (cfg : JWTConfig) {lower : String → String}

/-- The call as it begins. -/
def start : Request → Call
  | .signUp req => startSignUp lib req
  | .signIn req => startSignIn lib req
  | .refresh req now => startRefresh lib cfg req now

/-- The call after some steps, each with what the outside decides about it and
the table that it finds. -/
def runSeen : List (StepEnv × Table lower) → Call → Call
  | [], c => c
  | (env, t) :: seen, c =>
      match advance lib cfg env t c with
      | some (_, c) => runSeen seen c
      | none => c

/-- The request has this error for the cause that it names: the email is
registered; there is no such account or the password is wrong; the token is
invalid or names no user. -/
def DomainCause (request : Request) (seen : List (StepEnv × Table lower)) : AuthError → Prop
  | .emailTaken => ∃ req, request = .signUp req ∧ ∃ env t rest, seen = (env, t) :: rest ∧
      env.fails = false ∧ t.findByEmail (lib.normalizeEmail req.email) ≠ none
  | .invalidCredentials =>
      (∃ req, request = .signIn req ∧ ∃ env t rest, seen = (env, t) :: rest ∧
        env.fails = false ∧ ∀ user ∈ t.findByEmail (lib.normalizeEmail req.email),
          lib.compare user.passwordHash req.password = false) ∨
      ∃ req now, request = .refresh req now ∧
        match TokenIssuer.verifyRefresh lib.jwt cfg now req.refreshToken with
        | .error _ => True
        | .ok claims => ∃ env t rest, seen = (env, t) :: rest ∧ env.fails = false ∧
            t.findByID claims.userID = none
  | .other => True

/-- Some call of the repository fails. -/
def RepositoryFails (request : Request) (seen : List (StepEnv × Table lower)) : Prop :=
  ∃ before env t after, seen = before ++ (env, t) :: after ∧ env.fails = true ∧
    (runSeen lib cfg before (start lib cfg request)).AtRepository

/-- **The errors are faithful:** those of the domain have their cause, and an
error of the repository is returned as such and answered by 500. -/
def Faithful (request : Request) (seen : List (StepEnv × Table lower)) : Prop :=
  (∀ e, (runSeen lib cfg seen (start lib cfg request)).result = some (.error e) →
      DomainCause lib cfg request seen e) ∧
    (RepositoryFails lib cfg request seen →
      ∃ e, (runSeen lib cfg seen (start lib cfg request)).result = some (.error e) ∧ e = .other ∧
        (writeAuthError e).1 = 500)

/-- The user of a valid refresh token is loaded without an error other than
`ErrNotFound`. -/
def RefreshLoads (request : Request) (seen : List (StepEnv × Table lower)) : Prop :=
  ∀ req now claims, request = .refresh req now →
    TokenIssuer.verifyRefresh lib.jwt cfg now req.refreshToken = .ok claims →
      ∀ x ∈ seen.head?, x.1.fails = false

variable {lib cfg} {seen : List (StepEnv × Table lower)}

/-! ### Runs -/

/-- A call takes its first step with what it sees first. -/
theorem runSeen_cons {env : StepEnv} {t t' : Table lower} {c c' : Call}
    (h : advance lib cfg env t c = some (t', c')) :
    runSeen lib cfg ((env, t) :: seen) c = runSeen lib cfg seen c' := by
  rw [runSeen, h]

/-- A call that has its result takes no step. -/
theorem runSeen_of_result {c : Call} {r : Except AuthError Response} (h : c.result = some r) :
    runSeen lib cfg seen c = c := by
  cases seen with
  | nil => rfl
  | cons x seen => rw [runSeen, advance_of_result h]

/-- What it sees first, and then the rest. -/
theorem runSeen_append (before after : List (StepEnv × Table lower)) (c : Call) :
    runSeen lib cfg (before ++ after) c = runSeen lib cfg after (runSeen lib cfg before c) := by
  induction before generalizing c with
  | nil => rfl
  | cons x before ih =>
    rw [List.cons_append, runSeen, runSeen]
    cases hs : advance lib cfg x.1 x.2 c with
    | some p => exact ih p.2
    | none =>
      obtain ⟨r, hr⟩ := result_of_advance hs
      exact (runSeen_of_result hr).symm

/-! ### Steps -/

/-- The call is past all that tells something about the user, or has returned. -/
inductive Past : Call → Prop
  | create (req : SignUpRequest) (user : Account) : Past (.signUp req (.create user))
  | signUp (req : SignUpRequest) (user : Account) : Past (.signUp req (.session user))
  | signIn (req : SignInRequest) (user : Account) : Past (.signIn req (.session user))
  | refresh (req : RefreshRequest) (now : Time) (user : Account) :
      Past (.refresh req now (.session user))
  | done {c : Call} {r : Except AuthError Response} (h : c.result = some r) : Past c

/-- Signing the tokens can only fail in one way. -/
theorem session_error {now : Time} {user : Account} {e : AuthError}
    (h : session lib cfg now user = .error e) : e = .other := by
  rw [session] at h
  split at h
  · cases h
    rfl
  · cases h

/-- **A step of a call that is past it** returns no error of the domain. -/
theorem Past.step {env : StepEnv} {t t' : Table lower} {c c' : Call} (h : Past c)
    (hs : advance lib cfg env t c = some (t', c')) :
    Past c' ∧ ∀ e, c'.result = some (.error e) → e = .other := by
  cases h with
  | create req user =>
    rw [advance] at hs
    obtain ⟨⟨t₁, pc⟩, hadv, heq⟩ := Option.map_eq_some_iff.1 hs
    obtain ⟨rfl, rfl⟩ := Prod.mk.inj heq
    obtain ⟨email, hpc, -⟩ | ⟨u, -, ⟨-, rfl, -⟩ | ⟨row, -, rfl⟩⟩ | ⟨u, hpc, -⟩ :=
      advanceSignUp_cases hadv
    · cases hpc
    · exact ⟨.done rfl, fun e he => (by cases he; rfl)⟩
    · exact ⟨.signUp _ _, nofun⟩
    · cases hpc
  | signUp req user =>
    cases hs
    exact ⟨.done rfl, fun e he => session_error (Option.some.inj he)⟩
  | signIn req user =>
    cases hs
    exact ⟨.done rfl, fun e he => session_error (Option.some.inj he)⟩
  | refresh req now user =>
    cases hs
    exact ⟨.done rfl, fun e he => session_error (Option.some.inj he)⟩
  | done hr =>
    rw [advance_of_result hr] at hs
    cases hs

/-- A call that is past the point where the account is read stays past it. -/
theorem Past.run {c : Call} (h : Past c) : Past (runSeen lib cfg seen c) := by
  induction seen generalizing c with
  | nil => exact h
  | cons x seen ih =>
    cases hs : advance lib cfg x.1 x.2 c with
    | none => rwa [runSeen, hs]
    | some p =>
      rw [runSeen_cons hs]
      exact ih (h.step hs).1

/-- What a call that is past it returns later is no error of the domain. -/
theorem Past.result {c : Call} (h : Past c) (hr : ∀ e, c.result = some (.error e) → e = .other) :
    ∀ e, (runSeen lib cfg seen c).result = some (.error e) → e = .other := by
  induction seen generalizing c with
  | nil => exact hr
  | cons x seen ih =>
    cases hs : advance lib cfg x.1 x.2 c with
    | none => rwa [runSeen, hs]
    | some p =>
      rw [runSeen_cons hs]
      exact ih (h.step hs).1 (h.step hs).2

/-- A call that has returned an error of the domain with its cause, or another one. -/
theorem past_of_error {request : Request} {c : Call} {e : AuthError}
    (hr : c.result = some (.error e)) (hcause : DomainCause lib cfg request seen e) :
    Past c ∧ ∀ e, c.result = some (.error e) → DomainCause lib cfg request seen e := by
  refine ⟨.done hr, fun e' he => ?_⟩
  rw [hr] at he
  cases he
  exact hcause

/-- **What a call is after its first step**: past all that tells something about
the user, with an error of the domain only for its cause. -/
theorem first_step {request : Request} {env : StepEnv} {t t' : Table lower} {c : Call}
    (hload : RefreshLoads lib cfg request ((env, t) :: seen))
    (hs : advance lib cfg env t (start lib cfg request) = some (t', c)) :
    Past c ∧ ∀ e, c.result = some (.error e) →
      DomainCause lib cfg request ((env, t) :: seen) e := by
  cases request with
  | signUp req =>
    simp only [start, startSignUp, advance, advanceSignUp, Option.map_some, Option.some.injEq,
      Prod.mk.injEq] at hs
    obtain ⟨rfl, rfl⟩ := hs
    split_ifs with hfails
    · exact past_of_error rfl trivial
    · split
      · next user huser =>
        refine past_of_error rfl ⟨req, rfl, env, t, seen, rfl, Bool.eq_false_iff.2 hfails, ?_⟩
        rw [huser]
        intro h
        cases h
      · split
        · exact past_of_error rfl trivial
        · exact ⟨.create _ _, fun _ h => by cases h⟩
  | signIn req =>
    simp only [start, startSignIn, advance, advanceSignIn, Option.map_some, Option.some.injEq,
      Prod.mk.injEq] at hs
    obtain ⟨rfl, rfl⟩ := hs
    split_ifs with hfails
    · exact past_of_error rfl trivial
    · split
      · next hnone =>
        refine past_of_error rfl (.inl ⟨req, rfl, env, t, seen, rfl, Bool.eq_false_iff.2 hfails,
          fun user huser => ?_⟩)
        rw [hnone] at huser
        cases huser
      · next user huser =>
        split_ifs with hcompare
        · exact ⟨.signIn _ _, fun _ h => by cases h⟩
        · refine past_of_error rfl (.inl ⟨req, rfl, env, t, seen, rfl,
            Bool.eq_false_iff.2 hfails, fun w hw => ?_⟩)
          rw [huser] at hw
          cases hw
          exact Bool.eq_false_iff.2 hcompare
  | refresh req now =>
    rw [start, startRefresh] at hs
    cases hv : TokenIssuer.verifyRefresh lib.jwt cfg now req.refreshToken with
    | error err =>
      rw [hv] at hs
      cases hs
    | ok claims =>
      have hfails : env.fails = false := hload req now claims rfl hv _ rfl
      simp only [hv, advance, advanceRefresh, hfails, Option.map_some, Option.some.injEq,
        Prod.mk.injEq] at hs
      obtain ⟨rfl, rfl⟩ := hs
      rw [if_neg (by decide)]
      split
      · next hnone =>
        refine past_of_error rfl (.inr ⟨req, now, rfl, ?_⟩)
        rw [hv]
        exact ⟨env, t, seen, rfl, hfails, hnone⟩
      · exact ⟨.refresh _ _ _, fun _ h => by cases h⟩

variable (lib cfg) in
/-- A repository that fails in a call is told of, but by `Refresh`. -/
theorem advance_fails {env : StepEnv} {t : Table lower} {c : Call} (hc : c.AtRepository)
    (hfails : env.fails = true) (hload : ∀ req now userID, c ≠ .refresh req now (.load userID)) :
    ∃ c', advance lib cfg env t c = some (t, c') ∧ c'.result = some (.error .other) := by
  rcases c with ⟨req, pc⟩ | ⟨req, pc⟩ | ⟨req, now, pc⟩
  · cases pc with
    | lookup email =>
      simp only [advance, advanceSignUp, hfails, if_true, Option.map_some]
      exact ⟨_, rfl, rfl⟩
    | create user =>
      simp only [advance, advanceSignUp, hfails, if_true, Option.map_some]
      exact ⟨_, rfl, rfl⟩
    | session user => exact hc.elim
    | done r => exact hc.elim
  · cases pc with
    | lookup email =>
      simp only [advance, advanceSignIn, hfails, if_true, Option.map_some]
      exact ⟨_, rfl, rfl⟩
    | session user => exact hc.elim
    | done r => exact hc.elim
  · cases pc with
    | load userID => exact absurd rfl (hload req now userID)
    | session user => exact hc.elim
    | done r => exact hc.elim

/-- Only the first step of a call loads the user of a refresh token. -/
theorem ne_load_of_past {c : Call} (h : Past c) (req : RefreshRequest) (now : Time)
    (userID : UUID) : c ≠ .refresh req now (.load userID) := by
  rintro rfl
  cases h with
  | done hr => cases hr

/-- A call that returns at once is a refresh with an invalid token. -/
theorem start_error {request : Request} {e : AuthError}
    (h : (start lib cfg request).result = some (.error e)) :
    DomainCause lib cfg request seen e := by
  cases request with
  | signUp req => cases h
  | signIn req => cases h
  | refresh req now =>
    rw [start, startRefresh] at h
    cases hv : TokenIssuer.verifyRefresh lib.jwt cfg now req.refreshToken with
    | error err =>
      rw [hv] at h
      cases h
      refine .inr ⟨req, now, rfl, ?_⟩
      rw [hv]
      trivial
    | ok claims =>
      rw [hv] at h
      cases h

/-- An error of the domain has its cause. -/
theorem domainCause_of_result {request : Request} (hload : RefreshLoads lib cfg request seen)
    {e : AuthError} (h : (runSeen lib cfg seen (start lib cfg request)).result = some (.error e)) :
    DomainCause lib cfg request seen e := by
  cases seen with
  | nil => exact start_error h
  | cons x seen =>
    cases hs : advance lib cfg x.1 x.2 (start lib cfg request) with
    | none =>
      rw [runSeen, hs] at h
      exact start_error h
    | some p =>
      obtain ⟨hpast, hcause⟩ := first_step hload hs
      rw [runSeen_cons hs] at h
      cases hr : p.2.result with
      | some r =>
        rw [runSeen_of_result hr] at h
        exact hcause e h
      | none =>
        have hnone : ∀ e, p.2.result = some (.error e) → e = .other := by
          intro e he
          rw [hr] at he
          cases he
        obtain rfl := hpast.result hnone e h
        trivial

/-- The call does not load the user of a refresh token when its repository fails. -/
theorem ne_load {request : Request} {before after : List (StepEnv × Table lower)} {env : StepEnv}
    {t : Table lower} (hload : RefreshLoads lib cfg request (before ++ (env, t) :: after))
    (hfails : env.fails = true)
    (hc : (runSeen lib cfg before (start lib cfg request)).AtRepository) :
    ∀ req now userID, runSeen lib cfg before (start lib cfg request) ≠
      .refresh req now (.load userID) := by
  cases before with
  | nil =>
    intro req now userID hc
    cases request with
    | signUp req => cases hc
    | signIn req => cases hc
    | refresh req now =>
      rw [runSeen, start, startRefresh] at hc
      cases hv : TokenIssuer.verifyRefresh lib.jwt cfg now req.refreshToken with
      | error err =>
        rw [hv] at hc
        cases hc
      | ok claims =>
        rw [hload req now claims rfl hv _ rfl] at hfails
        cases hfails
  | cons x before =>
    cases hs : advance lib cfg x.1 x.2 (start lib cfg request) with
    | none =>
      obtain ⟨r, hr⟩ := result_of_advance hs
      rw [runSeen_of_result hr]
      rintro req now userID heq
      rw [heq] at hr
      cases hr
    | some p =>
      rw [runSeen_cons hs]
      exact ne_load_of_past (first_step hload hs).1.run

/-- **The errors of a request are faithful exactly when** the user of its valid
refresh token, if it has one, is loaded without an error. -/
theorem faithful_iff_refreshLoads (request : Request) (seen : List (StepEnv × Table lower)) :
    Faithful lib cfg request seen ↔ RefreshLoads lib cfg request seen := by
  constructor
  · rintro ⟨-, hfails⟩ req now claims rfl hv x hx
    cases seen with
    | nil => cases hx
    | cons y seen =>
      cases hx
      by_contra htrue
      have hfail : x.1.fails = true := Bool.not_eq_false _ ▸ htrue
      have hstart : start lib cfg (.refresh req now) = .refresh req now (.load claims.userID) := by
        rw [start, startRefresh, hv]
      have hstep : advance lib cfg x.1 x.2 (start lib cfg (.refresh req now)) =
          some (x.2, .refresh req now (.done (.error .invalidCredentials))) := by
        rw [hstart]
        simp only [advance, advanceRefresh, hfail, if_true, Option.map_some]
      obtain ⟨e, hr, rfl, -⟩ := hfails ⟨[], x.1, x.2, seen, rfl, hfail, by
        rw [runSeen, hstart]
        trivial⟩
      rw [runSeen_cons hstep, runSeen_of_result rfl] at hr
      cases hr
  · intro hload
    refine ⟨fun e h => domainCause_of_result hload h, ?_⟩
    rintro ⟨before, env, t, after, rfl, hfails, hc⟩
    obtain ⟨c, hs, hr⟩ := advance_fails lib cfg (t := t) hc hfails
      (ne_load hload hfails hc)
    refine ⟨.other, ?_, rfl, rfl⟩
    rw [runSeen_append, runSeen_cons hs, runSeen_of_result hr]
    exact hr

end Service

end Auth
end YtShare
