/-
# One account per email

Any number of `SignUp`s of one email at the same time.  The lookup compares
emails as they are and comes before the password is hashed; the unique index
compares them lowered and lets one insert in.

So there is one row and one session in every interleaving (`Contest`).  A call
that looks the email up after the insert is told `ErrEmailTaken`.  One that
looked it up before goes on to `Create`, whose error nothing turns into
`ErrEmailTaken`: its answer is 500.  `one_account_iff` says that this is the only
way to miss.
-/

import YtShare.Auth.Service
import YtShare.Lib.Machine

namespace YtShare
namespace Auth

open Lib Users

variable (lib : Library) (cfg : JWTConfig) {lower : String → String} (email : String)

namespace Server

/-- What a call of `SignUp` has returned. -/
def signUpResult (s : Server lower) (k : ℕ) : Option (Except AuthError Response) :=
  match s.calls k with
  | some (.signUp _ (.done r)) => some r
  | _ => none

/-- Nothing fails by itself in this step of a call: the password can be hashed,
the id is new, and the tokens can be signed. -/
def Succeeds (env : StepEnv) (users : Table lower) : Call → Prop
  | .signUp req (.lookup _) => (lib.generate req.password env.salt).isSome = true
  | .signUp _ (.create _) => ∀ w ∈ users.rows, w.id ≠ env.newID
  | .signUp _ (.session user) => (TokenIssuer.issue lib.jwt cfg env.now user.id).isSome = true
  | _ => True

instance (env : StepEnv) (users : Table lower) (c : Call) :
    Decidable (Succeeds lib cfg env users c) := by
  unfold Succeeds
  split <;> infer_instance

end Server

/-- The steps of the sign-ups of an email. -/
def Contestant (s : Server lower) : Server.Label → Prop
  | .signUp _ req => lib.normalizeEmail req.email = email
  | .signIn .. => False
  | .refresh .. => False
  | .step k env => env.fails = false ∧ ∀ c ∈ s.calls k, Server.Succeeds lib cfg env s.users c

instance (s : Server lower) (l : Server.Label) :
    Decidable (Contestant lib cfg email s l) := by
  unfold Contestant
  split <;> infer_instance

/-- The sign-ups of an email, from a table without it. -/
def signUps : Machine (Server lower) Server.Label :=
  Machine.restrict
    ⟨fun s => (∀ k, s.calls k = none) ∧ s.users.withEmail email = [], Server.step lib cfg⟩
    (Contestant lib cfg email)

/-- One row and one session at most, and no other error than `ErrEmailTaken`,
which is answered by 409; the row is there when the first call has returned,
and once all have, one of them has a session. -/
structure OneAccount (s : Server lower) : Prop where
  oneRow : (s.users.withEmail email).length ≤ 1
  oneSession : ∀ j k v w, s.signUpResult j = some (.ok v) → s.signUpResult k = some (.ok w) → j = k
  others : ∀ k e, s.signUpResult k = some (.error e) →
    e = .emailTaken ∧ (writeAuthError e).1 = 409
  stored : ∀ k r, s.signUpResult k = some r → (s.users.withEmail email).length = 1
  settled : (∃ k, s.calls k ≠ none) → (∀ k, s.calls k ≠ none → s.signUpResult k ≠ none) →
    ∃ k v, s.signUpResult k = some (.ok v)

/-- **The condition on a step:** when a call comes to `Create`, the email is not
there yet. -/
def Unclaimed (s : Server lower) : Server.Label → Prop
  | .step k _ =>
      match s.calls k with
      | some (.signUp _ (.create _)) => s.users.withEmail email = []
      | _ => True
  | _ => True

variable {lib cfg email}

/-- The calls past their insert. -/
def SignUpPc.stored : SignUpPc → Bool
  | .lookup _ | .create _ | .done (.error _) => false
  | .session _ | .done (.ok _) => true

/-- What a sign-up of an email holds at each place, `taken` telling whether the
row is there. -/
def SignUpPc.Fits (email : String) (taken : Prop) : SignUpPc → Prop
  | .lookup x => x = email
  | .create user => user.email = email ∧ user.id = UUID.nil
  | .done (.error e) => e = .emailTaken ∧ taken
  | .session _ | .done (.ok _) => True

/-- What a call needs to have happened may be anything that follows from it. -/
theorem SignUpPc.Fits.mono {p q : Prop} {pc : SignUpPc} (h : pc.Fits email p) (hpq : p → q) :
    pc.Fits email q := by
  unfold Fits at h ⊢
  split
  · exact h
  · exact h
  · exact ⟨h.1, hpq h.2⟩
  · trivial
  · trivial

namespace Server

variable {s t : Server lower} {k : ℕ}

/-- The email is in the table. -/
def Taken (email : String) (s : Server lower) : Prop := s.users.withEmail email ≠ []

/-- The call `k` is past its insert. -/
def Stored (s : Server lower) (k : ℕ) : Prop :=
  ∃ req pc, s.calls k = some (.signUp req pc) ∧ pc.stored = true

/-- The invariant: the row is there exactly when one call, and no other, is past
its insert. -/
structure Contest (email : String) (s : Server lower) : Prop where
  contestant : ∀ k c, s.calls k = some c →
    ∃ req pc, c = .signUp req pc ∧ pc.Fits email (s.Taken email)
  winner : s.Taken email ↔ ∃ k, s.Stored k
  unique : ∀ j k, s.Stored j → s.Stored k → j = k

/-- The result of a call is what its `SignUp` has returned. -/
theorem signUpResult_eq_some {r : Except AuthError Response} :
    s.signUpResult k = some r ↔ ∃ req, s.calls k = some (.signUp req (.done r)) := by
  unfold signUpResult
  constructor
  · intro h
    split at h
    · next hc => exact ⟨_, (Option.some.inj h) ▸ hc⟩
    · cases h
  · rintro ⟨req, h⟩
    rw [h]

/-- A call that returns a session has stored its account. -/
theorem stored_of_ok {v : Response} (h : s.signUpResult k = some (.ok v)) : s.Stored k := by
  obtain ⟨req, hc⟩ := signUpResult_eq_some.1 h
  exact ⟨req, _, hc, rfl⟩

/-- A change of call `k` changes only whether `k` is past its insert. -/
theorem stored_setCall {users : Table lower} {req : SignUpRequest} {pc : SignUpPc} {j : ℕ} :
    ({ s.setCall k (.signUp req pc) with users := users } : Server lower).Stored j ↔
      if j = k then pc.stored = true else s.Stored j := by
  unfold Stored
  split_ifs with hj
  · subst hj
    rw [setCall_self]
    constructor
    · rintro ⟨_, _, hc, hstored⟩
      obtain ⟨-, rfl⟩ := Call.signUp.inj (Option.some.inj hc)
      exact hstored
    · intro hstored
      exact ⟨req, pc, rfl, hstored⟩
  · rw [setCall_of_ne s _ hj]

/-- A call that stays on its side of the insert changes no side. -/
theorem stored_setCall_same {users : Table lower} {req : SignUpRequest} {pc : SignUpPc}
    (hside : pc.stored = true ↔ s.Stored k) (j : ℕ) :
    ({ s.setCall k (.signUp req pc) with users := users } : Server lower).Stored j ↔
      s.Stored j := by
  rw [stored_setCall]
  split_ifs with hj
  · rw [hj, hside]
  · rfl

/-- **The invariant of the contest gives one account.** -/
theorem Contest.oneAccount (hi : s.Contest email) : OneAccount email s := by
  have hlength := s.users.withEmail_length_le_one email
  have hone : s.Taken email → (s.users.withEmail email).length = 1 := by
    intro h
    have hpos := List.length_pos_iff.2 h
    omega
  -- what a call that failed has to say
  have herror : ∀ k e, s.signUpResult k = some (.error e) → e = .emailTaken ∧ s.Taken email := by
    intro k e hk
    obtain ⟨req, hc⟩ := signUpResult_eq_some.1 hk
    obtain ⟨_, _, heq, hfits⟩ := hi.contestant k _ hc
    obtain ⟨-, rfl⟩ := Call.signUp.inj heq
    exact hfits
  have htaken : ∀ k r, s.signUpResult k = some r → s.Taken email := by
    intro k r hk
    rcases r with e | v
    · exact (herror k e hk).2
    · exact hi.winner.2 ⟨k, stored_of_ok hk⟩
  constructor
  · exact hlength
  · intro j k v w hj hk
    exact hi.unique j k (stored_of_ok hj) (stored_of_ok hk)
  · intro k e hk
    obtain ⟨rfl, -⟩ := herror k e hk
    exact ⟨rfl, rfl⟩
  · intro k r hk
    exact hone (htaken k r hk)
  · rintro ⟨k, hk⟩ hall
    obtain ⟨r, hr⟩ := Option.ne_none_iff_exists'.1 (hall k hk)
    obtain ⟨j, req, pc, hc, hstored⟩ := hi.winner.1 (htaken k r hr)
    obtain ⟨r', hr'⟩ := Option.ne_none_iff_exists'.1 (hall j (by rw [hc]; exact nofun))
    obtain ⟨_, hdone⟩ := signUpResult_eq_some.1 hr'
    obtain ⟨-, rfl⟩ := Call.signUp.inj (Option.some.inj (hc.symm.trans hdone))
    rcases r' with e | v
    · cases hstored
    · exact ⟨j, v, hr'⟩

/-- A call moves without a change to the rows of the email. -/
theorem Contest.move (hi : s.Contest email) {req : SignUpRequest} {pc : SignUpPc}
    (hside : pc.stored = true ↔ s.Stored k) (hfits : pc.Fits email (s.Taken email)) :
    (s.setCall k (.signUp req pc)).Contest email := by
  have hsame : ∀ j, (s.setCall k (.signUp req pc)).Stored j ↔ s.Stored j :=
    stored_setCall_same hside
  constructor
  · intro j c hc
    rcases setCall_eq_some hc with ⟨-, rfl⟩ | ⟨-, hc⟩
    · exact ⟨req, pc, rfl, hfits⟩
    · exact hi.contestant j c hc
  · exact hi.winner.trans (exists_congr fun j => (hsame j).symm)
  · intro i j hi' hj'
    exact hi.unique i j ((hsame i).1 hi') ((hsame j).1 hj')

/-- A call inserts the first row of the email. -/
theorem Contest.insert (hi : s.Contest email) {req : SignUpRequest} {user : Account}
    {users : Table lower} (hbefore : ¬s.Taken email) (hafter : users.withEmail email ≠ []) :
    ({ s.setCall k (.signUp req (.session user)) with users := users } : Server lower).Contest
      email := by
  have hnone : ∀ j, ¬s.Stored j := fun j hj => hbefore (hi.winner.2 ⟨j, hj⟩)
  have hiff : ∀ j, ({ s.setCall k (.signUp req (.session user)) with
      users := users } : Server lower).Stored j ↔ j = k := by
    intro j
    rw [stored_setCall]
    split_ifs with hj
    · exact iff_of_true rfl hj
    · exact iff_of_false (hnone j) hj
  constructor
  · intro j c hc
    rcases setCall_eq_some hc with ⟨-, rfl⟩ | ⟨-, hc⟩
    · exact ⟨req, _, rfl, trivial⟩
    · obtain ⟨req', pc, heq, hfits⟩ := hi.contestant j c hc
      exact ⟨req', pc, heq, hfits.mono fun h => absurd h hbefore⟩
  · exact iff_of_true hafter ⟨k, (hiff k).2 rfl⟩
  · intro i j hi' hj'
    rw [(hiff i).1 hi', (hiff j).1 hj']

/-- A call begins. -/
theorem Contest.begin (hi : s.Contest email) {req : SignUpRequest} (hk : s.calls k = none)
    (hemail : lib.normalizeEmail req.email = email) :
    (s.setCall k (Service.startSignUp lib req)).Contest email := by
  refine hi.move (iff_of_false nofun ?_) hemail
  rintro ⟨_, _, hc, -⟩
  rw [hk] at hc
  cases hc

/-- **One step of a sign-up:** it keeps the table and its side of the insert; or
it inserts the first row; or it is refused. -/
theorem contestant_cases {env : StepEnv} {users users' : Table lower} {req : SignUpRequest}
    {pc pc' : SignUpPc} (henv : env.fails = false)
    (hsucceeds : Succeeds lib cfg env users (.signUp req pc))
    (hpc : pc.Fits email (users.withEmail email ≠ []))
    (h : Service.advanceSignUp lib cfg env users req pc = some (users', pc')) :
    (users' = users ∧ pc'.stored = pc.stored ∧ pc'.Fits email (users.withEmail email ≠ []) ∧
      ∀ user, pc ≠ .create user) ∨
    (∃ user row, pc = .create user ∧ users.withEmail email = [] ∧
      users'.withEmail email = [row] ∧ pc' = .session row) ∨
    ∃ user, pc = .create user ∧ users.withEmail email ≠ [] ∧ users' = users ∧
      pc' = .done (.error .other) := by
  rcases Service.advanceSignUp_cases h with
    ⟨x, rfl, rfl, ⟨rfl, hfails | hgenerate⟩ | ⟨rfl, user, huser⟩ | ⟨hash, rfl⟩⟩ |
    ⟨user, rfl, hcreate⟩ | ⟨user, rfl, rfl, rfl⟩
  · rw [henv] at hfails
    cases hfails
  · have hsome : (lib.generate req.password env.salt).isSome = true := hsucceeds
    rw [hgenerate] at hsome
    cases hsome
  · obtain ⟨hmem, rfl⟩ := Table.findByEmail_eq_some huser
    obtain rfl : user.email = email := hpc
    refine .inl ⟨rfl, rfl, ⟨rfl, fun hnone => ?_⟩, nofun⟩
    exact Table.withEmail_eq_nil.1 hnone user hmem rfl
  · exact .inl ⟨rfl, rfl, ⟨hpc, rfl⟩, nofun⟩
  · obtain ⟨rfl, hnil⟩ := hpc
    rcases Table.create_cases hnil hsucceeds with
      ⟨hbefore, users₁, row, hinsert, hafter⟩ | ⟨htaken, hrefused⟩
    · rcases hcreate with ⟨-, -, hfails | hrefused⟩ | ⟨row', hinsert', rfl⟩
      · rw [henv] at hfails
        cases hfails
      · rw [hinsert] at hrefused
        cases hrefused
      · obtain ⟨rfl, rfl⟩ := Prod.mk.inj (Option.some.inj (hinsert.symm.trans hinsert'))
        exact .inr (.inl ⟨user, row, rfl, hbefore, hafter, rfl⟩)
    · rcases hcreate with ⟨rfl, rfl, -⟩ | ⟨row', hinsert', -⟩
      · exact .inr (.inr ⟨user, rfl, htaken, rfl, rfl⟩)
      · rw [hrefused] at hinsert'
        cases hinsert'
  · obtain ⟨resp, hresp⟩ := Service.session_of_issue hsucceeds
    rw [hresp]
    exact .inl ⟨rfl, rfl, trivial, nofun⟩

/-- **The step lemma.**  A step keeps one account exactly when it meets the
condition, and then it keeps the invariant. -/
theorem Contest.step (hi : s.Contest email) {l : Label}
    (h : (signUps lib cfg email).step s l = some t) :
    (OneAccount email t ↔ Unclaimed email s l) ∧ (Unclaimed email s l → t.Contest email) := by
  obtain ⟨hcontestant, h⟩ := Machine.restrict_step.1 h
  -- a step that keeps the invariant keeps the property too
  have hkeep : t.Contest email → Unclaimed email s l →
      (OneAccount email t ↔ Unclaimed email s l) ∧ (Unclaimed email s l → t.Contest email) :=
    fun hi' hl => ⟨iff_of_true hi'.oneAccount hl, fun _ => hi'⟩
  rcases step_cases h with ⟨k, c, hbegun, hk, rfl⟩ | ⟨k, env, c, users, c', rfl, hk, hadv, rfl⟩
  · cases l with
    | signUp j req =>
      obtain ⟨rfl, rfl⟩ := Prod.mk.inj (Option.some.inj hbegun)
      exact hkeep (hi.begin hk hcontestant) trivial
    | signIn => exact hcontestant.elim
    | refresh => exact hcontestant.elim
    | step => cases hbegun
  · obtain ⟨req, pc, rfl, hfits⟩ := hi.contestant k c hk
    obtain ⟨⟨users', pc'⟩, hsignUp, heq⟩ := Option.map_eq_some_iff.1 hadv
    obtain ⟨rfl, rfl⟩ := Prod.mk.inj heq
    rcases contestant_cases hcontestant.1 (hcontestant.2 _ hk) hfits hsignUp with
      ⟨rfl, hside, hfits', hpc⟩ | ⟨user, row, rfl, hbefore, hafter, rfl⟩ |
      ⟨user, rfl, htaken, rfl, rfl⟩
    · refine hkeep (hi.move ?_ hfits') ?_
      · rw [hside]
        constructor
        · intro hstored
          exact ⟨req, pc, hk, hstored⟩
        · rintro ⟨_, _, hc, hstored⟩
          obtain ⟨-, rfl⟩ := Call.signUp.inj (Option.some.inj (hk.symm.trans hc))
          exact hstored
      · simp only [Unclaimed, hk]
        split
        · next user huser =>
          obtain ⟨-, rfl⟩ := Call.signUp.inj (Option.some.inj huser)
          exact absurd rfl (hpc user)
        · trivial
    · refine hkeep (hi.insert (not_not.2 hbefore) (hafter ▸ List.cons_ne_nil _ _)) ?_
      simp only [Unclaimed, hk]
      exact hbefore
    · -- refused by the unique index: neither the property nor the condition holds
      have hlate : ¬Unclaimed email s (.step k env) := by
        simp only [Unclaimed, hk]
        exact htaken
      refine ⟨iff_of_false (fun ht => ?_) hlate, fun hl => absurd hl hlate⟩
      have hresult : ({ s.setCall k (.signUp req (.done (.error .other))) with
          users := s.users } : Server lower).signUpResult k = some (.error .other) :=
        signUpResult_eq_some.2 ⟨req, setCall_self s k _⟩
      exact absurd (ht.others k _ hresult).1 nofun

/-- Before any call, with no row of the email. -/
theorem contest_init (hs : (signUps lib cfg email).init s) : s.Contest email := by
  have hstored : ∀ k, ¬s.Stored k := by
    rintro k ⟨_, _, hc, -⟩
    rw [hs.1 k] at hc
    cases hc
  constructor
  · intro k c hc
    rw [hs.1 k] at hc
    cases hc
  · exact iff_of_false (fun h => h hs.2) fun ⟨k, hk⟩ => hstored k hk
  · intro j k hj
    exact absurd hj (hstored j)

end Server

/-- **When there is one account.**  In every run of sign-ups of one email there
is one row and one session at most and every other answer is `ErrEmailTaken`, at
every moment, exactly when no call comes to `Create` while the row is there. -/
theorem one_account_iff (lib : Library) (cfg : JWTConfig) (email : String) {s : Server lower}
    (hs : (signUps lib cfg email).init s) (run : List Server.Label) :
    (signUps lib cfg email).Always (OneAccount email) s run ↔
      (signUps lib cfg email).Steps (Unclaimed email) s run :=
  Machine.always_iff_steps (M := signUps lib cfg email) (I := Server.Contest email)
    (fun _ _ _ hi _ h => hi.step h) (Server.contest_init hs) (Server.contest_init hs).oneAccount

/-- Two sign-ups of one email. -/
def twoSignUps : List Server.Label :=
  [.signUp 0 ⟨"A@b ", "a", "pw"⟩, .signUp 1 ⟨"A@b", "b", "pw"⟩]

/-- A step with a new id. -/
def signUpStep (k n : ℕ) : Server.Label := .step k ⟨false, ⟨.ofNat 128 n⟩, ⟨0⟩, 0⟩

/-- A server without users. -/
def emptyServer : Server id := ⟨.empty, fun _ => none⟩

/-- Call 1 looks the email up after call 0 has inserted it: there is one account. -/
theorem one_account_iff_lateLookup :
    (signUps plain oneSecret "A@b").Always (OneAccount "A@b") emptyServer
      (twoSignUps ++ [signUpStep 0 1, signUpStep 0 1, signUpStep 1 2, signUpStep 0 1]) := by
  refine (one_account_iff plain oneSecret "A@b" ⟨fun _ => rfl, rfl⟩ _).2 ?_
  exact .cons rfl trivial (.cons rfl trivial (.cons rfl trivial (.cons rfl rfl
    (.cons rfl trivial (.cons rfl trivial trivial)))))

/-- Call 1 looks the email up before call 0 inserts it: the index refuses it, and
its answer is 500. -/
theorem two_lookups_before_signUp :
    ¬(signUps plain oneSecret "A@b").Always (OneAccount "A@b") emptyServer
      (twoSignUps ++ [signUpStep 0 1, signUpStep 1 2, signUpStep 0 1, signUpStep 1 2]) := by
  intro h
  have hend : ((signUps plain oneSecret "A@b").exec emptyServer (twoSignUps ++
      [signUpStep 0 1, signUpStep 1 2, signUpStep 0 1, signUpStep 1 2])).map
        (fun t => t.signUpResult 1) = some (some (.error .other)) := by
    decide
  obtain ⟨t, ht, hresult⟩ := Option.map_eq_some_iff.1 hend
  exact absurd ((h.exec ht).others 1 _ hresult).1 nofun

end Auth
end YtShare
