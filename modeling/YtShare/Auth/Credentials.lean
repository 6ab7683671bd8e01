/-
# From sign-up to sign-in

Three layers measure what a user signs up with, and each has its own measure.
The validator counts the characters of the name and of the password as they
come; `bcrypt` counts the bytes of the password; the columns of the table count
the characters of the email and of the name that are left when white space is
trimmed.

So a request that the validator accepts may still fail, or leave an account
without a name.  `sign_up_works_iff` says for which requests everything works:
those with a name that is not blank, a password of 72 bytes at most and an email
of 320 characters at most.  Where the account is there, the sign-in with its
password works at any later time, and with no other password.
-/

import YtShare.Auth.Service
import YtShare.Core.LetterCase

namespace YtShare
namespace Auth

open Users

/-! ### What is relied on -/

/-- What the libraries do: `strings.ToLower` lowers character by character,
`bcrypt` refuses a password of more than 72 bytes and accepts the one that was
hashed, its hashes fit the column, and the claims of the server can be signed. -/
structure Library.Documented (lib : Library) : Prop where
  toLower : lib.toLower = lowerText
  generate : ∀ password salt, lib.generate password salt = none ↔ 72 < (utf8 password).length
  width : ∀ password salt hash, lib.generate password salt = some hash → hash.length ≤ 255
  compare : ∀ password salt hash, lib.generate password salt = some hash →
    ∀ other, lib.compare hash other = true ↔ other = password
  signs : ∀ userID kind now ttl, kind = accessKind ∨ kind = refreshKind →
    lib.jwt.signingInput (TokenIssuer.claims userID kind now ttl) ≠ none

/-- The `validate` tags of `SignUpRequest`, `isEmail` being that of an email. -/
structure SignUpRequest.Valid (isEmail : String → Prop) (req : SignUpRequest) : Prop where
  email : req.email ≠ "" ∧ isEmail req.email
  name : 1 ≤ req.name.length ∧ req.name.length ≤ 120
  password : 6 ≤ req.password.length ∧ req.password.length ≤ 72

/-- The columns of the table hold the row. -/
def FitsColumns (row : Account) : Prop :=
  row.email.length ≤ 320 ∧ row.name.length ≤ 120 ∧ row.passwordHash.length ≤ 255

namespace Service

variable (lib : Library) (cfg : JWTConfig) {lower : String → String}

/-- A call that runs alone, for some steps. -/
def run : List StepEnv → Table lower → Call → Table lower × Call
  | [], t, c => (t, c)
  | env :: envs, t, c =>
      match advance lib cfg env t c with
      | some (t, c) => run envs t c
      | none => (t, c)

/-- For this sign-up the store fails only where the row does not fit. -/
structure FailsOnWidths (t : Table lower) (req : SignUpRequest) (find create : StepEnv) :
    Prop where
  findWorks : find.fails = false
  createFails : ∀ hash, lib.generate req.password find.salt = some hash →
    (create.fails = true ↔ ¬FitsColumns (newUser (lib.normalizeEmail req.email) req hash))
  newID : ∀ w ∈ t.rows, w.id ≠ create.newID

/-- At any later time a sign-in with the email in any letter case is answered by
a session of the user where the password is this one, and by
`ErrInvalidCredentials` where it is another. -/
def SignInWorks (t : Table lower) (user : User) (email password : String) : Prop :=
  ∀ t' : Table lower, Table.Later t t' → ∀ (req : SignInRequest) (find session : StepEnv),
    find.fails = false → CaseVariant (utf8 email) (utf8 req.email) →
      (req.password = password →
        ∃ resp, (run lib cfg [find, session] t' (startSignIn lib req)).2.result = some (.ok resp) ∧
          resp.user = ⟨user.id, user.email, user.name⟩) ∧
      (req.password ≠ password →
        (run lib cfg [find, session] t' (startSignIn lib req)).2.result =
          some (.error .invalidCredentials))

/-- The sign-up succeeds, and the user that it stores has a name and the
normalised email and can sign in. -/
def SignUpWorks (t : Table lower) (req : SignUpRequest) (find create session : StepEnv) : Prop :=
  ∃ (t' : Table lower) (row : Account) (resp : Response),
    run lib cfg [find, create, session] t (startSignUp lib req) =
        (t', .signUp req (.done (.ok resp))) ∧
      t'.rows = t.rows ++ [row] ∧ resp.user = ⟨row.id, row.email, row.name⟩ ∧ row.name ≠ "" ∧
      row.email = lib.normalizeEmail req.email ∧
      SignInWorks lib cfg t' row.toUser req.email req.password

variable {lib cfg} {t : Table lower}

/-! ### Runs -/

/-- A call takes its first step, and then the others. -/
theorem run_cons {t' : Table lower} {env : StepEnv} {envs : List StepEnv} {c c' : Call}
    (h : advance lib cfg env t c = some (t', c')) :
    run lib cfg (env :: envs) t c = run lib cfg envs t' c' := by
  rw [run, h]

/-- A call that has returned does nothing any more. -/
theorem run_of_result {envs : List StepEnv} {c : Call} {r : Except AuthError Response}
    (h : c.result = some r) : run lib cfg envs t c = (t, c) := by
  cases envs with
  | nil => rfl
  | cons env envs => rw [run, advance_of_result h]

/-! ### The sessions -/

variable (cfg) in
/-- A session can be made for every user. -/
theorem session_works (hlib : lib.Documented) (now : Time) (user : Account) :
    ∃ resp, session lib cfg now user = .ok resp ∧ resp.user = ⟨user.id, user.email, user.name⟩ := by
  have hsign : ∀ kind ttl secret, kind = accessKind ∨ kind = refreshKind →
      ∃ signed, TokenIssuer.sign lib.jwt user.id kind now ttl secret = some signed := by
    intro kind ttl secret hkind
    obtain ⟨input, hinput⟩ := Option.ne_none_iff_exists'.1 (hlib.signs user.id kind now ttl hkind)
    rw [TokenIssuer.sign, JWT.signedString, hinput]
    exact ⟨_, rfl⟩
  obtain ⟨access, haccess⟩ := hsign accessKind cfg.accessTTL cfg.accessSecret (.inl rfl)
  obtain ⟨refresh, hrefresh⟩ := hsign refreshKind cfg.refreshTTL cfg.refreshSecret (.inr rfl)
  rw [session, TokenIssuer.issue, haccess, hrefresh]
  exact ⟨_, rfl, rfl⟩

/-- **Emails that differ in letter case are normalised to one.** -/
theorem normalizeEmail_variant (hlib : lib.Documented) {email email' : String}
    (h : CaseVariant (utf8 email) (utf8 email')) :
    lib.normalizeEmail email' = lib.normalizeEmail email := by
  rw [Library.normalizeEmail, Library.normalizeEmail, hlib.toLower, lowerText_trimSpace,
    lowerText_trimSpace, lowerText_of_variant h]

/-- What the columns hold of an email is as long as the email without the white
space around it. -/
theorem length_normalizeEmail (hlib : lib.Documented) (email : String) :
    (lib.normalizeEmail email).length = (trimSpace email).length := by
  rw [Library.normalizeEmail, hlib.toLower, length_lowerText]

/-! ### The sign-in -/

/-- **A user who is in the table can sign in**, at any later time. -/
theorem signIn_works (hlib : lib.Documented) {row : Account} (hrow : row ∈ t.rows)
    {email password hash : String} {salt : ℕ} (hemail : row.email = lib.normalizeEmail email)
    (hgenerate : lib.generate password salt = some hash) (hhash : row.passwordHash = hash) :
    SignInWorks lib cfg t row.toUser email password := by
  intro t' hlater req find session hfind hvariant
  obtain ⟨w, hw, huser, hsame⟩ := hlater.mem hrow
  have hlookup : t'.findByEmail (lib.normalizeEmail req.email) = some w := by
    rw [normalizeEmail_variant hlib hvariant, ← hemail, ← huser]
    exact Table.findByEmail_of_mem hw
  have hcompare := hlib.compare password salt hash hgenerate req.password
  rw [← hhash, ← hsame] at hcompare
  have hstep : advance lib cfg find t' (startSignIn lib req) = some (t', .signIn req
      (if lib.compare w.passwordHash req.password = true then .session w
        else .done (.error .invalidCredentials))) := by
    simp only [startSignIn, advance, advanceSignIn, hfind, hlookup, Option.map_some]
    rfl
  refine ⟨fun hpassword => ?_, fun hpassword => ?_⟩
  · rw [if_pos (hcompare.2 hpassword)] at hstep
    obtain ⟨resp, hresp, hof⟩ := session_works cfg hlib session.now w
    have hdone : advance lib cfg session t' (.signIn req (.session w)) =
        some (t', .signIn req (.done (.ok resp))) := by
      simp only [advance, advanceSignIn, hresp, Option.map_some]
    refine ⟨resp, ?_, by rw [hof, ← huser]⟩
    rw [run_cons hstep, run_cons hdone]
    rfl
  · rw [if_neg fun hc => hpassword (hcompare.1 hc)] at hstep
    rw [run_cons hstep, run_of_result rfl]
    rfl

/-! ### The sign-up -/

variable (cfg) in
/-- What a sign-up does when its email is not registered: it hashes the password,
or fails. -/
theorem advance_lookup {req : SignUpRequest} {find create : StepEnv}
    (hstore : FailsOnWidths lib t req find create)
    (hnew : t.withEmail (lib.normalizeEmail req.email) = []) :
    advance lib cfg find t (startSignUp lib req) = some (t, .signUp req
      (match lib.generate req.password find.salt with
        | none => .done (.error .other)
        | some hash => .create (newUser (lib.normalizeEmail req.email) req hash))) := by
  have hlookup : t.findByEmail (lib.normalizeEmail req.email) = none := by
    refine List.find?_eq_none.2 fun w hw hemail => ?_
    exact Table.withEmail_eq_nil.1 hnew w hw (congrArg lower (of_decide_eq_true hemail))
  simp only [startSignUp, advance, advanceSignUp, hstore.findWorks, hlookup, Option.map_some]
  rfl

/-- The row that a sign-up inserts. -/
def newRow (lib : Library) (req : SignUpRequest) (hash : String) (newID : UUID) : Account :=
  Table.stamp newID (newUser (lib.normalizeEmail req.email) req hash)

variable (cfg) in
/-- A sign-up whose row fits the columns stores it and makes a session. -/
theorem run_fits (hlib : lib.Documented) {req : SignUpRequest} {find create : StepEnv}
    (session : StepEnv) (hstore : FailsOnWidths lib t req find create)
    (hnew : t.withEmail (lib.normalizeEmail req.email) = []) {hash : String}
    (hgen : lib.generate req.password find.salt = some hash)
    (hfits : FitsColumns (newUser (lib.normalizeEmail req.email) req hash)) :
    ∃ (t' : Table lower) (resp : Response),
      run lib cfg [find, create, session] t (startSignUp lib req) =
          (t', .signUp req (.done (.ok resp))) ∧
        t'.rows = t.rows ++ [newRow lib req hash create.newID] ∧
        resp.user = ⟨create.newID, lib.normalizeEmail req.email, trimSpace req.name⟩ := by
  have hlookup := advance_lookup cfg hstore hnew
  rw [hgen] at hlookup
  have hcreate : create.fails = false :=
    Bool.eq_false_iff.2 fun hfails => (hstore.createFails hash hgen).1 hfails hfits
  obtain ⟨-, t', row, hrow, -⟩ | ⟨hold, -⟩ := Table.create_cases
    (u := newUser (lib.normalizeEmail req.email) req hash) rfl hstore.newID
  · obtain ⟨-, rfl, hrows⟩ := Table.create_eq_some hrow
    obtain ⟨resp, hresp, huser⟩ := session_works cfg hlib session.now
      (newRow lib req hash create.newID)
    have hinsert : advance lib cfg create t
        (.signUp req (.create (newUser (lib.normalizeEmail req.email) req hash))) =
          some (t', .signUp req (.session (newRow lib req hash create.newID))) := by
      simp only [advance, advanceSignUp, hcreate, hrow, Option.map_some]
      rfl
    have hdone : advance lib cfg session t'
        (.signUp req (.session (newRow lib req hash create.newID))) =
          some (t', .signUp req (.done (.ok resp))) := by
      simp only [advance, advanceSignUp, hresp, Option.map_some]
    refine ⟨t', resp, ?_, hrows, huser⟩
    rw [run_cons hlookup, run_cons hinsert, run_cons hdone]
    rfl
  · exact absurd hnew hold

/-- The columns hold the row when the email is not too long. -/
theorem fitsColumns_iff (hlib : lib.Documented) {isEmail : String → Prop} {req : SignUpRequest}
    (hreq : req.Valid isEmail) {salt : ℕ} {hash : String}
    (hgen : lib.generate req.password salt = some hash) :
    FitsColumns (newUser (lib.normalizeEmail req.email) req hash) ↔
      (trimSpace req.email).length ≤ 320 := by
  rw [← length_normalizeEmail hlib]
  refine ⟨And.left, fun h => ⟨h, ?_, hlib.width _ _ _ hgen⟩⟩
  exact (length_trimSpace_le req.name).trans hreq.name.2

/-- **A sign-up works exactly when** its name is not blank, its password has 72
bytes at most and its email 320 characters at most. -/
theorem signUp_works_iff (hlib : lib.Documented) {isEmail : String → Prop} {req : SignUpRequest}
    (hreq : req.Valid isEmail) (hnew : t.withEmail (lib.normalizeEmail req.email) = [])
    {find create session : StepEnv} (hstore : FailsOnWidths lib t req find create) :
    SignUpWorks lib cfg t req find create session ↔
      trimSpace req.name ≠ "" ∧ (utf8 req.password).length ≤ 72 ∧
        (trimSpace req.email).length ≤ 320 := by
  have hlookup := advance_lookup cfg hstore hnew
  have hgenerate := hlib.generate req.password find.salt
  cases hgen : lib.generate req.password find.salt with
  | none =>
    have hlong := hgenerate.1 hgen
    rw [hgen] at hlookup
    refine iff_of_false ?_ fun h => by omega
    rintro ⟨t', row, resp, hrun, -⟩
    rw [run_cons hlookup, run_of_result rfl] at hrun
    cases hrun
  | some hash =>
    have hshort : (utf8 req.password).length ≤ 72 := by
      by_contra hlong
      rw [hgen] at hgenerate
      cases hgenerate.2 (by omega)
    rw [hgen] at hlookup
    by_cases hlength : (trimSpace req.email).length ≤ 320
    · obtain ⟨t', resp, hrun, hrows, huser⟩ := run_fits cfg hlib session hstore hnew hgen
        ((fitsColumns_iff hlib hreq hgen).2 hlength)
      constructor
      · rintro ⟨t'', row, resp', hrun', hrows', -, hname, -⟩
        rw [hrun] at hrun'
        obtain ⟨rfl, -⟩ := Prod.mk.inj hrun'
        rw [hrows] at hrows'
        obtain rfl := List.singleton_inj.1 (List.append_cancel_left hrows')
        exact ⟨hname, hshort, hlength⟩
      · rintro ⟨hname, -, -⟩
        refine ⟨t', _, resp, hrun, hrows, huser, hname, rfl, ?_⟩
        exact signIn_works hlib (hrows ▸ List.mem_append_right _ (List.mem_singleton_self _))
          rfl hgen rfl
    · have hcreate := (hstore.createFails hash hgen).2 fun h =>
        hlength ((fitsColumns_iff hlib hreq hgen).1 h)
      have hfailed : advance lib cfg create t
          (.signUp req (.create (newUser (lib.normalizeEmail req.email) req hash))) =
            some (t, .signUp req (.done (.error .other))) := by
        simp only [advance, advanceSignUp, hcreate, if_true, Option.map_some]
      refine iff_of_false ?_ fun h => hlength h.2.2
      rintro ⟨t', row, resp, hrun, -⟩
      rw [run_cons hlookup, run_cons hfailed, run_of_result rfl] at hrun
      cases hrun

end Service

/-! ### Two sign-ups -/

/-- A library that keeps passwords of up to 72 bytes as they are. -/
def bounded : Library where
  jwt := .reference
  generate password _ := if 72 < (utf8 password).length then none else some password
  compare hash password := decide (hash = password)
  toLower := lowerText

/-- Such limits are those that are documented. -/
theorem documented_bounded : bounded.Documented where
  toLower := rfl
  generate password salt := by
    show (if 72 < (utf8 password).length then none else some password) = none ↔ _
    split_ifs with h
    · exact iff_of_true rfl h
    · exact iff_of_false nofun h
  width password salt hash h := by
    obtain ⟨hshort, hsame⟩ := Option.ite_none_left_eq_some.1 h
    have hchars := length_le_utf8 password
    rw [← Option.some.inj hsame]
    omega
  compare password salt hash h other := by
    obtain ⟨-, hsame⟩ := Option.ite_none_left_eq_some.1 h
    show decide (hash = other) = true ↔ _
    rw [← Option.some.inj hsame, decide_eq_true_iff, eq_comm]
  signs userID kind now ttl h := by
    show (if userID.string = userID.string ∧ _ then some _ else none) ≠ none
    rw [if_pos ⟨rfl, h⟩]
    exact nofun

/-- A step in which nothing fails. -/
def stepSeven : StepEnv := ⟨false, ⟨7⟩, ⟨0⟩, 0⟩

/-- The store holds every row of a short email. -/
theorem failsOnWidths_bounded {req : SignUpRequest} {isEmail : String → Prop}
    (hreq : req.Valid isEmail) (hlength : (trimSpace req.email).length ≤ 320) :
    Service.FailsOnWidths bounded (.empty : Table id) req stepSeven stepSeven where
  findWorks := rfl
  createFails _ hgen := iff_of_false nofun fun hnot =>
    hnot ((Service.fitsColumns_iff documented_bounded hreq hgen).2 hlength)
  newID := nofun

/-- A sign-up with capitals and white space. -/
def annSignUp : SignUpRequest := ⟨"Ann@Example.com", " Ann ", "secret1"⟩

/-- A sign-up with a blank name. -/
def blankSignUp : SignUpRequest := ⟨"ann@example.com", " ", "secret1"⟩

/-- Ann can sign up and sign in. -/
theorem signUp_works_ann :
    Service.SignUpWorks bounded oneSecret (.empty : Table id) annSignUp stepSeven stepSeven
      stepSeven := by
  have hvalid : annSignUp.Valid fun email => '@' ∈ email.toList :=
    ⟨by decide, by decide, by decide⟩
  exact (Service.signUp_works_iff documented_bounded hvalid rfl
    (failsOnWidths_bounded hvalid (by decide))).2 ⟨by decide, by decide, by decide⟩

/-- A blank name is stored as none. -/
theorem not_signUp_works : ¬∀ (lib : Library) (cfg : JWTConfig) (isEmail : String → Prop)
    (t : Table id) (req : SignUpRequest) (find create session : StepEnv), lib.Documented →
    req.Valid isEmail → t.withEmail (lib.normalizeEmail req.email) = [] →
    Service.FailsOnWidths lib t req find create →
    Service.SignUpWorks lib cfg t req find create session := by
  intro h
  have hvalid : blankSignUp.Valid fun email => '@' ∈ email.toList :=
    ⟨by decide, by decide, by decide⟩
  obtain ⟨t', row, resp, hrun, hrows, -, hname, -⟩ := h bounded oneSecret _ .empty blankSignUp
    stepSeven stepSeven stepSeven documented_bounded hvalid rfl
    (failsOnWidths_bounded hvalid (by decide))
  have hstored : (Service.run bounded oneSecret [stepSeven, stepSeven, stepSeven]
      (.empty : Table id) (Service.startSignUp bounded blankSignUp)).1.rows.map
        (fun row => row.name) = [""] := by
    decide
  rw [hrun, hrows] at hstored
  exact hname (List.singleton_inj.1 hstored)

end Auth
end YtShare
