/-
# Nothing is stored without leave

The server writes three things: accounts, videos and the markers of users.  Each
is written by one request, at one step of one call, and
`nothing_stored_without_leave` says by which.  The tables are what the entries of
the journal make of the tables at the start.  An entry belongs to a request whose
body passed its checks and, where the endpoint is private, whose token the
authenticator accepted, and it holds what this request may store, under the user
of its token.  No request has two entries, and the answer tells the client whether
it has one.

A request keeps an account with its journal from its first step to its answer
(`Serves`, `Answers`), whatever the others do in between.
-/

import YtShare.Api.Server

namespace YtShare
namespace Api

open Auth Notifications Users Videos

variable (deps : Deps)

/-! ### What is written -/

/-- The tables after a write. -/
def Write.apply : Write → List Account × List Video → List Account × List Video
  | .account row, (users, videos) => (users ++ [row], videos)
  | .video row, (users, videos) => (users, videos ++ [row])
  | .seen userID now, (users, videos) => (users.map (Table.mark userID now), videos)

/-- The tables after the writes of a journal. -/
def replay (journal : List (ℕ × Write)) (tables : List Account × List Video) :
    List Account × List Video :=
  journal.foldl (fun tables p => p.2.apply tables) tables

/-- The writes of two journals, one after the other. -/
theorem replay_append (j j' : List (ℕ × Write)) (tables : List Account × List Video) :
    replay (j ++ j') tables = replay j' (replay j tables) :=
  List.foldl_append

/-- What a request wrote, in order. -/
def writesOf (k : ℕ) (journal : List (ℕ × Write)) : List Write :=
  journal.filterMap fun p => if p.1 = k then some p.2 else none

/-- The writes of one request in both. -/
theorem writesOf_append (k : ℕ) (j j' : List (ℕ × Write)) :
    writesOf k (j ++ j') = writesOf k j ++ writesOf k j' :=
  List.filterMap_append

/-- A request that is written for adds to its own writes only. -/
theorem writesOf_wrote (j k : ℕ) (w : Option Write) :
    writesOf j (w.map fun w => (k, w)).toList = if k = j then w.toList else [] := by
  cases w with
  | none => split_ifs <;> rfl
  | some w =>
    show writesOf j [(k, w)] = _
    unfold writesOf
    split_ifs with hj
    · exact List.filterMap_cons_some (if_pos hj)
    · exact List.filterMap_cons_none (if_neg hj)

/-- A write is of a request if the journal says so. -/
theorem mem_writesOf {k : ℕ} {w : Write} {journal : List (ℕ × Write)} :
    w ∈ writesOf k journal ↔ (k, w) ∈ journal := by
  unfold writesOf
  rw [List.mem_filterMap]
  constructor
  · rintro ⟨p, hmem, hp⟩
    obtain ⟨hk, hw⟩ := Option.ite_none_right_eq_some.1 hp
    rw [← hk, ← Option.some.inj hw]
    exact hmem
  · intro hmem
    exact ⟨(k, w), hmem, if_pos rfl⟩

/-! ### What a request may write -/

/-- The sign-up that a request asks for. -/
def AsksSignUp (r : Request) (req : SignUpRequest) : Prop :=
  route r = .ok .signUp ∧ signUpSchema.bind deps.validator r.body = .ok req

/-- The share that a request asks for, and the user that it comes from. -/
def AsksShare (r : Request) (now : Time) (userID : UUID) (req : ShareRequest) : Prop :=
  route r = .ok .share ∧ userOf deps now .share r = .ok userID ∧
    shareSchema.bind deps.validator r.body = .ok req

/-- The user who marks the notifications as seen. -/
def AsksMarkSeen (r : Request) (now : Time) (userID : UUID) : Prop :=
  route r = .ok .markSeen ∧ userOf deps now .markSeen r = .ok userID

/-- **What a request may write:** the account of a sign-up that passed its checks,
with the hash of its password; the video of a share that passed its checks, under
the user of its token; and the marker of the user of its token. -/
inductive Permitted (r : Request) (now : Time) : Write → Prop
  | account {req : SignUpRequest} {hash : String} {salt : ℕ} {newID : UUID}
      (hreq : AsksSignUp deps r req) (hhash : deps.lib.generate req.password salt = some hash) :
      Permitted r now (.account (Table.stamp newID
        (Auth.Service.newUser (deps.lib.normalizeEmail req.email) req hash)))
  | video {userID newID : UUID} {req : ShareRequest} {youTubeID : String} {sharer : User}
      {created : Time} (hreq : AsksShare deps r now userID req)
      (hid : extract req.url = some youTubeID) (hsharer : sharer.id = userID) :
      Permitted r now (.video (Store.stamp newID created
        (Videos.Service.newVideo youTubeID sharer req)))
  | seen {userID : UUID} {at' : Time} (hreq : AsksMarkSeen deps r now userID) :
      Permitted r now (.seen userID at')

/-! ### The account of a request -/

/-- What a request has written where its call is. -/
inductive Serves (r : Request) (now : Time) : Call → List Write → Prop
  | signUpLookup {req : SignUpRequest} (hreq : AsksSignUp deps r req) :
      Serves r now (.auth (.signUp req (.lookup (deps.lib.normalizeEmail req.email)))) []
  | signUpCreate {req : SignUpRequest} {hash : String} {salt : ℕ} (hreq : AsksSignUp deps r req)
      (hhash : deps.lib.generate req.password salt = some hash) :
      Serves r now (.auth (.signUp req (.create
        (Auth.Service.newUser (deps.lib.normalizeEmail req.email) req hash)))) []
  | signUpSession {req : SignUpRequest} {row : Account}
      (hrow : Permitted deps r now (.account row)) :
      Serves r now (.auth (.signUp req (.session row))) [.account row]
  | signIn {req : SignInRequest} {pc : SignInPc} : Serves r now (.auth (.signIn req pc)) []
  | refresh {req : RefreshRequest} {at' : Time} {pc : RefreshPc} :
      Serves r now (.auth (.refresh req at' pc)) []
  | list {limit offset : ℤ} {pc : ListPc} : Serves r now (.videos (.list limit offset pc)) []
  | shareLookup {userID : UUID} {req : ShareRequest} {youTubeID : String}
      (hreq : AsksShare deps r now userID req) (hid : extract req.url = some youTubeID) :
      Serves r now (.videos (.share userID req (.lookup youTubeID))) []
  | shareLoad {userID : UUID} {req : ShareRequest} {youTubeID : String}
      (hreq : AsksShare deps r now userID req) (hid : extract req.url = some youTubeID) :
      Serves r now (.videos (.share userID req (.loadSharer youTubeID))) []
  | shareCreate {userID : UUID} {req : ShareRequest} {youTubeID : String} {sharer : User}
      (hreq : AsksShare deps r now userID req) (hid : extract req.url = some youTubeID)
      (hsharer : sharer.id = userID) :
      Serves r now (.videos (.share userID req (.create
        (Videos.Service.newVideo youTubeID sharer req)))) []
  | shareInvalidate {userID : UUID} {req : ShareRequest} {row : Video}
      (hrow : Permitted deps r now (.video row)) :
      Serves r now (.videos (.share userID req (.invalidate row))) [.video row]
  | shareSubmit {userID : UUID} {req : ShareRequest} {row : Video}
      (hrow : Permitted deps r now (.video row)) :
      Serves r now (.videos (.share userID req (.submit row))) [.video row]
  | unreadCount {userID : UUID} {pc : Service.UnreadCountPc} :
      Serves r now (.notifications (.unreadCount userID pc)) []
  | markSeen {userID : UUID} (hreq : AsksMarkSeen deps r now userID) :
      Serves r now (.notifications (.markSeen userID .clock)) []
  | markSeenUpdate {userID : UUID} {at' : Time} (hreq : AsksMarkSeen deps r now userID) :
      Serves r now (.notifications (.markSeen userID (.update at'))) []
  | replay {id : String} {limit : ℤ} : Serves r now (.replay id limit) []

/-- **What an answer tells of the writes of its request:** an error, that nothing
was written, and a success, what was.  There are two exceptions, and both answer
500: a sign-up whose tokens cannot be signed, whose account is there, and a share
whose `Submit` panics, whose video is there. -/
inductive Answers (r : Request) (now : Time) : Answer → List Write → Prop
  | failed {a : Answer} (h : 400 ≤ a.status) : Answers r now a []
  | read {a : Answer} (h : a.status < 400)
      (hbody : (∀ view, a.body ≠ .video view) ∧ (∀ at', a.body ≠ .seenAt at') ∧ a.status ≠ 201) :
      Answers r now a []
  | signedUp {row : Account} {resp : Auth.Response} (hrow : Permitted deps r now (.account row))
      (hresp : resp.user = ⟨row.id, row.email, row.name⟩) :
      Answers r now ⟨201, .session resp⟩ [.account row]
  | unsigned {row : Account} {at' : Time} (hrow : Permitted deps r now (.account row))
      (hsign : TokenIssuer.issue deps.lib.jwt deps.jwt at' row.id = none) :
      Answers r now (.ofFailure .other) [.account row]
  | shared {row : Video} (hrow : Permitted deps r now (.video row)) :
      Answers r now ⟨201, .video (toView row)⟩ [.video row]
  | panicked {row : Video} (hrow : Permitted deps r now (.video row)) :
      Answers r now recovered [.video row]
  | seen {userID : UUID} {at' : Time} (hreq : Permitted deps r now (.seen userID at')) :
      Answers r now ⟨200, .seenAt at'⟩ [.seen userID at']

/-- What a request has written where it is. -/
def Accounts (r : Request) (now : Time) : Pc → List Write → Prop
  | .running c, ws => Serves deps r now c ws
  | .answered a, ws => Answers deps r now a ws

variable {deps} {r : Request} {now : Time}

/-- What was written was permitted. -/
theorem Accounts.permitted {pc : Pc} {ws : List Write} (h : Accounts deps r now pc ws) :
    ws.length ≤ 1 ∧ ∀ w ∈ ws, Permitted deps r now w := by
  have hnil : ([] : List Write).length ≤ 1 ∧ ∀ w ∈ ([] : List Write), Permitted deps r now w :=
    ⟨Nat.zero_le 1, fun w hw => absurd hw List.not_mem_nil⟩
  have hone : ∀ {w : Write}, Permitted deps r now w →
      [w].length ≤ 1 ∧ ∀ w' ∈ [w], Permitted deps r now w' :=
    fun hw => ⟨Nat.le_refl 1, fun w' hw' => List.mem_singleton.1 hw' ▸ hw⟩
  cases pc with
  | running c =>
    cases h with
    | signUpSession hrow | shareInvalidate hrow | shareSubmit hrow => exact hone hrow
    | _ => exact hnil
  | answered a =>
    cases h with
    | failed | read => exact hnil
    | signedUp hrow | unsigned hrow | shared hrow | panicked hrow | seen hrow => exact hone hrow

/-! ### A request comes in -/

/-- An answer that is an error. -/
theorem accounts_error {e : HTTPError} (h : 400 ≤ e.status) :
    Accounts deps r now (.answered (.ofFailure (.http e))) [] :=
  .failed h

/-- A call that goes on. -/
theorem accounts_running {c : Call} {ws : List Write} (hc : c.answer = none)
    (h : Serves deps r now c ws) : Accounts deps r now (Pc.running c).settle ws := by
  rw [Pc.settle, hc]
  exact h

/-- A call that has returned. -/
theorem accounts_answered {c : Call} {a : Answer} {ws : List Write} (hc : c.answer = some a)
    (h : Answers deps r now a ws) : Accounts deps r now (Pc.running c).settle ws := by
  rw [Pc.settle, hc]
  exact h

/-- A success that tells of no write. -/
theorem answers_ok {body : Body} (hvideo : ∀ view, body ≠ .video view)
    (hseen : ∀ at', body ≠ .seenAt at') : Answers deps r now ⟨200, body⟩ [] :=
  .read (show 200 < 400 by decide) ⟨hvideo, hseen, show 200 ≠ 201 by decide⟩

/-- Every error of the sign-up and the sign-in is answered with a status from 400 on. -/
theorem status_writeAuthError (e : AuthError) : 400 ≤ (writeAuthError e).1 := by
  cases e <;> decide

/-- And every error of a share. -/
theorem status_shareError (e : ShareError) : 400 ≤ (Answer.ofFailure e.failure).status := by
  cases e <;> decide

/-- An endpoint that reads, wherever its call is. -/
theorem accounts_signIn (req : SignInRequest) (pc : SignInPc) :
    Accounts deps r now (Pc.running (.auth (.signIn req pc))).settle [] := by
  rcases pc with _ | _ | e | resp
  · exact accounts_running rfl .signIn
  · exact accounts_running rfl .signIn
  · exact accounts_answered rfl (.failed (status_writeAuthError e))
  · exact accounts_answered rfl (answers_ok nofun nofun)

/-- A refresh writes nothing, wherever it is. -/
theorem accounts_refresh (req : RefreshRequest) (at' : Time) (pc : RefreshPc) :
    Accounts deps r now (Pc.running (.auth (.refresh req at' pc))).settle [] := by
  rcases pc with _ | _ | e | resp
  · exact accounts_running rfl .refresh
  · exact accounts_running rfl .refresh
  · exact accounts_answered rfl (.failed (status_writeAuthError e))
  · exact accounts_answered rfl (answers_ok nofun nofun)

/-- The service of the videos fails with no status of its own. -/
def ListPc.Plain : ListPc → Prop
  | .done (.error e) => e = .other
  | _ => True

/-- Nor does a list. -/
theorem accounts_list (limit offset : ℤ) {pc : ListPc} (hpc : ListPc.Plain pc) :
    Accounts deps r now (Pc.running (.videos (.list limit offset pc))).settle [] := by
  rcases pc with _ | _ | _ | _ | e | resp
  · exact accounts_running rfl .list
  · exact accounts_running rfl .list
  · exact accounts_running rfl .list
  · exact accounts_running rfl .list
  · obtain rfl : e = .other := hpc
    exact accounts_answered rfl (.failed (by decide))
  · exact accounts_answered rfl (answers_ok nofun nofun)

/-- Nor does a count. -/
theorem accounts_unreadCount (userID : UUID) (pc : Service.UnreadCountPc) :
    Accounts deps r now (Pc.running (.notifications (.unreadCount userID pc))).settle [] := by
  rcases pc with _ | _ | e | n
  · exact accounts_running rfl .unreadCount
  · exact accounts_running rfl .unreadCount
  · exact accounts_answered rfl (.failed (by decide))
  · exact accounts_answered rfl (answers_ok nofun nofun)

/-- The authenticator refuses with a 401 only. -/
theorem status_authenticator {jwt : JWT} {cfg : JWTConfig} {r : Middleware.Request} {e : HTTPError}
    (h : Middleware.authenticator jwt cfg now r = .error e) : e.status = 401 := by
  unfold Middleware.authenticator at h
  split_ifs at h
  · rw [← Except.error.inj h]
  · split at h
    · rw [← Except.error.inj h]
    · cases h

/-- **A request that comes in** has written nothing. -/
theorem accounts_receive (deps : Deps) (r : Request) (now : Time) :
    Accounts deps r now (receive deps now r) [] := by
  unfold receive
  cases hroute : route r with
  | error a =>
    refine .failed ?_
    unfold route at hroute
    split at hroute
    · cases hroute
    · split_ifs at hroute
      · rw [← Except.error.inj hroute]
        decide
      · rw [← Except.error.inj hroute]
        decide
  | ok e =>
    dsimp only
    cases huser : userOf deps now e r with
    | error err =>
      refine accounts_error ?_
      unfold userOf at huser
      split_ifs at huser
      rw [status_authenticator huser]
      decide
    | ok userID =>
      dsimp only
      cases e with
      | healthz => exact answers_ok nofun nofun
      | signUp =>
        simp only [start]
        split
        · next e he => exact accounts_error (by rw [Schema.bind_eq_error he])
        · next req hreq => exact accounts_running rfl (.signUpLookup ⟨hroute, hreq⟩)
      | signIn =>
        simp only [start]
        split
        · next e he => exact accounts_error (by rw [Schema.bind_eq_error he])
        · exact accounts_signIn _ _
      | refresh =>
        simp only [start]
        split
        · next e he => exact accounts_error (by rw [Schema.bind_eq_error he])
        · exact accounts_refresh _ _ _
      | list =>
        refine accounts_list _ _ ?_
        split_ifs <;> trivial
      | share =>
        simp only [start]
        split
        · next e he => exact accounts_error (by rw [Schema.bind_eq_error he])
        · next req hreq =>
          unfold Videos.Call.startShare
          cases hid : extract req.url with
          | none => exact accounts_answered rfl (.failed (by decide))
          | some youTubeID => exact accounts_running rfl (.shareLookup ⟨hroute, huser, hreq⟩ hid)
      | ws => exact .read (by decide) ⟨nofun, nofun, by decide⟩
      | unreadCount => exact accounts_unreadCount _ _
      | markSeen => exact accounts_running rfl (.markSeen ⟨hroute, huser⟩)
      | since =>
        simp only [start]
        split_ifs
        · exact accounts_running rfl .replay
        · exact accounts_error (by decide)

/-! ### A call takes a step -/

variable {lower : String → String} {s t : State lower} {env : StepEnv} {c c' : Call}

/-- What a step of a sign-up writes. -/
theorem accounts_signUp {env : Auth.StepEnv} {users users' : Table lower} {req : SignUpRequest}
    {pc pc' : SignUpPc} {ws : List Write}
    (hi : Serves deps r now (.auth (.signUp req pc)) ws)
    (h : Auth.Service.advanceSignUp deps.lib deps.jwt env users req pc = some (users', pc')) :
    Accounts deps r now (Pc.running (.auth (.signUp req pc'))).settle
      (ws ++ (Call.wrote (.auth (.signUp req pc)) (.auth (.signUp req pc'))).toList) := by
  cases hi with
  | signUpLookup hreq =>
    simp only [Auth.Service.advanceSignUp] at h
    obtain ⟨-, rfl⟩ := Prod.mk.inj (Option.some.inj h)
    split_ifs
    · exact accounts_answered rfl (.failed (by decide))
    · split
      · exact accounts_answered rfl (.failed (by decide))
      · split
        · exact accounts_answered rfl (.failed (by decide))
        · next hash hhash => exact accounts_running rfl (.signUpCreate hreq hhash)
  | signUpCreate hreq hhash =>
    simp only [Auth.Service.advanceSignUp] at h
    split_ifs at h
    · obtain ⟨-, rfl⟩ := Prod.mk.inj (Option.some.inj h)
      exact accounts_answered rfl (.failed (by decide))
    · split at h
      · obtain ⟨-, rfl⟩ := Prod.mk.inj (Option.some.inj h)
        exact accounts_answered rfl (.failed (by decide))
      · next users'' row hcreate =>
        obtain ⟨-, rfl⟩ := Prod.mk.inj (Option.some.inj h)
        obtain ⟨-, rfl, -⟩ := Table.create_eq_some hcreate
        exact accounts_running rfl (.signUpSession (.account hreq hhash))
  | @signUpSession _ row hrow =>
    obtain ⟨-, rfl⟩ := Prod.mk.inj (Option.some.inj h)
    unfold Auth.Service.session
    cases hpair : TokenIssuer.issue deps.lib.jwt deps.jwt env.now row.id with
    | none => exact accounts_answered rfl (.unsigned hrow hpair)
    | some pair => exact accounts_answered rfl (.signedUp hrow rfl)

/-- What a step of a share writes. -/
theorem accounts_share {env : Videos.StepEnv} {b b' : Backend} {userID : UUID}
    {req : ShareRequest} {pc pc' : SharePc} {ws : List Write}
    (hi : Serves deps r now (.videos (.share userID req pc)) ws)
    (h : Videos.Call.advanceShare env b userID req pc = some (b', pc')) :
    Accounts deps r now (Pc.running (.videos (.share userID req pc'))).settle
      (ws ++ (Call.wrote (.videos (.share userID req pc))
        (.videos (.share userID req pc'))).toList) := by
  cases hi with
  | shareLookup hreq hid =>
    simp only [Videos.Call.advanceShare] at h
    split at h
    · next e _ =>
      obtain ⟨-, rfl⟩ := Prod.mk.inj (Option.some.inj h)
      exact accounts_answered rfl (.failed (status_shareError e))
    · obtain ⟨-, rfl⟩ := Prod.mk.inj (Option.some.inj h)
      exact accounts_running rfl (.shareLoad hreq hid)
  | shareLoad hreq hid =>
    simp only [Videos.Call.advanceShare] at h
    split at h
    · next e _ =>
      obtain ⟨-, rfl⟩ := Prod.mk.inj (Option.some.inj h)
      exact accounts_answered rfl (.failed (status_shareError e))
    · next sharer hsharer =>
      obtain ⟨-, rfl⟩ := Prod.mk.inj (Option.some.inj h)
      exact accounts_running rfl (.shareCreate hreq hid (loadSharer_eq_ok hsharer).2)
  | shareCreate hreq hid hsharer =>
    simp only [Videos.Call.advanceShare] at h
    split at h
    · next e _ =>
      obtain ⟨-, rfl⟩ := Prod.mk.inj (Option.some.inj h)
      exact accounts_answered rfl (.failed (status_shareError e))
    · next store row hinsert =>
      obtain ⟨-, rfl⟩ := Prod.mk.inj (Option.some.inj h)
      obtain ⟨rfl, -⟩ := insert_eq_ok hinsert
      exact accounts_running rfl (.shareInvalidate (.video hreq hid hsharer))
  | shareInvalidate hrow =>
    obtain ⟨-, rfl⟩ := Prod.mk.inj (Option.some.inj h)
    exact accounts_running rfl (.shareSubmit hrow)
  | shareSubmit hrow =>
    obtain ⟨-, rfl⟩ := Prod.mk.inj (Option.some.inj h)
    exact accounts_answered rfl (.shared hrow)

/-- What a step of `MarkSeen` writes. -/
theorem accounts_markSeen {env : Service.StepEnv} {users users' : Table lower} {userID : UUID}
    {pc pc' : Service.MarkSeenPc} {ws : List Write}
    (hi : Serves deps r now (.notifications (.markSeen userID pc)) ws)
    (h : Service.advanceMarkSeen env users userID pc = some (users', pc')) :
    Accounts deps r now (Pc.running (.notifications (.markSeen userID pc'))).settle
      (ws ++ (Call.wrote (.notifications (.markSeen userID pc))
        (.notifications (.markSeen userID pc'))).toList) := by
  cases hi with
  | markSeen hreq =>
    obtain ⟨-, rfl⟩ := Prod.mk.inj (Option.some.inj h)
    exact accounts_running rfl (.markSeenUpdate hreq)
  | markSeenUpdate hreq =>
    simp only [Service.advanceMarkSeen] at h
    split_ifs at h
    · obtain ⟨-, rfl⟩ := Prod.mk.inj (Option.some.inj h)
      exact accounts_answered rfl (.failed (by decide))
    · split at h
      · obtain ⟨-, rfl⟩ := Prod.mk.inj (Option.some.inj h)
        exact accounts_answered rfl (.failed (by decide))
      · obtain ⟨-, rfl⟩ := Prod.mk.inj (Option.some.inj h)
        exact accounts_answered rfl (.seen (.seen hreq))

/-- The list fails with no status of its own. -/
theorem plain_advanceList {env : Videos.StepEnv} {b b' : Backend} {limit offset : ℤ}
    {pc pc' : ListPc} (h : Videos.Call.advanceList env b limit offset pc = some (b', pc')) :
    ListPc.Plain pc' := by
  rcases pc with _ | _ | _ | _ | _
  · simp only [Videos.Call.advanceList] at h
    split at h <;> obtain ⟨-, rfl⟩ := Prod.mk.inj (Option.some.inj h) <;> trivial
  · obtain ⟨-, rfl⟩ := Prod.mk.inj (Option.some.inj h)
    split_ifs
    · rfl
    · trivial
  · obtain ⟨-, rfl⟩ := Prod.mk.inj (Option.some.inj h)
    split_ifs
    · rfl
    · trivial
    · trivial
  · obtain ⟨-, rfl⟩ := Prod.mk.inj (Option.some.inj h)
    trivial
  · cases h

/-- **The step lemma of a call.**  After a step a request has written what it had
written and what the step wrote. -/
theorem Serves.step {ws : List Write} (hi : Serves deps r now c ws)
    (h : s.advance deps env c = some (t, c')) :
    Accounts deps r now (Pc.running c').settle (ws ++ (c.wrote c').toList) := by
  rcases c with c | c | c | ⟨id, limit⟩
  · obtain ⟨⟨users, c'⟩, hadv, heq⟩ := Option.map_eq_some_iff.1 h
    obtain ⟨-, rfl⟩ := Prod.mk.inj heq
    rcases c with ⟨req, pc⟩ | ⟨req, pc⟩ | ⟨req, at', pc⟩
    · obtain ⟨⟨users, pc'⟩, hstep, heq⟩ := Option.map_eq_some_iff.1 hadv
      obtain ⟨-, rfl⟩ := Prod.mk.inj heq
      exact accounts_signUp hi hstep
    · obtain ⟨⟨users, pc'⟩, hadv, heq⟩ := Option.map_eq_some_iff.1 hadv
      obtain ⟨-, rfl⟩ := Prod.mk.inj heq
      cases hi
      exact accounts_signIn req pc'
    · obtain ⟨⟨users, pc'⟩, hadv, heq⟩ := Option.map_eq_some_iff.1 hadv
      obtain ⟨-, rfl⟩ := Prod.mk.inj heq
      cases hi
      exact accounts_refresh req at' pc'
  · obtain ⟨⟨b, c'⟩, hadv, heq⟩ := Option.map_eq_some_iff.1 h
    obtain ⟨-, rfl⟩ := Prod.mk.inj heq
    rcases c with ⟨userID, req, pc⟩ | ⟨limit, offset, pc⟩
    · obtain ⟨⟨b, pc'⟩, hstep, heq⟩ := Option.map_eq_some_iff.1 hadv
      obtain ⟨-, rfl⟩ := Prod.mk.inj heq
      exact accounts_share hi hstep
    · obtain ⟨⟨b, pc'⟩, hstep, heq⟩ := Option.map_eq_some_iff.1 hadv
      obtain ⟨-, rfl⟩ := Prod.mk.inj heq
      cases hi
      exact accounts_list limit offset (plain_advanceList hstep)
  · rcases c with ⟨userID, pc⟩ | ⟨userID, pc⟩ | pc
    · obtain ⟨⟨users, pc'⟩, hadv, heq⟩ := Option.map_eq_some_iff.1 h
      obtain ⟨-, rfl⟩ := Prod.mk.inj heq
      exact accounts_markSeen hi hadv
    · obtain ⟨pc', hadv, heq⟩ := Option.map_eq_some_iff.1 h
      obtain ⟨-, rfl⟩ := Prod.mk.inj heq
      cases hi
      exact accounts_unreadCount userID pc'
    · cases hi
  · cases h

/-! ### The tables -/

/-- The tables. -/
def State.tables (s : State lower) : List Account × List Video := (s.users.rows, s.videos)

/-- The tables after a step that wrote something, or nothing. -/
def written (w : Option Write) (tables : List Account × List Video) :
    List Account × List Video :=
  match w with
  | none => tables
  | some w => w.apply tables

/-- What a step has written is what its entry makes of the tables. -/
theorem replay_wrote (k : ℕ) (w : Option Write) (tables : List Account × List Video) :
    replay (w.map fun w => (k, w)).toList tables = written w tables := by
  cases w <;> rfl

/-- The step of a sign-up, on the tables. -/
theorem rows_signUp {env : Auth.StepEnv} {users users' : Table lower} {req : SignUpRequest}
    {pc pc' : SignUpPc} {videos : List Video}
    (h : Auth.Service.advanceSignUp deps.lib deps.jwt env users req pc = some (users', pc')) :
    (users'.rows, videos) = written (Call.wrote (.auth (.signUp req pc)) (.auth (.signUp req pc')))
      (users.rows, videos) := by
  rcases Auth.Service.advanceSignUp_cases h with ⟨email, rfl, rfl, -⟩ |
    ⟨user, rfl, ⟨rfl, rfl, -⟩ | ⟨row, hcreate, rfl⟩⟩ | ⟨user, rfl, rfl, rfl⟩
  · rfl
  · rfl
  · exact congrArg (·, videos) (Table.create_eq_some hcreate).2.2
  · rfl

/-- The step of a call of the videos, on the tables. -/
theorem rows_videos {env : Videos.StepEnv} {b b' : Backend} {c c' : Videos.Call}
    {users : List Account} (h : c.advance env b = some (b', c')) :
    (users, b'.store.videos) = written (Call.wrote (.videos c) (.videos c'))
      (users, b.store.videos) := by
  rcases c with ⟨sharerID, req, pc⟩ | ⟨limit, offset, pc⟩
  · obtain ⟨⟨b', pc'⟩, hshare, heq⟩ := Option.map_eq_some_iff.1 h
    obtain ⟨rfl, rfl⟩ := Prod.mk.inj heq
    rcases pc with y | y | v | v | v | result
    · simp only [Videos.Call.advanceShare] at hshare
      split at hshare <;> obtain ⟨rfl, rfl⟩ := Prod.mk.inj (Option.some.inj hshare) <;> rfl
    · simp only [Videos.Call.advanceShare] at hshare
      split at hshare <;> obtain ⟨rfl, rfl⟩ := Prod.mk.inj (Option.some.inj hshare) <;> rfl
    · simp only [Videos.Call.advanceShare] at hshare
      split at hshare
      · obtain ⟨rfl, rfl⟩ := Prod.mk.inj (Option.some.inj hshare)
        rfl
      · next store row hinsert =>
        obtain ⟨rfl, rfl⟩ := Prod.mk.inj (Option.some.inj hshare)
        rw [(insert_eq_ok hinsert).2]
        rfl
    · obtain ⟨rfl, rfl⟩ := Prod.mk.inj (Option.some.inj hshare)
      unfold Videos.Service.invalidate
      split_ifs <;> rfl
    · obtain ⟨rfl, rfl⟩ := Prod.mk.inj (Option.some.inj hshare)
      rfl
    · cases hshare
  · obtain ⟨⟨b', pc'⟩, hlist, heq⟩ := Option.map_eq_some_iff.1 h
    obtain ⟨rfl, rfl⟩ := Prod.mk.inj heq
    rcases pc with - | - | total | resp | result
    · simp only [Videos.Call.advanceList] at hlist
      split at hlist <;> obtain ⟨rfl, rfl⟩ := Prod.mk.inj (Option.some.inj hlist) <;> rfl
    · obtain ⟨rfl, rfl⟩ := Prod.mk.inj (Option.some.inj hlist)
      rfl
    · obtain ⟨rfl, rfl⟩ := Prod.mk.inj (Option.some.inj hlist)
      rfl
    · obtain ⟨rfl, rfl⟩ := Prod.mk.inj (Option.some.inj hlist)
      unfold Videos.Service.cacheSet
      split_ifs <;> rfl
    · cases hlist

/-- The step of a call of `MarkSeen`, on the tables. -/
theorem rows_markSeen {env : Service.StepEnv} {users users' : Table lower} {userID : UUID}
    {pc pc' : Service.MarkSeenPc} {videos : List Video}
    (h : Service.advanceMarkSeen env users userID pc = some (users', pc')) :
    (users'.rows, videos) =
      written (Call.wrote (.notifications (.markSeen userID pc))
        (.notifications (.markSeen userID pc'))) (users.rows, videos) := by
  rcases pc with - | at' | result
  · obtain ⟨rfl, rfl⟩ := Prod.mk.inj (Option.some.inj h)
    rfl
  · simp only [Service.advanceMarkSeen] at h
    split_ifs at h
    · obtain ⟨rfl, rfl⟩ := Prod.mk.inj (Option.some.inj h)
      rfl
    · split at h
      · obtain ⟨rfl, rfl⟩ := Prod.mk.inj (Option.some.inj h)
        rfl
      · next users'' hmark =>
        obtain ⟨rfl, rfl⟩ := Prod.mk.inj (Option.some.inj h)
        obtain ⟨-, hmark⟩ := Option.ite_none_right_eq_some.1 hmark
        rw [← Option.some.inj hmark]
        rfl
  · cases h

/-- **What a step of a call does to the server:** the tables are written as the
step wrote, and of the requests and the journal it knows nothing. -/
theorem advance_spec (h : s.advance deps env c = some (t, c')) :
    t.tables = written (c.wrote c') s.tables ∧ t.exchanges = s.exchanges ∧
      t.journal = s.journal := by
  rcases c with c | c | c | ⟨id, limit⟩
  · obtain ⟨⟨users, c'⟩, hadv, heq⟩ := Option.map_eq_some_iff.1 h
    obtain ⟨rfl, rfl⟩ := Prod.mk.inj heq
    refine ⟨?_, rfl, rfl⟩
    rcases c with ⟨req, pc⟩ | ⟨req, pc⟩ | ⟨req, at', pc⟩
    · obtain ⟨⟨users, pc'⟩, hstep, heq⟩ := Option.map_eq_some_iff.1 hadv
      obtain ⟨rfl, rfl⟩ := Prod.mk.inj heq
      exact rows_signUp hstep
    · obtain ⟨⟨users, pc'⟩, hstep, heq⟩ := Option.map_eq_some_iff.1 hadv
      obtain ⟨rfl, rfl⟩ := Prod.mk.inj heq
      obtain rfl := (Auth.Service.advanceSignIn_cases hstep).1
      rfl
    · obtain ⟨⟨users, pc'⟩, hstep, heq⟩ := Option.map_eq_some_iff.1 hadv
      obtain ⟨rfl, rfl⟩ := Prod.mk.inj heq
      obtain rfl := (Auth.Service.advanceRefresh_cases hstep).1
      rfl
  · obtain ⟨⟨b, c'⟩, hadv, heq⟩ := Option.map_eq_some_iff.1 h
    obtain ⟨rfl, rfl⟩ := Prod.mk.inj heq
    exact ⟨rows_videos hadv, rfl, rfl⟩
  · rcases c with ⟨userID, pc⟩ | ⟨userID, pc⟩ | pc
    · obtain ⟨⟨users, pc'⟩, hadv, heq⟩ := Option.map_eq_some_iff.1 h
      obtain ⟨rfl, rfl⟩ := Prod.mk.inj heq
      exact ⟨rows_markSeen hadv, rfl, rfl⟩
    · obtain ⟨pc', hadv, heq⟩ := Option.map_eq_some_iff.1 h
      obtain ⟨rfl, rfl⟩ := Prod.mk.inj heq
      refine ⟨?_, rfl, rfl⟩
      have hnone : Call.wrote (.notifications (.unreadCount userID pc))
          (.notifications (.unreadCount userID pc')) = none := by
        cases pc <;> rfl
      rw [hnone]
      rfl
    · cases h
  · cases h

/-! ### Runs -/

/-- The invariant: the journal accounts for the tables, and every request for its
entries. -/
structure State.Inv (deps : Deps) (tables : List Account × List Video) (s : State lower) :
    Prop where
  tables : s.tables = replay s.journal tables
  unknown : ∀ k, s.exchanges k = none → writesOf k s.journal = []
  accounts : ∀ k x, s.exchanges k = some x →
    Accounts deps x.request x.now x.pc (writesOf k s.journal)

variable {tables : List Account × List Video}

/-- A request moves on, and with it the tables and the journal. -/
theorem State.Inv.move (hi : s.Inv deps tables) {k : ℕ} {x : Exchange} {w : Option Write}
    (htables : t.tables = written w s.tables) (hexchanges : t.exchanges = s.exchanges)
    (hjournal : t.journal = s.journal)
    (hx : Accounts deps x.request x.now x.pc (writesOf k s.journal ++ w.toList)) :
    State.Inv deps tables { t.setExchange k x with
      journal := t.journal ++ (w.map fun w => (k, w)).toList } := by
  have hwrites : ∀ j, writesOf j (t.journal ++ (w.map fun w => (k, w)).toList) =
      writesOf j s.journal ++ if k = j then w.toList else [] := by
    intro j
    rw [writesOf_append, writesOf_wrote, hjournal]
  refine ⟨?_, fun j hj => ?_, fun j y hy => ?_⟩
  · show t.tables = replay (t.journal ++ _) tables
    rw [replay_append, replay_wrote, hjournal, ← hi.tables, htables]
  · obtain ⟨hjk, hj⟩ : j ≠ k ∧ s.exchanges j = none := by
      change Function.update t.exchanges k (some x) j = none at hj
      rcases eq_or_ne j k with rfl | hjk
      · rw [Function.update_self] at hj
        cases hj
      · rw [Function.update_of_ne hjk, hexchanges] at hj
        exact ⟨hjk, hj⟩
    rw [hwrites, if_neg hjk.symm, List.append_nil]
    exact hi.unknown j hj
  · change Function.update t.exchanges k (some x) j = some y at hy
    rw [hwrites]
    rcases Lib.update_eq_some hy with ⟨rfl, rfl⟩ | ⟨hjk, hy⟩
    · rw [if_pos rfl]
      exact hx
    · rw [if_neg hjk.symm, List.append_nil]
      exact hi.accounts j y (hexchanges ▸ hy)

/-- A request comes in or moves on, and nothing is written. -/
theorem State.Inv.setExchange (hi : s.Inv deps tables) {k : ℕ} {x : Exchange}
    (hx : Accounts deps x.request x.now x.pc (writesOf k s.journal)) :
    (s.setExchange k x).Inv deps tables := by
  have hx' : Accounts deps x.request x.now x.pc
      (writesOf k s.journal ++ (none : Option Write).toList) := by
    rw [Option.toList_none, List.append_nil]
    exact hx
  have hmove := hi.move (t := s) rfl rfl rfl hx'
  rw [Option.map_none, Option.toList_none, List.append_nil] at hmove
  exact hmove

/-- **The step lemma.** -/
theorem State.Inv.step (hi : s.Inv deps tables) {l : State.Label} (h : s.step deps l = some t) :
    t.Inv deps tables := by
  cases l with
  | receive k now r =>
    simp only [State.step] at h
    split at h
    · next hk =>
      obtain rfl := Option.some.inj h
      refine hi.setExchange ?_
      rw [hi.unknown k hk]
      exact accounts_receive deps r now
    · cases h
  | step k env =>
    simp only [State.step] at h
    split at h
    · next r now c hk =>
      have hserves : Serves deps r now c (writesOf k s.journal) := hi.accounts k _ hk
      unfold State.stepCall at h
      split at h
      · -- `Replay` has returned
        obtain rfl := Option.some.inj h
        refine hi.setExchange ?_
        cases hws : writesOf k s.journal with
        | cons w ws =>
          rw [hws] at hserves
          cases hserves
        | nil =>
          cases env.events with
          | none => exact Answers.failed (by decide)
          | some events => exact answers_ok nofun nofun
      · obtain ⟨⟨u, c'⟩, hadv, rfl⟩ := Option.map_eq_some_iff.1 h
        obtain ⟨htables, hexchanges, hjournal⟩ := advance_spec hadv
        exact hi.move htables hexchanges hjournal (hserves.step hadv)
    · cases h
  | panic k =>
    simp only [State.step] at h
    split at h
    · next r now userID req row hk =>
      have hserves : Serves deps r now (.videos (.share userID req (.submit row)))
          (writesOf k s.journal) := hi.accounts k _ hk
      obtain rfl := Option.some.inj h
      refine hi.setExchange ?_
      generalize writesOf k s.journal = ws at hserves
      cases hserves with
      | shareSubmit hrow => exact Answers.panicked hrow
    · cases h
  | expire =>
    obtain rfl := Option.some.inj h
    exact ⟨hi.tables, hi.unknown, hi.accounts⟩

/-- **Everything stored is explained:** the tables are the ones at the start and
what the journal says; each entry was permitted to its request; no request has
two; and an answer tells what its request has written. -/
structure State.Explained (deps : Deps) (start s : State lower) : Prop where
  tables : s.tables = replay s.journal start.tables
  permitted : ∀ k w, (k, w) ∈ s.journal →
    ∃ x, s.exchanges k = some x ∧ Permitted deps x.request x.now w
  once : (s.journal.map Prod.fst).Nodup
  told : ∀ k x a, s.exchanges k = some x → x.pc = .answered a →
    Answers deps x.request x.now a (writesOf k s.journal)

/-- The entries of a request, counted. -/
theorem count_writesOf (k : ℕ) (journal : List (ℕ × Write)) :
    (journal.map Prod.fst).count k = (writesOf k journal).length := by
  induction journal with
  | nil => rfl
  | cons p journal ih =>
    rw [List.map_cons, List.count_cons, ih]
    rcases eq_or_ne p.1 k with hk | hk
    · have hcons : writesOf k (p :: journal) = p.2 :: writesOf k journal :=
        List.filterMap_cons_some (if_pos hk)
      rw [if_pos (beq_iff_eq.2 hk), hcons, List.length_cons]
    · have hcons : writesOf k (p :: journal) = writesOf k journal :=
        List.filterMap_cons_none (if_neg hk)
      rw [if_neg fun h => hk (beq_iff_eq.1 h), hcons, Nat.add_zero]

/-- What the invariant says of the journal explains everything that is stored. -/
theorem State.Inv.explained {start : State lower} (hi : s.Inv deps start.tables) :
    State.Explained deps start s := by
  have hpermitted : ∀ k, (writesOf k s.journal).length ≤ 1 ∧ ∀ w ∈ writesOf k s.journal,
      ∃ x, s.exchanges k = some x ∧ Permitted deps x.request x.now w := by
    intro k
    cases hk : s.exchanges k with
    | none =>
      rw [hi.unknown k hk]
      exact ⟨Nat.zero_le 1, fun w hw => absurd hw List.not_mem_nil⟩
    | some x =>
      obtain ⟨hlength, hall⟩ := (hi.accounts k x hk).permitted
      exact ⟨hlength, fun w hw => ⟨x, rfl, hall w hw⟩⟩
  constructor
  · exact hi.tables
  · exact fun k w hw => (hpermitted k).2 w (mem_writesOf.2 hw)
  · refine List.nodup_iff_count_le_one.2 fun k => ?_
    rw [count_writesOf]
    exact (hpermitted k).1
  · intro k x a hk ha
    have haccounts := hi.accounts k x hk
    rw [ha] at haccounts
    exact haccounts

/-- **Nothing is stored without leave.**  In every run of the API, whatever comes
in and whatever fails, everything stored is explained. -/
theorem nothing_stored_without_leave (deps : Deps) (users : Table lower) (videos : List Video)
    (cache : Option ListResponse) (run : List State.Label) :
    (api deps lower).Always (State.Explained deps (.fresh users videos cache))
      (.fresh users videos cache) run :=
  (Lib.Machine.always_of_invariant (I := State.Inv deps (users.rows, videos))
    (fun _ _ _ hi h => hi.step h) ⟨rfl, fun _ _ => rfl, fun _ _ h => by cases h⟩ run).mono
      fun _ hi => hi.explained

end Api
end YtShare
