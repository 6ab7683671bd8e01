/-
# Reconnecting with an expired token

`connect` takes the access token of its closure, and nothing in the loop of `onclose`
and `setTimeout` renews it.  The way out is the interceptor of `httpClient`, which
renews the tokens when a request of the store's session is refused; `recoverViaHttp`
sends such a request after a socket that did not open.  But it returns at once while
there is no cursor, and then the loop goes on with the expired token for good.

A token is dead (`DeadToken`) when the last connection was made with it, expired as it
was, and no authenticated request followed, while the store held a session that could
have been renewed.  The loop spins (`Spins`) when a connection is made with a dead
token.  It never does in a run whose sockets close with a cursor when their token is dead
and whose effects are not run again with one (`never_spins`); and each step that fails
to meet this leads to a connection with the dead token (`spins_of_not_renews`).
-/

import YtShare.Frontend.OneSocket
import YtShare.Middleware.Auth

namespace YtShare
namespace Frontend

open Lib Auth

namespace SocketHook

variable (jwt : JWT) (cfg : JWTConfig)

/-! ### Tokens -/

/-- The token of a connection, as the authenticator reads it. -/
def wsToken (accessToken : String) : String := (Middleware.Request.mk "" accessToken).token

/-- The server lets a connection with this token through. -/
def authenticates (t : Time) (accessToken : String) : Bool :=
  (Middleware.authenticator jwt cfg t ⟨"", accessToken⟩).isOk

/-- The token says that it has expired. -/
def Expired (t : Time) (accessToken : String) : Prop :=
  ∃ input tag alg claims, jwt.parse (wsToken accessToken) = some (input, tag) ∧
    jwt.decode input = some (alg, claims) ∧ ∃ e ∈ claims.expiresAt, e.time.ns ≤ t.ns

/-- The store holds a session whose refresh token is valid. -/
def Renewable (t : Time) (store : Option AuthSession) : Prop :=
  ∃ session, store = some session ∧
    ∃ claims, TokenIssuer.verifyRefresh jwt cfg t session.refreshToken = .ok claims

/-- The last connection was made with this token, which had expired by then; no
authenticated request followed it; and the sessions in the store since then could be
renewed all the time up to `t`. -/
def DeadToken (trace : List Entry) (t : Time) (accessToken : String) : Prop :=
  ∃ between a before, trace = between ++ .attempt a :: before ∧
    (∀ c, .attempt c ∉ between) ∧ (∀ token, .request (some token) ∉ between) ∧
    a.accessToken = accessToken ∧ Expired jwt a.instant accessToken ∧
    ∀ store, store = a.store ∨ .store store ∈ between →
      Renewable jwt cfg a.instant store ∧ Renewable jwt cfg t store

/-- Some connection was made with a dead token. -/
def Spins (trace : List Entry) : Prop :=
  ∃ after b before, trace = after ++ .attempt b :: before ∧
    DeadToken jwt cfg before b.instant b.accessToken

/-- The condition on the steps: a socket that did not open closes, if its token is dead,
while there are a cursor and an access token for the request; and the effect is not run
with a dead token. -/
def Renews (s : SocketHook) : Label → Prop
  | .closed i =>
      (s.effects (s.sockets i).effect).cancelled = false → (s.sockets i).opened = false →
        DeadToken jwt cfg s.trace s.now (s.socketToken i) →
          (s.seen (s.effects (s.sockets i).effect).mount).lastEventId ≠ "" ∧ s.accessToken ≠ none
  | .mount (some session) | .rerun (some session) =>
      ¬DeadToken jwt cfg s.trace s.now session.accessToken
  | _ => True

variable {jwt cfg} {s t : SocketHook} {e i j : ℕ} {trace : List Entry} {token : String}

/-- A token that has expired stays so. -/
theorem Expired.mono {t u : Time} (h : Expired jwt t token) (htu : t.ns ≤ u.ns) :
    Expired jwt u token := by
  obtain ⟨input, tag, alg, claims, hparse, hdecode, e, he, hle⟩ := h
  exact ⟨input, tag, alg, claims, hparse, hdecode, e, he, hle.trans htu⟩

/-- An expired token is refused. -/
theorem Expired.not_authenticates {t : Time} (h : Expired jwt t token) :
    authenticates jwt cfg t token = false := by
  obtain ⟨input, tag, alg, claims, hparse, hdecode, e, he, hle⟩ := h
  unfold authenticates
  cases hok : Middleware.authenticator jwt cfg t ⟨"", token⟩ with
  | error err => rfl
  | ok user =>
    obtain ⟨c, hc, -⟩ := Middleware.authenticator_eq_ok hok
    obtain ⟨input', alg', hparse', hdecode', hvalid, -⟩ := TokenIssuer.verify_eq_ok hc
    obtain rfl := TokenIssuer.claims_unique hparse hdecode hparse' hdecode'
    exact absurd (hvalid.1 e he) (not_lt.2 hle)

/-- A verified token is verified whenever its claims are valid. -/
theorem verify_of_valid {t u : Time} {want : TokenKind} {secret : String} {c : Claims}
    (h : TokenIssuer.verify jwt t token want secret = .ok c) (hvalid : c.Valid u) :
    TokenIssuer.verify jwt u token want secret = .ok c := by
  obtain ⟨input, alg, hparse, hdecode, hmac, -, hkind⟩ := TokenIssuer.verify_eq_ok_iff.1 h
  exact TokenIssuer.verify_eq_ok_iff.2 ⟨input, alg, hparse, hdecode, hmac, hvalid, hkind⟩

/-- A refresh token that is valid at two instants is valid in between. -/
theorem Renewable.between {t u v : Time} {store : Option AuthSession}
    (ht : Renewable jwt cfg t store) (hv : Renewable jwt cfg v store) (htu : t.ns ≤ u.ns)
    (huv : u.ns ≤ v.ns) : Renewable jwt cfg u store := by
  obtain ⟨session, rfl, c, hc⟩ := ht
  obtain ⟨session', heq, c', hc'⟩ := hv
  obtain rfl := Option.some.inj heq
  obtain ⟨input, alg, hparse, hdecode, hvalid, -⟩ := TokenIssuer.verify_eq_ok hc
  obtain ⟨input', alg', hparse', hdecode', hvalid', -⟩ := TokenIssuer.verify_eq_ok hc'
  obtain rfl := TokenIssuer.claims_unique hparse hdecode hparse' hdecode'
  refine ⟨session, rfl, c, verify_of_valid hc ⟨fun e he => ?_, fun n hn => ?_⟩⟩
  · exact huv.trans_lt (hvalid'.1 e he)
  · exact (hvalid.2 n hn).trans htu

/-! ### The record -/

/-- The newest connection. -/
def lastAttempt : List Entry → Option Attempt
  | [] => none
  | .attempt a :: _ => some a
  | _ :: trace => lastAttempt trace

/-- The last connection, where none comes after it. -/
theorem lastAttempt_append {between before : List Entry} {a : Attempt}
    (h : ∀ c, .attempt c ∉ between) : lastAttempt (between ++ .attempt a :: before) = some a := by
  induction between with
  | nil => rfl
  | cons x between ih =>
    obtain ⟨hx, hbetween⟩ := forall_and.1 fun c => not_or.1 (List.mem_cons.not.1 (h c))
    cases x with
    | attempt c => exact absurd rfl (hx c)
    | request _ => exact ih hbetween
    | store _ => exact ih hbetween

/-- A dead token is that of the newest connection, and had expired then. -/
theorem DeadToken.lastAttempt {t : Time} (h : DeadToken jwt cfg trace t token) :
    ∃ a, lastAttempt trace = some a ∧ a.accessToken = token ∧ Expired jwt a.instant token := by
  obtain ⟨between, a, before, rfl, hattempt, -, htoken, hexpired, -⟩ := h
  exact ⟨a, lastAttempt_append hattempt, htoken, hexpired⟩

/-- Without a connection no token is dead. -/
theorem not_deadToken_nil {t : Time} : ¬DeadToken jwt cfg [] t token := by
  rintro ⟨between, a, before, hnil, -⟩
  exact List.append_ne_nil_of_right_ne_nil _ (List.cons_ne_nil _ _) hnil.symm

/-- **A token that is dead now** was dead before the newest entry, which is no
authenticated request. -/
theorem DeadToken.tail {t : Time} {x : Entry} (h : DeadToken jwt cfg (x :: trace) t token)
    (hx : ∀ a, x ≠ .attempt a) :
    DeadToken jwt cfg trace t token ∧ ∀ token, x ≠ .request (some token) := by
  obtain ⟨between, a, before, heq, hattempt, hrequest, htoken, hexpired, hstore⟩ := h
  cases between with
  | nil => exact absurd (List.cons.inj heq).1 (hx a)
  | cons y between =>
    obtain ⟨rfl, rfl⟩ := List.cons.inj heq
    refine ⟨⟨between, a, before, rfl, fun c hc => hattempt c (List.mem_cons_of_mem _ hc),
      fun u hu => hrequest u (List.mem_cons_of_mem _ hu), htoken, hexpired,
      fun store hs => hstore store (hs.imp_right (List.mem_cons_of_mem _))⟩, fun u hu => ?_⟩
    exact hrequest u (hu ▸ List.mem_cons_self)

/-- A request without a token changes nothing. -/
theorem DeadToken.cons_request {t : Time} (h : DeadToken jwt cfg trace t token) :
    DeadToken jwt cfg (.request none :: trace) t token := by
  obtain ⟨between, a, before, rfl, hattempt, hrequest, htoken, hexpired, hstore⟩ := h
  refine ⟨.request none :: between, a, before, rfl, fun c hc => ?_, fun u hu => ?_, htoken,
    hexpired, fun store hs => hstore store (hs.imp_right fun hs => ?_)⟩
  · exact hattempt c ((List.mem_cons.1 hc).resolve_left nofun)
  · exact hrequest u ((List.mem_cons.1 hu).resolve_left nofun)
  · exact (List.mem_cons.1 hs).resolve_left nofun

/-- A token that will be dead is dead since the connection was made with it. -/
theorem DeadToken.anti {t u : Time} (h : DeadToken jwt cfg trace u token)
    (hold : ∀ a, .attempt a ∈ trace → a.instant.ns ≤ t.ns) (htu : t.ns ≤ u.ns) :
    DeadToken jwt cfg trace t token := by
  obtain ⟨between, a, before, rfl, hattempt, hrequest, htoken, hexpired, hstore⟩ := h
  refine ⟨between, a, before, rfl, hattempt, hrequest, htoken, hexpired, fun store hs => ?_⟩
  obtain ⟨ha, hu⟩ := hstore store hs
  exact ⟨ha, ha.between hu (hold a (List.mem_append_right _ List.mem_cons_self)) htu⟩

/-- And nothing has spun. -/
theorem not_spins_nil : ¬Spins jwt cfg [] := by
  rintro ⟨after, b, before, hnil, -⟩
  exact List.append_ne_nil_of_right_ne_nil _ (List.cons_ne_nil _ _) hnil.symm

/-- A longer trace has spun if the new connection was made with a dead token, or if it
had before. -/
theorem spins_cons {x : Entry} : Spins jwt cfg (x :: trace) ↔
    (∃ b, x = .attempt b ∧ DeadToken jwt cfg trace b.instant b.accessToken) ∨
      Spins jwt cfg trace := by
  constructor
  · rintro ⟨after, b, before, heq, hdead⟩
    cases after with
    | nil =>
      obtain ⟨rfl, rfl⟩ := List.cons.inj heq
      exact .inl ⟨b, rfl, hdead⟩
    | cons y after =>
      obtain ⟨rfl, rfl⟩ := List.cons.inj heq
      exact .inr ⟨after, b, before, rfl, hdead⟩
  · rintro (⟨b, rfl, hdead⟩ | ⟨after, b, before, rfl, hdead⟩)
    · exact ⟨[], b, trace, rfl, hdead⟩
    · exact ⟨x :: after, b, before, rfl, hdead⟩

/-! ### The invariant -/

variable (jwt cfg) in
/-- The invariant: a live socket is the newest connection, a socket that opened had a
token that had not expired, and no timer waits to connect with a dead token. -/
structure Recorded (s : SocketHook) : Prop where
  wired : s.Wired
  instant : ∀ a, .attempt a ∈ s.trace → a.instant.ns ≤ s.now.ns
  opened : ∀ i < s.socketCount, (s.sockets i).opened = true →
    ¬Expired jwt (s.sockets i).created (s.socketToken i)
  live : ∀ i, s.Live i → ∃ store, lastAttempt s.trace =
    some ⟨s.socketToken i, (s.sockets i).created, store⟩
  timer : ∀ j, s.Pending j → ¬DeadToken jwt cfg s.trace s.now (s.effectToken (s.timers j).effect)
  spins : ¬Spins jwt cfg s.trace

/-- A page as it is loaded has nothing on record. -/
theorem recorded_load (now : Time) (store : Option AuthSession) (stored : Option String) :
    (load now store stored).Recorded jwt cfg where
  wired := wired_load now store stored
  instant _ ha := absurd ha List.not_mem_nil
  opened i hi := absurd hi (Nat.not_lt_zero i)
  live i hi := absurd hi.1 (Nat.not_lt_zero i)
  timer j hj := absurd hj.1 (Nat.not_lt_zero j)
  spins := not_spins_nil

/-- Where nothing runs, only the record is to be told. -/
theorem Recorded.of_quiet (hq : s.Quiet) (hw : s.Wired)
    (instant : ∀ a, .attempt a ∈ s.trace → a.instant.ns ≤ s.now.ns)
    (opened : ∀ i < s.socketCount, (s.sockets i).opened = true →
      ¬Expired jwt (s.sockets i).created (s.socketToken i))
    (spins : ¬Spins jwt cfg s.trace) : s.Recorded jwt cfg where
  wired := hw
  instant := instant
  opened := opened
  live i hi := absurd hi (hq.socket i)
  timer j hj := absurd hj (hq.timer j)
  spins := spins

/-- Time passes, and events come in. -/
theorem Recorded.frame (hs : s.Recorded jwt cfg) {now : Time} (hnow : s.now.ns ≤ now.ns)
    (stored : Option String) (seen : ℕ → SeenEvents) (recoveries : List ℕ) :
    Recorded jwt cfg { s with
      now := now
      stored := stored
      seen := seen
      recoveries := recoveries } where
  wired := hs.wired.frame ..
  instant a ha := (hs.instant a ha).trans hnow
  opened := hs.opened
  live := hs.live
  timer j hj hdead := hs.timer j hj (hdead.anti hs.instant hnow)
  spins := hs.spins

/-- A request is recorded, or a change of the store. -/
theorem Recorded.record (hs : s.Recorded jwt cfg) {x : Entry} (hx : ∀ a, x ≠ .attempt a)
    (store : Option AuthSession) (recoveries : List ℕ) :
    Recorded jwt cfg { s with
      store := store
      recoveries := recoveries
      trace := x :: s.trace } where
  wired := hs.wired.frame ..
  instant a ha := hs.instant a ((List.mem_cons.1 ha).resolve_left (hx a).symm)
  opened := hs.opened
  live i hi := by
    obtain ⟨store', hlast⟩ := hs.live i hi
    refine ⟨store', Eq.trans ?_ hlast⟩
    cases x with
    | attempt a => exact absurd rfl (hx a)
    | request _ => rfl
    | store _ => rfl
  timer j hj hdead := hs.timer j hj (hdead.tail hx).1
  spins h := (spins_cons.1 h).elim (fun ⟨b, hb, _⟩ => hx b hb) hs.spins

/-- **A connection is made with a token that is not dead.** -/
theorem Recorded.connect (hs : s.Recorded jwt cfg) (hq : s.Quiet) (he : e < s.effectCount)
    (hdead : ¬DeadToken jwt cfg s.trace s.now (s.effectToken e)) :
    (s.connect e).Recorded jwt cfg := by
  have hw := hs.wired.connect hq he
  have hlive : ∀ i, (s.connect e).Live i → s.socketCount < (s.connect e).socketCount →
      i = s.socketCount := fun i hi hlt => hw.socket_eq hi (connect_live le_rfl hlt)
  unfold SocketHook.connect at hw hlive ⊢
  split_ifs at hw hlive ⊢ with hcancelled
  · exact hs
  · refine ⟨hw, fun a ha => ?_, fun i hi hopen => ?_, fun i hi => ?_,
      fun j hj => absurd hj (hq.timer j), fun h => ?_⟩
    · rcases List.mem_cons.1 ha with heq | ha
      · obtain rfl := Entry.attempt.inj heq
        exact le_rfl
      · exact hs.instant a ha
    · rcases eq_or_ne i s.socketCount with rfl | hne
      · simp at hopen
      · simp only [socketToken, effectToken, Function.update_of_ne hne] at hopen ⊢
        have hlt : i < s.socketCount + 1 := hi
        exact hs.opened i (by omega) hopen
    · obtain rfl := hlive i hi (Nat.lt_succ_self _)
      exact ⟨s.store, by simp [lastAttempt, socketToken, effectToken]⟩
    · rcases spins_cons.1 h with ⟨b, hb, h⟩ | h
      · obtain rfl := Entry.attempt.inj hb
        exact hdead h
      · exact hs.spins h

/-- **The effect runs with a token that is not dead.** -/
theorem Recorded.runEffect (hs : s.Recorded jwt cfg) (hq : s.Quiet) (hc : s.current = none)
    (hm : s.mounted = true) {session : Option AuthSession}
    (hdead : ∀ σ, session = some σ → ¬DeadToken jwt cfg s.trace s.now σ.accessToken) :
    (s.runEffect session).Recorded jwt cfg := by
  cases session with
  | none => exact hs
  | some session =>
    refine connect (.of_quiet ⟨hq.socket, hq.timer⟩ (hs.wired.addEffect hq hc hm session)
      hs.instant (fun i hi hopen => ?_) hs.spins) ⟨hq.socket, hq.timer⟩ (Nat.lt_succ_self _) ?_
    · have hne : (s.sockets i).effect ≠ s.effectCount := (hs.wired.owner i hi).ne
      simpa only [socketToken, effectToken, Function.update_of_ne hne] using hs.opened i hi hopen
    · simpa [effectToken] using hdead session rfl

/-- What a cleanup keeps. -/
theorem Recorded.cleanup (hs : s.Recorded jwt cfg) : s.cleanup.Recorded jwt cfg := by
  obtain ⟨hw, hq, -⟩ := cleanup_spec hs.wired
  refine .of_quiet hq hw ?_ ?_ ?_
  all_goals
    obtain ⟨effects, sockets, timers, socketRef, heq, heffects, hsockets, -⟩ := cleanup_eq s
    rw [heq]
  · exact hs.instant
  · intro i hi hopen
    obtain ⟨closing, hsocket, -⟩ := hsockets i
    obtain ⟨cancelled, heffect, -⟩ := heffects (s.sockets i).effect
    simp only [socketToken, effectToken, hsocket, heffect] at hopen ⊢
    exact hs.opened i hi hopen
  · exact hs.spins

/-- A socket opens whose token has not expired, or one reports its close. -/
theorem Recorded.event (hs : s.Recorded jwt cfg) (i : ℕ) (opened reported : Bool)
    (hr : (s.sockets i).reported = true → reported = true)
    (ho : opened = true →
      ¬Expired jwt (s.sockets i).created (s.socketToken i)) :
    Recorded jwt cfg { s with
      sockets := Function.update s.sockets i
        { s.sockets i with opened := opened, reported := reported } } := by
  obtain ⟨hw, hlive⟩ := hs.wired.event i opened reported hr
  refine ⟨hw, hs.instant, fun k hk hopen => ?_, fun k hk => ?_, hs.timer, hs.spins⟩
  · rcases eq_or_ne k i with rfl | hne
    · simp only [socketToken, effectToken, Function.update_self] at hopen ⊢
      exact ho hopen
    · simp only [socketToken, effectToken, Function.update_of_ne hne] at hopen ⊢
      exact hs.opened k hk hopen
  · obtain ⟨store, hlast⟩ := hs.live k (hlive k hk).1
    refine ⟨store, hlast.trans ?_⟩
    rcases eq_or_ne k i with rfl | hne
    · simp [socketToken, effectToken]
    · simp [socketToken, effectToken, hne]

/-- **A timer is set for a token that is not dead.** -/
theorem Recorded.setTimeout (hs : s.Recorded jwt cfg) (hq : s.Quiet) (hc : s.current = some e)
    (hdead : ¬DeadToken jwt cfg s.trace s.now (s.effectToken e)) :
    (s.setTimeout e).Recorded jwt cfg := by
  have hw := hs.wired.setTimeout hq hc
  have hnew : (s.setTimeout e).Pending s.timerCount :=
    ⟨Nat.lt_succ_self _, by simp [SocketHook.setTimeout]⟩
  refine ⟨hw, hs.instant, hs.opened, fun i hi => absurd hi (hq.socket i), fun j hj => ?_, hs.spins⟩
  obtain rfl := hw.timer_eq hj hnew
  simpa [SocketHook.setTimeout, effectToken] using hdead

/-- **A socket reports its close** in a step that meets the condition. -/
theorem Recorded.onclose (hs : s.Recorded jwt cfg) (hi : i < s.socketCount)
    (hr : (s.sockets i).reported = false) (hrenews : Renews jwt cfg s (.closed i)) :
    (s.onclose i).Recorded jwt cfg := by
  have hreport : Recorded jwt cfg { s with
      sockets := Function.update s.sockets i { s.sockets i with reported := true } } :=
    hs.event i (s.sockets i).opened true (fun _ => rfl) (hs.opened i hi)
  unfold SocketHook.onclose recoverViaHttp
  simp only [Function.update_self]
  split_ifs with hcancelled hopened hcursor
  · exact hreport
  all_goals
    have hgoes := Bool.eq_false_iff.2 hcancelled
    obtain ⟨hlive, hq⟩ := hs.wired.quiet_report hi hr hgoes
    have hc := (hs.wired.socket i hlive).2
  · refine hreport.setTimeout hq hc fun hdead => ?_
    obtain ⟨a, ha, htoken, hexpired⟩ := hdead.lastAttempt
    obtain ⟨store, hlast⟩ := hs.live i hlive
    obtain rfl := Option.some.inj (ha.symm.trans hlast)
    exact hs.opened i hi hopened hexpired
  · refine hreport.setTimeout hq hc fun hdead => ?_
    exact (hrenews hgoes (Bool.eq_false_iff.2 hopened) hdead).1 hcursor
  · refine (hreport.record (by nofun) _ _).setTimeout ⟨hq.socket, hq.timer⟩ hc fun hdead => ?_
    obtain ⟨hdead, hsent⟩ := hdead.tail (by nofun)
    have htoken := (hrenews hgoes (Bool.eq_false_iff.2 hopened) hdead).2
    obtain ⟨u, hu⟩ := Option.ne_none_iff_exists'.1 htoken
    exact hsent u (congrArg Entry.request hu)

/-! ### Every run -/

/-- **The step lemma.** -/
theorem Recorded.step {l : Label} (hs : s.Recorded jwt cfg) (hrenews : Renews jwt cfg s l)
    (h : s.step (authenticates jwt cfg) l = some t) : t.Recorded jwt cfg := by
  cases l with
  | tick d =>
    obtain rfl := Option.some.inj h
    exact hs.frame (by simp) _ _ _
  | set session =>
    obtain rfl := Option.some.inj h
    exact hs.record (by nofun) _ _
  | mount session =>
    obtain ⟨hm, h⟩ := Option.ite_none_left_eq_some.1 h
    obtain rfl := Option.some.inj h
    obtain ⟨hw, hq, hc⟩ := hs.wired.mount (Bool.eq_false_iff.2 hm)
    refine runEffect (.of_quiet hq hw hs.instant hs.opened hs.spins) hq hc rfl fun σ hσ => ?_
    subst hσ
    exact hrenews
  | rerun session =>
    obtain ⟨hm, h⟩ := Option.ite_none_right_eq_some.1 h
    obtain rfl := Option.some.inj h
    obtain ⟨-, hq, hc, hmounted⟩ := cleanup_spec hs.wired
    refine hs.cleanup.runEffect hq hc (hmounted.trans hm) fun σ hσ => ?_
    subst hσ
    obtain ⟨effects, sockets, timers, socketRef, heq, -⟩ := cleanup_eq s
    rw [heq]
    exact hrenews
  | unmount =>
    have hw := hs.wired.step h
    obtain ⟨-, h⟩ := Option.ite_none_right_eq_some.1 h
    obtain rfl := Option.some.inj h
    have hc := hs.cleanup
    exact ⟨hw, hc.instant, hc.opened, hc.live, hc.timer, hc.spins⟩
  | opened i t =>
    obtain ⟨⟨hi, -, -, hcreated, -, haccepts⟩, h⟩ := Option.ite_none_right_eq_some.1 h
    obtain rfl := Option.some.inj h
    refine hs.event i true (s.sockets i).reported id fun _ hexpired => ?_
    exact Bool.false_ne_true ((hexpired.mono hcreated).not_authenticates.symm.trans haccepts)
  | error i =>
    obtain ⟨-, h⟩ := Option.ite_none_right_eq_some.1 h
    obtain rfl := Option.some.inj h
    exact hs
  | message i id writes =>
    obtain ⟨-, h⟩ := Option.ite_none_right_eq_some.1 h
    obtain rfl := Option.some.inj h
    exact hs.frame le_rfl _ _ _
  | closed i =>
    obtain ⟨⟨hi, hr⟩, h⟩ := Option.ite_none_right_eq_some.1 h
    obtain rfl := Option.some.inj h
    exact hs.onclose hi hr hrenews
  | fire j =>
    obtain ⟨hj, h⟩ := Option.ite_none_right_eq_some.1 h
    obtain rfl := Option.some.inj h
    obtain ⟨hw, hq⟩ := hs.wired.fire hj
    exact connect (.of_quiet hq hw hs.instant hs.opened hs.spins) hq
      ((hs.wired.current _).1 (hs.wired.timer j hj).2).1 (hs.timer j hj)
  | recovered m events =>
    obtain ⟨-, h⟩ := Option.ite_none_right_eq_some.1 h
    obtain rfl := Option.some.inj h
    obtain ⟨seen, stored, heq⟩ := handleEvents_eq m (events.getD [])
      { s with recoveries := s.recoveries.erase m }
    rw [heq]
    exact hs.frame le_rfl _ _ _
  | request =>
    obtain rfl := Option.some.inj h
    exact hs.record (by nofun) _ _

/-- **The loop does not spin** in a run whose sockets close with a cursor when their
token is dead, and whose effects are not run with a dead token. -/
theorem never_spins (jwt : JWT) (cfg : JWTConfig) (now : Time) (store : Option AuthSession)
    (stored : Option String) (run : List Label)
    (h : (socketHook (authenticates jwt cfg)).Steps (Renews jwt cfg) (load now store stored) run) :
    (socketHook (authenticates jwt cfg)).Always (fun s => ¬Spins jwt cfg s.trace)
      (load now store stored) run := by
  have hrecorded : (socketHook (authenticates jwt cfg)).Always (Recorded jwt cfg)
      (load now store stored) run :=
    Machine.always_of_steps (fun _ _ _ hs hl h => hs.step hl h) (recorded_load now store stored) h
  exact hrecorded.mono fun s hs => hs.spins

/-- A connection with a dead token. -/
theorem spins_connect (hcancelled : (s.effects e).cancelled = false)
    (hdead : DeadToken jwt cfg s.trace s.now (s.effectToken e)) :
    Spins jwt cfg (s.connect e).trace := by
  rw [SocketHook.connect, if_neg (by rw [hcancelled]; exact Bool.false_ne_true)]
  exact spins_cons.2 (.inl ⟨_, rfl, hdead⟩)

/-- **An effect that runs with a dead token** connects with it. -/
theorem spins_runEffect {session : AuthSession}
    (hdead : DeadToken jwt cfg s.trace s.now session.accessToken) :
    Spins jwt cfg (s.runEffect (some session)).trace :=
  spins_connect (by simp) (by simpa [effectToken] using hdead)

/-- A timer for a dead token fires. -/
theorem spins_fire (hcancelled : (s.effects e).cancelled = false)
    (hdead : DeadToken jwt cfg s.trace s.now (s.effectToken e)) :
    ∃ rest u, (socketHook (authenticates jwt cfg)).exec (s.setTimeout e) rest = some u ∧
      Spins jwt cfg u.trace := by
  have htimer : (s.setTimeout e).timers s.timerCount = ⟨e, true⟩ := Function.update_self _ _ _
  obtain ⟨u, hu, hspins⟩ : ∃ u, (s.setTimeout e).step (authenticates jwt cfg)
      (.fire s.timerCount) = some u ∧ Spins jwt cfg u.trace := by
    refine ⟨_, if_pos ⟨Nat.lt_succ_self _, by rw [htimer]⟩, ?_⟩
    rw [htimer]
    exact spins_connect hcancelled hdead
  refine ⟨[.fire s.timerCount], u, ?_, hspins⟩
  rw [Machine.exec_cons]
  exact congrArg (Option.bind · _) hu

/-- **The condition is exact**: a step that does not meet it leads to a connection with
a dead token, at once or when the next timer fires. -/
theorem spins_of_not_renews {l : Label} (h : s.step (authenticates jwt cfg) l = some t)
    (hnot : ¬Renews jwt cfg s l) :
    ∃ rest u, (socketHook (authenticates jwt cfg)).exec t rest = some u ∧
      Spins jwt cfg u.trace := by
  cases l with
  | closed i =>
    obtain ⟨-, h⟩ := Option.ite_none_right_eq_some.1 h
    obtain rfl := Option.some.inj h
    obtain ⟨hcancelled, hopened, hdead, hrecovers⟩ :
        (s.effects (s.sockets i).effect).cancelled = false ∧ (s.sockets i).opened = false ∧
        DeadToken jwt cfg s.trace s.now (s.socketToken i) ∧
        ¬((s.seen (s.effects (s.sockets i).effect).mount).lastEventId ≠ "" ∧
          s.accessToken ≠ none) := by
      simpa only [Renews, Classical.not_imp] using hnot
    unfold SocketHook.onclose recoverViaHttp
    simp only [Function.update_self]
    rw [if_neg (by rw [hcancelled]; exact Bool.false_ne_true),
      if_neg (by rw [hopened]; exact Bool.false_ne_true)]
    split_ifs with hcursor
    · exact spins_fire hcancelled hdead
    · have hnone : s.accessToken = none := by
        by_contra htoken
        exact hrecovers ⟨hcursor, htoken⟩
      refine spins_fire hcancelled ?_
      exact hnone ▸ hdead.cons_request
  | mount session =>
    cases session with
    | none => exact absurd trivial hnot
    | some session =>
      obtain ⟨-, h⟩ := Option.ite_none_left_eq_some.1 h
      obtain rfl := Option.some.inj h
      exact ⟨[], _, rfl, spins_runEffect (not_not.1 hnot)⟩
  | rerun session =>
    cases session with
    | none => exact absurd trivial hnot
    | some session =>
      obtain ⟨-, h⟩ := Option.ite_none_right_eq_some.1 h
      obtain rfl := Option.some.inj h
      obtain ⟨effects, sockets, timers, socketRef, heq, -⟩ := cleanup_eq s
      refine ⟨[], _, rfl, spins_runEffect ?_⟩
      rw [heq]
      exact not_not.1 hnot
  | _ => exact absurd trivial hnot

/-! ### An expired access token beside a valid refresh token -/

/-- Access tokens live a second here, refresh tokens a hundred. -/
def shortLived : JWTConfig := ⟨"access", "refresh", 1000000000, 100000000000⟩

/-- A session from ten seconds ago. -/
def stale : AuthSession := ⟨⟨"7", "", ""⟩, "7,0,0,2.access", "7,1,0,002.refresh", ""⟩

/-- The page is loaded, the socket is refused, and two seconds later there is the next. -/
def refused : List Label := [.mount (some stale), .closed 0, .tick 2000000000, .fire 0]

/-- **With a cursor** the refused socket is followed by an authenticated request. -/
theorem never_spins_cursor :
    (socketHook (authenticates .reference shortLived)).Always
      (fun s => ¬Spins .reference shortLived s.trace)
      (load ⟨10000000000⟩ (some stale) (some "x")) refused := by
  refine never_spins .reference shortLived ⟨10000000000⟩ (some stale) (some "x") refused ?_
  refine .cons rfl not_deadToken_nil (.cons rfl (fun _ _ _ => ?_) (.cons rfl trivial
    (.cons rfl trivial trivial)))
  decide

/-- The socket of a page opens, and closes when the access token has long expired.  The
next socket is refused, and two seconds later there is one more. -/
def idle : List Label := [.mount (some stale), .opened 0 ⟨0⟩, .tick 10000000000, .closed 0,
  .tick 2000000000, .fire 0, .closed 1, .tick 2000000000, .fire 1]

/-- The access token has expired when the second socket is opened. -/
theorem expired_stale : Expired .reference ⟨12000000000⟩ stale.accessToken :=
  ⟨"7,0,0,2", .mac (.hs256, "access") "7,0,0,2", .hs256,
    ⟨⟨7⟩, accessKind, (⟨7⟩ : UUID).string, some ⟨0⟩, some ⟨1⟩, none⟩, by decide, by decide,
    ⟨1⟩, rfl, by decide⟩

/-- And the refresh token is good at that time and two seconds later. -/
theorem renewable_stale :
    Renewable .reference shortLived ⟨12000000000⟩ (some stale) ∧
      Renewable .reference shortLived ⟨14000000000⟩ (some stale) :=
  ⟨⟨stale, rfl, ⟨⟨7⟩, refreshKind, (⟨7⟩ : UUID).string, some ⟨0⟩, some ⟨100⟩, none⟩, by decide⟩,
    ⟨stale, rfl, ⟨⟨7⟩, refreshKind, (⟨7⟩ : UUID).string, some ⟨0⟩, some ⟨100⟩, none⟩, by decide⟩⟩

/-- **Without a cursor** the third socket has the same expired token as the second, and
nothing was asked in between. -/
theorem not_never_spins : ¬∀ (jwt : JWT) (cfg : JWTConfig) (now : Time)
    (store : Option AuthSession) (stored : Option String) (run : List Label),
    (socketHook (authenticates jwt cfg)).Always (fun s => ¬Spins jwt cfg s.trace)
      (load now store stored) run := by
  intro h
  have hrun := h .reference shortLived ⟨0⟩ (some stale) none idle
  refine hrun.exec rfl ⟨[], ⟨stale.accessToken, ⟨14000000000⟩, some stale⟩,
    [.attempt ⟨stale.accessToken, ⟨12000000000⟩, some stale⟩,
      .attempt ⟨stale.accessToken, ⟨0⟩, some stale⟩], rfl, [], _, _, rfl, nofun, nofun, rfl,
    expired_stale, fun store hstore => ?_⟩
  obtain rfl := hstore.resolve_right List.not_mem_nil
  exact renewable_stale

end SocketHook
end Frontend
end YtShare
