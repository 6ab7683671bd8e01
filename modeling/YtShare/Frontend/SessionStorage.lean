/-
# The session in `localStorage`

The auth store again, with the text that `localStorage` holds under its key.
`readSession` parses that text and checks nothing else: what it returns is an
`AuthSession` by a cast alone, and `isAuthenticated` is whether it is truthy.

`signIn`, `signOut` and `updateTokens` write the text before they set the session, and a
reload reads it again.  On a page that starts from nothing, or from a text it wrote
itself, these are the operations of `AuthStore` (`refines_step`).

From another text the store is as good as that text.  The session is one exactly when
the text holds one, or nothing that is JSON, or `null`; and `updateTokens` keeps the fields
it does not know, which a reload restores exactly when their numbers are read back from
the literals that write them (`survives_iff`).
-/

import YtShare.Frontend.AuthStore
import YtShare.Lib.JsonRoundTrip
import YtShare.Lib.Machine

namespace YtShare
namespace Frontend

open Lib Lib.Json

/-- `AuthState`, and the text under the key of the session in `localStorage`. -/
structure AuthState (ν : Type) where
  session : Json ν
  isAuthenticated : Bool
  stored : Option Text

namespace AuthState

/-- The argument of `signIn`, an `AuthSession`. -/
structure SessionInput where
  id : Text
  email : Text
  name : Text
  accessToken : Text
  refreshToken : Text
  expiresAt : Text

/-- The object that is the `AuthSession`. -/
def SessionInput.toJson {ν : Type} (x : SessionInput) : Json ν :=
  obj [(codes "user",
      obj [(codes "id", str x.id), (codes "email", str x.email), (codes "name", str x.name)]),
    (codes "accessToken", str x.accessToken), (codes "refreshToken", str x.refreshToken),
    (codes "expiresAt", str x.expiresAt)]

variable {ν : Type} (N : Numbers ν)

/-- `Boolean(value)`. -/
def truthy : Json ν → Bool
  | .null => false
  | .bool b => b
  | .num n => N.truthy n
  | .str s => decide (s ≠ [])
  | .arr _ => true
  | .obj _ => true

/-- `readSession`. -/
def readSession : Option Text → Json ν
  | none => null
  | some raw => if raw = [] then null else (parse N raw).getD null

/-- The store when its module is loaded: `session` and `isAuthenticated` each read the
text. -/
def load (stored : Option Text) : AuthState ν :=
  ⟨readSession N stored, truthy N (readSession N stored), stored⟩

/-- `signIn`. -/
def signIn (session : SessionInput) : AuthState ν :=
  ⟨session.toJson, true, some (stringify N session.toJson)⟩

/-- `signOut`. -/
def signOut : AuthState ν := ⟨null, false, none⟩

/-- The items of an array or the code units of a string, by their indices. -/
def indexed (items : List (Json ν)) : List (Text × Json ν) :=
  items.zipIdx.map fun p => (codes (toString p.2), p.1)

/-- The fields that `...value` puts into an object literal. -/
def spread : Json ν → List (Text × Json ν)
  | .obj fields => fields
  | .arr items => indexed items
  | .str s => indexed (s.map fun c => str [c])
  | .null => []
  | .bool _ => []
  | .num _ => []

/-- The object literal of `updateTokens`. -/
def renew (accessToken refreshToken expiresAt : Text) (fields : List (Text × Json ν)) :
    List (Text × Json ν) :=
  setField (codes "expiresAt") (str expiresAt) <|
    setField (codes "refreshToken") (str refreshToken) <|
      setField (codes "accessToken") (str accessToken) fields

/-- `updateTokens`. -/
def updateTokens (s : AuthState ν) (accessToken refreshToken expiresAt : Text) : AuthState ν :=
  if truthy N s.session = true then
    let next := obj (renew accessToken refreshToken expiresAt (spread s.session))
    { s with session := next, stored := some (stringify N next) }
  else s

/-- What happens to the store; a reload makes it again from the text. -/
inductive Action
  | signIn (session : SessionInput)
  | signOut
  | updateTokens (accessToken refreshToken expiresAt : Text)
  | reload

/-- One action. -/
def next (s : AuthState ν) : Action → AuthState ν
  | .signIn session => signIn N session
  | .signOut => signOut
  | .updateTokens a r e => s.updateTokens N a r e
  | .reload => load N s.stored

/-- The pages, whatever text they find. -/
def machine : Machine (AuthState ν) Action where
  init s := ∃ stored, s = load N stored
  step s a := some (s.next N a)

/-! ### What the store should hold -/

/-- The fields of a record with a user and both tokens. -/
structure IsSession (fields : List (Text × Json ν)) : Prop where
  user : ∃ user, field (codes "user") fields = some (obj user) ∧
    ∀ key ∈ ["id", "email", "name"], ∃ t, field (codes key) user = some (str t)
  tokens : ∀ key ∈ ["accessToken", "refreshToken"], ∃ t, field (codes key) fields = some (str t)

/-- The session is `null` or a session, `isAuthenticated` says which, and a reload would
restore it. -/
structure Sound (s : AuthState ν) : Prop where
  session : s.session = null ∨ ∃ fields, s.session = obj fields ∧ IsSession fields
  isAuthenticated : s.isAuthenticated = true ↔ s.session ≠ null
  restored : readSession N s.stored = s.session

/-- The fields that `updateTokens` sets. -/
def renewed : List Text := [codes "accessToken", codes "refreshToken", codes "expiresAt"]

/-- The other fields of the session hold numbers that are read back. -/
def Settled (session : Json ν) : Prop :=
  ∀ fields, session = obj fields → ∀ p ∈ fields, p.1 ∉ renewed → Kept N p.2

/-- A text that is JSON is `null` or a session, and a settled one. -/
def Restorable (stored : Option Text) : Prop :=
  ∀ raw v, stored = some raw → parse N raw = some v →
    v = null ∨ (∃ fields, v = obj fields ∧ IsSession fields) ∧ Settled N v

/-- `updateTokens` finds a settled session. -/
def Renewable (s : AuthState ν) (a : Action) : Prop :=
  ∀ accessToken refreshToken expiresAt, a = .updateTokens accessToken refreshToken expiresAt →
    Settled N s.session

variable {N} {s t : AuthState ν}

/-! ### The text is read back -/

/-- What `writeSession` wrote, `readSession` reads. -/
theorem readSession_stringify {v : Json ν} (h : WF v) :
    readSession N (some (stringify N v)) = reread N v := by
  obtain ⟨c, u, hc, -, -⟩ := stringify_cons (N := N) v
  rw [readSession, if_neg (by rw [hc]; exact List.cons_ne_nil c u), parse_stringify h,
    Option.getD_some]

/-- Whatever text there is, no key stands twice in the session. -/
theorem wf_readSession (stored : Option Text) : WF (readSession N stored) := by
  unfold readSession
  split
  · exact .null
  · next raw =>
    split_ifs
    · exact .null
    · cases h : parse N raw with
      | none => exact .null
      | some v => exact wf_of_parse h

/-- The session of a text that is JSON. -/
theorem readSession_of_parse {raw : Text} {v : Json ν} (h : parse N raw = some v) :
    readSession N (some raw) = v := by
  have hraw : raw ≠ [] := by
    rintro rfl
    cases h
  rw [readSession, if_neg hraw, h, Option.getD_some]

/-! ### Sessions -/

/-- Fields that are strings hold no number. -/
theorem kept_strings (fields : List (Text × Json ν)) (h : ∀ p ∈ fields, ∃ t, p.2 = str t) :
    ∀ p ∈ fields, WF p.2 ∧ Kept N p.2 := by
  intro p hp
  obtain ⟨t, ht⟩ := h p hp
  rw [ht]
  exact ⟨.str t, .str t⟩

/-- The argument of `signIn` is a session of strings. -/
theorem toJson_spec (x : SessionInput) :
    WF (x.toJson (ν := ν)) ∧ Kept N x.toJson ∧
      ∃ fields, x.toJson (ν := ν) = obj fields ∧ IsSession fields := by
  have huser := kept_strings (N := N) [(codes "id", str x.id),
    (codes "email", str x.email), (codes "name", str x.name)] (by simp)
  have htokens := kept_strings (N := N) [(codes "accessToken", str x.accessToken),
    (codes "refreshToken", str x.refreshToken), (codes "expiresAt", str x.expiresAt)] (by simp)
  have hkeys : [codes "user", codes "accessToken", codes "refreshToken",
    codes "expiresAt"].Nodup := by decide
  have huserKeys : [codes "id", codes "email", codes "name"].Nodup := by decide
  refine ⟨?_, ?_, _, rfl, ⟨_, rfl, ?_⟩, ?_⟩
  · exact .obj hkeys (List.forall_mem_cons.2
      ⟨.obj huserKeys fun p hp => (huser p hp).1, fun p hp => (htokens p hp).1⟩)
  · exact .obj (List.forall_mem_cons.2
      ⟨.obj fun p hp => (huser p hp).2, fun p hp => (htokens p hp).2⟩)
  · simp only [List.forall_mem_cons]
    exact ⟨⟨x.id, rfl⟩, ⟨x.email, rfl⟩, ⟨x.name, rfl⟩, nofun⟩
  · simp only [List.forall_mem_cons]
    exact ⟨⟨x.accessToken, rfl⟩, ⟨x.refreshToken, rfl⟩, nofun⟩

/-- With other tokens a session is a session. -/
theorem IsSession.renew {fields : List (Text × Json ν)} (h : IsSession fields) (a r e : Text) :
    IsSession (renew a r e fields) := by
  obtain ⟨⟨user, huser, hkeys⟩, -⟩ := h
  refine ⟨⟨user, ?_, hkeys⟩, ?_⟩
  · unfold AuthState.renew
    rw [field_setField, if_neg (by decide), field_setField, if_neg (by decide), field_setField,
      if_neg (by decide), huser]
  · intro key hkey
    unfold AuthState.renew
    obtain rfl | rfl := List.mem_pair.1 hkey
    · refine ⟨a, ?_⟩
      rw [field_setField, if_neg (by decide), field_setField, if_neg (by decide), field_setField,
        if_pos rfl]
    · refine ⟨r, ?_⟩
      rw [field_setField, if_neg (by decide), field_setField, if_pos rfl]

/-- A session with new tokens is well formed, if it was. -/
theorem wf_renew {fields : List (Text × Json ν)} (h : WF (obj fields)) (a r e : Text) :
    WF (obj (renew a r e fields)) :=
  wf_setField (wf_setField (wf_setField h (.str a)) (.str r)) (.str e)

/-- **What `updateTokens` wrote is read back exactly when the other fields are.** -/
theorem reread_renew_iff {fields : List (Text × Json ν)} (h : WF (obj fields)) (a r e : Text) :
    reread N (obj (renew a r e fields)) = obj (renew a r e fields) ↔ Settled N (obj fields) := by
  rw [reread_eq_iff (wf_renew h a r e), kept_obj_iff, renew,
    forall_setField (wf_setField (wf_setField h (.str a)) (.str r)).nodup,
    forall_setField (wf_setField h (.str a)).nodup, forall_setField h.nodup]
  constructor
  · rintro ⟨-, -, -, hfields⟩ _ hobj p hp hrenewed
    obtain rfl := obj.inj hobj
    refine hfields p hp (fun haccess => hrenewed ?_) (fun hrefresh => hrenewed ?_)
      fun hexpires => hrenewed ?_
    · exact haccess ▸ List.mem_cons_self
    · exact hrefresh ▸ List.mem_cons_of_mem _ List.mem_cons_self
    · exact hexpires ▸ List.mem_cons_of_mem _ (List.mem_cons_of_mem _ List.mem_cons_self)
  · intro hsettled
    refine ⟨.str e, fun _ => .str r, fun _ _ => .str a, fun p hp haccess hrefresh hexpires => ?_⟩
    refine hsettled fields rfl p hp fun hrenewed => ?_
    simp only [renewed, List.mem_cons, List.not_mem_nil, or_false] at hrenewed
    obtain h | h | h := hrenewed
    · exact haccess h
    · exact hrefresh h
    · exact hexpires h

/-! ### The actions -/

/-- Without a session `updateTokens` does nothing. -/
theorem updateTokens_null (hs : s.session = null) (a r e : Text) :
    s.updateTokens N a r e = s := by
  rw [updateTokens, hs]
  exact if_neg Bool.false_ne_true

/-- With one it sets the three fields and writes the session to the storage. -/
theorem updateTokens_obj {fields : List (Text × Json ν)} (hs : s.session = obj fields)
    (a r e : Text) :
    s.updateTokens N a r e =
      ⟨obj (renew a r e fields), s.isAuthenticated,
        some (stringify N (obj (renew a r e fields)))⟩ := by
  rw [updateTokens, hs]
  exact if_pos rfl

/-- No action puts a key twice into the session of a store that a reload restores. -/
theorem wf_next (hwf : WF s.session) (hs : Sound N s) (act : Action) :
    WF (s.next N act).session := by
  cases act with
  | signIn x => exact (toJson_spec (N := N) x).1
  | signOut => exact .null
  | updateTokens a r e =>
    obtain hnull | ⟨fields, hfields, -⟩ := hs.session
    · rw [next, updateTokens_null hnull]
      exact hwf
    · rw [next, updateTokens_obj hfields]
      exact wf_renew (hfields ▸ hwf) a r e
  | reload => exact wf_readSession s.stored

/-- A session or `null` is truthy when it is a session. -/
theorem truthy_of_session {v : Json ν}
    (h : v = null ∨ ∃ fields, v = obj fields ∧ IsSession fields) :
    truthy N v = true ↔ v ≠ null := by
  obtain rfl | ⟨fields, rfl, -⟩ := h
  · exact iff_of_false Bool.false_ne_true fun h => h rfl
  · exact iff_of_true rfl nofun

/-- A store that is loaded is as good as what it reads. -/
theorem sound_load_iff (stored : Option Text) :
    Sound N (load N stored) ↔ readSession N stored = null ∨
      ∃ fields, readSession N stored = obj fields ∧ IsSession fields :=
  ⟨fun h => h.session, fun h => ⟨h, truthy_of_session h, rfl⟩⟩

/-- **An action keeps the store sound** exactly when it is no `updateTokens` on fields that
would not be read back. -/
theorem sound_next_iff (hwf : WF s.session) (hs : Sound N s) (act : Action) :
    Sound N (s.next N act) ↔ Renewable N s act := by
  cases act with
  | signIn x =>
    obtain ⟨hx, hkept, hsession⟩ := toJson_spec (N := N) x
    refine iff_of_true ⟨.inr hsession, ?_, ?_⟩ nofun
    · exact iff_of_true rfl nofun
    · exact (readSession_stringify hx).trans ((reread_eq_iff hx).2 hkept)
  | signOut =>
    exact iff_of_true ⟨.inl rfl, iff_of_false Bool.false_ne_true fun h => h rfl, rfl⟩ nofun
  | updateTokens a r e =>
    have hrenewable : Renewable N s (.updateTokens a r e) ↔ Settled N s.session :=
      ⟨fun h => h a r e rfl, fun h _ _ _ _ => h⟩
    rw [hrenewable, next]
    obtain hnull | ⟨fields, hfields, hsession⟩ := hs.session
    · rw [updateTokens_null hnull, hnull]
      exact iff_of_true hs nofun
    · have hread := readSession_stringify (N := N) (wf_renew (hfields ▸ hwf) a r e)
      rw [updateTokens_obj hfields, hfields, ← reread_renew_iff (hfields ▸ hwf) a r e, ← hread]
      refine ⟨fun h => h.restored, fun h => ⟨.inr ⟨_, rfl, hsession.renew a r e⟩, ?_, h⟩⟩
      exact iff_of_true (hs.isAuthenticated.2 (by rw [hfields]; exact nofun)) nofun
  | reload =>
    have hload := (sound_load_iff (N := N) s.stored).2 (by rw [hs.restored]; exact hs.session)
    exact iff_of_true hload nofun

/-! ### Every run -/

/-- A run keeps the store sound exactly when it begins so and renews settled sessions
alone. -/
theorem always_sound_iff (stored : Option Text) (actions : List Action) :
    (machine N).Always (Sound N) (load N stored) actions ↔
      Sound N (load N stored) ∧ (machine N).Steps (Renewable N) (load N stored) actions := by
  have hstep : ∀ s act t, WF s.session → Sound N s → (machine N).step s act = some t →
      (Sound N t ↔ Renewable N s act) ∧ (Renewable N s act → WF t.session) := by
    intro s act t hwf hs ht
    obtain rfl := Option.some.inj ht
    exact ⟨sound_next_iff hwf hs act, fun _ => wf_next hwf hs act⟩
  constructor
  · intro h
    have hload := Machine.always_iff.1 h [] _ List.nil_prefix rfl
    exact ⟨hload, (Machine.always_iff_steps hstep (wf_readSession stored) hload).1 h⟩
  · rintro ⟨hload, h⟩
    exact (Machine.always_iff_steps hstep (wf_readSession stored) hload).2 h

/-- A session all of whose numbers are read back is settled. -/
theorem Settled.of_kept {v : Json ν} (h : Kept N v) : Settled N v := by
  rintro fields rfl p hp -
  exact kept_obj_iff.1 h p hp

/-- An action leaves a settled session settled. -/
theorem settled_next (hwf : WF s.session) (hs : Sound N s) (hsettled : Settled N s.session)
    (act : Action) : Settled N (s.next N act).session := by
  cases act with
  | signIn x => exact .of_kept (toJson_spec x).2.1
  | signOut => exact .of_kept .null
  | updateTokens a r e =>
    obtain hnull | ⟨fields, hfields, -⟩ := hs.session
    · rw [next, updateTokens_null hnull]
      exact hsettled
    · rw [next, updateTokens_obj hfields]
      rw [hfields] at hwf hsettled
      have hread := (reread_renew_iff hwf a r e).2 hsettled
      exact .of_kept ((reread_eq_iff (wf_renew hwf a r e)).1 hread)
  | reload =>
    rw [next, load, hs.restored]
    exact hsettled

/-- What a page finds is `null` or the JSON of its text. -/
theorem readSession_cases (stored : Option Text) :
    readSession N stored = null ∨
      ∃ raw v, stored = some raw ∧ parse N raw = some v ∧ readSession N stored = v := by
  cases stored with
  | none => exact .inl rfl
  | some raw =>
    cases h : parse N raw with
    | none =>
      refine .inl ?_
      rw [readSession, h, Option.getD_none, ite_self]
    | some v => exact .inr ⟨raw, v, rfl, h, readSession_of_parse h⟩

variable (N)

/-- **The stored texts that the store survives.**  Whatever is done, the session is a
session or `null`, `isAuthenticated` says which, and a reload restores it, exactly when
the text is absent, empty, no JSON, `null`, or a session whose fields other than the ones
`updateTokens` sets hold numbers that are read back.  Nothing checks that the text is one
of these. -/
theorem survives_iff (stored : Option Text) :
    (∀ actions, (machine N).Always (Sound N) (load N stored) actions) ↔
      Restorable N stored := by
  constructor
  · rintro h raw v rfl hv
    have hread := readSession_of_parse hv
    have hrenew := (always_sound_iff (some raw) [.updateTokens [] [] []]).1 (h _)
    have hsession := hrenew.1.session
    have hsettled := (hrenew.2 _ rfl).1 [] [] [] rfl
    rw [load, hread] at hsession hsettled
    exact hsession.imp_right fun hv => ⟨hv, hsettled⟩
  · intro h actions
    have hstep : ∀ s act t, WF s.session ∧ Sound N s ∧ Settled N s.session →
        (machine N).step s act = some t → WF t.session ∧ Sound N t ∧ Settled N t.session := by
      rintro s act t ⟨hwf, hs, hsettled⟩ ht
      obtain rfl := Option.some.inj ht
      exact ⟨wf_next hwf hs act, (sound_next_iff hwf hs act).2 fun _ _ _ _ => hsettled,
        settled_next hwf hs hsettled act⟩
    have hload : Sound N (load N stored) ∧ Settled N (readSession N stored) := by
      obtain hnull | ⟨raw, v, hraw, hv, hread⟩ := readSession_cases (N := N) stored
      · rw [sound_load_iff, hnull]
        exact ⟨.inl rfl, .of_kept .null⟩
      · rw [sound_load_iff, hread]
        obtain rfl | ⟨hsession, hsettled⟩ := h raw v hraw hv
        · exact ⟨.inl rfl, .of_kept .null⟩
        · exact ⟨.inr hsession, hsettled⟩
    exact (Machine.always_of_invariant hstep ⟨wf_readSession stored, hload⟩ actions).mono
      fun s hs => hs.2.1

/-- Numbers as their literals. -/
def literals : Numbers Text where
  read := id
  write l := if isNumber l && l.all fun c => decide (c ∈ numberUnits) then some l else none
  truthy l := (l.takeWhile fun c => decide (c ≠ code 'e' ∧ c ≠ code 'E')).any fun c =>
    digit c && decide (c ≠ code '0')
  write_units n s h := by
    obtain ⟨hall, hs⟩ := Option.ite_none_right_eq_some.1 h
    obtain rfl := Option.some.inj hs
    exact fun c hc => of_decide_eq_true (List.all_eq_true.1 (Bool.and_eq_true_iff.1 hall).2 c hc)
  write_isNumber n s h := by
    obtain ⟨hall, hs⟩ := Option.ite_none_right_eq_some.1 h
    obtain rfl := Option.some.inj hs
    exact (Bool.and_eq_true_iff.1 hall).1

/-- With `{}` in `localStorage` the page is signed in without a user. -/
theorem not_survives : ¬∀ stored actions,
    (machine literals).Always (Sound literals) (load literals stored) actions := by
  intro h
  have hwf : WF (obj [] : Json Text) := .obj List.nodup_nil fun _ hp => (nomatch hp)
  have hread : readSession literals (some (codes "\x7b\x7d")) = obj [] := readSession_stringify hwf
  have hsession := (h (some (codes "\x7b\x7d")) [] : Sound literals _).session
  rw [load, hread] at hsession
  obtain hnull | ⟨fields, hfields, hsession⟩ := hsession
  · cases hnull
  · obtain rfl := obj.inj hfields
    obtain ⟨user, huser, -⟩ := hsession.user
    cases huser

/-! ### The store of the other modules -/

/-- The code units of a string. -/
def utf16 (s : String) : Text :=
  s.toList.flatMap fun c =>
    if c.toNat < 0x10000 then [UInt16.ofNat c.toNat]
    else [UInt16.ofNat (0xd800 + (c.toNat - 0x10000) / 0x400),
      UInt16.ofNat (0xdc00 + (c.toNat - 0x10000) % 0x400)]

/-- A session of strings. -/
def ofSession (x : AuthSession) : SessionInput :=
  ⟨utf16 x.user.id, utf16 x.user.email, utf16 x.user.name, utf16 x.accessToken,
    utf16 x.refreshToken, utf16 x.expiresAt⟩

/-- The page holds what the store says, in memory and in the text. -/
structure Refines (s : AuthState ν) (store : AuthStore) : Prop where
  session : s.session = (store.session.map fun x => (ofSession x).toJson).getD null
  isAuthenticated : s.isAuthenticated = store.isAuthenticated
  stored : s.stored = store.stored.map fun x => stringify N (ofSession x).toJson

/-- What happens to the store, with strings. -/
inductive StoreAction
  | signIn (session : AuthSession)
  | signOut
  | updateTokens (accessToken refreshToken expiresAt : String)
  | reload

/-- One action of the store. -/
def nextStore (store : AuthStore) : StoreAction → AuthStore
  | .signIn session => .signIn session
  | .signOut => .signOut
  | .updateTokens a r e => store.updateTokens a r e
  | .reload => .load store.stored

/-- The same action on the page. -/
def ofStoreAction : StoreAction → Action
  | .signIn session => .signIn (ofSession session)
  | .signOut => .signOut
  | .updateTokens a r e => .updateTokens (utf16 a) (utf16 r) (utf16 e)
  | .reload => .reload

variable {N}

/-- A session that was written is read. -/
theorem readSession_ofSession (x : AuthSession) :
    readSession N (some (stringify N (ofSession x).toJson)) = (ofSession x).toJson := by
  obtain ⟨hwf, hkept, -⟩ := toJson_spec (N := N) (ofSession x)
  exact (readSession_stringify hwf).trans ((reread_eq_iff hwf).2 hkept)

/-- **The page does what the store says.** -/
theorem refines_step {store : AuthStore} (h : Refines N s store) (act : StoreAction) :
    Refines N (s.next N (ofStoreAction act)) (nextStore store act) := by
  cases act with
  | signIn x => exact ⟨rfl, rfl, rfl⟩
  | signOut => exact ⟨rfl, rfl, rfl⟩
  | updateTokens a r e =>
    cases hstore : store.session with
    | none =>
      have hnull : s.session = null := by rw [h.session, hstore]; rfl
      rw [ofStoreAction, next, updateTokens_null hnull, nextStore, AuthStore.updateTokens, hstore]
      exact h
    | some x =>
      have hsession : s.session = (ofSession x).toJson := by rw [h.session, hstore]; rfl
      rw [ofStoreAction, next, updateTokens_obj hsession, nextStore, AuthStore.updateTokens,
        hstore]
      exact ⟨rfl, h.isAuthenticated, rfl⟩
  | reload =>
    rw [ofStoreAction, next, nextStore, h.stored]
    cases store.stored with
    | none => exact ⟨rfl, rfl, rfl⟩
    | some x =>
      rw [load, Option.map_some, readSession_ofSession]
      exact ⟨rfl, rfl, rfl⟩

/-- So a page that finds no text runs as the store does. -/
theorem refines_run (actions : List StoreAction) :
    Refines N ((actions.map ofStoreAction).foldl (next N) (load N none))
      (actions.foldl nextStore (.load none)) := by
  suffices H : ∀ s store, Refines N s store →
      Refines N ((actions.map ofStoreAction).foldl (next N) s) (actions.foldl nextStore store) from
    H _ _ ⟨rfl, rfl, rfl⟩
  induction actions with
  | nil => exact fun _ _ h => h
  | cons act actions ih => exact fun s store h => ih _ _ (refines_step h act)

end AuthState
end Frontend
end YtShare
