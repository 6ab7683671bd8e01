/-
# The memory cache

`MemoryCache` of `backend/internal/cache/cache.go`: `Get`, `Set` and `Delete` from
any number of goroutines, taken apart where the lock is not held.  A `Get` reads
the item under the read lock and gives the lock up; then it looks at the clock; and
when the item has expired it takes the lock again and deletes what is under the key
by then.  A `Set` looks at the clock before it takes the lock.

Beside the cache runs its record: what the `Set`s and the `Delete`s alone have left
(`Record.held`), and what that showed to each `Get` when it read (`Record.seen`).

A value that is answered is always the one that was current when the `Get` read it
(`hit_is_current`).  A value can be lost, though: a `Get` that has read an expired
item deletes the item that a `Set` has put in its place since.  The cache shows what
was written to it exactly as long as this does not happen (`exact_iff`), and it does
not where no `Set` stores under the key of such a `Get` meanwhile
(`exact_of_undisturbed`).
-/

import YtShare.Core.UUID
import YtShare.Lib.Expiring
import YtShare.Lib.Machine

namespace YtShare
namespace Cache

open Lib

/-! ### The cache -/

/-- `encoding/json` at the type of the values. -/
structure Codec (Raw V : Type) where
  marshal : V → Option Raw
  unmarshal : Raw → Option V

/-- `memoryItem`. -/
structure MemoryItem (Raw : Type) where
  value : Raw
  expiresAt : Time
deriving DecidableEq

/-- `!item.expiresAt.IsZero() && now.After(item.expiresAt)`. -/
def MemoryItem.expired {Raw : Type} (now : Time) (item : MemoryItem Raw) : Bool :=
  !item.expiresAt.isZero && decide (item.expiresAt.ns < now.ns)

/-- What a call answers. -/
inductive Answer (V : Type)
  /-- `ErrMiss` -/
  | miss
  | value (v : V)
  | unmarshalError
  | stored
  | marshalError
  | deleted

/-- What is called. -/
inductive Request (V : Type)
  | get (key : String)
  | set (key : String) (value : V) (ttl : ℤ)
  | delete (keys : List String)

/-- Where a call is. -/
inductive Pc (Raw V : Type)
  /-- `Get` before `RLock` -/
  | read (key : String)
  /-- `Get` with an item, before it looks at the clock -/
  | check (key : String) (item : MemoryItem Raw)
  /-- `Get` before `Lock` -/
  | purge (key : String)
  /-- `Set` before it looks at the clock -/
  | stamp (key : String) (raw : Raw) (ttl : ℤ)
  /-- `Set` before `Lock` -/
  | store (key : String) (item : MemoryItem Raw)
  /-- `Delete` before `Lock` -/
  | delete (keys : List String)
  | done (answer : Answer V)

/-- The clock, the items and the calls. -/
structure MemoryCache (Raw V : Type) where
  now : Time
  items : String → Option (MemoryItem Raw)
  calls : ℕ → Option (Pc Raw V)

/-- One step: the clock goes on, a call comes in, or a call goes on to the next place
where it gives up or takes the lock or looks at the clock. -/
inductive Label (V : Type)
  | tick (now : Time)
  | call (i : ℕ) (request : Request V)
  | advance (i : ℕ)

namespace MemoryCache

variable {Raw V : Type}

/-- `NewMemoryCache`. -/
def new (now : Time) : MemoryCache Raw V := ⟨now, fun _ => none, fun _ => none⟩

/-- A call as it begins. -/
def start (codec : Codec Raw V) : Request V → Pc Raw V
  | .get key => .read key
  | .set key value ttl =>
      match codec.marshal value with
      | none => .done .marshalError
      | some raw => .stamp key raw ttl
  | .delete keys => .delete keys

/-- The items without those under the keys. -/
def without (items : String → Option (MemoryItem Raw)) (keys : List String) :
    String → Option (MemoryItem Raw) :=
  keys.foldl (fun items k => Function.update items k none) items

/-- What a step of a call makes of the items, and where the call is then. -/
def advance (codec : Codec Raw V) (now : Time) (items : String → Option (MemoryItem Raw)) :
    Pc Raw V → Option ((String → Option (MemoryItem Raw)) × Pc Raw V)
  | .read key =>
      match items key with
      | none => some (items, .done .miss)
      | some item => some (items, .check key item)
  | .check key item =>
      if item.expired now then some (items, .purge key)
      else
        match codec.unmarshal item.value with
        | none => some (items, .done .unmarshalError)
        | some v => some (items, .done (.value v))
  | .purge key => some (Function.update items key none, .done .miss)
  | .stamp key raw ttl => some (items, .store key ⟨raw, if 0 < ttl then ⟨now.ns + ttl⟩ else ⟨0⟩⟩)
  | .store key item => some (Function.update items key (some item), .done .stored)
  | .delete keys => some (without items keys, .done .deleted)
  | .done _ => none

/-- One step. -/
def step (codec : Codec Raw V) (s : MemoryCache Raw V) : Label V → Option (MemoryCache Raw V)
  | .tick now => if s.now.ns ≤ now.ns then some { s with now := now } else none
  | .call i request =>
      if s.calls i = none then
        some { s with calls := Function.update s.calls i (some (start codec request)) }
      else none
  | .advance i =>
      (s.calls i).bind fun pc => (advance codec s.now s.items pc).map fun (items, pc') =>
        { s with items := items, calls := Function.update s.calls i (some pc') }

end MemoryCache

/-! ### Its record -/

/-- Items live until they have expired. -/
def lifetime (Raw : Type) : Lifetime ℤ (MemoryItem Raw) where
  live now item := !item.expired ⟨now⟩
  anti := by
    intro t u item htu hlive
    simp only [MemoryItem.expired, Bool.not_and, Bool.not_not, Bool.or_eq_true,
      Bool.not_eq_true', decide_eq_false_iff_not] at hlive ⊢
    exact hlive.imp_right fun h => by omega

/-- What was written, and what of it each `Get` has seen. -/
structure Record (Raw : Type) where
  held : String → Option (MemoryItem Raw)
  seen : ℕ → Option (MemoryItem Raw)

namespace Record

variable {Raw V : Type}

def new : Record Raw := ⟨fun _ => none, fun _ => none⟩

/-- What a step of call `i` adds. -/
def advance (now : Time) (i : ℕ) (r : Record Raw) : Pc Raw V → Record Raw
  | .read key =>
      { r with seen := Function.update r.seen i ((lifetime Raw).shown now.ns r.held key) }
  | .store key item => { r with held := Function.update r.held key (some item) }
  | .delete keys => { r with held := MemoryCache.without r.held keys }
  | .check _ _ | .purge _ | .stamp _ _ _ | .done _ => r

/-- What a step adds. -/
def note (s : MemoryCache Raw V) (r : Record Raw) : Label V → Record Raw
  | .advance i => ((s.calls i).map (r.advance s.now i)).getD r
  | .tick _ | .call _ _ => r

end Record

/-- The cache with its record. -/
abbrev Kept (Raw V : Type) := MemoryCache Raw V × Record Raw

/-- The cache from `NewMemoryCache` on. -/
def memoryCache {Raw V : Type} (codec : Codec Raw V) : Machine (Kept Raw V) (Label V) where
  init s := ∃ now, s = (.new now, .new)
  step s l := (s.1.step codec l).map fun t => (t, s.2.note s.1 l)

variable {Raw V : Type} {codec : Codec Raw V}

/-- **What a step of a call does.** -/
inductive Advanced (codec : Codec Raw V) (now : Time)
    (items : String → Option (MemoryItem Raw)) :
    Pc Raw V → (String → Option (MemoryItem Raw)) → Pc Raw V → Prop
  | missed {key : String} (h : items key = none) :
      Advanced codec now items (.read key) items (.done .miss)
  | found {key : String} {item : MemoryItem Raw} (h : items key = some item) :
      Advanced codec now items (.read key) items (.check key item)
  | expired {key : String} {item : MemoryItem Raw} (h : item.expired now = true) :
      Advanced codec now items (.check key item) items (.purge key)
  | answered {key : String} {item : MemoryItem Raw} {v : V} (h : item.expired now = false)
      (hv : codec.unmarshal item.value = some v) :
      Advanced codec now items (.check key item) items (.done (.value v))
  | garbled {key : String} {item : MemoryItem Raw} (h : item.expired now = false)
      (hv : codec.unmarshal item.value = none) :
      Advanced codec now items (.check key item) items (.done .unmarshalError)
  | purged {key : String} :
      Advanced codec now items (.purge key) (Function.update items key none) (.done .miss)
  | stamped {key : String} {raw : Raw} {ttl : ℤ} {item : MemoryItem Raw} :
      Advanced codec now items (.stamp key raw ttl) items (.store key item)
  | stored {key : String} {item : MemoryItem Raw} :
      Advanced codec now items (.store key item) (Function.update items key (some item))
        (.done .stored)
  | deleted {keys : List String} :
      Advanced codec now items (.delete keys) (MemoryCache.without items keys) (.done .deleted)

/-- **What a call can do** at its next point: every case of `MemoryCache.advance`. -/
theorem advanced {now : Time} {items items' : String → Option (MemoryItem Raw)}
    {pc pc' : Pc Raw V} (h : MemoryCache.advance codec now items pc = some (items', pc')) :
    Advanced codec now items pc items' pc' := by
  cases pc with
  | read key =>
    simp only [MemoryCache.advance] at h
    split at h
    · next hitem => cases h; exact .missed hitem
    · next hitem => cases h; exact .found hitem
  | check key item =>
    simp only [MemoryCache.advance] at h
    split_ifs at h with hexpired
    · cases h
      exact .expired hexpired
    · rw [Bool.not_eq_true] at hexpired
      split at h
      · next hv => cases h; exact .garbled hexpired hv
      · next hv => cases h; exact .answered hexpired hv
  | purge key => cases h; exact .purged
  | stamp key raw ttl => cases h; exact .stamped
  | store key item => cases h; exact .stored
  | delete keys => cases h; exact .deleted
  | done answer => cases h

/-- **What a step of the cache does.** -/
inductive Stepped (codec : Codec Raw V) (s : Kept Raw V) : Label V → Kept Raw V → Prop
  | tick {now : Time} (h : s.1.now.ns ≤ now.ns) :
      Stepped codec s (.tick now) ({ s.1 with now := now }, s.2)
  | call {i : ℕ} {request : Request V} (h : s.1.calls i = none) :
      Stepped codec s (.call i request)
        ({ s.1 with
            calls := Function.update s.1.calls i (some (MemoryCache.start codec request)) }, s.2)
  | advance {i : ℕ} {pc pc' : Pc Raw V} {items : String → Option (MemoryItem Raw)}
      (hpc : s.1.calls i = some pc)
      (h : Advanced codec s.1.now s.1.items pc items pc') :
      Stepped codec s (.advance i)
        ({ s.1 with items := items, calls := Function.update s.1.calls i (some pc') },
          s.2.advance s.1.now i pc)

/-- **What a step can do:** a call begins or moves, or time goes by. -/
theorem stepped {s t : Kept Raw V} {l : Label V} (h : (memoryCache codec).step s l = some t) :
    Stepped codec s l t := by
  obtain ⟨t, ht, rfl⟩ := Option.map_eq_some_iff.1 h
  cases l with
  | tick now =>
    obtain ⟨hnow, ht⟩ := Option.ite_none_right_eq_some.1 ht
    obtain rfl := Option.some.inj ht
    exact .tick hnow
  | call i request =>
    obtain ⟨hi, ht⟩ := Option.ite_none_right_eq_some.1 ht
    obtain rfl := Option.some.inj ht
    exact .call hi
  | advance i =>
    obtain ⟨pc, hpc, ht⟩ := Option.bind_eq_some_iff.1 ht
    obtain ⟨⟨items, pc'⟩, hadvance, rfl⟩ := Option.map_eq_some_iff.1 ht
    have hnote : s.2.note s.1 (.advance i) = s.2.advance s.1.now i pc := by
      rw [Record.note, hpc]
      rfl
    rw [hnote]
    exact .advance hpc (advanced hadvance)

/-! ### What is answered -/

/-- What a call knows of what it saw, where it is. -/
def Told (codec : Codec Raw V) (now : Time) (seen : Option (MemoryItem Raw)) : Pc Raw V → Prop
  | .check _ item => seen = some item ∨ seen = none ∧ item.expired now = true
  | .purge _ => ∀ item, seen = some item → item.expired now = true
  | .done (.value v) => ∃ item, seen = some item ∧ codec.unmarshal item.value = some v
  | .done .unmarshalError => ∃ item, seen = some item ∧ codec.unmarshal item.value = none
  | .read _ | .stamp _ _ _ | .store _ _ | .delete _ | .done .miss | .done .stored
  | .done .marshalError | .done .deleted => True

/-- What has expired stays expired. -/
theorem MemoryItem.expired_later {now now' : Time} (h : now.ns ≤ now'.ns) {item : MemoryItem Raw}
    (he : item.expired now = true) : item.expired now' = true := by
  simp only [expired, Bool.and_eq_true, decide_eq_true_eq] at he ⊢
  exact he.imp_right fun hlt => by omega

/-- What a call knows of what it saw stays true as time goes by. -/
theorem Told.later {now now' : Time} (h : now.ns ≤ now'.ns) {seen : Option (MemoryItem Raw)}
    {pc : Pc Raw V} (ht : Told codec now seen pc) : Told codec now' seen pc := by
  cases pc with
  | check key item => exact ht.imp_right fun hn => ⟨hn.1, item.expired_later h hn.2⟩
  | purge key => exact fun item hseen => item.expired_later h (ht item hseen)
  | done answer => cases answer <;> exact ht
  | read _ | stamp _ _ _ | store _ _ | delete _ => trivial

/-- The lifetime of the items in the words of the source. -/
theorem live_eq_false {now : Time} {item : MemoryItem Raw} :
    (lifetime Raw).live now.ns item = false ↔ item.expired now = true :=
  iff_of_eq (Bool.not_eq_false' _)

/-- Deleting the same keys keeps what is stored below what was written. -/
theorem below_without {m w : String → Option (MemoryItem Raw)} (hb : Lifetime.Below m w)
    (keys : List String) :
    Lifetime.Below (MemoryCache.without m keys) (MemoryCache.without w keys) := by
  induction keys generalizing m w with
  | nil => exact hb
  | cons k keys ih => exact ih (hb.set k none)

/-- And what is shown the same. -/
theorem agree_without {now : ℤ} {m w : String → Option (MemoryItem Raw)}
    (ha : (lifetime Raw).Agree now m w) (keys : List String) :
    (lifetime Raw).Agree now (MemoryCache.without m keys) (MemoryCache.without w keys) := by
  induction keys generalizing m w with
  | nil => exact ha
  | cons k keys ih => exact ih (ha.set k none)

/-- The invariant: the cache holds no more than was written, and every call knows what
it saw. -/
structure Inv (codec : Codec Raw V) (s : Kept Raw V) : Prop where
  below : Lifetime.Below s.1.items s.2.held
  told : ∀ i pc, s.1.calls i = some pc → Told codec s.1.now (s.2.seen i) pc

/-- An empty cache meets the invariant. -/
theorem inv_new (now : Time) : Inv codec ((.new now, .new) : Kept Raw V) :=
  ⟨fun _ _ h => (by cases h), fun _ _ h => (by cases h)⟩


/-- What a step of a call leaves is no more than what it writes. -/
theorem below_advance {now : Time} {i : ℕ} {r : Record Raw} {pc pc' : Pc Raw V}
    {items items' : String → Option (MemoryItem Raw)} (hb : Lifetime.Below items r.held)
    (h : Advanced codec now items pc items' pc') :
    Lifetime.Below items' (r.advance now i pc).held := by
  cases h with
  | missed _ | found _ | expired _ | answered _ _ | garbled _ _ | stamped => exact hb
  | purged => exact hb.erase _
  | stored => exact hb.set _ _
  | deleted => exact below_without hb _

/-- A call goes on knowing what it saw. -/
theorem Told.advance {now : Time} {i : ℕ} {r : Record Raw} {pc pc' : Pc Raw V}
    {items items' : String → Option (MemoryItem Raw)} (hb : Lifetime.Below items r.held)
    (ht : Told codec now (r.seen i) pc) (h : Advanced codec now items pc items' pc') :
    Told codec now ((r.advance now i pc).seen i) pc' := by
  cases h with
  | missed _ | purged | stamped | stored | deleted => trivial
  | @found key item hitem =>
    have hseen : (r.advance now i (.read key : Pc Raw V)).seen i =
        (lifetime Raw).shown now.ns r.held key := Function.update_self _ _ _
    have hheld : r.held key = some item := hb key item hitem
    rw [hseen, Lifetime.shown, hheld]
    cases hlive : (lifetime Raw).live now.ns item with
    | true => exact .inl (Option.filter_some_pos hlive)
    | false =>
      exact .inr ⟨Option.filter_some_neg hlive, live_eq_false.1 hlive⟩
  | expired hexpired =>
    intro item hseen
    rcases ht with ht | ⟨ht, -⟩
    · exact Option.some.inj (ht.symm.trans hseen) ▸ hexpired
    · cases ht.symm.trans hseen
  | answered hlive hv =>
    rcases ht with ht | ⟨-, ht⟩
    · exact ⟨_, ht, hv⟩
    · exact absurd ht (by rw [hlive]; exact Bool.false_ne_true)
  | garbled hlive hv =>
    rcases ht with ht | ⟨-, ht⟩
    · exact ⟨_, ht, hv⟩
    · exact absurd ht (by rw [hlive]; exact Bool.false_ne_true)

/-- A step of one call is nothing to what another saw. -/
theorem seen_advance {now : Time} {i j : ℕ} {r : Record Raw} {pc : Pc Raw V} (h : j ≠ i) :
    (r.advance now i pc).seen j = r.seen j := by
  cases pc with
  | read key => exact Function.update_of_ne h _ _
  | check _ _ | purge _ | stamp _ _ _ | store _ _ | delete _ | done _ => rfl

/-- **The step lemma.** -/
theorem Inv.step {s t : Kept Raw V} {l : Label V} (hi : Inv codec s)
    (hs : (memoryCache codec).step s l = some t) : Inv codec t := by
  cases stepped hs with
  | tick hnow => exact ⟨hi.below, fun i pc hpc => (hi.told i pc hpc).later hnow⟩
  | call hnone =>
    refine ⟨hi.below, fun j pc hpc => ?_⟩
    rcases update_eq_some hpc with ⟨rfl, rfl⟩ | ⟨-, hpc⟩
    · rename_i request
      cases request with
      | get key => trivial
      | set key value ttl =>
        rw [MemoryCache.start]
        split
        · trivial
        · trivial
      | delete keys => trivial
    · exact hi.told j pc hpc
  | advance hpc hadvanced =>
    refine ⟨below_advance hi.below hadvanced, fun j pc hj => ?_⟩
    rcases update_eq_some hj with ⟨rfl, rfl⟩ | ⟨hne, hj⟩
    · exact (hi.told j _ hpc).advance hi.below hadvanced
    · rw [seen_advance hne]
      exact hi.told j pc hj

/-- Every value that was answered is the one that was current when it was read. -/
def Hits (codec : Codec Raw V) (s : Kept Raw V) : Prop :=
  ∀ i v, s.1.calls i = some (.done (.value v)) →
    ∃ item, s.2.seen i = some item ∧ codec.unmarshal item.value = some v

/-- **A hit is current.**  In every run, however the calls interleave: a `Get` that
answers a value answers one that was written under its key, that no `Set` and no
`Delete` had replaced when the `Get` read it, and that had not expired then. -/
theorem hit_is_current (codec : Codec Raw V) (now : Time) (run : List (Label V)) :
    (memoryCache codec).Always (Hits codec) (.new now, .new) run :=
  (Machine.always_of_invariant (fun _ _ _ hi hs => Inv.step hi hs) (inv_new now) run).mono
    fun _ hi i v hv => Inv.told hi i (.done (.value v)) hv

/-! ### What is lost -/

/-- The cache shows what was written to it, and every miss is one: there was nothing to
see, or it has expired. -/
structure Exact (s : Kept Raw V) : Prop where
  shows : (lifetime Raw).Agree s.1.now.ns s.1.items s.2.held
  misses : ∀ i, s.1.calls i = some (.done .miss) →
    ∀ item, s.2.seen i = some item → item.expired s.1.now = true

/-- **The condition on a step:** a `Get` that deletes finds nothing under its key but what
has expired. -/
def Spares (s : Kept Raw V) : Label V → Prop
  | .advance i => ∀ key, s.1.calls i = some (.purge key) →
      ∀ item, s.1.items key = some item → item.expired s.1.now = true
  | .tick _ | .call _ _ => True

/-- And it is exact. -/
theorem exact_new (now : Time) : Exact ((.new now, .new) : Kept Raw V) :=
  ⟨fun _ => rfl, fun _ h => (by cases h)⟩

/-- The misses of the other calls are what they were. -/
theorem misses_advance {s : Kept Raw V} (he : Exact s) {i : ℕ} {pc pc' : Pc Raw V}
    (hmiss : pc' = .done .miss → ∀ item, (s.2.advance s.1.now i pc).seen i = some item →
      item.expired s.1.now = true) :
    ∀ j, Function.update s.1.calls i (some pc') j = some (.done .miss) →
      ∀ item, (s.2.advance s.1.now i pc).seen j = some item → item.expired s.1.now = true := by
  intro j hj item hseen
  rcases update_eq_some hj with ⟨rfl, hpc⟩ | ⟨hne, hj⟩
  · exact hmiss hpc.symm item hseen
  · rw [seen_advance hne] at hseen
    exact he.misses j hj item hseen

/-- **What keeps the cache exact.** -/
theorem exact_step_iff {s t : Kept Raw V} {l : Label V} (hi : Inv codec s) (he : Exact s)
    (hs : (memoryCache codec).step s l = some t) : Exact t ↔ Spares s l := by
  cases stepped hs with
  | tick hnow =>
    exact ⟨fun _ => trivial, fun _ => ⟨he.shows.later hnow, fun i hmiss item hseen =>
      item.expired_later hnow (he.misses i hmiss item hseen)⟩⟩
  | @call i request hnone =>
    refine ⟨fun _ => trivial, fun _ => ⟨he.shows, fun j hj => ?_⟩⟩
    rcases update_eq_some hj with ⟨rfl, hstart⟩ | ⟨-, hj⟩
    · cases request with
      | get key => cases hstart
      | set key value ttl =>
        rw [MemoryCache.start] at hstart
        split at hstart
        · cases hstart
        · cases hstart
      | delete keys => cases hstart
    · exact he.misses j hj
  | @advance i pc pc' items hpc hadvanced =>
    have hquiet : (∀ key, pc ≠ .purge key) → Spares s (.advance i : Label V) := fun hne key hkey =>
      absurd (Option.some.inj (hpc.symm.trans hkey)) (hne key)
    have hmisses : (pc' = .done .miss → ∀ item, (s.2.advance s.1.now i pc).seen i = some item →
        item.expired s.1.now = true) → _ := misses_advance he
    cases hadvanced with
    | @missed key hnone =>
      refine ⟨fun _ => hquiet fun _ h => (by cases h), fun _ => ⟨he.shows, hmisses ?_⟩⟩
      -- nothing was shown, as the cache and the record agree
      intro _ item hseen
      have hshown : (lifetime Raw).shown s.1.now.ns s.2.held key = none := by
        rw [← he.shows key, Lifetime.shown, hnone]
        rfl
      have hself : (s.2.advance s.1.now i (.read key : Pc Raw V)).seen i = none :=
        (Function.update_self _ _ _).trans hshown
      cases hself.symm.trans hseen
    | found _ | expired _ | answered _ _ | garbled _ _ | stamped =>
      exact ⟨fun _ => hquiet fun _ h => (by cases h), fun _ =>
        ⟨he.shows, hmisses fun h => (by cases h)⟩⟩
    | @purged key =>
      have hagree := Lifetime.agree_erase_iff (k := key) he.shows
      constructor
      · intro ht key' hkey' item hitem
        obtain rfl := Pc.purge.inj (Option.some.inj (hpc.symm.trans hkey'))
        exact live_eq_false.1 (hagree.1 ht.shows item hitem)
      · intro hspares
        refine ⟨hagree.2 fun item hitem => live_eq_false.2 (hspares key hpc item hitem), ?_⟩
        exact hmisses fun _ item hseen => hi.told i _ hpc item hseen
    | stored =>
      exact ⟨fun _ => hquiet fun _ h => (by cases h), fun _ =>
        ⟨he.shows.set _ _, hmisses fun h => (by cases h)⟩⟩
    | deleted =>
      exact ⟨fun _ => hquiet fun _ h => (by cases h), fun _ =>
        ⟨agree_without he.shows _, hmisses fun h => (by cases h)⟩⟩

/-- **When nothing is lost.**  In a run the cache shows throughout what was written to it,
and no `Get` misses what is there, exactly when no `Get` deletes an item that has not
expired: one that a `Set` has stored since the `Get` read the expired one. -/
theorem exact_iff (codec : Codec Raw V) (now : Time) (run : List (Label V)) :
    (memoryCache codec).Always Exact (.new now, .new) run ↔
      (memoryCache codec).Steps Spares (.new now, .new) run :=
  Machine.always_iff_steps (I := Inv codec) (P := Exact) (C := Spares)
    (fun _ _ _ hi he hs => ⟨exact_step_iff hi he hs, fun _ => hi.step hs⟩) (inv_new now)
    (exact_new now)

/-! ### Gets that are not disturbed -/

/-- The call is a `Get` that has read an item under the key. -/
def HasRead (key : String) (pc : Pc Raw V) : Prop :=
  (∃ item, pc = .check key item) ∨ pc = .purge key

/-- No `Set` stores under the key of a `Get` that has read an item there. -/
def Undisturbed (s : Kept Raw V) : Label V → Prop
  | .advance i => ∀ key item, s.1.calls i = some (.store key item) →
      ∀ j pc, s.1.calls j = some pc → ¬HasRead key pc
  | .tick _ | .call _ _ => True

/-- What a `Get` has read is all that is under its key. -/
def Finds (now : Time) (items : String → Option (MemoryItem Raw)) : Pc Raw V → Prop
  | .check key item => ∀ x, items key = some x → x = item
  | .purge key => ∀ x, items key = some x → x.expired now = true
  | .read _ | .stamp _ _ _ | .store _ _ | .delete _ | .done _ => True

/-- Fewer items are found, too, and later ones. -/
theorem Finds.mono {now now' : Time} {items items' : String → Option (MemoryItem Raw)}
    {pc : Pc Raw V} (hnow : now.ns ≤ now'.ns)
    (hitems : ∀ key, HasRead key pc → ∀ x, items' key = some x → items key = some x)
    (hf : Finds now items pc) : Finds now' items' pc := by
  cases pc with
  | check key item => exact fun x hx => hf x (hitems key (.inl ⟨item, rfl⟩) x hx)
  | purge key => exact fun x hx => x.expired_later hnow (hf x (hitems key (.inr rfl) x hx))
  | read _ | stamp _ _ _ | store _ _ | delete _ | done _ => trivial

/-- Deleting leaves no more than there was. -/
theorem without_below {m w : String → Option (MemoryItem Raw)} (hb : Lifetime.Below m w)
    (keys : List String) : Lifetime.Below (MemoryCache.without m keys) w := by
  induction keys generalizing m with
  | nil => exact hb
  | cons k keys ih => exact ih (hb.erase k)

/-- As long as nobody disturbs a `Get`, it finds what it has read. -/
theorem finds_step {s t : Kept Raw V} {l : Label V}
    (hf : ∀ i pc, s.1.calls i = some pc → Finds s.1.now s.1.items pc) (hu : Undisturbed s l)
    (hs : (memoryCache codec).step s l = some t) :
    ∀ i pc, t.1.calls i = some pc → Finds t.1.now t.1.items pc := by
  cases stepped hs with
  | tick hnow => exact fun i pc hpc => (hf i pc hpc).mono hnow fun _ _ _ h => h
  | @call i request _ =>
    intro j pc hj
    rcases update_eq_some hj with ⟨rfl, rfl⟩ | ⟨-, hj⟩
    · cases request with
      | get key => trivial
      | set key value ttl =>
        rw [MemoryCache.start]
        split
        · trivial
        · trivial
      | delete keys => trivial
    · exact hf j pc hj
  | @advance i pc pc' items hpc hadvanced =>
    -- the items under a key that another call has read only become fewer
    have hself : Lifetime.Below s.1.items s.1.items := fun _ _ h => h
    have hfewer : ∀ j pc, s.1.calls j = some pc → ∀ key, HasRead key pc →
        ∀ x, items key = some x → s.1.items key = some x := by
      intro j pc₀ hj key hread x hx
      cases hadvanced with
      | missed _ | found _ | expired _ | answered _ _ | garbled _ _ | stamped => exact hx
      | @purged key' => exact hself.erase key' key x hx
      | @stored key item =>
        rcases update_eq_some hx with ⟨rfl, -⟩ | ⟨-, hx⟩
        · exact absurd hread (hu key item hpc j pc₀ hj)
        · exact hx
      | @deleted keys => exact without_below hself keys key x hx
    intro j pc₁ hj
    rcases update_eq_some hj with ⟨rfl, rfl⟩ | ⟨-, hj⟩
    · have hfound := hf j _ hpc
      cases hadvanced with
      | found hitem => exact fun x hx => Option.some.inj (hx.symm.trans hitem)
      | expired hexpired => exact fun x hx => hfound x hx ▸ hexpired
      | missed _ | answered _ _ | garbled _ _ | purged | stamped | stored | deleted => trivial
    · exact (hf j pc₁ hj).mono (Int.le_refl _) (hfewer j pc₁ hj)

/-- **Gets that are left alone lose nothing.**  In every run in which no `Set` stores under
the key of a `Get` between its read and its end, the cache shows throughout what was
written to it, and no `Get` misses what is there. -/
theorem exact_of_undisturbed (codec : Codec Raw V) (now : Time) (run : List (Label V))
    (hrun : (memoryCache codec).Steps Undisturbed (.new now, .new) run) :
    (memoryCache codec).Always Exact (.new now, .new) run := by
  refine (Machine.always_of_steps (C := Undisturbed) (I := fun s => Inv codec s ∧ Exact s ∧
      ∀ i pc, s.1.calls i = some pc → Finds s.1.now s.1.items pc) (fun s l t hs hu ht => ?_)
    ⟨inv_new now, exact_new now, fun _ _ h => (by cases h)⟩ hrun).mono fun _ hs => hs.2.1
  obtain ⟨hi, he, hf⟩ := hs
  have hspares : Spares s l := by
    cases l with
    | tick _ | call _ _ => trivial
    | advance i => exact fun key hpc => hf i _ hpc
  exact ⟨hi.step ht, (exact_step_iff hi he ht).2 hspares, finds_step hf hu ht⟩

/-- Texts as they are. -/
def Codec.verbatim : Codec String String := ⟨some, some⟩

/-- A value is set for five units of time, read, and read again when it has expired. -/
def expiringRun : List (Label String) :=
  [.call 0 (.set "videos:list:recent" "[]" 5), .advance 0, .advance 0,
    .call 1 (.get "videos:list:recent"), .advance 1, .advance 1, .tick ⟨7⟩,
    .call 2 (.get "videos:list:recent"), .advance 2, .advance 2, .advance 2]

/-- `exact_of_undisturbed` along `expiringRun`. -/
theorem exact_of_undisturbed_expiringRun :
    (memoryCache .verbatim).Always Exact (.new ⟨1⟩, .new) expiringRun := by
  refine exact_of_undisturbed .verbatim ⟨1⟩ expiringRun ?_
  refine .cons rfl trivial (.cons rfl (fun _ _ h => (by cases h)) (.cons rfl ?_
    (.cons rfl trivial (.cons rfl (fun _ _ h => (by cases h)) (.cons rfl (fun _ _ h => (by cases h))
      (.cons rfl trivial (.cons rfl trivial (.cons rfl (fun _ _ h => (by cases h))
        (.cons rfl (fun _ _ h => (by cases h)) (.cons rfl (fun _ _ h => (by cases h))
          trivial))))))))))
  -- the only call there is when the value is stored is the one that stores it
  intro key item _ j pc hj hread
  rcases update_eq_some hj with ⟨-, rfl⟩ | ⟨hne, hj⟩
  · rcases hread with ⟨_, h⟩ | h
    · cases h
    · cases h
  · rcases update_eq_some hj with ⟨h, -⟩ | ⟨-, hj⟩
    · exact absurd h hne
    · cases hj

end Cache
end YtShare
