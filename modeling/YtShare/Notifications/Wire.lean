/-
# Events on the wire

`encoding/json` on the `Event` of
`backend/internal/modules/notifications/event.go`.  `Marshal` writes the fields
of the struct in their order, and `Unmarshal` stores the members of an object
one after the other into the field whose name they carry.  The payload is
declared `any`: what is read into it is a map, and a map is written with its
keys in order.

An object denotes a map: the order of its members means nothing, and of two
members with one key the later one counts.  `Json.decode` writes a value down
in one way only, and two texts denote the same value when it makes one value
of both (`JSONLibrary.Same`).

`JSONLibrary` is what the struct code relies on: a text denotes the value it
was written from, and identifiers and instants are read back from their texts.
-/

import YtShare.Core.UUIDText
import YtShare.Notifications.Event
import Mathlib.Data.String.Basic

namespace YtShare
namespace Notifications

/-! ### Values -/

namespace Json

/-- `m[k] = v` on a map that is written with its keys in order. -/
def assign (k : String) (v : Json) : List (String × Json) → List (String × Json)
  | [] => [(k, v)]
  | (k', v') :: fs =>
      if k < k' then (k, v) :: (k', v') :: fs
      else if k = k' then (k, v) :: fs
      else (k', v') :: assign k v fs

mutual

/-- What `json.Unmarshal` stores in an `any`.  A number is kept as it is
written. -/
def decode : Json → Json
  | .null => .null
  | .bool b => .bool b
  | .num literal => .num literal
  | .str s => .str s
  | .arr items => .arr (decodeItems items)
  | .obj fields => .obj (decodeFields fields [])

/-- The items of an array. -/
def decodeItems : List Json → List Json
  | [] => []
  | j :: js => decode j :: decodeItems js

/-- The members of an object, stored into a map one after the other. -/
def decodeFields : List (String × Json) → List (String × Json) → List (String × Json)
  | [], m => m
  | (k, j) :: fs, m => decodeFields fs (assign k (decode j) m)

end

/-- The keys are in order, each once. -/
def Sorted (fs : List (String × Json)) : Prop := fs.Pairwise fun a b => a.1 < b.1

/-- After an assignment there is the new field, and what was there. -/
theorem mem_assign {k : String} {v : Json} {fs : List (String × Json)} {p : String × Json}
    (h : p ∈ assign k v fs) : p = (k, v) ∨ p ∈ fs := by
  induction fs with
  | nil => exact .inl (List.mem_singleton.1 h)
  | cons q fs ih =>
    obtain ⟨k', v'⟩ := q
    rw [assign] at h
    split_ifs at h
    · exact List.mem_cons.1 h
    · exact (List.mem_cons.1 h).imp_right (List.mem_cons_of_mem _)
    · rcases List.mem_cons.1 h with h | h
      · exact .inr (h ▸ List.mem_cons_self)
      · exact (ih h).imp_right (List.mem_cons_of_mem _)

/-- An assignment keeps the keys in order. -/
theorem Sorted.assign {fs : List (String × Json)} (h : Sorted fs) (k : String) (v : Json) :
    Sorted (assign k v fs) := by
  induction fs with
  | nil => exact List.pairwise_singleton _ _
  | cons q fs ih =>
    obtain ⟨k', v'⟩ := q
    obtain ⟨hq, hfs⟩ := List.pairwise_cons.1 h
    rw [Json.assign]
    split_ifs with hlt heq
    · refine List.pairwise_cons.2 ⟨fun p hp => ?_, h⟩
      rcases List.mem_cons.1 hp with rfl | hp
      · exact hlt
      · exact hlt.trans (hq p hp)
    · subst heq
      exact List.pairwise_cons.2 ⟨hq, hfs⟩
    · refine List.pairwise_cons.2 ⟨fun p hp => ?_, ih hfs⟩
      rcases mem_assign hp with rfl | hp
      · exact lt_of_le_of_ne (not_lt.1 hlt) (Ne.symm heq)
      · exact hq p hp

/-- A key after all others comes last. -/
theorem assign_last {fs : List (String × Json)} {k : String} (h : ∀ p ∈ fs, p.1 < k) (v : Json) :
    assign k v fs = fs ++ [(k, v)] := by
  induction fs with
  | nil => rfl
  | cons q fs ih =>
    obtain ⟨k', v'⟩ := q
    have hlt : k' < k := h (k', v') List.mem_cons_self
    rw [assign, if_neg hlt.asymm, if_neg hlt.ne', ih fun p hp => h p (List.mem_cons_of_mem _ hp)]
    rfl

/-- The fields of a decoded object are in the order of their keys. -/
theorem sorted_decodeFields (fs : List (String × Json)) {m : List (String × Json)}
    (hm : Sorted m) : Sorted (decodeFields fs m) := by
  induction fs generalizing m with
  | nil => exact hm
  | cons p fs ih =>
    obtain ⟨k, j⟩ := p
    rw [decodeFields]
    exact ih (hm.assign k _)

/-- Members in order whose values are written down already are a map as they
are. -/
theorem decodeFields_of_sorted {fs : List (String × Json)} (hv : ∀ p ∈ fs, p.2.decode = p.2)
    {m : List (String × Json)} (h : Sorted (m ++ fs)) : decodeFields fs m = m ++ fs := by
  induction fs generalizing m with
  | nil => rw [decodeFields, List.append_nil]
  | cons p fs ih =>
    obtain ⟨k, j⟩ := p
    have hlast : ∀ q ∈ m, q.1 < k := fun q hq =>
      (List.pairwise_append.1 h).2.2 q hq (k, j) List.mem_cons_self
    rw [decodeFields, hv (k, j) List.mem_cons_self, assign_last hlast,
      ih (fun q hq => hv q (List.mem_cons_of_mem _ hq)) (by rwa [List.append_assoc])]
    exact List.append_assoc ..

/-- And each of them is one of the fields that were read, decoded. -/
theorem mem_decodeFields {fs m : List (String × Json)} {p : String × Json}
    (h : p ∈ decodeFields fs m) : p ∈ m ∨ ∃ q ∈ fs, p.2 = q.2.decode := by
  induction fs generalizing m with
  | nil => exact .inl h
  | cons q fs ih =>
    obtain ⟨k, j⟩ := q
    rcases ih h with h | ⟨q, hq, hp⟩
    · rcases mem_assign h with rfl | h
      · exact .inr ⟨(k, j), List.mem_cons_self, rfl⟩
      · exact .inl h
    · exact .inr ⟨q, List.mem_cons_of_mem _ hq, hp⟩

mutual

/-- **What was decoded is written down in the one way.** -/
theorem decode_decode : ∀ j : Json, j.decode.decode = j.decode
  | .null => rfl
  | .bool _ => rfl
  | .num _ => rfl
  | .str _ => rfl
  | .arr items => by rw [decode, decode, decodeItems_decodeItems items]
  | .obj fields => by
      have hv : ∀ p ∈ decodeFields fields [], p.2.decode = p.2 := by
        intro p hp
        rcases mem_decodeFields hp with hp | ⟨q, hq, hp⟩
        · exact absurd hp List.not_mem_nil
        · rw [hp]
          exact decode_decode_field fields q hq
      rw [decode, decode, decodeFields_of_sorted hv (sorted_decodeFields fields List.Pairwise.nil)]
      rfl

/-- Items that were decoded once stay as they are. -/
theorem decodeItems_decodeItems : ∀ js : List Json, decodeItems (decodeItems js) = decodeItems js
  | [] => rfl
  | j :: js => by rw [decodeItems, decodeItems, decode_decode j, decodeItems_decodeItems js]

/-- And so does the value of each field. -/
theorem decode_decode_field :
    ∀ (fs : List (String × Json)) (q : String × Json), q ∈ fs → q.2.decode.decode = q.2.decode
  | (_, j) :: fs, q, hq => by
      rcases List.mem_cons.1 hq with rfl | hq
      · exact decode_decode j
      · exact decode_decode_field fs q hq

end

end Json

/-! ### The library -/

/-- What the codec of a struct relies on in `encoding/json`, over a type `Raw`
of texts: a text denotes the value it was written from, and the texts of an
identifier and of an instant are read back.  `rfc3339` fails on a year that
RFC 3339 cannot write. -/
structure JSONLibrary (Raw : Type) where
  encode : Json → Raw
  value : Raw → Option Json
  uuid : String → Option UUID
  rfc3339 : Time → Option String
  time : String → Option Time
  value_encode : ∀ j, value (encode j) = some j
  uuid_string : ∀ u, uuid u.string = some u
  time_rfc3339 : ∀ t s, rfc3339 t = some s → time s = some t

/-- Two texts denote the same JSON value. -/
def JSONLibrary.Same {Raw : Type} (lib : JSONLibrary Raw) (raw raw' : Raw) : Prop :=
  ∃ j j', lib.value raw = some j ∧ lib.value raw' = some j' ∧ j.decode = j'.decode

/-! ### The struct -/

/-- `isEmptyValue` of `encoding/json` on an array of so many elements, which
`omitempty` leaves out. -/
def isEmptyArray (len : ℕ) : Bool := decide (len = 0)

/-- The length of a `[16]byte`. -/
def UUID.len : ℕ := 16

namespace Event

variable {Raw : Type}

/-- `json.Marshal` of an `Event`, as the value its text is written from. -/
def toJSON (lib : JSONLibrary Raw) (e : Event) : Option Json :=
  (lib.rfc3339 e.timestamp).map fun t => .obj
    ([("id", .str e.id.string), ("type", .str e.type), ("timestamp", .str t)] ++
      (if isEmptyArray UUID.len = true then [] else [("recipientId", .str e.recipientID.string)]) ++
      [("payload", e.payload.json)])

/-- The fields of the struct. -/
inductive Field
  | id
  | type
  | timestamp
  | recipientID
  | payload
deriving DecidableEq

/-- The fields by the names of their tags. -/
def fields : List (String × Field) :=
  [("id", .id), ("type", .type), ("timestamp", .timestamp), ("recipientId", .recipientID),
    ("payload", .payload)]

/-- `foldName`: the letter case of a name is ignored, and two letters beyond
ASCII fold to letters of ASCII. -/
def foldName (name : String) : List Char :=
  name.toList.map fun c => if c = '\u017f' then 's' else if c = '\u212a' then 'k' else c.toLower

/-- The field that a member of an object is stored into: the one of that name,
else one whose name folds alike. -/
def fieldOf (name : String) : Option Field :=
  match fields.lookup name with
  | some f => some f
  | none => (fields.find? fun f => decide (foldName f.1 = foldName name)).map Prod.snd

/-- One member stored into the struct, `none` for an error. -/
def store (lib : JSONLibrary Raw) (e : Event) (name : String) (v : Json) : Option Event :=
  match fieldOf name, v with
  | none, _ => some e
  | some .payload, v => some { e with payload := .decoded v.decode }
  | some _, .null => some e
  | some .id, .str s => (lib.uuid s).map fun u => { e with id := u }
  | some .type, .str s => some { e with type := s }
  | some .timestamp, .str s => (lib.time s).map fun t => { e with timestamp := t }
  | some .recipientID, .str s => (lib.uuid s).map fun u => { e with recipientID := u }
  | some _, _ => none

/-- The members stored one after the other. -/
def storeAll (lib : JSONLibrary Raw) : Event → List (String × Json) → Option Event
  | e, [] => some e
  | e, (name, v) :: fs => (e.store lib name v).bind fun e => storeAll lib e fs

/-- The zero `Event`. -/
def zero : Event := ⟨UUID.nil, "", ⟨0⟩, UUID.nil, .decoded .null⟩

/-- `json.Unmarshal` into a zero `Event`. -/
def ofJSON (lib : JSONLibrary Raw) : Json → Option Event
  | .null => some zero
  | .obj fs => storeAll lib zero fs
  | _ => none

/-- The event as it is read back from its text: only the Go type of the payload
is another. -/
def reread (e : Event) : Event := { e with payload := .decoded e.payload.json.decode }

/-- The key `id` is that of the id. -/
theorem fieldOf_id : fieldOf "id" = some .id := by decide
/-- The key `type` is that of the type. -/
theorem fieldOf_type : fieldOf "type" = some .type := by decide
/-- The key `timestamp` is that of the timestamp. -/
theorem fieldOf_timestamp : fieldOf "timestamp" = some .timestamp := by decide
/-- The key `recipientId` is that of the recipient. -/
theorem fieldOf_recipientID : fieldOf "recipientId" = some .recipientID := by decide
/-- The key `payload` is that of the payload. -/
theorem fieldOf_payload : fieldOf "payload" = some .payload := by decide

/-- **An event is read back, but for the Go type of its payload.** -/
theorem ofJSON_toJSON {lib : JSONLibrary Raw} {e : Event} {j : Json} (h : e.toJSON lib = some j) :
    ofJSON lib j = some e.reread := by
  obtain ⟨t, ht, rfl⟩ := Option.map_eq_some_iff.1 h
  have hlen : isEmptyArray UUID.len = false := rfl
  rw [hlen]
  simp only [Bool.false_eq_true, if_false, List.cons_append, List.nil_append]
  simp only [ofJSON, storeAll, store, fieldOf_id, fieldOf_type, fieldOf_timestamp,
    fieldOf_recipientID, fieldOf_payload, lib.uuid_string, lib.time_rfc3339 _ _ ht,
    Option.map_some, Option.bind_some]
  rfl

end Event

namespace JSONLibrary

variable {Raw : Type}

/-- `json.Marshal` and `json.Unmarshal` on events. -/
def events (lib : JSONLibrary Raw) : EventJSON Raw where
  marshal e := (e.toJSON lib).map lib.encode
  unmarshal raw := (lib.value raw).bind (Event.ofJSON lib)
  unmarshal_marshal e raw h := by
    obtain ⟨j, hj, rfl⟩ := Option.map_eq_some_iff.1 h
    refine ⟨e.payload.json.decode, ?_⟩
    rw [lib.value_encode, Option.bind_some, Event.ofJSON_toJSON hj]
    rfl

/-- A text that `Marshal` wrote is read back. -/
theorem unmarshal_of_marshal {lib : JSONLibrary Raw} {e : Event} {raw : Raw}
    (h : lib.events.marshal e = some raw) :
    lib.events.unmarshal raw = some e.reread := by
  obtain ⟨j, hj, rfl⟩ := Option.map_eq_some_iff.1 h
  show (lib.value (lib.encode j)).bind (Event.ofJSON lib) = _
  rw [lib.value_encode, Option.bind_some, Event.ofJSON_toJSON hj]

/-- Whether an event can be written depends on its timestamp alone. -/
theorem marshal_eq_none {lib : JSONLibrary Raw} {e : Event} :
    lib.events.marshal e = none ↔ lib.rfc3339 e.timestamp = none := by
  show ((e.toJSON lib).map lib.encode) = none ↔ _
  rw [Option.map_eq_none_iff, Event.toJSON, Option.map_eq_none_iff]

/-- The value of a text that `Marshal` wrote. -/
theorem value_of_marshal {lib : JSONLibrary Raw} {e : Event} {raw : Raw}
    (h : lib.events.marshal e = some raw) : lib.value raw = e.toJSON lib := by
  obtain ⟨j, hj, rfl⟩ := Option.map_eq_some_iff.1 h
  rw [lib.value_encode, hj]

/-- **An event that was stored and read is written with the same value.** -/
theorem same_marshal {lib : JSONLibrary Raw} {e : Event} {raw : Raw}
    (h : lib.events.marshal e = some raw) :
    ∃ raw', lib.events.marshal e.reread = some raw' ∧ lib.Same raw raw' := by
  cases hraw : lib.events.marshal e.reread with
  | none =>
    have htime : lib.rfc3339 e.timestamp = none := (marshal_eq_none (e := e.reread)).1 hraw
    rw [marshal_eq_none.2 htime] at h
    cases h
  | some raw' =>
    refine ⟨raw', rfl, ?_⟩
    have hv := value_of_marshal h
    have hv' := value_of_marshal hraw
    cases ht : lib.rfc3339 e.timestamp with
    | none =>
      rw [marshal_eq_none.2 ht] at h
      cases h
    | some t =>
      rw [Event.toJSON, ht] at hv
      rw [Event.toJSON, show lib.rfc3339 e.reread.timestamp = some t from ht] at hv'
      refine ⟨_, _, hv, hv', ?_⟩
      have hlen : isEmptyArray UUID.len = false := rfl
      rw [hlen]
      simp only [Bool.false_eq_true, if_false, List.cons_append, List.nil_append, Json.decode,
        Json.decodeFields, Event.reread, Payload.json, Json.decode_decode]

/-- The first instant of 2024. -/
def newYear : Time := ⟨63839664000 * 10 ^ 9⟩

/-- A library whose texts are the values themselves, and which knows the text of
one instant. -/
def reference : JSONLibrary Json where
  encode j := j
  value j := some j
  uuid := UUID.parse
  rfc3339 t := if t = newYear then some "2024-01-01T00:00:00Z" else none
  time s := if s = "2024-01-01T00:00:00Z" then some newYear else none
  value_encode _ := rfl
  uuid_string := UUID.parse_string
  time_rfc3339 t s h := by
    split_ifs at h with ht
    rw [← Option.some.inj h, if_pos rfl, ht]

end JSONLibrary

end Notifications
end YtShare
