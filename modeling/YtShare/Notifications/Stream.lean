/-
# The event stream

`backend/internal/modules/notifications/stream.go`: the publisher that appends
events to a Redis stream and replays them.

A stream holds entries in the order of their ids, which Redis gives out.  What
the code relies on in Redis is stated by `Redis`: `XRANGE` from `"(" + id` reads
the entries strictly after `id` when `id` is written `<ms>` or `<ms>-<seq>` in
decimal numbers (`StreamID.parse`), and is an error when it is not.  `Redis.reference` is a
server that does so.
-/

import YtShare.Core.Strconv
import YtShare.Lib.Log
import YtShare.Notifications.Event
import Mathlib.Data.List.TakeWhile
import Mathlib.Data.Prod.Lex

namespace YtShare
namespace Notifications

open Lib

/-! ### Streams -/

/-- The id of a stream entry, `<ms>-<seq>`, in the order of the stream. -/
abbrev StreamID := ℕ ×ₗ ℕ

namespace StreamID

/-- `<ms>-<seq>`. -/
def of (ms seq : ℕ) : StreamID := toLex (ms, seq)

/-- The two numbers fit in the 64 bits Redis has for them, and the id is not
the largest there is, after which Redis reads no range. -/
def Fits (id : StreamID) : Prop :=
  (ofLex id).1 < 2 ^ 64 ∧ (ofLex id).2 < 2 ^ 64 ∧ id ≠ of (2 ^ 64 - 1) (2 ^ 64 - 1)

instance (id : StreamID) : Decidable id.Fits := inferInstanceAs (Decidable (_ ∧ _ ∧ _))

/-- The id that a text writes, of whatever size: `<ms>-<seq>`, or `<ms>` for
`<ms>-0`. -/
def read (s : String) : Option StreamID :=
  let ms := decimal (s.toList.takeWhile fun c => decide (c ≠ '-'))
  match s.toList.dropWhile fun c => decide (c ≠ '-') with
  | [] => ms.map fun m => of m 0
  | _ :: seq => ms.bind fun m => (decimal seq).map fun n => of m n

/-- The id that a text writes, when Redis takes it as the start of a range. -/
def parse (s : String) : Option StreamID := (read s).filter fun id => decide id.Fits

/-- A text that writes an id has at most one dash. -/
theorem count_dash_of_read {s : String} {id : StreamID} (h : read s = some id) :
    s.toList.count '-' ≤ 1 := by
  have hsplit :=
    List.takeWhile_append_dropWhile (p := fun c : Char => decide (c ≠ '-')) (l := s.toList)
  have hms : (s.toList.takeWhile fun c => decide (c ≠ '-')).count '-' = 0 :=
    List.count_eq_zero.2 fun hmem => by simpa using List.mem_takeWhile_imp hmem
  have hcount : s.toList.count '-' = (s.toList.dropWhile fun c => decide (c ≠ '-')).count '-' := by
    conv_lhs => rw [← hsplit]
    rw [List.count_append, hms, Nat.zero_add]
  rw [hcount]
  simp only [read] at h
  split at h
  case h_1 heq => rw [heq]; exact Nat.zero_le _
  case h_2 c seq heq =>
    obtain ⟨m, -, hm⟩ := Option.bind_eq_some_iff.1 h
    obtain ⟨n, hn, -⟩ := Option.map_eq_some_iff.1 hm
    have hseq : seq.count '-' = 0 := List.count_eq_zero.2 fun hmem =>
      absurd (all_isDigit_of_decimal hn '-' hmem) (by decide)
    rw [heq, List.count_cons, hseq]
    split_ifs <;> omega

/-- An id of the stream has one dash at most, where a UUID has four. -/
theorem count_dash_of_parse {s : String} {id : StreamID} (h : parse s = some id) :
    s.toList.count '-' ≤ 1 :=
  count_dash_of_read (Option.filter_eq_some_iff.1 h).1

end StreamID

/-- A stream entry: its id, and its `data` field when that is a string. -/
structure Entry (Raw : Type) where
  id : StreamID
  data : Option Raw

/-- What a stream holds. -/
structure Stream (Raw : Type) where
  entries : List (Entry Raw)
  ordered : Ordered Entry.id entries
  positive : ∀ x ∈ entries, StreamID.of 0 0 < x.id

namespace Stream

variable {Raw : Type}

/-- The stream before anything was appended. -/
def empty : Stream Raw := ⟨[], List.Pairwise.nil, nofun⟩

/-- The id is later than every id of the stream. -/
def Fresh (s : Stream Raw) (id : StreamID) : Prop :=
  StreamID.of 0 0 < id ∧ ∀ x ∈ s.entries, x.id < id

instance (s : Stream Raw) (id : StreamID) : Decidable (s.Fresh id) :=
  inferInstanceAs (Decidable (_ ∧ ∀ x ∈ s.entries, x.id < id))

/-- `XADD` of an entry that Redis gives a fresh id. -/
def add (s : Stream Raw) (x : Entry Raw) (hx : s.Fresh x.id) : Stream Raw where
  entries := s.entries ++ [x]
  ordered := s.ordered.snoc hx.2
  positive y hy := by
    rcases List.mem_append.1 hy with hy | hy
    · exact s.positive y hy
    · rw [List.mem_singleton.1 hy]
      exact hx.1

/-- The entries after `id`. -/
def after (s : Stream Raw) (id : StreamID) : List (Entry Raw) := Lib.after Entry.id id s.entries

/-- After `0-0` comes everything. -/
theorem after_zero (s : Stream Raw) : s.after (.of 0 0) = s.entries := after_eq_self s.positive

/-- The id that stands before the entry at position `m`: that of the entry
before it, `0-0` at the beginning. -/
def idAt (s : Stream Raw) : ℕ → StreamID
  | 0 => .of 0 0
  | m + 1 => (s.entries[m]?.map Entry.id).getD (.of 0 0)

/-- The last id of the stream, which `XREAD` takes for `$`. -/
def lastID (s : Stream Raw) : StreamID := s.idAt s.entries.length

/-- The id at a place is that of the entry before it. -/
theorem idAt_succ {s : Stream Raw} {m : ℕ} {x : Entry Raw} (hx : s.entries[m]? = some x) :
    s.idAt (m + 1) = x.id := by
  rw [idAt, hx]
  rfl

/-- **Reading from a position.** -/
theorem after_idAt {s : Stream Raw} {m : ℕ} (hm : m ≤ s.entries.length) :
    s.after (s.idAt m) = s.entries.drop m := by
  cases m with
  | zero => exact s.after_zero
  | succ m =>
    have hx : s.entries[m]? = some s.entries[m] := List.getElem?_eq_getElem hm
    rw [idAt_succ hx]
    exact s.ordered.after_of_getElem? hx

/-- And it stays when an entry is appended. -/
theorem idAt_add {s : Stream Raw} {x : Entry Raw} (hx : s.Fresh x.id) {m : ℕ}
    (hm : m ≤ s.entries.length) : (s.add x hx).idAt m = s.idAt m := by
  cases m with
  | zero => rfl
  | succ m =>
    show (((s.entries ++ [x])[m]?).map Entry.id).getD _ = _
    rw [List.getElem?_append_left hm]
    rfl

end Stream

/-- A Redis server, as far as the code relies on it: `XRANGE key start stop
COUNT n`, `none` for an error reply. -/
structure Redis (Raw : Type) where
  xrangeN : Stream Raw → String → String → ℕ → Option (List (Entry Raw))
  rejects : ∀ s id n, StreamID.parse id = none → xrangeN s ("(" ++ id) "+" n = none
  ranges : ∀ s id n i, StreamID.parse id = some i →
    xrangeN s ("(" ++ id) "+" n = some ((s.after i).take n)

/-- A server that answers `XRANGE` from an exclusive start to the end. -/
def Redis.reference (Raw : Type) : Redis Raw where
  xrangeN s start stop n :=
    match start.toList with
    | '(' :: id =>
        if stop = "+" then (StreamID.parse (String.ofList id)).map fun i => (s.after i).take n
        else none
    | _ => none
  rejects s id n h := by
    simp only [String.toList_append]
    show ((StreamID.parse (String.ofList id.toList)).map _) = none
    rw [String.ofList_toList, h]
    rfl
  ranges s id n i h := by
    simp only [String.toList_append]
    show ((StreamID.parse (String.ofList id.toList)).map _) = _
    rw [String.ofList_toList, h]
    rfl

/-! ### The publisher -/

/-- `replayMaxLimit`. -/
def replayMaxLimit : ℤ := 500

namespace StreamPublisher

variable {Raw : Type}

/-- What `Publish` makes of an event before it stores it: `uuid.New()` for a
missing id and the current time for a missing timestamp. -/
def stamp (newID : UUID) (now : Time) (evt : Event) : Event :=
  { evt with
    id := if evt.id = UUID.nil then newID else evt.id
    timestamp := if evt.timestamp.isZero = true then now else evt.timestamp }

/-- `StreamPublisher.Publish`: the entry it appends, under the id that Redis
gives it; `none` when the event cannot be marshalled. -/
def publish (json : EventJSON Raw) (newID : UUID) (now : Time) (id : StreamID) (evt : Event) :
    Option (Entry Raw) :=
  (json.marshal (stamp newID now evt)).map fun raw => ⟨id, some raw⟩

/-- The event of an entry, `none` when it has no string `data` field or that is
no event; `Replay` and `Subscriber.dispatch` skip such entries. -/
def decode (json : EventJSON Raw) (m : Entry Raw) : Option Event := m.data.bind json.unmarshal

/-- The number of entries that `Replay` asks for. -/
def clampLimit (limit : ℤ) : ℕ :=
  (if limit ≤ 0 ∨ replayMaxLimit < limit then replayMaxLimit else limit).toNat

/-- The cursor of `Replay`: `""` is read as `"0"`. -/
def cursor (sinceID : String) : String := if sinceID = "" then "0" else sinceID

/-- `StreamPublisher.Replay`, `none` when `XRANGE` fails. -/
def replay (redis : Redis Raw) (json : EventJSON Raw) (s : Stream Raw) (sinceID : String)
    (limit : ℤ) : Option (List Event) :=
  (redis.xrangeN s ("(" ++ cursor sinceID) "+" (clampLimit limit)).map fun msgs =>
    msgs.filterMap (decode json)

/-- **What a replay answers:** an error when the cursor is no stream id, and
otherwise so many entries after it, without those that do not decode. -/
theorem replay_eq (redis : Redis Raw) (json : EventJSON Raw) (s : Stream Raw) (sinceID : String)
    (limit : ℤ) :
    replay redis json s sinceID limit = (StreamID.parse (cursor sinceID)).map fun i =>
      ((s.after i).take (clampLimit limit)).filterMap (decode json) := by
  unfold replay
  cases h : StreamID.parse (cursor sinceID) with
  | none => rw [redis.rejects _ _ _ h]; rfl
  | some i => rw [redis.ranges _ _ _ _ h]; rfl

/-- What is stored is the stamped event. -/
theorem decode_publish {json : EventJSON Raw} {newID : UUID} {now : Time} {id : StreamID}
    {evt : Event} {x : Entry Raw} (h : publish json newID now id evt = some x) :
    x.id = id ∧ ∃ j, decode json x = some { stamp newID now evt with payload := .decoded j } := by
  obtain ⟨raw, hraw, rfl⟩ := Option.map_eq_some_iff.1 h
  exact ⟨rfl, json.unmarshal_marshal _ _ hraw⟩

end StreamPublisher

end Notifications
end YtShare
