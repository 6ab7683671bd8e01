/-
# The notification handlers

`backend/internal/modules/notifications/handler.go`: `GET /notifications/since`
and the backlog that `GET /notifications/ws` writes to a socket before its live
frames.  Both read it from the `Replayer`, which a server without Redis does
not have.
-/

import YtShare.Core.Http
import YtShare.Core.Strconv
import YtShare.Notifications.Stream

namespace YtShare
namespace Notifications

variable {Raw : Type}

/-- `Replayer.Replay`, `none` for its error. -/
abbrev Replayer := String → ℤ → Option (List Event)

/-- `wsReplayLimit`. -/
def wsReplayLimit : ℤ := 100

namespace Handler

/-- The answer to `/since` on a server without a `Replayer`. -/
def replayUnsupported : HTTPError :=
  ⟨501, "replay_unsupported", "event replay is not configured"⟩

/-- The limit of a request to `/since`, from the text of its `limit`. -/
def sinceLimit (raw : String) : ℤ :=
  match atoi raw with
  | some n => if 0 < n then n else 100
  | none => 100

/-- `Handler.since`: the events of the answer, or its error.  `id` and `limit`
are the values of the query, empty when they are missing. -/
def since (replayer : Option Replayer) (id limit : String) : Except Failure (List Event) :=
  match replayer with
  | none => .error (.http replayUnsupported)
  | some replay =>
      match replay id (if limit ≠ "" then sinceLimit limit else 100) with
      | none => .error .other
      | some events => .ok events

/-- The loop of `replayBacklog` over the events, on a connection that accepts
`writes` more frames before a write fails. -/
def writeBacklog (json : EventJSON Raw) (userID : UUID) : List Event → ℕ → List Raw
  | [], _ => []
  | evt :: events, writes =>
      if evt.recipientID ≠ UUID.nil ∧ evt.recipientID ≠ userID then
        writeBacklog json userID events writes
      else
        match json.marshal evt with
        | none => writeBacklog json userID events writes
        | some raw =>
            match writes with
            | 0 => []
            | writes + 1 => raw :: writeBacklog json userID events writes

/-- `Handler.replayBacklog`: the frames it writes. -/
def replayBacklog (replay : Replayer) (json : EventJSON Raw) (userID : UUID) (sinceID : String)
    (writes : ℕ) : List Raw :=
  match replay sinceID wsReplayLimit with
  | none => []
  | some events => writeBacklog json userID events writes

/-- What `Handler.handle` writes before the live frames. -/
def backlog (replayer : Option Replayer) (json : EventJSON Raw) (userID : UUID) (since : String)
    (writes : ℕ) : List Raw :=
  match replayer with
  | none => []
  | some replay => if since ≠ "" then replayBacklog replay json userID since writes else []

/-- Without a limit in the query a hundred events are asked for. -/
theorem sinceLimit_empty : sinceLimit "" = 100 := by decide

/-- A limit that is missing is read as one that is no number. -/
theorem since_some (replay : Replayer) (id limit : String) :
    since (some replay) id limit =
      match replay id (sinceLimit limit) with
      | none => .error .other
      | some events => .ok events := by
  simp only [since]
  split_ifs with hl
  · rfl
  · rw [not_not.1 hl, sinceLimit_empty]

/-- **What the backlog writes** are the texts of events that are for the user. -/
theorem mem_writeBacklog {json : EventJSON Raw} {userID : UUID} {raw : Raw} (events : List Event)
    (writes : ℕ) (h : raw ∈ writeBacklog json userID events writes) :
    ∃ evt ∈ events, evt.isFor userID = true ∧ json.marshal evt = some raw := by
  induction events generalizing writes with
  | nil => exact absurd h List.not_mem_nil
  | cons evt events ih =>
    have hrest : ∀ n, raw ∈ writeBacklog json userID events n →
        ∃ e ∈ evt :: events, e.isFor userID = true ∧ json.marshal e = some raw := by
      intro n hn
      obtain ⟨e, he, hfor⟩ := ih n hn
      exact ⟨e, List.mem_cons_of_mem evt he, hfor⟩
    rw [writeBacklog] at h
    split_ifs at h with hskip
    · exact hrest _ h
    · cases hmarshal : json.marshal evt with
      | none =>
        rw [hmarshal] at h
        exact hrest _ h
      | some raw' =>
        rw [hmarshal] at h
        cases writes with
        | zero => exact absurd h List.not_mem_nil
        | succ n =>
          rcases List.mem_cons.1 h with rfl | h
          · refine ⟨evt, List.mem_cons_self, Event.isFor_iff.2 ?_, hmarshal⟩
            by_cases hnil : evt.recipientID = UUID.nil
            · exact .inl hnil
            · exact .inr (not_not.1 fun hne => hskip ⟨hnil, hne⟩)
          · exact hrest _ h

end Handler

end Notifications
end YtShare
