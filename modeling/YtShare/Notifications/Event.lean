/-
# Events

`backend/internal/modules/notifications/event.go`.  An event is the unit that
every delivery path carries.  Its payload is declared `any`: a publisher puts a
`VideoSharedPayload` there, and what `json.Unmarshal` makes of a stored event
is a generic JSON value.

`EventJSON` is what the code relies on in `encoding/json` for events: `Marshal`,
which fails on a timestamp outside the years RFC 3339 can write, and
`Unmarshal`, which fails on text that is no event and gives back what
`Marshal` wrote, but for the Go type of the payload.  Nothing here depends on
how the text looks, so its type is a parameter.
-/

import YtShare.Core.UUID

namespace YtShare
namespace Notifications

/-- A value that `json.Unmarshal` stores in an `any`. -/
inductive Json
  | null
  | bool (b : Bool)
  | num (literal : String)
  | str (s : String)
  | arr (items : List Json)
  | obj (fields : List (String × Json))

/-- `EventType`. -/
abbrev EventType := String

/-- `EventVideoShared`. -/
def eventVideoShared : EventType := "video_shared"

/-- `VideoSharedPayload`. -/
structure VideoSharedPayload where
  videoID : UUID
  youTubeID : String
  title : String
  thumbnailURL : String
  sharedByID : UUID
  sharedByName : String
deriving DecidableEq

/-- What the `Payload any` field of an event holds. -/
inductive Payload
  | videoShared (p : VideoSharedPayload)
  | decoded (j : Json)

/-- `Event`.  `recipientID = UUID.nil` means broadcast. -/
structure Event where
  id : UUID
  type : EventType
  timestamp : Time
  recipientID : UUID
  payload : Payload

/-- `encoding/json` on events, over a type `Raw` of encoded texts. -/
structure EventJSON (Raw : Type) where
  marshal : Event → Option Raw
  unmarshal : Raw → Option Event
  unmarshal_marshal : ∀ e raw, marshal e = some raw →
    ∃ j, unmarshal raw = some { e with payload := .decoded j }

/-- The JSON value of a payload, with the keys of its struct tags. -/
def Payload.json : Payload → Json
  | .decoded j => j
  | .videoShared p => .obj [("videoId", .str p.videoID.string), ("youtubeId", .str p.youTubeID),
      ("title", .str p.title), ("thumbnailUrl", .str p.thumbnailURL),
      ("sharedById", .str p.sharedByID.string), ("sharedByName", .str p.sharedByName)]

/-- An encoding whose texts are the events themselves. -/
def EventJSON.verbatim : EventJSON Event where
  marshal e := some e
  unmarshal e := some { e with payload := .decoded e.payload.json }
  unmarshal_marshal e _ h := ⟨e.payload.json, by rw [← Option.some.inj h]⟩

/-- The event is a broadcast or is addressed to `u`. -/
def Event.isFor (e : Event) (u : UUID) : Bool :=
  decide (e.recipientID = UUID.nil ∨ e.recipientID = u)

/-- An event is for a user if it is for everyone or for this one. -/
theorem Event.isFor_iff {e : Event} {u : UUID} :
    e.isFor u = true ↔ e.recipientID = UUID.nil ∨ e.recipientID = u :=
  decide_eq_true_iff

end Notifications
end YtShare
