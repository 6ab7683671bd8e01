/-
# Videos

The data of `backend/internal/modules/videos`: `model.go`, `dto.go`, the links
of `youtube.go`, and the errors of `service.go` with the answers that
`Handler.share` makes of them.
-/

import YtShare.Core.Http
import YtShare.Users.Repository

namespace YtShare
namespace Videos

open Users

/-- `Video`.  `sharedBy` is no column: `Preload("SharedBy")` fills it in. -/
structure Video where
  id : UUID
  youTubeID : String
  url : String
  title : String
  description : String
  thumbnailURL : String
  sharedByID : UUID
  sharedBy : User
  createdAt : Time
deriving DecidableEq

/-- `SharedBy`. -/
structure SharedBy where
  id : UUID
  name : String
  email : String
deriving DecidableEq

/-- `VideoView`. -/
structure VideoView where
  id : UUID
  youTubeID : String
  url : String
  title : String
  description : String
  thumbnailURL : String
  sharedAt : Time
  sharedBy : SharedBy
deriving DecidableEq

/-- `ToView`. -/
def toView (v : Video) : VideoView where
  id := v.id
  youTubeID := v.youTubeID
  url := v.url
  title := v.title
  description := v.description
  thumbnailURL := v.thumbnailURL
  sharedAt := v.createdAt
  sharedBy := ⟨v.sharedBy.id, v.sharedBy.name, v.sharedBy.email⟩

/-- `ListResponse`. -/
structure ListResponse where
  items : List VideoView
  total : ℕ
deriving DecidableEq

/-- `ShareRequest`. -/
structure ShareRequest where
  url : String
  title : String
  description : String

/-- `ThumbnailURL`. -/
def thumbnailURL (youTubeID : String) : String :=
  "https://img.youtube.com/vi/" ++ youTubeID ++ "/hqdefault.jpg"

/-- `WatchURL`. -/
def watchURL (youTubeID : String) : String := "https://www.youtube.com/watch?v=" ++ youTubeID

/-- The errors of `Service.Share`: `ErrInvalidURL`, `ErrAlreadyShared`, and any
error of the repositories, wrapped or not. -/
inductive ShareError
  | invalidURL
  | alreadyShared
  | repository
deriving DecidableEq

/-- The error that `Handler.share` writes. -/
def ShareError.failure : ShareError → Failure
  | .invalidURL => .http ⟨400, "invalid_url", "could not parse YouTube URL"⟩
  | .alreadyShared => .http ⟨409, "already_shared", "this video has already been shared"⟩
  | .repository => .other

end Videos
end YtShare
