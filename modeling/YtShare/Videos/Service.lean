/-
# The video service

`Service.Share` and `Service.List` of `backend/internal/modules/videos/service.go`,
run from start to end.  `Backend` is what a call finds and leaves: the tables,
the entry under `listCacheKey` and the jobs given to the worker.  `ExtractYouTubeID`
is a parameter here, and what the outside decides about a call, which of its
repository and cache calls fail and what the clock and `uuid.New` say, is its
`ShareEnv` or `ListEnv`.

The steps of a call are the functions `lookup`, `insert`, … below, so that
`Videos.Calls` can take them one at a time.
-/

import YtShare.Core.Strings
import YtShare.Notifications.Event
import YtShare.Videos.Repository

namespace YtShare
namespace Videos

open Users Notifications

/-- The tables, the cached list and the submitted jobs.  A job publishes the
event of a shared video. -/
structure Backend where
  store : Store
  cache : Option ListResponse
  jobs : List VideoSharedPayload

namespace Service

/-! ### Share -/

/-- What the outside decides about a call of `Share`. -/
structure ShareEnv where
  lookupFails : Bool
  sharerFails : Bool
  createFails : Bool
  deleteFails : Bool
  newID : UUID
  now : Time

/-- The lookup of an existing video: whether the call goes on. -/
def lookup (s : Store) (fails : Bool) (youTubeID : String) : Except ShareError Unit :=
  if fails then .error .repository
  else
    match s.findByYouTubeID youTubeID with
    | some _ => .error .alreadyShared
    | none => .ok ()

/-- The sharer. -/
def loadSharer (s : Store) (fails : Bool) (sharerID : UUID) : Except ShareError User :=
  if fails then .error .repository
  else
    match s.findUser sharerID with
    | none => .error .repository
    | some sharer => .ok sharer

/-- The row that `Share` builds. -/
def newVideo (youTubeID : String) (sharer : User) (req : ShareRequest) : Video where
  id := UUID.nil
  youTubeID := youTubeID
  url := watchURL youTubeID
  title :=
    if trimSpace req.title = "" then "YouTube video " ++ youTubeID else trimSpace req.title
  description := trimSpace req.description
  thumbnailURL := thumbnailURL youTubeID
  sharedByID := sharer.id
  sharedBy := sharer
  createdAt := ⟨0⟩

/-- The insert. -/
def insert (s : Store) (fails : Bool) (newID : UUID) (now : Time) (v : Video) :
    Except ShareError (Store × Video) :=
  if fails then .error .repository
  else
    match s.create newID now v with
    | none => .error .repository
    | some created => .ok created

/-- `cache.Delete(listCacheKey)`, whose error is only logged. -/
def invalidate (b : Backend) (fails : Bool) : Backend :=
  if fails then b else { b with cache := none }

/-- The payload of the event that the job publishes. -/
def payload (v : Video) : VideoSharedPayload where
  videoID := v.id
  youTubeID := v.youTubeID
  title := v.title
  thumbnailURL := v.thumbnailURL
  sharedByID := v.sharedBy.id
  sharedByName := v.sharedBy.name

/-- `worker.Submit`. -/
def submit (b : Backend) (v : Video) : Backend := { b with jobs := b.jobs ++ [payload v] }

/-- `Service.Share`. -/
def share (extract : String → Option String) (env : ShareEnv) (b : Backend) (sharerID : UUID)
    (req : ShareRequest) : Backend × Except ShareError VideoView :=
  match extract req.url with
  | none => (b, .error .invalidURL)
  | some youTubeID =>
    match lookup b.store env.lookupFails youTubeID with
    | .error e => (b, .error e)
    | .ok () =>
      match loadSharer b.store env.sharerFails sharerID with
      | .error e => (b, .error e)
      | .ok sharer =>
        match insert b.store env.createFails env.newID env.now (newVideo youTubeID sharer req) with
        | .error e => (b, .error e)
        | .ok (store, video) =>
            (submit (invalidate { b with store := store } env.deleteFails) video,
              .ok (toView video))

/-! ### List -/

/-- What the outside decides about a call of `List`. -/
structure ListEnv where
  getFails : Bool
  countFails : Bool
  findFails : Bool
  setFails : Bool

/-- The requests that go through the cache. -/
def firstPage (limit offset : ℤ) : Bool := decide (offset = 0 ∧ limit ≤ 20)

/-- `cache.Get(listCacheKey)`, `none` for a miss or an error. -/
def cacheGet (b : Backend) (fails : Bool) : Option ListResponse := if fails then none else b.cache

/-- `cache.Set(listCacheKey)`, whose error is only logged. -/
def cacheSet (b : Backend) (fails : Bool) (resp : ListResponse) : Backend :=
  if fails then b else { b with cache := some resp }

/-- The answer of `List` for the rows and the total it read. -/
def listResponse (items : List Video) (total : ℕ) : ListResponse := ⟨items.map toView, total⟩

/-- What `List` does when the cache does not answer. -/
def listUncached (env : ListEnv) (b : Backend) (limit offset : ℤ) :
    Backend × Except Failure ListResponse :=
  if env.countFails ∨ env.findFails then (b, .error .other)
  else
    let (items, total) := b.store.list limit offset
    let resp := listResponse items total
    (if firstPage limit offset then cacheSet b env.setFails resp else b, .ok resp)

/-- `Service.List`. -/
def list (env : ListEnv) (b : Backend) (limit offset : ℤ) :
    Backend × Except Failure ListResponse :=
  match (if firstPage limit offset then cacheGet b env.getFails else none) with
  | some cached => (b, .ok cached)
  | none => listUncached env b limit offset

end Service

end Videos
end YtShare
