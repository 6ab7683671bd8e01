/-
# The video repository

`gormRepo` of `backend/internal/modules/videos/repository.go` on the tables it
reads and writes.  `idx_videos_youtube_id` of the first migration is unique, so
an insert of a row whose `youtube_id` is taken fails and stores nothing.

`List` orders by `created_at DESC`.  Rows created at the same time could come in
any order; here they come newest first.

`Create` is one step where nothing asks when a row becomes visible.  Where that
matters it is two: the row is stamped, and later `insertRow` lets it in.
-/

import YtShare.Videos.Model
import Mathlib.Data.List.Sort

namespace YtShare
namespace Videos

open Users

/-- The tables `users` and `videos`, the latter in the order of insertion. -/
structure Store where
  users : List User
  videos : List Video

namespace Store

/-- The limit that `gormRepo.List` uses. -/
def clampLimit (limit : ℤ) : ℕ := (if limit ≤ 0 ∨ 100 < limit then 20 else limit).toNat

/-- The offset that `gormRepo.List` uses. -/
def clampOffset (offset : ℤ) : ℕ := offset.toNat

/-- `users.FindByID`, `none` for `ErrNotFound`. -/
def findUser (s : Store) (id : UUID) : Option User := s.users.find? fun u => decide (u.id = id)

/-- `Preload("SharedBy")`. -/
def preload (s : Store) (v : Video) : Video :=
  { v with sharedBy := (s.findUser v.sharedByID).getD ⟨UUID.nil, "", ""⟩ }

/-- The rows with a YouTube id. -/
def rows (s : Store) (youTubeID : String) : List Video :=
  s.videos.filter fun v => decide (v.youTubeID = youTubeID)

/-- `gormRepo.FindByYouTubeID`, `none` for `gorm.ErrRecordNotFound`. -/
def findByYouTubeID (s : Store) (youTubeID : String) : Option Video :=
  s.videos.find? fun v => decide (v.youTubeID = youTubeID)

/-- What `gormRepo.Create` and `gorm` fill in before the insert. -/
def stamp (newID : UUID) (now : Time) (v : Video) : Video :=
  { v with id := if v.id = UUID.nil then newID else v.id, createdAt := now }

/-- `gormRepo.Create`: the tables and the row with its id and creation time,
`none` when the unique index refuses it. -/
def create (s : Store) (newID : UUID) (now : Time) (v : Video) : Option (Store × Video) :=
  if ∃ w ∈ s.videos, w.youTubeID = v.youTubeID then none
  else some ({ s with videos := s.videos ++ [stamp newID now v] }, stamp newID now v)

/-- The insert of `gormRepo.Create`, `none` when the unique index refuses the row. -/
def insertRow (videos : List Video) (row : Video) : Option (List Video) :=
  if ∃ w ∈ videos, w.youTubeID = row.youTubeID then none else some (videos ++ [row])

/-- A row that is inserted has a new YouTube id, and is the last. -/
theorem insertRow_eq_some {videos videos' : List Video} {row : Video}
    (h : insertRow videos row = some videos') :
    (∀ w ∈ videos, w.youTubeID ≠ row.youTubeID) ∧ videos' = videos ++ [row] := by
  unfold insertRow at h
  split_ifs at h with hw
  exact ⟨fun w hmem heq => hw ⟨w, hmem, heq⟩, (Option.some.inj h).symm⟩

/-- `Create` stamps the row and inserts it. -/
theorem create_eq_insertRow (s : Store) (newID : UUID) (now : Time) (v : Video) :
    s.create newID now v = (insertRow s.videos (stamp newID now v)).map fun videos =>
      ({ s with videos := videos }, stamp newID now v) := by
  unfold create insertRow
  split_ifs with h h' h'
  · rfl
  · exact absurd h h'
  · exact absurd h' h
  · rfl

/-- The rows that `gormRepo.CountSharedAfter` counts.  `created_at` is a
`TIMESTAMPTZ`, and so is the instant, which was read from one. -/
def sharedAfter (videos : List Video) (after : Option Time) (excludeUserID : UUID) : List Video :=
  videos.filter fun v => decide (v.sharedByID ≠ excludeUserID ∧
    ∀ t ∈ after, t.ns < v.createdAt.timestamptz.ns)

/-- `gormRepo.CountSharedAfter`. -/
def countSharedAfter (videos : List Video) (after : Option Time) (excludeUserID : UUID) : ℕ :=
  (sharedAfter videos after excludeUserID).length

/-- `Count` of `gormRepo.List`. -/
def count (s : Store) : ℕ := s.videos.length

/-- The rows in the order of `created_at DESC`. -/
def newestFirst (s : Store) : List Video :=
  s.videos.mergeSort fun v w => decide (w.createdAt.ns ≤ v.createdAt.ns)

/-- `Find` of `gormRepo.List`. -/
def find (s : Store) (limit offset : ℤ) : List Video :=
  ((s.newestFirst.drop (clampOffset offset)).take (clampLimit limit)).map s.preload

/-- `gormRepo.List`. -/
def list (s : Store) (limit offset : ℤ) : List Video × ℕ := (s.find limit offset, s.count)

/-- Only the table of users matters to whom `findUser` finds. -/
theorem findUser_congr {s t : Store} (h : t.users = s.users) (id : UUID) :
    t.findUser id = s.findUser id := by
  unfold findUser
  rw [h]

/-- Sorting loses no video. -/
theorem length_newestFirst (s : Store) : s.newestFirst.length = s.videos.length :=
  List.length_mergeSort _

/-- A video that is created has a new YouTube id, and its row is the last. -/
theorem create_eq_some {s t : Store} {newID : UUID} {now : Time} {v w : Video}
    (h : s.create newID now v = some (t, w)) :
    (∀ x ∈ s.videos, x.youTubeID ≠ v.youTubeID) ∧ w = stamp newID now v ∧
      t = { s with videos := s.videos ++ [w] } := by
  unfold create at h
  split_ifs at h with hw
  obtain ⟨rfl, rfl⟩ := Prod.mk.inj (Option.some.inj h)
  exact ⟨fun x hx heq => hw ⟨x, hx, heq⟩, rfl, rfl⟩

/-- It is refused for a YouTube id that is there already. -/
theorem create_eq_none {s : Store} {newID : UUID} {now : Time} {v : Video} :
    s.create newID now v = none ↔ ∃ w ∈ s.videos, w.youTubeID = v.youTubeID := by
  unfold create
  split_ifs with hw
  · exact iff_of_true rfl hw
  · exact iff_of_false nofun hw

/-- Nothing is found for a YouTube id that no row has. -/
theorem findByYouTubeID_eq_none {s : Store} {youTubeID : String} :
    s.findByYouTubeID youTubeID = none ↔ ∀ w ∈ s.videos, w.youTubeID ≠ youTubeID := by
  unfold findByYouTubeID
  rw [List.find?_eq_none]
  simp only [decide_eq_true_eq, ne_eq]

/-- Nor are there any rows with it. -/
theorem rows_eq_nil {s : Store} {youTubeID : String} :
    s.rows youTubeID = [] ↔ ∀ w ∈ s.videos, w.youTubeID ≠ youTubeID := by
  unfold rows
  rw [List.filter_eq_nil_iff]
  simp only [decide_eq_true_eq, ne_eq]

/-- An insert that succeeds adds the one row with its id. -/
theorem rows_create {s t : Store} {newID : UUID} {now : Time} {v w : Video}
    (h : s.create newID now v = some (t, w)) :
    s.rows v.youTubeID = [] ∧ t.rows v.youTubeID = [w] ∧ t.users = s.users := by
  obtain ⟨hnew, rfl, rfl⟩ := create_eq_some h
  have hrows : s.rows v.youTubeID = [] := rows_eq_nil.2 hnew
  refine ⟨hrows, ?_, rfl⟩
  unfold rows at hrows ⊢
  rw [List.filter_append, hrows, List.nil_append]
  exact List.filter_cons_of_pos (by simp only [stamp, decide_true])

end Store

end Videos
end YtShare
