/-
# Links to videos

`ExtractYouTubeID` of `backend/internal/modules/videos/youtube.go`.  It reads
the id of a video off a URL on one of four hosts: on `youtu.be` the path is the
id; on the others it is the parameter `v`, on whatever path, or else the last
of two or more segments of the path, whatever the others are.

Both of its errors wrap `ErrInvalidYouTubeURL`.  `Share` does not look at which
of them it got (`extract`).
-/

import YtShare.Net.URL
import YtShare.Videos.Model

namespace YtShare
namespace Videos

open Lib

/-- The errors of `ExtractYouTubeID`: `ErrInvalidYouTubeURL`, bare or around the
error of `url.Parse`. -/
inductive ExtractError
  | invalidYouTubeURL
  | unparsable (err : URL.ParseError)
deriving DecidableEq

/-- A byte of an id. -/
def idByte (c : UInt8) : Bool :=
  URL.isAlpha c || URL.isDigit c || decide (c = byte '_' ∨ c = byte '-')

/-- `idPattern.MatchString`. -/
def idPattern (s : Bytes) : Bool := decide (s.length = 11) && s.all idByte

/-- The host that `ExtractYouTubeID` switches on. -/
def siteHost (host : Bytes) : Bytes := toLower (trimPrefix (utf8 "www.") host)

/-- `"youtu.be"`. -/
def shortHost : Bytes := utf8 "youtu.be"

/-- `"youtube.com"`, `"m.youtube.com"` and `"music.youtube.com"`. -/
def fullHosts : List Bytes := [utf8 "youtube.com", utf8 "m.youtube.com", utf8 "music.youtube.com"]

/-- The path without the slashes at its ends. -/
def barePath (u : URL) : Bytes := trim (byte '/') u.path

/-- The parameter `v`. -/
def watchParam (u : URL) : Bytes := u.queryGet (utf8 "v")

/-- The last of two or more segments of the path. -/
def lastSegment (u : URL) : Option Bytes :=
  let parts := (barePath u).splitOn (byte '/')
  if 2 ≤ parts.length then parts.getLast? else none

/-- What the `switch` of `ExtractYouTubeID` finds in a URL on this host. -/
def findID (host : Bytes) (u : URL) : Option Bytes :=
  if host = shortHost then
    if idPattern (barePath u) then some (barePath u) else none
  else if host ∈ fullHosts then
    if idPattern (watchParam u) then some (watchParam u) else (lastSegment u).filter idPattern
  else none

/-- `ExtractYouTubeID`. -/
def extractYouTubeID (raw : Bytes) : Except ExtractError Bytes :=
  if trimSpaceBytes raw = [] then .error .invalidYouTubeURL
  else
    match URL.parse (trimSpaceBytes raw) with
    | .error err => .error (.unparsable err)
    | .ok u =>
        match findID (siteHost u.host) u with
        | some id => .ok id
        | none => .error .invalidYouTubeURL

/-- `ExtractYouTubeID` on a text, as `Share` calls it. -/
def extract (raw : String) : Option String :=
  match extractYouTubeID (utf8 raw) with
  | .ok id => some (ofASCII id)
  | .error _ => none

/-! ### What it returns -/

/-- On any other host there is no id. -/
theorem findID_of_ne {host : Bytes} (hs : host ≠ shortHost) (hf : host ∉ fullHosts) (u : URL) :
    findID host u = none := by
  rw [findID, if_neg hs, if_neg hf]

/-- **What `ExtractYouTubeID` accepts**: a URL, and in it an id. -/
theorem extractYouTubeID_eq_ok {raw id : Bytes} :
    extractYouTubeID raw = .ok id ↔
      ∃ u, URL.parse (trimSpaceBytes raw) = .ok u ∧ findID (siteHost u.host) u = some id := by
  rw [extractYouTubeID]
  split_ifs with hnil
  · refine ⟨nofun, ?_⟩
    rintro ⟨u, hu, hid⟩
    rw [hnil] at hu
    cases hu
    rw [findID_of_ne (by decide) (by decide)] at hid
    cases hid
  · cases hu : URL.parse (trimSpaceBytes raw) with
    | error e => exact ⟨nofun, fun ⟨u, h, _⟩ => nomatch h⟩
    | ok u =>
      simp only
      cases hid : findID (siteHost u.host) u with
      | none =>
        refine ⟨nofun, ?_⟩
        rintro ⟨w, hw, h⟩
        cases hw
        rw [hid] at h
        cases h
      | some found =>
        constructor
        · intro h
          cases h
          exact ⟨u, rfl, hid⟩
        · rintro ⟨w, hw, h⟩
          cases hw
          rw [hid] at h
          cases h
          rfl

/-- **What is found has the shape of an id.** -/
theorem findID_shape {host id : Bytes} {u : URL} (h : findID host u = some id) :
    idPattern id = true := by
  rw [findID] at h
  split_ifs at h with _ hid _ hv
  · cases h
    exact hid
  · cases h
    exact hv
  · exact (Option.filter_eq_some_iff.1 h).2

/-- **An id has eleven characters of the pattern.** -/
theorem extractYouTubeID_shape {raw id : Bytes} (h : extractYouTubeID raw = .ok id) :
    idPattern id = true := by
  obtain ⟨u, -, hid⟩ := extractYouTubeID_eq_ok.1 h
  exact findID_shape hid

/-- An id has eleven bytes. -/
theorem length_of_idPattern {id : Bytes} (h : idPattern id = true) : id.length = 11 := by
  rw [idPattern, Bool.and_eq_true] at h
  exact of_decide_eq_true h.1

/-- Each of them is a letter, a digit, a dash or an underscore. -/
theorem idByte_of_idPattern {id : Bytes} (h : idPattern id = true) :
    ∀ c ∈ id, idByte c = true := by
  rw [idPattern, Bool.and_eq_true] at h
  exact List.all_eq_true.1 h.2

/-- And of ASCII. -/
theorem lt_of_idByte : ∀ c : UInt8, idByte c = true → c < 128 :=
  URL.forall_byte (by decide +kernel)

/-- An id is text. -/
theorem utf8_ofASCII_id {id : Bytes} (h : idPattern id = true) : utf8 (ofASCII id) = id :=
  utf8_ofASCII fun c hc => lt_of_idByte c (idByte_of_idPattern h c hc)

end Videos
end YtShare
