/-
# Users

`User` of `backend/internal/modules/users/model.go`, and `gormRepo` of
`repository.go` on the table `users`.  The first migration makes `id` the primary
key and `LOWER(email)` a unique index, so a table that breaks either cannot be
built: an insert that would is refused and stores nothing.

`LOWER` is a function of the database and depends on its locale; it is a
parameter here.
-/

import YtShare.Core.UUID
import Mathlib.Data.List.Nodup

namespace YtShare
namespace Users

/-- `User`, as far as other modules read it. -/
structure User where
  id : UUID
  email : String
  name : String
deriving DecidableEq

/-- `User`, with the fields that only its own module and `auth` and
`notifications` read. -/
structure Account extends User where
  passwordHash : String
  lastNotificationsSeenAt : Option Time
deriving DecidableEq

/-- The table `users`, in the order of insertion. -/
structure Table (lower : String → String) where
  rows : List Account
  primaryKey : (rows.map fun w => w.id).Nodup
  uniqueEmail : (rows.map fun w => lower w.email).Nodup

namespace Table

variable {lower : String → String}

/-- The table without rows. -/
def empty : Table lower := ⟨[], List.nodup_nil, List.nodup_nil⟩

/-- What `gormRepo.Create` fills in before the insert. -/
def stamp (newID : UUID) (u : Account) : Account :=
  { u with id := if u.id = UUID.nil then newID else u.id }

/-- The row breaks neither the primary key nor the unique index. -/
def Admits (t : Table lower) (row : Account) : Prop :=
  ∀ w ∈ t.rows, w.id ≠ row.id ∧ lower w.email ≠ lower row.email

instance (t : Table lower) (row : Account) : Decidable (t.Admits row) :=
  inferInstanceAs (Decidable (∀ w ∈ t.rows, _))

/-- The table with one more row. -/
def insert (t : Table lower) (row : Account) (h : t.Admits row) : Table lower where
  rows := t.rows ++ [row]
  primaryKey := by
    rw [List.map_append]
    refine t.primaryKey.append (List.nodup_singleton _) fun id hid hrow => ?_
    obtain ⟨w, hw, rfl⟩ := List.mem_map.1 hid
    exact (h w hw).1 (List.mem_singleton.1 hrow)
  uniqueEmail := by
    rw [List.map_append]
    refine t.uniqueEmail.append (List.nodup_singleton _) fun email hemail hrow => ?_
    obtain ⟨w, hw, rfl⟩ := List.mem_map.1 hemail
    exact (h w hw).2 (List.mem_singleton.1 hrow)

/-- `gormRepo.Create`: the table and the user with its id, `none` when the
database refuses the row. -/
def create (t : Table lower) (newID : UUID) (u : Account) : Option (Table lower × Account) :=
  if h : t.Admits (stamp newID u) then some (t.insert _ h, stamp newID u) else none

/-- `gormRepo.FindByEmail`, `none` for `ErrNotFound`. -/
def findByEmail (t : Table lower) (email : String) : Option Account :=
  t.rows.find? fun w => decide (w.email = email)

/-- `gormRepo.FindByID`, `none` for `ErrNotFound`. -/
def findByID (t : Table lower) (id : UUID) : Option Account :=
  t.rows.find? fun w => decide (w.id = id)

/-- The rows that the unique index takes for rows of this email. -/
def withEmail (t : Table lower) (email : String) : List Account :=
  t.rows.filter fun w => decide (lower w.email = lower email)

/-- A row after `Update("last_notifications_seen_at", at)` of the row with this
id. -/
def mark (id : UUID) (seenAt : Time) (w : Account) : Account :=
  if w.id = id then { w with lastNotificationsSeenAt := some seenAt.timestamptz } else w

/-- Writing a marker leaves the id of an account. -/
theorem mark_id (id : UUID) (seenAt : Time) (w : Account) : (mark id seenAt w).id = w.id := by
  unfold mark
  split_ifs <;> rfl

/-- And its address. -/
theorem mark_email (id : UUID) (seenAt : Time) (w : Account) :
    (mark id seenAt w).email = w.email := by
  unfold mark
  split_ifs <;> rfl

/-- `gormRepo.SetLastNotificationsSeenAt`, `none` for `ErrNotFound`. -/
def setLastNotificationsSeenAt (t : Table lower) (id : UUID) (seenAt : Time) :
    Option (Table lower) :=
  if (t.findByID id).isSome then
    some {
      rows := t.rows.map (mark id seenAt)
      primaryKey := by
        simp only [List.map_map, Function.comp_def, mark_id]
        exact t.primaryKey
      uniqueEmail := by
        simp only [List.map_map, Function.comp_def, mark_email]
        exact t.uniqueEmail }
  else none

/-- An account that is created was admitted, and is the last row. -/
theorem create_eq_some {t t' : Table lower} {newID : UUID} {u row : Account}
    (h : t.create newID u = some (t', row)) :
    t.Admits row ∧ row = stamp newID u ∧ t'.rows = t.rows ++ [row] := by
  unfold create at h
  split_ifs at h with hadmits
  obtain ⟨rfl, rfl⟩ := Prod.mk.inj (Option.some.inj h)
  exact ⟨hadmits, rfl, rfl⟩

/-- It is refused where the table does not admit its row. -/
theorem create_eq_none {t : Table lower} {newID : UUID} {u : Account} :
    t.create newID u = none ↔ ¬t.Admits (stamp newID u) := by
  unfold create
  split_ifs with hadmits
  · exact iff_of_false nofun (not_not.2 hadmits)
  · exact iff_of_true rfl hadmits

/-- The account that is found has the address. -/
theorem findByEmail_eq_some {t : Table lower} {email : String} {w : Account}
    (h : t.findByEmail email = some w) : w ∈ t.rows ∧ w.email = email :=
  ⟨List.mem_of_find?_eq_some h, of_decide_eq_true (List.find?_some h :)⟩

/-- The account that is found has the id. -/
theorem findByID_eq_some {t : Table lower} {id : UUID} {w : Account}
    (h : t.findByID id = some w) : w ∈ t.rows ∧ w.id = id :=
  ⟨List.mem_of_find?_eq_some h, of_decide_eq_true (List.find?_some h :)⟩

/-- What a lookup by id finds after the update. -/
theorem findByID_setLastNotificationsSeenAt {t t' : Table lower} {id : UUID} {seenAt : Time}
    (h : t.setLastNotificationsSeenAt id seenAt = some t') (j : UUID) :
    t'.findByID j = (t.findByID j).map (mark id seenAt) := by
  obtain ⟨-, h⟩ := Option.ite_none_right_eq_some.1 h
  obtain rfl := Option.some.inj h
  unfold findByID
  rw [List.find?_map]
  congr 2
  funext w
  exact congrArg (fun i => decide (i = j)) (mark_id id seenAt w)

/-- The update finds the row, or changes nothing. -/
theorem setLastNotificationsSeenAt_eq_none {t : Table lower} {id : UUID} {seenAt : Time} :
    t.setLastNotificationsSeenAt id seenAt = none ↔ t.findByID id = none := by
  unfold setLastNotificationsSeenAt
  split_ifs with h
  · refine iff_of_false nofun fun hnone => ?_
    rw [hnone] at h
    cases h
  · exact iff_of_true rfl (Option.not_isSome_iff_eq_none.1 h)

/-- The marker of a user, `none` also when there is no such user. -/
def seenAt (t : Table lower) (id : UUID) : Option Time :=
  (t.findByID id).bind fun w => w.lastNotificationsSeenAt

/-- **What the update does:** it sets the marker of the user, who exists, and
leaves the others. -/
theorem seenAt_setLastNotificationsSeenAt {t t' : Table lower} {id : UUID} {now : Time}
    (h : t.setLastNotificationsSeenAt id now = some t') (j : UUID) :
    t'.seenAt j = if j = id then some now.timestamptz else t.seenAt j := by
  unfold seenAt
  rw [findByID_setLastNotificationsSeenAt h]
  split_ifs with hj
  · subst hj
    have hfound : t.findByID j ≠ none := by
      intro hnone
      rw [setLastNotificationsSeenAt_eq_none.2 hnone] at h
      cases h
    obtain ⟨w, hw⟩ := Option.ne_none_iff_exists'.1 hfound
    rw [hw]
    show (mark j now w).lastNotificationsSeenAt = _
    unfold mark
    rw [if_pos (findByID_eq_some hw).2]
  · cases hw : t.findByID j with
    | none => rfl
    | some w =>
      show (mark id now w).lastNotificationsSeenAt = w.lastNotificationsSeenAt
      unfold mark
      rw [if_neg fun hid => hj ((findByID_eq_some hw).2.symm.trans hid)]

/-- No account is found for an address that none has, letters in any case. -/
theorem withEmail_eq_nil {t : Table lower} {email : String} :
    t.withEmail email = [] ↔ ∀ w ∈ t.rows, lower w.email ≠ lower email := by
  unfold withEmail
  rw [List.filter_eq_nil_iff]
  exact forall₂_congr fun w _ => not_congr decide_eq_true_iff

/-- The unique index leaves room for one row of an email. -/
theorem withEmail_length_le_one (t : Table lower) (email : String) :
    (t.withEmail email).length ≤ 1 := by
  have hnodup : ((t.withEmail email).map fun w => lower w.email).Nodup :=
    t.uniqueEmail.sublist (List.filter_sublist.map _)
  have hsame : (t.withEmail email).map (fun w => lower w.email) =
      List.replicate (t.withEmail email).length (lower email) := by
    rw [← List.map_const']
    exact List.map_congr_left fun w hw => of_decide_eq_true (List.mem_filter.1 hw).2
  rw [hsame] at hnodup
  exact List.nodup_replicate.1 hnodup

/-- **What an insert with a fresh id does:** it adds the first row of its email,
or the unique index refuses it. -/
theorem create_cases {t : Table lower} {newID : UUID} {u : Account} (hu : u.id = UUID.nil)
    (hfresh : ∀ w ∈ t.rows, w.id ≠ newID) :
    (t.withEmail u.email = [] ∧
      ∃ t' row, t.create newID u = some (t', row) ∧ t'.withEmail u.email = [row]) ∨
    t.withEmail u.email ≠ [] ∧ t.create newID u = none := by
  have hid : (stamp newID u).id = newID := if_pos hu
  by_cases hnew : t.withEmail u.email = []
  · left
    have hadmits : t.Admits (stamp newID u) := by
      intro w hw
      exact ⟨hid.symm ▸ hfresh w hw, withEmail_eq_nil.1 hnew w hw⟩
    have hcreate : t.create newID u = some (t.insert _ hadmits, stamp newID u) := dif_pos hadmits
    refine ⟨hnew, _, _, hcreate, ?_⟩
    unfold withEmail at hnew ⊢
    rw [(create_eq_some hcreate).2.2, List.filter_append, hnew, List.nil_append]
    exact List.filter_cons_of_pos (decide_eq_true rfl)
  · right
    refine ⟨hnew, create_eq_none.2 fun hadmits => hnew (withEmail_eq_nil.2 fun w hw => ?_)⟩
    exact (hadmits w hw).2

/-! ### Later tables -/

/-- The table at a later time: rows have been inserted, and markers moved. -/
inductive Later (t : Table lower) : Table lower → Prop
  | refl : Later t t
  | create {t' t'' : Table lower} {newID : UUID} {u row : Account} (h : Later t t')
      (hc : t'.create newID u = some (t'', row)) : Later t t''
  | mark {t' t'' : Table lower} {id : UUID} {now : Time} (h : Later t t')
      (hm : t'.setLastNotificationsSeenAt id now = some t'') : Later t t''

/-- An email leads to the row that has it. -/
theorem findByEmail_of_mem {t : Table lower} {w : Account} (h : w ∈ t.rows) :
    t.findByEmail w.email = some w := by
  cases hfind : t.findByEmail w.email with
  | none => exact absurd (decide_eq_true rfl) (List.find?_eq_none.1 hfind w h)
  | some v =>
    obtain ⟨hv, hemail⟩ := findByEmail_eq_some hfind
    rw [List.inj_on_of_nodup_map t.uniqueEmail hv h (congrArg lower hemail)]

/-- **A row stays**, and nothing in it changes but its marker. -/
theorem Later.mem {t t' : Table lower} (h : Later t t') {w : Account} (hw : w ∈ t.rows) :
    ∃ w' ∈ t'.rows, w'.toUser = w.toUser ∧ w'.passwordHash = w.passwordHash := by
  induction h with
  | refl => exact ⟨w, hw, rfl, rfl⟩
  | create _ hc ih =>
    obtain ⟨w', hw', hsame⟩ := ih
    exact ⟨w', (create_eq_some hc).2.2 ▸ List.mem_append_left _ hw', hsame⟩
  | mark _ hm ih =>
    obtain ⟨w', hw', huser, hhash⟩ := ih
    obtain ⟨-, hm⟩ := Option.ite_none_right_eq_some.1 hm
    obtain rfl := Option.some.inj hm
    refine ⟨_, List.mem_map.2 ⟨w', hw', rfl⟩, ?_⟩
    unfold Table.mark
    split_ifs
    · exact ⟨huser, hhash⟩
    · exact ⟨huser, hhash⟩

end Table

end Users
end YtShare
