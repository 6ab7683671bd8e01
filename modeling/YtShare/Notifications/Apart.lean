/-
# What brings a stamp before the marker

`no_share_escapes` asks that a call of `UnreadCount` reads a marker which is before the
stamps of the videos that it owes.  Here is what sees to it (`stampedAfter_of_apart`):
no row of another user is stamped and not yet inserted when a `MarkSeen` reads the
clock, no row is stamped in the microsecond of a marker, and the calls of a user that
write the marker or have yet to read it do not run side by side.

The last is needed too.  A `MarkSeen` that has begun before another one returns may
write a later time than that one did, and so may one that begins before an
`UnreadCount` has read the marker.
-/

import YtShare.Notifications.NoEscape

namespace YtShare
namespace Notifications
namespace Service

open Lib Users Videos

variable {lower : String → String}

/-- A `MarkSeen` of this user that has not written. -/
def Call.marks (u : UUID) : Call → Bool
  | .markSeen v .clock | .markSeen v (.update _) => decide (v = u)
  | _ => false

namespace Server

variable {s : Server lower} {u : UUID} {v : Video}

/-- No `MarkSeen` of the user is under way. -/
def Unmarked (s : Server lower) (u : UUID) : Prop :=
  ∀ j c, s.calls j = some c → c.marks u = false

/-- The marker of the user is before the stamp. -/
def MarkedBefore (s : Server lower) (u : UUID) (v : Video) : Prop :=
  ∀ m ∈ s.marker u, m.ns < v.createdAt.timestamptz.ns

/-- And so are the times that a `MarkSeen` of the user has yet to write. -/
def TakenBefore (s : Server lower) (u : UUID) (v : Video) : Prop :=
  ∀ j at', s.calls j = some (.markSeen u (.update at')) →
    at'.timestamptz.ns < v.createdAt.timestamptz.ns

/-- **What keeps the stamps apart from the markers:** no row of another user is stamped
and not inserted when a `MarkSeen` reads the clock; a row is stamped in a later
microsecond than the markers of the others and the times that they are about to
write; and a `MarkSeen` begins when no other is under way for the user, and no
`UnreadCount` that has not read the marker. -/
def Apart (s : Server lower) : Label → Prop
  | .markSeen _ u => s.Unmarked u ∧ ∀ j, s.calls j ≠ some (.unreadCount u .load)
  | .step k env =>
      match s.calls k with
      | some (.markSeen u .clock) =>
          ∀ j row, s.calls j = some (.create (.insert row)) → row.sharedByID = u
      | some (.create (.stamp v)) => ∀ u, v.sharedByID ≠ u →
          s.MarkedBefore u { v with createdAt := env.now } ∧
            s.TakenBefore u { v with createdAt := env.now }
      | _ => True
  | _ => True

/-- **What a step of a call does:** a `MarkSeen` reads the clock or is done, an
`UnreadCount` is past the marker, and a row is stamped or inserted, if it can be. -/
theorem advance_cases {env : StepEnv} {c c' : Call} {users : Table lower} {videos : List Video}
    (h : s.advance env c = some (users, videos, c')) :
    (∃ u, c = .markSeen u .clock ∧ c' = .markSeen u (.update env.now) ∧ users = s.users ∧
      videos = s.videos) ∨
    (∃ u at' r, c = .markSeen u (.update at') ∧ c' = .markSeen u (.done r) ∧
      (users = s.users ∨ s.users.setLastNotificationsSeenAt u at' = some users) ∧
      videos = s.videos) ∨
    (∃ u pc pc', c = .unreadCount u pc ∧ c' = .unreadCount u pc' ∧ pc' ≠ .load ∧
      users = s.users ∧ videos = s.videos) ∨
    (∃ v, c = .create (.stamp v) ∧ c' = .create (.insert (Store.stamp env.newID env.now v)) ∧
      users = s.users ∧ videos = s.videos) ∨
    ∃ row ok, c = .create (.insert row) ∧ c' = .create (.done ok) ∧ users = s.users ∧
      (videos = s.videos ∨ videos = s.videos ++ [row]) := by
  rcases c with ⟨u, pc⟩ | ⟨u, pc⟩ | pc
  · obtain ⟨⟨users', pc'⟩, hadv, heq⟩ := Option.map_eq_some_iff.1 h
    obtain ⟨rfl, hpair⟩ := Prod.mk.inj heq
    obtain ⟨rfl, rfl⟩ := Prod.mk.inj hpair
    rcases pc with _ | now | r
    · obtain ⟨rfl, rfl⟩ := Prod.mk.inj (Option.some.inj hadv)
      exact .inl ⟨u, rfl, rfl, rfl, rfl⟩
    · simp only [advanceMarkSeen] at hadv
      split_ifs at hadv
      · obtain ⟨rfl, rfl⟩ := Prod.mk.inj (Option.some.inj hadv)
        exact .inr (.inl ⟨u, now, _, rfl, rfl, .inl rfl, rfl⟩)
      · split at hadv
        · obtain ⟨rfl, rfl⟩ := Prod.mk.inj (Option.some.inj hadv)
          exact .inr (.inl ⟨u, now, _, rfl, rfl, .inl rfl, rfl⟩)
        · next hset =>
          obtain ⟨rfl, rfl⟩ := Prod.mk.inj (Option.some.inj hadv)
          exact .inr (.inl ⟨u, now, _, rfl, rfl, .inr hset, rfl⟩)
    · cases hadv
  · obtain ⟨pc', hadv, heq⟩ := Option.map_eq_some_iff.1 h
    obtain ⟨rfl, hpair⟩ := Prod.mk.inj heq
    obtain ⟨rfl, rfl⟩ := Prod.mk.inj hpair
    refine .inr (.inr (.inl ⟨u, pc, pc', rfl, rfl, ?_, rfl, rfl⟩))
    rcases advanceUnreadCount_cases hadv with ⟨e, rfl⟩ | ⟨-, -, rfl⟩ | ⟨seenAt, -, rfl⟩
    · exact fun h => by cases h
    · exact fun h => by cases h
    · exact fun h => by cases h
  · obtain ⟨⟨videos', pc'⟩, hadv, heq⟩ := Option.map_eq_some_iff.1 h
    obtain ⟨rfl, hpair⟩ := Prod.mk.inj heq
    obtain ⟨rfl, rfl⟩ := Prod.mk.inj hpair
    rcases pc with v | row | inserted
    · obtain ⟨rfl, rfl⟩ := Prod.mk.inj (Option.some.inj hadv)
      exact .inr (.inr (.inr (.inl ⟨v, rfl, rfl, rfl, rfl⟩)))
    · refine .inr (.inr (.inr (.inr ?_)))
      simp only [advanceCreate] at hadv
      split_ifs at hadv
      · obtain ⟨rfl, rfl⟩ := Prod.mk.inj (Option.some.inj hadv)
        exact ⟨row, false, rfl, rfl, rfl, .inl rfl⟩
      · split at hadv
        · obtain ⟨rfl, rfl⟩ := Prod.mk.inj (Option.some.inj hadv)
          exact ⟨row, false, rfl, rfl, rfl, .inl rfl⟩
        · next hinsert =>
          obtain ⟨rfl, rfl⟩ := Prod.mk.inj (Option.some.inj hadv)
          exact ⟨row, true, rfl, rfl, rfl, .inr (Store.insertRow_eq_some hinsert).2⟩
    · cases hadv

/-- A call that is set marks for no user for whom it did not before. -/
theorem Unmarked.setCall (hs : s.Unmarked u) {k : ℕ} {c : Call} (hc : c.marks u = false) :
    (s.setCall k c).Unmarked u := by
  intro j d hj
  rcases setCall_eq_some hj with ⟨-, rfl⟩ | ⟨-, hold⟩
  · exact hc
  · exact hs j d hold

/-- And one that has taken no time for the user writes none after the stamp. -/
theorem TakenBefore.setCall (hs : s.TakenBefore u v) {k : ℕ} {c : Call}
    (hc : ∀ at', c ≠ .markSeen u (.update at')) : (s.setCall k c).TakenBefore u v := by
  intro j at' hj
  rcases setCall_eq_some hj with ⟨-, hnew⟩ | ⟨-, hold⟩
  · exact absurd hnew.symm (hc at')
  · exact hs j at' hold

end Server

namespace Watch

variable {w w' : Watch lower}

/-- The invariant of the runs that keep them apart: a row of another user that is to be
inserted was stamped after the marker and after what is about to be written, and so was
a video that is new to the user, or owed by a call that is to read the marker, with no
`MarkSeen` of the user under way; nor are there ever two. -/
structure ApartInv (w : Watch lower) : Prop where
  inserting : ∀ j row u, w.server.calls j = some (.create (.insert row)) → row.sharedByID ≠ u →
    w.server.MarkedBefore u row ∧ w.server.TakenBefore u row
  since : ∀ u vs, w.since u = some vs → w.server.Unmarked u ∧
    ∀ v ∈ vs, v.sharedByID ≠ u → w.server.MarkedBefore u v
  alone : ∀ i j u c d, w.server.calls i = some c → w.server.calls j = some d →
    c.marks u = true → d.marks u = true → i = j
  loading : ∀ k u, w.server.calls k = some (.unreadCount u .load) →
    w.owed k = [] ∨ w.server.Unmarked u ∧ ∀ v ∈ w.owed k, w.server.MarkedBefore u v

/-- A call that has taken no time and has no row to insert leaves what is to be inserted
behind the others. -/
theorem ApartInv.inserting_setCall (hi : w.ApartInv) {k : ℕ} {c : Call}
    (htime : ∀ u at', c ≠ .markSeen u (.update at')) (hrow : ∀ row, c ≠ .create (.insert row))
    {j : ℕ} {row : Video} {u : UUID}
    (hj : (w.server.setCall k c).calls j = some (.create (.insert row)))
    (hne : row.sharedByID ≠ u) :
    w.server.MarkedBefore u row ∧ (w.server.setCall k c).TakenBefore u row := by
  rcases Server.setCall_eq_some hj with ⟨-, hc⟩ | ⟨-, hj⟩
  · exact absurd hc.symm (hrow row)
  · exact (hi.inserting j row u hj hne).imp id fun htaken => htaken.setCall (htime u)

/-- A call takes a step: what it does to the marker of its user, to the row that it
inserts and to what is new is said beside it. -/
theorem ApartInv.setCall (hi : w.ApartInv) {k : ℕ} {c c' : Call}
    (hk : w.server.calls k = some c) {users : Table lower} {videos : List Video} {clock : Time}
    {since : UUID → Option (List Video)} {counted : ℕ → List Video}
    (hmarks : ∀ u, c'.marks u = true → c.marks u = true) (hload : ∀ u, c' ≠ .unreadCount u .load)
    (hmarker : ∀ u, c.marks u = false → users.seenAt u = w.server.users.seenAt u)
    (hinserting : ∀ j row u,
      (w.server.setCall k c').calls j = some (.create (.insert row)) → row.sharedByID ≠ u →
        (∀ m ∈ users.seenAt u, m.ns < row.createdAt.timestamptz.ns) ∧
          (w.server.setCall k c').TakenBefore u row)
    (hsince : ∀ u vs, since u = some vs → (w.server.setCall k c').Unmarked u ∧
      ∀ v ∈ vs, v.sharedByID ≠ u → ∀ m ∈ users.seenAt u, m.ns < v.createdAt.timestamptz.ns) :
    ApartInv ⟨{ w.server.setCall k c' with users := users, videos := videos, clock := clock },
      since, w.owed, counted⟩ := by
  -- a call that marks was there before, under the same number
  have hold : ∀ j d u, (w.server.setCall k c').calls j = some d → d.marks u = true →
      ∃ d', w.server.calls j = some d' ∧ d'.marks u = true := by
    intro j d u hj hd
    rcases Server.setCall_eq_some hj with ⟨rfl, rfl⟩ | ⟨-, hj⟩
    · exact ⟨c, hk, hmarks u hd⟩
    · exact ⟨d, hj, hd⟩
  refine ⟨hinserting, hsince, ?_, ?_⟩
  · intro i j u d e hd he hdu heu
    obtain ⟨d', hd', hdu'⟩ := hold i d u hd hdu
    obtain ⟨e', he', heu'⟩ := hold j e u he heu
    exact hi.alone i j u d' e' hd' he' hdu' heu'
  · intro j u hj
    rcases Server.setCall_eq_some hj with ⟨-, hc⟩ | ⟨-, hj⟩
    · exact absurd hc.symm (hload u)
    · refine (hi.loading j u hj).imp id ?_
      rintro ⟨hunmarked, hbefore⟩
      have hc : c.marks u = false := hunmarked k c hk
      have hc' : c'.marks u = false := Bool.eq_false_iff.2 fun h => by
        rw [hmarks u h] at hc
        cases hc
      refine ⟨hunmarked.setCall hc', fun v hv m hm => hbefore v hv m ?_⟩
      have hm : m ∈ users.seenAt u := hm
      rwa [hmarker u hc] at hm

/-- A call begins. -/
theorem ApartInv.begin (hi : w.ApartInv) {l : Server.Label} (hl : w.server.Apart l) {k : ℕ}
    {c : Call} (h : Server.begun l = some (k, c)) :
    ApartInv ⟨w.server.setCall k c, fun u => w.sinceAfter (w.server.setCall k c) u l,
      w.owedAfter l, w.countedAfter l⟩ := by
  -- a call as it begins has no row and no time yet
  have hinserting : ∀ j row u, (w.server.setCall k c).calls j = some (.create (.insert row)) →
      row.sharedByID ≠ u →
        w.server.MarkedBefore u row ∧ (w.server.setCall k c).TakenBefore u row := by
    intro j row x
    rcases Server.begun_cases h with ⟨u, -, rfl⟩ | ⟨u, -, rfl⟩ | ⟨v, -, rfl⟩
    · exact hi.inserting_setCall (c := .markSeen u .clock) nofun nofun
    · exact hi.inserting_setCall (c := .unreadCount u .load) nofun nofun
    · exact hi.inserting_setCall (c := .create (.stamp v)) nofun nofun
  -- no two calls mark for one user, unless the new one and another do
  have halone : (∀ u, c.marks u = true → w.server.Unmarked u) → ∀ i j u d e,
      (w.server.setCall k c).calls i = some d → (w.server.setCall k c).calls j = some e →
      d.marks u = true → e.marks u = true → i = j := by
    intro hfree i j u d e hd he hdu heu
    rcases Server.setCall_eq_some hd with ⟨hik, hdc⟩ | ⟨-, hd'⟩
    · rcases Server.setCall_eq_some he with ⟨hjk, -⟩ | ⟨-, he'⟩
      · exact hik.trans hjk.symm
      · rw [hfree u (hdc ▸ hdu) j e he'] at heu
        cases heu
    · rcases Server.setCall_eq_some he with ⟨-, hec⟩ | ⟨-, he'⟩
      · rw [hfree u (hec ▸ heu) i d hd'] at hdu
        cases hdu
      · exact hi.alone i j u d e hd' he' hdu heu
  rcases Server.begun_cases h with ⟨u, rfl, rfl⟩ | ⟨u, rfl, rfl⟩ | ⟨v, rfl, rfl⟩
  · obtain ⟨hunmarked, hnone⟩ := hl
    have hother : ∀ x, u ≠ x → w.server.Unmarked x →
        (w.server.setCall k (.markSeen u .clock)).Unmarked x := by
      intro x hx hfree
      have hc : (Call.markSeen u .clock).marks x = false := decide_eq_false hx
      exact hfree.setCall hc
    refine ⟨hinserting, ?_, halone fun x hx => of_decide_eq_true hx ▸ hunmarked, ?_⟩
    · intro x vs hvs
      simp only [sinceAfter] at hvs
      split_ifs at hvs with hx
      · obtain ⟨hfree, hbefore⟩ := hi.since x vs hvs
        exact ⟨hother x (Ne.symm hx) hfree, hbefore⟩
    · intro j x hj
      rcases Server.setCall_eq_some hj with ⟨-, hc⟩ | ⟨-, hj⟩
      · cases hc
      · have hx : u ≠ x := by
          rintro rfl
          exact hnone j hj
        exact (hi.loading j x hj).imp id fun ⟨hfree, hbefore⟩ => ⟨hother x hx hfree, hbefore⟩
  · refine ⟨hinserting, ?_, halone nofun, ?_⟩
    · intro x vs hvs
      obtain ⟨hfree, hbefore⟩ := hi.since x vs hvs
      exact ⟨hfree.setCall rfl, hbefore⟩
    · intro j x hj
      rcases Server.setCall_eq_some hj with ⟨rfl, hc⟩ | ⟨hjk, hj⟩
      · obtain ⟨rfl, -⟩ := Call.unreadCount.inj hc
        show Function.update w.owed j _ j = [] ∨ _ ∧ ∀ v ∈ Function.update w.owed j _ j, _
        rw [Function.update_self]
        cases hvs : w.since x with
        | none => exact .inl rfl
        | some vs =>
          obtain ⟨hfree, hbefore⟩ := hi.since x vs hvs
          refine .inr ⟨hfree.setCall rfl, fun v hv => ?_⟩
          obtain ⟨hv, hne⟩ := List.mem_filter.1 hv
          exact hbefore v hv (of_decide_eq_true hne)
      · show Function.update w.owed k _ j = [] ∨ _ ∧ ∀ v ∈ Function.update w.owed k _ j, _
        rw [Function.update_of_ne hjk]
        exact (hi.loading j x hj).imp id fun ⟨hfree, hbefore⟩ => ⟨hfree.setCall rfl, hbefore⟩
  · refine ⟨hinserting, ?_, halone nofun, ?_⟩
    · intro x vs hvs
      obtain ⟨hfree, hbefore⟩ := hi.since x vs hvs
      exact ⟨hfree.setCall rfl, hbefore⟩
    · intro j x hj
      rcases Server.setCall_eq_some hj with ⟨-, hc⟩ | ⟨-, hj⟩
      · cases hc
      · exact (hi.loading j x hj).imp id fun ⟨hfree, hbefore⟩ => ⟨hfree.setCall rfl, hbefore⟩

/-- What is new to a user after a step of a call that writes no marker. -/
theorem sinceAfter_step {k : ℕ} {env : StepEnv} {c : Call} (hk : w.server.calls k = some c)
    (hc : ∀ u at', c ≠ .markSeen u (.update at')) (t : Server lower) (u : UUID) :
    w.sinceAfter t u (.step k env) =
      (w.since u).map fun vs => vs ++ t.videos.drop w.server.videos.length := by
  simp only [sinceAfter, hk]
  split
  · next v at' heq => exact absurd (Option.some.inj heq) (hc v at')
  · rfl

/-- Nothing is, where no row is inserted. -/
theorem sinceAfter_of_videos {k : ℕ} {env : StepEnv} {c : Call} (hk : w.server.calls k = some c)
    (hc : ∀ u at', c ≠ .markSeen u (.update at')) {t : Server lower}
    (ht : t.videos = w.server.videos) (u : UUID) : w.sinceAfter t u (.step k env) = w.since u := by
  rw [sinceAfter_step hk hc, ht, List.drop_length]
  simp only [List.append_nil, Option.map_id']

/-- A `MarkSeen` reads the clock: nothing of another user is to be inserted. -/
theorem ApartInv.clock (hi : w.ApartInv) {k : ℕ} {u : UUID} {now : Time}
    (hk : w.server.calls k = some (.markSeen u .clock))
    (hl : ∀ j row, w.server.calls j = some (.create (.insert row)) → row.sharedByID = u)
    {since : UUID → Option (List Video)} (hsince : ∀ x, since x = w.since x)
    {counted : ℕ → List Video} :
    ApartInv ⟨{ w.server.setCall k (.markSeen u (.update now)) with clock := now },
      since, w.owed, counted⟩ := by
  refine hi.setCall hk (fun _ h => h) nofun (fun _ _ => rfl) ?_ ?_
  · intro j row x hj hne
    rcases Server.setCall_eq_some hj with ⟨-, hc⟩ | ⟨-, hj⟩
    · cases hc
    · refine (hi.inserting j row x hj hne).imp id fun htaken => htaken.setCall ?_
      intro at' hc
      have hx : u = x := (Call.markSeen.inj hc).1
      exact hne (hx ▸ hl j row hj)
  · intro x vs hvs
    obtain ⟨hfree, hbefore⟩ := hi.since x vs (hsince x ▸ hvs)
    have hc : (Call.markSeen u .clock).marks x = false := hfree k _ hk
    exact ⟨hfree.setCall hc, hbefore⟩

/-- It is done: what it has written was taken before the rows that are to be inserted
were stamped, and nothing is new to the user yet. -/
theorem ApartInv.write (hi : w.ApartInv) {k : ℕ} {u : UUID} {at' clock : Time}
    {r : Except ServiceError Time} (hk : w.server.calls k = some (.markSeen u (.update at')))
    {users : Table lower} (hset : users = w.server.users ∨
      w.server.users.setLastNotificationsSeenAt u at' = some users)
    {since : UUID → Option (List Video)}
    (hsince : ∀ x, since x = if x = u then some [] else w.since x) {counted : ℕ → List Video} :
    ApartInv ⟨{ w.server.setCall k (.markSeen u (.done r)) with users := users, clock := clock },
      since, w.owed, counted⟩ := by
  have hother : ∀ x, x ≠ u → users.seenAt x = w.server.users.seenAt x := by
    intro x hx
    rcases hset with rfl | hset
    · rfl
    · rw [Table.seenAt_setLastNotificationsSeenAt hset, if_neg hx]
  have hown : ∀ m ∈ users.seenAt u, m ∈ w.server.users.seenAt u ∨ m = at'.timestamptz := by
    intro m hm
    rcases hset with rfl | hset
    · exact .inl hm
    · rw [Table.seenAt_setLastNotificationsSeenAt hset, if_pos rfl] at hm
      exact .inr (Option.some.inj hm).symm
  refine hi.setCall hk nofun nofun ?_ ?_ ?_
  · intro x hx
    exact hother x (Ne.symm (of_decide_eq_false hx))
  · intro j row x hj hne
    obtain ⟨hmarked, htaken⟩ :=
      hi.inserting_setCall (c := .markSeen u (.done r)) nofun nofun hj hne
    refine ⟨fun m hm => ?_, htaken⟩
    by_cases hx : x = u
    · subst hx
      rcases hown m hm with hm | rfl
      · exact hmarked m hm
      · rcases Server.setCall_eq_some hj with ⟨-, hc⟩ | ⟨-, hj⟩
        · cases hc
        · exact (hi.inserting j row x hj hne).2 k at' hk
    · rw [hother x hx] at hm
      exact hmarked m hm
  · intro x vs hvs
    rw [hsince x] at hvs
    split_ifs at hvs with hx
    · obtain rfl := Option.some.inj hvs
      subst hx
      refine ⟨fun j d hj => ?_, nofun⟩
      -- the call that is done was the only one
      rcases Server.setCall_eq_some hj with ⟨-, rfl⟩ | ⟨hjk, hj⟩
      · rfl
      · refine Bool.eq_false_iff.2 fun hd => hjk ?_
        exact hi.alone j k x d _ hj hk hd (decide_eq_true rfl)
    · obtain ⟨hfree, hbefore⟩ := hi.since x vs hvs
      refine ⟨hfree.setCall rfl, fun v hv hne m hm => hbefore v hv hne m ?_⟩
      rwa [hother x hx] at hm

/-- A call of `UnreadCount` is past the marker. -/
theorem ApartInv.count (hi : w.ApartInv) {k : ℕ} {u : UUID} {pc pc' : UnreadCountPc} {clock : Time}
    (hk : w.server.calls k = some (.unreadCount u pc)) (hpc : pc' ≠ .load)
    {since : UUID → Option (List Video)} (hsince : ∀ x, since x = w.since x)
    {counted : ℕ → List Video} :
    ApartInv ⟨{ w.server.setCall k (.unreadCount u pc') with clock := clock },
      since, w.owed, counted⟩ := by
  refine hi.setCall hk nofun ?_ (fun _ _ => rfl) ?_ ?_
  · intro x hx
    exact hpc (Call.unreadCount.inj hx).2
  · intro j row x
    exact hi.inserting_setCall (c := .unreadCount u pc') nofun nofun
  · intro x vs hvs
    obtain ⟨hfree, hbefore⟩ := hi.since x vs (hsince x ▸ hvs)
    exact ⟨hfree.setCall rfl, hbefore⟩

/-- A row is stamped, after the markers and after the times that were taken. -/
theorem ApartInv.stamp (hi : w.ApartInv) {k : ℕ} {v row : Video} {clock : Time}
    (hk : w.server.calls k = some (.create (.stamp v)))
    (hl : ∀ u, row.sharedByID ≠ u → w.server.MarkedBefore u row ∧ w.server.TakenBefore u row)
    {since : UUID → Option (List Video)} (hsince : ∀ x, since x = w.since x)
    {counted : ℕ → List Video} :
    ApartInv ⟨{ w.server.setCall k (.create (.insert row)) with clock := clock },
      since, w.owed, counted⟩ := by
  refine hi.setCall hk nofun nofun (fun _ _ => rfl) ?_ ?_
  · intro j r x hj hne
    rcases Server.setCall_eq_some hj with ⟨-, hc⟩ | ⟨-, hj⟩
    · obtain rfl := CreatePc.insert.inj (Call.create.inj hc)
      exact (hl x hne).imp id fun htaken => htaken.setCall nofun
    · exact (hi.inserting j r x hj hne).imp id fun htaken => htaken.setCall nofun
  · intro x vs hvs
    obtain ⟨hfree, hbefore⟩ := hi.since x vs (hsince x ▸ hvs)
    exact ⟨hfree.setCall rfl, hbefore⟩

/-- A row is inserted, and is new to the others if it was refused by nothing. -/
theorem ApartInv.insert (hi : w.ApartInv) {k : ℕ} {row : Video} {ok : Bool} {clock : Time}
    (hk : w.server.calls k = some (.create (.insert row))) {videos new : List Video}
    (hnew : ∀ v ∈ new, v = row) {since : UUID → Option (List Video)}
    (hsince : ∀ x, since x = (w.since x).map fun vs => vs ++ new) {counted : ℕ → List Video} :
    ApartInv ⟨{ w.server.setCall k (.create (.done ok)) with videos := videos, clock := clock },
      since, w.owed, counted⟩ := by
  refine hi.setCall hk nofun nofun (fun _ _ => rfl) ?_ ?_
  · intro j r x
    exact hi.inserting_setCall (c := .create (.done ok)) nofun nofun
  · intro x vs hvs
    rw [hsince x] at hvs
    obtain ⟨old, hold, rfl⟩ := Option.map_eq_some_iff.1 hvs
    obtain ⟨hfree, hbefore⟩ := hi.since x old hold
    refine ⟨hfree.setCall rfl, fun v hv hne => ?_⟩
    rcases List.mem_append.1 hv with hv | hv
    · exact hbefore v hv hne
    · obtain rfl := hnew v hv
      exact (hi.inserting k v x hk hne).1

/-- **The step lemma** of the runs that keep stamps and markers apart. -/
theorem ApartInv.step (hi : w.ApartInv) {l : Server.Label} (hl : w.server.Apart l)
    (h : w.step l = some w') : w.StampedAfter l ∧ w'.ApartInv := by
  obtain ⟨t, ht, rfl⟩ := Option.map_eq_some_iff.1 h
  rcases Server.step_cases ht with ⟨k, c, hbegun, -, rfl⟩ |
    ⟨k, env, c, users, videos, c', rfl, -, hk, hadv, rfl⟩
  · refine ⟨?_, hi.begin hl hbegun⟩
    rcases Server.begun_cases hbegun with ⟨u, rfl, -⟩ | ⟨u, rfl, -⟩ | ⟨v, rfl, -⟩ <;> trivial
  · simp only [Server.Apart, hk] at hl
    simp only [StampedAfter, hk]
    rcases Server.advance_cases hadv with ⟨u, rfl, rfl, rfl, rfl⟩ |
      ⟨u, at', r, rfl, rfl, hset, rfl⟩ | ⟨u, pc, pc', rfl, rfl, hpc, rfl, rfl⟩ |
      ⟨v, rfl, rfl, rfl, rfl⟩ |
      ⟨row, ok, rfl, rfl, rfl, hvideos⟩
    · refine ⟨trivial, hi.clock hk hl ?_⟩
      exact sinceAfter_of_videos hk (fun _ _ h => by cases h) rfl
    · refine ⟨trivial, hi.write hk hset fun x => ?_⟩
      simp only [sinceAfter, hk]
    · refine ⟨?_, hi.count hk hpc ?_⟩
      · cases pc with
        | load =>
          intro _ v hv
          rcases hi.loading k u hk with hnone | ⟨-, hbefore⟩
          · rw [hnone] at hv
            cases hv
          · exact hbefore v hv
        | count | done => trivial
      · exact sinceAfter_of_videos hk (fun _ _ h => by cases h) rfl
    · refine ⟨trivial, hi.stamp hk hl ?_⟩
      exact sinceAfter_of_videos hk (fun _ _ h => by cases h) rfl
    · have hnew : ∀ v ∈ videos.drop w.server.videos.length, v = row := by
        intro v hv
        rcases hvideos with rfl | rfl
        · rw [List.drop_length] at hv
          cases hv
        · rw [List.drop_left] at hv
          exact List.mem_singleton.1 hv
      refine ⟨trivial, hi.insert hk hnew ?_⟩
      exact sinceAfter_step hk (fun _ _ h => by cases h) _

/-- Before any call nothing is stamped and nothing is new. -/
theorem apartInv_init (hw : (watch lower).init w) : w.ApartInv := by
  have hnone : ∀ j (c : Call), w.server.calls j ≠ some c :=
    fun j c hj => nomatch (hw.1 j).symm.trans hj
  constructor
  · exact fun j row u hj => absurd hj (hnone _ _)
  · intro u vs hvs
    rw [hw.2 u] at hvs
    cases hvs
  · exact fun i j u c d hc => absurd hc (hnone _ _)
  · exact fun k u hk => absurd hk (hnone _ _)

end Watch

/-- **Where stamps and markers are kept apart no share escapes:** in such a run every
call of `UnreadCount` reads a marker that is before the stamps of the videos that it
owes. -/
theorem stampedAfter_of_apart {w : Watch lower} (hw : (watch lower).init w)
    {run : List Server.Label} (hrun : (watch lower).Steps (fun w => w.server.Apart) w run) :
    (watch lower).Steps Watch.StampedAfter w run :=
  Machine.Steps.of_invariant (I := Watch.ApartInv) (fun _ _ _ hi hl h => hi.step hl h)
    (Watch.apartInv_init hw) hrun

end Service
end Notifications
end YtShare
