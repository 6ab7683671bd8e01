/-
# What an unread count owes

A share is stamped when `Create` is called and becomes visible when its row is
inserted; `UnreadCount` compares the stamp with the marker of the user.

`Watch` keeps, for each user, the videos that have become visible since a
`MarkSeen` of the user returned, until the next one begins.  A call of
`UnreadCount` owes those of the others among them that are there when it begins.
It counts them all if, when it reads the marker, each was stamped after it
(`no_share_escapes`).  A row that was stamped before the marker and inserted
after it is in no count (`share_escapes`), and nothing checks for that.
-/

import YtShare.Notifications.SeenMarker

namespace YtShare
namespace Notifications
namespace Service

open Lib Users Videos

variable {lower : String → String}

/-- The server with the videos that are new to a user, those that a call of
`UnreadCount` owes, and the rows that it has counted. -/
structure Watch (lower : String → String) where
  server : Server lower
  since : UUID → Option (List Video)
  owed : ℕ → List Video
  counted : ℕ → List Video

namespace Watch

/-- The videos that are new to a user after a step from `s` to `t`. -/
def sinceAfter (w : Watch lower) (t : Server lower) (u : UUID) :
    Server.Label → Option (List Video)
  | .markSeen _ v => if u = v then none else w.since u
  | .step k _ =>
      match w.server.calls k with
      | some (.markSeen v (.update _)) => if u = v then some [] else w.since u
      | _ => (w.since u).map fun vs => vs ++ t.videos.drop w.server.videos.length
  | _ => w.since u

/-- What the calls owe after a step. -/
def owedAfter (w : Watch lower) : Server.Label → ℕ → List Video
  | .unreadCount k u => Function.update w.owed k
      (((w.since u).getD []).filter fun v => decide (v.sharedByID ≠ u))
  | _ => w.owed

/-- What the calls have counted after a step. -/
def countedAfter (w : Watch lower) : Server.Label → ℕ → List Video
  | .step k _ =>
      match w.server.calls k with
      | some (.unreadCount u (.count seenAt)) =>
          Function.update w.counted k (Store.sharedAfter w.server.videos seenAt u)
      | _ => w.counted
  | _ => w.counted

/-- One step. -/
def step (w : Watch lower) (l : Server.Label) : Option (Watch lower) :=
  (w.server.step l).map fun t =>
    ⟨t, fun u => w.sinceAfter t u l, w.owedAfter l, w.countedAfter l⟩

/-- Every `UnreadCount` that returns has counted what it owes. -/
def NoEscape (w : Watch lower) : Prop :=
  ∀ k u n, w.server.calls k = some (.unreadCount u (.done (.ok n))) →
    n = capped (w.counted k).length ∧ (w.owed k).Sublist (w.counted k)

/-- **The condition on a step:** when a call reads the marker, the videos that it
owes were stamped after it. -/
def StampedAfter (w : Watch lower) : Server.Label → Prop
  | .step k env =>
      match w.server.calls k with
      | some (.unreadCount u .load) => env.fails = false →
          ∀ v ∈ w.owed k, ∀ m ∈ w.server.marker u, m.ns < v.createdAt.timestamptz.ns
      | _ => True
  | _ => True

instance (w : Watch lower) (l : Server.Label) : Decidable (w.StampedAfter l) := by
  unfold StampedAfter
  split
  · split
    · infer_instance
    · infer_instance
  · infer_instance

end Watch

/-- The calls on these tables, with what the counts owe. -/
def watch (lower : String → String) : Machine (Watch lower) Server.Label where
  init w := (server lower).init w.server ∧ ∀ u, w.since u = none
  step := Watch.step

namespace Watch

variable {w w' : Watch lower}

/-- What a call of `UnreadCount` has done for the videos that it owes. -/
def Serves (owed counted : List Video) : UnreadCountPc → Prop
  | .load | .done (.error _) => True
  | .count seenAt => ∀ v ∈ owed, ∀ m ∈ seenAt, m.ns < v.createdAt.timestamptz.ns
  | .done (.ok n) => n = capped counted.length ∧ owed.Sublist counted

/-- The invariant: what is new or owed is there, and each call serves what it
owes. -/
structure Inv (w : Watch lower) : Prop where
  since : ∀ u, ∀ vs ∈ w.since u, vs.Sublist w.server.videos
  call : ∀ k u pc, w.server.calls k = some (.unreadCount u pc) →
    (w.owed k).Sublist w.server.videos ∧ (∀ v ∈ w.owed k, v.sharedByID ≠ u) ∧
      Serves (w.owed k) (w.counted k) pc

/-- **The invariant lets no share escape.** -/
theorem Inv.noEscape (hi : w.Inv) : w.NoEscape := fun k u _ hk => (hi.call k u _ hk).2.2

end Watch

namespace Server

variable {s : Server lower}

/-- The videos only grow. -/
theorem videos_subset_advance {env : StepEnv} {c c' : Call} {users : Table lower}
    {videos : List Video} (h : s.advance env c = some (users, videos, c')) :
    s.videos <+: videos := by
  rcases c with ⟨u, pc⟩ | ⟨u, pc⟩ | pc
  · obtain ⟨_, -, heq⟩ := Option.map_eq_some_iff.1 h
    obtain ⟨rfl, -⟩ := Prod.mk.inj (Prod.mk.inj heq).2
    exact List.prefix_rfl
  · obtain ⟨_, -, heq⟩ := Option.map_eq_some_iff.1 h
    obtain ⟨rfl, -⟩ := Prod.mk.inj (Prod.mk.inj heq).2
    exact List.prefix_rfl
  · obtain ⟨⟨videos', pc'⟩, hadv, heq⟩ := Option.map_eq_some_iff.1 h
    obtain ⟨rfl, -⟩ := Prod.mk.inj (Prod.mk.inj heq).2
    rcases pc with v | row | inserted
    · obtain ⟨rfl, -⟩ := Prod.mk.inj (Option.some.inj hadv)
      exact List.prefix_rfl
    · simp only [advanceCreate] at hadv
      split_ifs at hadv
      · obtain ⟨rfl, -⟩ := Prod.mk.inj (Option.some.inj hadv)
        exact List.prefix_rfl
      · split at hadv
        · obtain ⟨rfl, -⟩ := Prod.mk.inj (Option.some.inj hadv)
          exact List.prefix_rfl
        · next hinsert =>
          obtain ⟨rfl, -⟩ := Prod.mk.inj (Option.some.inj hadv)
          obtain ⟨-, rfl⟩ := Store.insertRow_eq_some hinsert
          exact List.prefix_append _ _
    · cases hadv

/-- **What a step of `UnreadCount` does:** it fails, reads the marker, or counts. -/
theorem advanceUnreadCount_cases {env : StepEnv} {users : Table lower} {videos : List Video}
    {u : UUID} {pc pc' : UnreadCountPc} (h : advanceUnreadCount env users videos u pc = some pc') :
    (∃ e, pc' = .done (.error e)) ∨
    (pc = .load ∧ env.fails = false ∧ pc' = .count (users.seenAt u)) ∨
    ∃ seenAt, pc = .count seenAt ∧
      pc' = .done (.ok (capped (Store.countSharedAfter videos seenAt u))) := by
  rcases pc with _ | seenAt | r
  · obtain rfl := Option.some.inj h
    split_ifs with hfails
    · exact .inl ⟨_, rfl⟩
    · split
      · exact .inl ⟨_, rfl⟩
      · next a ha =>
        refine .inr (.inl ⟨rfl, Bool.eq_false_iff.2 hfails, ?_⟩)
        unfold Table.seenAt
        rw [ha]
        rfl
  · obtain rfl := Option.some.inj h
    split_ifs
    · exact .inl ⟨_, rfl⟩
    · exact .inr (.inr ⟨seenAt, rfl, rfl⟩)
  · cases h

end Server

/-- A list whose elements are all counted. -/
theorem sublist_sharedAfter {vs videos : List Video} {seenAt : Option Time} {u : UUID}
    (hsub : vs.Sublist videos) (hother : ∀ v ∈ vs, v.sharedByID ≠ u)
    (hstamp : ∀ v ∈ vs, ∀ m ∈ seenAt, m.ns < v.createdAt.timestamptz.ns) :
    vs.Sublist (Store.sharedAfter videos seenAt u) := by
  have hall : vs.filter (fun v => decide (v.sharedByID ≠ u ∧
      ∀ t ∈ seenAt, t.ns < v.createdAt.timestamptz.ns)) = vs :=
    List.filter_eq_self.2 fun v hv => decide_eq_true ⟨hother v hv, hstamp v hv⟩
  rw [← hall]
  exact hsub.filter _

namespace Watch

variable {w w' : Watch lower}

/-- What is new to a user after a step is there. -/
theorem Inv.since_step (hi : w.Inv) {t : Server lower} {l : Server.Label}
    (hvideos : w.server.videos <+: t.videos) (u : UUID) :
    ∀ vs ∈ w.sinceAfter t u l, vs.Sublist t.videos := by
  have hkeep : ∀ vs ∈ w.since u, vs.Sublist t.videos := fun vs hvs =>
    (hi.since u vs hvs).trans hvideos.sublist
  intro vs hvs
  unfold sinceAfter at hvs
  split at hvs
  · split_ifs at hvs
    · cases hvs
    · exact hkeep vs hvs
  · split at hvs
    · split_ifs at hvs
      · obtain rfl := Option.some.inj hvs
        exact List.nil_sublist _
      · exact hkeep vs hvs
    · obtain ⟨old, hold, rfl⟩ := Option.map_eq_some_iff.1 hvs
      obtain ⟨new, hnew⟩ := hvideos
      rw [← hnew, List.drop_left]
      exact (hi.since u old hold).append (List.Sublist.refl new)
  · exact hkeep vs hvs

/-- One call moves, and the others owe and have counted what they did. -/
theorem Inv.setCall (hi : w.Inv) {k : ℕ} {c : Call} {users : Table lower} {videos : List Video}
    {clock : Time} {since : UUID → Option (List Video)} {owed counted : ℕ → List Video}
    (hvideos : w.server.videos <+: videos) (hsince : ∀ u, ∀ vs ∈ since u, vs.Sublist videos)
    (hothers : ∀ j, j ≠ k → owed j = w.owed j ∧ counted j = w.counted j)
    (hk : ∀ u pc, c = .unreadCount u pc → (owed k).Sublist videos ∧
      (∀ v ∈ owed k, v.sharedByID ≠ u) ∧ Serves (owed k) (counted k) pc) :
    Inv ⟨{ w.server.setCall k c with users := users, videos := videos, clock := clock },
      since, owed, counted⟩ := by
  refine ⟨hsince, fun j u pc hj => ?_⟩
  rcases Server.setCall_eq_some hj with ⟨rfl, rfl⟩ | ⟨hjk, hold⟩
  · exact hk u pc rfl
  · obtain ⟨howed, hcounted⟩ := hothers j hjk
    obtain ⟨hsub, hrest⟩ := hi.call j u pc hold
    show (owed j).Sublist videos ∧ (∀ v ∈ owed j, v.sharedByID ≠ u) ∧
      Serves (owed j) (counted j) pc
    rw [howed, hcounted]
    exact ⟨hsub.trans hvideos.sublist, hrest⟩

/-- A call begins. -/
theorem Inv.begin (hi : w.Inv) {l : Server.Label} {k : ℕ} {c : Call}
    (h : Server.begun l = some (k, c)) :
    Inv ⟨w.server.setCall k c, fun u => w.sinceAfter (w.server.setCall k c) u l, w.owedAfter l,
      w.countedAfter l⟩ := by
  have hsince := hi.since_step (t := w.server.setCall k c) (l := l) List.prefix_rfl
  rcases Server.begun_cases h with ⟨u, rfl, rfl⟩ | ⟨u, rfl, rfl⟩ | ⟨v, rfl, rfl⟩
  · exact hi.setCall List.prefix_rfl hsince (fun _ _ => ⟨rfl, rfl⟩) nofun
  · refine hi.setCall List.prefix_rfl hsince ?_ ?_
    · intro j hj
      exact ⟨Function.update_of_ne hj _ _, rfl⟩
    · rintro _ _ ⟨⟩
      show (Function.update w.owed k _ k).Sublist _ ∧ (∀ v ∈ Function.update w.owed k _ k, _) ∧ True
      rw [Function.update_self]
      refine ⟨List.filter_sublist.trans ?_, fun v hv => ?_, trivial⟩
      · cases hvs : w.since u with
        | none => exact List.nil_sublist _
        | some vs => exact hi.since u vs hvs
      · exact of_decide_eq_true (List.mem_filter.1 hv).2
  · exact hi.setCall List.prefix_rfl hsince (fun _ _ => ⟨rfl, rfl⟩) nofun

/-- A call of `UnreadCount` takes a step. -/
theorem Inv.unreadCount (hi : w.Inv) {k : ℕ} {env : StepEnv} {u : UUID} {pc pc' : UnreadCountPc}
    (hk : w.server.calls k = some (.unreadCount u pc)) (hl : w.StampedAfter (.step k env))
    (hadv : advanceUnreadCount env w.server.users w.server.videos u pc = some pc') :
    Serves (w.owed k) (w.countedAfter (.step k env) k) pc' := by
  obtain ⟨hsub, hother, hserves⟩ := hi.call k u pc hk
  rcases Server.advanceUnreadCount_cases hadv with ⟨e, rfl⟩ | ⟨rfl, hfails, rfl⟩ |
    ⟨seenAt, rfl, rfl⟩
  · trivial
  · simp only [StampedAfter, hk] at hl
    exact hl hfails
  · simp only [countedAfter, hk, Function.update_self]
    exact ⟨rfl, sublist_sharedAfter hsub hother hserves⟩

/-- A step of call `k` counts for no other call. -/
theorem countedAfter_of_ne {k j : ℕ} {env : StepEnv} {c : Call} (hk : w.server.calls k = some c)
    (hj : j ≠ k) : w.countedAfter (.step k env) j = w.counted j := by
  simp only [countedAfter, hk]
  rcases c with _ | ⟨u, _ | seenAt | r⟩ | _
  · rfl
  · rfl
  · exact Function.update_of_ne hj _ _
  · rfl
  · rfl

/-- **The step lemma.** -/
theorem Inv.step (hi : w.Inv) {l : Server.Label} (hl : w.StampedAfter l)
    (h : w.step l = some w') : w'.Inv := by
  obtain ⟨t, ht, rfl⟩ := Option.map_eq_some_iff.1 h
  rcases Server.step_cases ht with ⟨k, c, hbegun, -, rfl⟩ |
    ⟨k, env, c, users, videos, c', rfl, -, hk, hadv, rfl⟩
  · exact hi.begin hbegun
  · have hvideos := Server.videos_subset_advance hadv
    refine hi.setCall hvideos (hi.since_step hvideos) (fun j hj => ⟨rfl, ?_⟩) ?_
    · exact countedAfter_of_ne hk hj
    · rintro u pc' rfl
      rcases c with ⟨v, pc⟩ | ⟨v, pc⟩ | pc
      · obtain ⟨_, -, heq⟩ := Option.map_eq_some_iff.1 hadv
        cases (Prod.mk.inj (Prod.mk.inj heq).2).2
      · obtain ⟨pc₁, hpc₁, heq⟩ := Option.map_eq_some_iff.1 hadv
        obtain ⟨rfl, rfl⟩ := Call.unreadCount.inj (Prod.mk.inj (Prod.mk.inj heq).2).2
        obtain ⟨hsub, hother, -⟩ := hi.call k v pc hk
        exact ⟨hsub.trans hvideos.sublist, hother, hi.unreadCount hk hl hpc₁⟩
      · obtain ⟨_, -, heq⟩ := Option.map_eq_some_iff.1 hadv
        cases (Prod.mk.inj (Prod.mk.inj heq).2).2

/-- Before any call nothing is new and nothing is owed. -/
theorem inv_init (hw : (watch lower).init w) : w.Inv := by
  have hnone : ∀ j (c : Call), w.server.calls j ≠ some c :=
    fun j c hj => nomatch (hw.1 j).symm.trans hj
  constructor
  · intro u vs hvs
    rw [hw.2 u] at hvs
    cases hvs
  · exact fun k u pc hk => absurd hk (hnone _ _)

end Watch

/-- **No share escapes.**  In every run, if each call of `UnreadCount` reads a
marker that is before the stamps of the videos that it owes, it counts them. -/
theorem no_share_escapes {w : Watch lower} (hw : (watch lower).init w) {run : List Server.Label}
    (hrun : (watch lower).Steps Watch.StampedAfter w run) :
    (watch lower).Always Watch.NoEscape w run :=
  (Machine.always_of_steps (M := watch lower) (I := Watch.Inv) (C := Watch.StampedAfter)
    (fun _ _ _ hi hl h => hi.step hl h) (Watch.inv_init hw) hrun).mono fun _ => Watch.Inv.noEscape

/-- A server with user 7, nobody watching. -/
def freshWatch : Watch id := ⟨freshServer, fun _ => none, fun _ => [], fun _ => []⟩

/-- A video of user 8. -/
def shared : Video :=
  ⟨UUID.nil, "v", "", "", "", "", ⟨8⟩, ⟨UUID.nil, "", ""⟩, ⟨0⟩⟩

/-- A share stamped after the marker is counted. -/
theorem no_share_escapes_late : (watch id).Always Watch.NoEscape freshWatch
    [.markSeen 0 ⟨7⟩, after 0 1, after 0 2, .create 1 shared, after 1 3, after 1 4,
      .unreadCount 2 ⟨7⟩, after 2 5, after 2 6] := by
  refine no_share_escapes ⟨fun _ => rfl, fun _ => rfl⟩ ?_
  decide

/-- A share is stamped, user 7 marks all as seen, and then the row is inserted:
the next count, which owes it, is 0. -/
theorem share_escapes : ¬(watch id).Always Watch.NoEscape freshWatch
    [.create 0 shared, after 0 1, .markSeen 1 ⟨7⟩, after 1 2, after 1 3, after 0 4,
      .unreadCount 2 ⟨7⟩, after 2 5, after 2 6] := by
  intro h
  have hend : ((watch id).exec freshWatch [.create 0 shared, after 0 1, .markSeen 1 ⟨7⟩, after 1 2,
      after 1 3, after 0 4, .unreadCount 2 ⟨7⟩, after 2 5, after 2 6]).map
        (fun w => (w.server.calls 2, (w.owed 2).length, (w.counted 2).length)) =
      some (some (.unreadCount ⟨7⟩ (.done (.ok 0))), 1, 0) := by
    decide
  obtain ⟨w, hw, heq⟩ := Option.map_eq_some_iff.1 hend
  obtain ⟨hcall, heq⟩ := Prod.mk.inj heq
  obtain ⟨howed, hcounted⟩ := Prod.mk.inj heq
  have hle := ((h.exec hw) 2 _ _ hcall).2.length_le
  omega

end Service
end Notifications
end YtShare
