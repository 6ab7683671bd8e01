/-
# Machines and their runs

A machine is a partial step function.  A label resolves every choice that the
program and its environment leave open (which goroutine moves, which branch a
`select` takes, what the other side answers), so that `step` is a function and
a run is a list of labels.  A label that is not enabled gives `none`.

`Machine.invariant` is the induction rule for reachable states.  The other
rules are about one run at a time: `Machine.Always P` says that `P` holds at
every state the run visits, `Machine.Steps C` that every step it takes meets
`C` in the state before it.  `Machine.always_of_steps` carries an invariant
along the runs whose steps all meet a condition, and `Machine.always_iff_steps`
says when that condition is exact.  `Machine.steps_congr` compares two
conditions on the steps.  `Machine.restrict` leaves out the steps that some
assumption excludes.  `Machine.Can` is about what may still happen: some run of
steps that meet a condition ends where a property holds.

Most states here hold a family, of calls, of workers or of requests, and a step
changes it at one index (`update_eq_iff`, `update_eq_some`).
-/

import Mathlib.Data.List.Basic
import Mathlib.Data.Option.Basic
import Mathlib.Logic.Function.Basic

namespace YtShare
namespace Lib

/-- A transition system with a partial step function. -/
structure Machine (σ α : Type) where
  init : σ → Prop
  step : σ → α → Option σ

namespace Machine

variable {σ α : Type} (M : Machine σ α)

/-- The states that some run from an initial state ends in. -/
inductive Reachable : σ → Prop
  | init {s : σ} : M.init s → Reachable s
  | step {s t : σ} {a : α} : Reachable s → M.step s a = some t → Reachable t

/-- The state at the end of a run, `none` when some label is not enabled. -/
def exec : σ → List α → Option σ
  | s, [] => some s
  | s, a :: as => (M.step s a).bind fun t => exec t as

/-- `P` holds at every state that the run visits, its first one included. -/
def Always (P : σ → Prop) : σ → List α → Prop
  | s, [] => P s
  | s, a :: as => P s ∧ ∀ t, M.step s a = some t → Always P t as

/-- Every step that the run takes meets `C` in the state before it. -/
def Steps (C : σ → α → Prop) : σ → List α → Prop
  | _, [] => True
  | s, a :: as => ∀ t, M.step s a = some t → C s a ∧ Steps C t as

/-- The machine that takes only the steps that meet `A`. -/
def restrict (A : σ → α → Prop) [∀ s a, Decidable (A s a)] : Machine σ α where
  init := M.init
  step s a := if A s a then M.step s a else none

variable {M}

/-- The restricted machine takes the steps that meet the condition. -/
theorem restrict_step {A : σ → α → Prop} [∀ s a, Decidable (A s a)] {s t : σ} {a : α} :
    (M.restrict A).step s a = some t ↔ A s a ∧ M.step s a = some t :=
  Option.ite_none_right_eq_some

/-- A run takes its first step, and then the others. -/
theorem exec_cons (s : σ) (a : α) (as : List α) :
    M.exec s (a :: as) = (M.step s a).bind fun t => M.exec t as := rfl

/-- One run after the other. -/
theorem exec_append (s : σ) (as bs : List α) :
    M.exec s (as ++ bs) = (M.exec s as).bind fun t => M.exec t bs := by
  induction as generalizing s with
  | nil => rfl
  | cons a as ih =>
    rw [List.cons_append, exec_cons, exec_cons]
    cases M.step s a with
    | none => rfl
    | some t => exact ih t

/-- **The induction rule.**  What holds initially and is kept by every step
holds of every reachable state. -/
theorem invariant {I : σ → Prop} (h0 : ∀ s, M.init s → I s)
    (hstep : ∀ s a t, I s → M.step s a = some t → I t) {s : σ} (h : M.Reachable s) : I s := by
  induction h with
  | init hs => exact h0 _ hs
  | step _ hst ih => exact hstep _ _ _ ih hst

/-- Runs stay among the reachable states. -/
theorem Reachable.exec {s t : σ} (hs : M.Reachable s) {as : List α} (h : M.exec s as = some t) :
    M.Reachable t := by
  induction as generalizing s with
  | nil => obtain rfl := Option.some.inj h; exact hs
  | cons a as ih =>
    obtain ⟨u, hu, ht⟩ := Option.bind_eq_some_iff.1 h
    exact ih (hs.step hu) ht

/-- What a run from an initial state ends in is reachable. -/
theorem reachable_of_exec {s t : σ} (hs : M.init s) {as : List α} (h : M.exec s as = some t) :
    M.Reachable t :=
  (Reachable.init hs).exec h

/-- What holds along a run holds at its end. -/
theorem Always.exec {P : σ → Prop} {s t : σ} {as : List α} (hP : M.Always P s as)
    (h : M.exec s as = some t) : P t := by
  induction as generalizing s with
  | nil => obtain rfl := Option.some.inj h; exact hP
  | cons a as ih =>
    obtain ⟨u, hu, ht⟩ := Option.bind_eq_some_iff.1 h
    exact ih (hP.2 u hu) ht

/-- `Always` in terms of the prefixes of the run. -/
theorem always_iff {P : σ → Prop} {s : σ} {as : List α} :
    M.Always P s as ↔ ∀ pre t, pre <+: as → M.exec s pre = some t → P t := by
  constructor
  · intro hP pre t hpre h
    induction as generalizing s pre with
    | nil =>
      obtain rfl := List.prefix_nil.1 hpre
      exact hP.exec h
    | cons a as ih =>
      cases pre with
      | nil => obtain rfl := Option.some.inj h; exact hP.1
      | cons b pre =>
        obtain ⟨rfl, hpre'⟩ := List.cons_prefix_cons.1 hpre
        obtain ⟨u, hu, ht⟩ := Option.bind_eq_some_iff.1 h
        exact ih (hP.2 u hu) pre hpre' ht
  · intro h
    induction as generalizing s with
    | nil => exact h [] s (List.prefix_refl _) rfl
    | cons a as ih =>
      refine ⟨h [] s List.nil_prefix rfl, fun t ht => ih fun pre u hpre hu => ?_⟩
      exact h (a :: pre) u (List.cons_prefix_cons.2 ⟨rfl, hpre⟩) (by rw [exec_cons, ht]; exact hu)

/-- What follows from a property holds along a run with it. -/
theorem Always.mono {P Q : σ → Prop} (hPQ : ∀ s, P s → Q s) {s : σ} {as : List α}
    (h : M.Always P s as) : M.Always Q s as :=
  always_iff.2 fun pre t hpre ht => hPQ t (always_iff.1 h pre t hpre ht)

/-- **A machine that another one follows:** each of its steps from the image of a state
is the image of a step there.  What holds of the images along a run there holds along
the run of its own. -/
theorem Always.map {τ : Type} {N : Machine τ α} {f : σ → τ}
    (hstep : ∀ s a u, N.step (f s) a = some u → ∃ t, M.step s a = some t ∧ f t = u)
    {P : τ → Prop} {s : σ} {as : List α} (h : M.Always (fun s => P (f s)) s as) :
    N.Always P (f s) as := by
  induction as generalizing s with
  | nil => exact h
  | cons a as ih =>
    refine ⟨h.1, fun u hu => ?_⟩
    obtain ⟨t, ht, rfl⟩ := hstep s a u hu
    exact ih (h.2 t ht)

instance Steps.decidable {C : σ → α → Prop} [∀ s a, Decidable (C s a)] :
    ∀ (s : σ) (as : List α), Decidable (M.Steps C s as)
  | _, [] => isTrue trivial
  | s, a :: as =>
      match h : M.step s a with
      | none => isTrue fun _ ht => nomatch h.symm.trans ht
      | some t =>
          have := Steps.decidable (C := C) t as
          decidable_of_iff (C s a ∧ M.Steps C t as)
            ⟨fun hC _ hu => Option.some.inj (h.symm.trans hu) ▸ hC, fun hC => hC t h⟩

/-- A run whose first step is known. -/
theorem Steps.cons {C : σ → α → Prop} {s t : σ} {a : α} {as : List α} (h : M.step s a = some t)
    (hC : C s a) (hs : M.Steps C t as) : M.Steps C s (a :: as) := by
  intro u hu
  obtain rfl := Option.some.inj (h.symm.trans hu)
  exact ⟨hC, hs⟩

/-- A condition that follows from another in every state of an invariant, which
the steps that meet the other keep. -/
theorem Steps.of_invariant {I : σ → Prop} {C D : σ → α → Prop}
    (hstep : ∀ s a t, I s → C s a → M.step s a = some t → D s a ∧ I t) {s : σ} (hI : I s)
    {as : List α} (hC : M.Steps C s as) : M.Steps D s as := by
  induction as generalizing s with
  | nil => trivial
  | cons a as ih =>
    intro t ht
    obtain ⟨hCa, hCs⟩ := hC t ht
    obtain ⟨hDa, hIt⟩ := hstep s a t hI hCa ht
    exact ⟨hDa, ih hIt hCs⟩

/-- Two conditions that agree in every state of an invariant, which the steps
that meet them keep, agree on runs. -/
theorem steps_iff {I : σ → Prop} {C D : σ → α → Prop}
    (hstep : ∀ s a t, I s → M.step s a = some t → (C s a ↔ D s a) ∧ (D s a → I t)) {s : σ}
    (hI : I s) {as : List α} : M.Steps C s as ↔ M.Steps D s as := by
  induction as generalizing s with
  | nil => exact Iff.rfl
  | cons a as ih =>
    refine forall_congr' fun t => imp_congr_right fun ht => ?_
    obtain ⟨hCD, hIt⟩ := hstep s a t hI ht
    rw [hCD]
    exact and_congr_right fun hD => ih (hIt hD)

/-- Two conditions that agree in every state of an invariant agree on runs. -/
theorem steps_congr {I : σ → Prop} {C D : σ → α → Prop}
    (hstep : ∀ s a t, I s → M.step s a = some t → I t ∧ (C s a ↔ D s a)) {s : σ} (hI : I s)
    {as : List α} : M.Steps C s as ↔ M.Steps D s as :=
  steps_iff (fun s a t hI ht => ⟨(hstep s a t hI ht).2, fun _ => (hstep s a t hI ht).1⟩) hI

/-- **An invariant of the guarded steps.**  What every step meeting `C` keeps
holds along every run whose steps all meet `C`. -/
theorem always_of_steps {I : σ → Prop} {C : σ → α → Prop}
    (hstep : ∀ s a t, I s → C s a → M.step s a = some t → I t) {s : σ} (hs : I s) {as : List α}
    (hC : M.Steps C s as) : M.Always I s as := by
  induction as generalizing s with
  | nil => exact hs
  | cons a as ih =>
    refine ⟨hs, fun t ht => ?_⟩
    obtain ⟨hCa, hCs⟩ := hC t ht
    exact ih (hstep s a t hs hCa ht) hCs

/-- **An invariant of all steps** holds along every run. -/
theorem always_of_invariant {I : σ → Prop} (hstep : ∀ s a t, I s → M.step s a = some t → I t)
    {s : σ} (hs : I s) (as : List α) : M.Always I s as := by
  induction as generalizing s with
  | nil => exact hs
  | cons a as ih => exact ⟨hs, fun t ht => ih (hstep s a t hs ht)⟩

/-- **When a condition on the steps is exact.**  If in every state that meets
the invariant `I` and the property `P` a step keeps `P` exactly when it meets
`C`, and keeps `I` then, a run keeps `P` throughout exactly when all its steps
meet `C`. -/
theorem always_iff_steps {I P : σ → Prop} {C : σ → α → Prop}
    (hstep : ∀ s a t, I s → P s → M.step s a = some t → (P t ↔ C s a) ∧ (C s a → I t))
    {s : σ} (hI : I s) (hP : P s) {as : List α} : M.Always P s as ↔ M.Steps C s as := by
  induction as generalizing s with
  | nil => exact ⟨fun _ => trivial, fun _ => hP⟩
  | cons a as ih =>
    constructor
    · rintro ⟨-, h⟩ t ht
      have hPt : P t := always_iff.1 (h t ht) [] t List.nil_prefix rfl
      have hCa : C s a := (hstep s a t hI hP ht).1.1 hPt
      exact ⟨hCa, (ih ((hstep s a t hI hP ht).2 hCa) hPt).1 (h t ht)⟩
    · intro h
      refine ⟨hP, fun t ht => ?_⟩
      obtain ⟨hCa, hCs⟩ := h t ht
      exact (ih ((hstep s a t hI hP ht).2 hCa) ((hstep s a t hI hP ht).1.2 hCa)).2 hCs

/-- Some run of steps that meet `A` ends where `Q` holds. -/
def Can (M : Machine σ α) (A : σ → α → Prop) (s : σ) (Q : σ → Prop) : Prop :=
  ∃ as t, M.Steps A s as ∧ M.exec s as = some t ∧ Q t

/-- Where the property holds already, no step is needed. -/
theorem Can.here {A : σ → α → Prop} {Q : σ → Prop} {s : σ} (hq : Q s) : M.Can A s Q :=
  ⟨[], s, trivial, rfl, hq⟩

/-- One step that meets the condition on the way. -/
theorem Can.step {A : σ → α → Prop} {Q : σ → Prop} {s t : σ} {a : α} (hs : M.step s a = some t)
    (ha : A s a) (h : M.Can A t Q) : M.Can A s Q := by
  obtain ⟨as, u, hC, hrun, hq⟩ := h
  exact ⟨a :: as, u, .cons hs ha hC, by rw [exec_cons, hs]; exact hrun, hq⟩

/-- **One after the other.** -/
theorem Can.trans {A : σ → α → Prop} {P Q : σ → Prop} {s : σ} (h : M.Can A s P)
    (hPQ : ∀ t, P t → M.Can A t Q) : M.Can A s Q := by
  obtain ⟨as, t, hC, hrun, hp⟩ := h
  induction as generalizing s with
  | nil => exact Option.some.inj hrun ▸ hPQ t hp
  | cons a as ih =>
    obtain ⟨u, hu, hrun'⟩ := Option.bind_eq_some_iff.1 hrun
    obtain ⟨ha, hC'⟩ := hC u hu
    exact .step hu ha (ih hC' hrun')

/-- What the steps keep holds where they end. -/
theorem Can.keep {A : σ → α → Prop} {I Q : σ → Prop}
    (hstep : ∀ s a t, I s → A s a → M.step s a = some t → I t) {s : σ} (hI : I s)
    (h : M.Can A s Q) : M.Can A s fun t => I t ∧ Q t := by
  obtain ⟨as, t, hA, hrun, hq⟩ := h
  exact ⟨as, t, hA, hrun, (always_of_steps hstep hI hA).exec hrun, hq⟩

end Machine

/-- A family after a change at one index: there it is the new value, and elsewhere
what it was. -/
theorem update_eq_iff {ι β : Type} [DecidableEq ι] {f : ι → β} {i j : ι} {b c : β} :
    Function.update f i b j = c ↔ j = i ∧ b = c ∨ j ≠ i ∧ f j = c := by
  rw [Function.update_apply, ite_eq_iff]

/-- The same of a family with gaps. -/
theorem update_eq_some {ι β : Type} [DecidableEq ι] {f : ι → Option β} {i j : ι} {b c : β}
    (h : Function.update f i (some b) j = some c) : j = i ∧ c = b ∨ j ≠ i ∧ f j = some c := by
  rcases update_eq_iff.1 h with ⟨hj, hbc⟩ | ⟨hj, hc⟩
  · exact .inl ⟨hj, (Option.some.inj hbc).symm⟩
  · exact .inr ⟨hj, hc⟩

end Lib
end YtShare
