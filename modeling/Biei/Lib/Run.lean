import Mathlib.Data.List.Infix
import Mathlib.Logic.Relation

/-!
# Machines and their runs

A machine is an initial state and a partial step function. Everything said here is about any machine: what a run is, which states
a run visits, the rule that carries an invariant along a run, and the rule for runs whose every step meets a guard.
-/

/-- A machine: where it starts, and what an action does to a state (`none` when the action is not enabled there). -/
structure Machine (σ : Type*) (α : Type*) where
  init : σ
  step : σ → α → Option σ

namespace Machine

variable {σ α : Type*} (M : Machine σ α)

/-- Running a list of actions from a state, in order. -/
def run : σ → List α → Option σ
  | s, [] => some s
  | s, a :: as => (M.step s a).bind fun s' => run s' as

/-- The states reached from the initial one by steps that all meet the guard `G` (on the state before the step). -/
inductive ReachedBy (G : σ → α → Prop) : σ → Prop where
  | init : ReachedBy G M.init
  | step {s s' : σ} {a : α} : ReachedBy G s → G s a → M.step s a = some s' → ReachedBy G s'

/-- The states reached from the initial one by any steps. -/
def Reachable : σ → Prop := M.ReachedBy fun _ _ => True

variable {M}

/-- One more step from a reachable state. -/
theorem Reachable.next {s s' : σ} {a : α} (h : M.Reachable s) (hs : M.step s a = some s') : M.Reachable s' :=
  ReachedBy.step h trivial hs

variable {s : σ}

/-- States reached under a guard are reached under a weaker one. -/
theorem ReachedBy.mono {G G' : σ → α → Prop} (h : M.ReachedBy G s) (hG : ∀ s a, G s a → G' s a) : M.ReachedBy G' s := by
  induction h with
  | init => exact ReachedBy.init
  | step _ hg hs ih => exact ih.step (hG _ _ hg) hs

variable {G : σ → α → Prop}

/-- The invariant rule for guarded runs: what holds initially and survives every guarded step holds of every state reached. -/
theorem ReachedBy.invariant {I : σ → Prop} (h : M.ReachedBy G s) (h0 : I M.init)
    (hstep : ∀ s a s', I s → G s a → M.step s a = some s' → I s') : I s := by
  induction h with
  | init => exact h0
  | step _ hg hs ih => exact hstep _ _ _ ih hg hs

/-- The invariant rule. -/
theorem Reachable.invariant {I : σ → Prop} (h : M.Reachable s) (h0 : I M.init)
    (hstep : ∀ s a s', I s → M.step s a = some s' → I s') : I s :=
  ReachedBy.invariant h h0 fun s a s' hi _ hs => hstep s a s' hi hs

/-- A map of states under which every step is a step of another machine, or none at all, takes reachable states to reachable
ones. -/
theorem Reachable.map {τ β : Type*} {N : Machine τ β} (f : σ → τ) (h0 : f M.init = N.init)
    (hstep : ∀ s a s', M.Reachable s → M.step s a = some s' → f s' = f s ∨ ∃ b, N.step (f s) b = some (f s')) {s : σ}
    (h : M.Reachable s) : N.Reachable (f s) := by
  induction h with
  | init => exact h0 ▸ ReachedBy.init
  | step hr _ hs ih =>
    rcases hstep _ _ _ hr hs with heq | ⟨b, hb⟩
    · exact heq ▸ ih
    · exact Reachable.next ih hb

/-- A run of one action more is a run and then a step. -/
theorem run_snoc (s : σ) (as : List α) (a : α) : M.run s (as ++ [a]) = (M.run s as).bind fun s' => M.step s' a := by
  induction as generalizing s with
  | nil =>
    simp only [List.nil_append, run, Option.bind_some]
    cases M.step s a <;> rfl
  | cons b bs ih =>
    simp only [List.cons_append, run]
    cases M.step s b with
    | none => rfl
    | some s' => exact ih s'

variable {as : List α}

/-- The state a run ends in is reachable. -/
theorem reachable_of_run (h : M.run M.init as = some s) : M.Reachable s := by
  induction as using List.reverseRecOn generalizing s with
  | nil =>
    simp only [run, Option.some.injEq] at h
    exact h ▸ ReachedBy.init
  | append_singleton as a ih =>
    rw [run_snoc] at h
    obtain ⟨s', hs', hstep⟩ := Option.bind_eq_some_iff.mp h
    exact (ih hs').next hstep

/-- A run whose every action meets the guard, in whatever state, goes on from a state reached under the guard. -/
theorem ReachedBy.run {s t : σ} (h : M.ReachedBy G s) (hG : ∀ a ∈ as, ∀ u, G u a) (hr : M.run s as = some t) :
    M.ReachedBy G t := by
  induction as generalizing s with
  | nil =>
    simp only [Machine.run, Option.some.injEq] at hr
    exact hr ▸ h
  | cons a as ih =>
    obtain ⟨u, hu, hut⟩ := Option.bind_eq_some_iff.mp hr
    exact ih (h.step (hG a List.mem_cons_self s) hu) (fun b hb => hG b (List.mem_cons_of_mem a hb)) hut

/-- Running a list of actions that each meet a guard. -/
def guardedRun (M : Machine σ α) (G : σ → α → Bool) : σ → List α → Option σ
  | s, [] => some s
  | s, a :: as => if G s a then (M.step s a).bind fun s' => guardedRun M G s' as else none

/-- A guarded run goes on from a state reached under the guard. -/
theorem ReachedBy.guardedRun {G : σ → α → Bool} {s t : σ} (h : M.ReachedBy (fun s a => G s a = true) s)
    (hr : M.guardedRun G s as = some t) : M.ReachedBy (fun s a => G s a = true) t := by
  induction as generalizing s with
  | nil =>
    simp only [Machine.guardedRun, Option.some.injEq] at hr
    exact hr ▸ h
  | cons a as ih =>
    unfold Machine.guardedRun at hr
    split at hr
    · rename_i hG
      obtain ⟨u, hu, hut⟩ := Option.bind_eq_some_iff.mp hr
      exact ih (h.step hG hu) hut
    · cases hr

/-- A guarded run that ends where `p` holds. -/
theorem exists_of_guardedRun (M : Machine σ α) (G : σ → α → Bool) (as : List α) (p : σ → Bool)
    (h : (M.guardedRun G M.init as).any p = true) :
    ∃ s, M.ReachedBy (fun s a => G s a = true) s ∧ p s = true := by
  cases hr : M.guardedRun G M.init as with
  | none =>
    rw [hr] at h
    cases h
  | some s =>
    rw [hr] at h
    exact ⟨s, ReachedBy.guardedRun ReachedBy.init hr, h⟩

/-- The property holds in every state that the run of `as` visits. -/
def HoldsAlong (M : Machine σ α) (P : σ → Prop) (as : List α) : Prop :=
  ∀ pre, pre <+: as → ∀ s, M.run M.init pre = some s → P s

/-- Every step of the run of `as` meets the guard. -/
def GuardedAlong (M : Machine σ α) (G : σ → α → Prop) (as : List α) : Prop :=
  ∀ pre a, pre ++ [a] <+: as → ∀ s, M.run M.init pre = some s → G s a

/-- A prefix of a list with one element more is a prefix of the list, or the whole. -/
theorem prefix_snoc_cases {l as : List α} {a : α} (h : l <+: as ++ [a]) : l <+: as ∨ l = as ++ [a] := by
  rcases List.prefix_concat_iff.mp h with h | h
  · exact Or.inr h
  · exact Or.inl h

/-- When, from every reachable state where `P` holds, a step keeps `P` exactly when it meets the guard, a run holds `P` throughout
exactly when all its steps meet the guard. -/
theorem holdsAlong_iff_guardedAlong {P : σ → Prop} (h0 : P M.init)
    (hstep : ∀ s a s', M.Reachable s → P s → M.step s a = some s' → (P s' ↔ G s a)) (as : List α) (t : σ)
    (h : M.run M.init as = some t) : M.HoldsAlong P as ↔ M.GuardedAlong G as := by
  induction as using List.reverseRecOn generalizing t with
  | nil =>
    refine ⟨fun _ pre a hp => absurd (List.prefix_nil.mp hp) (by simp), fun _ pre hp s hs => ?_⟩
    rw [List.prefix_nil.mp hp] at hs
    simp only [run, Option.some.injEq] at hs
    exact hs ▸ h0
  | append_singleton as a ih =>
    rw [run_snoc] at h
    obtain ⟨u, hu, hut⟩ := Option.bind_eq_some_iff.mp h
    have hreach : M.Reachable u := reachable_of_run hu
    have hlast : M.run M.init (as ++ [a]) = some t := by rw [run_snoc, hu]; exact hut
    constructor
    · intro hP pre b hpb s hs
      have hPas : M.HoldsAlong P as := fun l hl => hP l (hl.trans (List.prefix_append _ _))
      rcases prefix_snoc_cases hpb with hpb | hpb
      · exact (ih u hu).mp hPas pre b hpb s hs
      · obtain ⟨rfl, hab⟩ := List.append_inj' hpb rfl
        obtain rfl : b = a := by simpa using hab
        obtain rfl : u = s := by simpa [hu] using hs
        exact (hstep u b t hreach (hPas pre (List.prefix_refl _) u hu) hut).mp (hP _ (List.prefix_refl _) t hlast)
    · intro hG pre hp s hs
      have hGas : M.GuardedAlong G as := fun l b hl => hG l b (hl.trans (List.prefix_append _ _))
      rcases prefix_snoc_cases hp with hp | rfl
      · exact (ih u hu).mpr hGas pre hp s hs
      · obtain rfl : t = s := by simpa [hlast] using hs
        have hPu : P u := (ih u hu).mpr hGas as (List.prefix_refl _) u hu
        exact (hstep u a t hreach hPu hut).mpr (hG as a (List.prefix_refl _) u hu)

end Machine
