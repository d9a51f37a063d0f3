import Biei.Lemmas.Scheduler

/-! # Throttled schedulers are woken -/

namespace Biei

/-- The scheduler waits for a slot, or is about to. -/
def SchedulerPhase.awaits : SchedulerPhase → Bool
  | .throttled _ => true
  | .waiting _ => true
  | .notified => true
  | _ => false

namespace ScheduledCoordinator

variable {T : Type} [DecidableEq T]

/-- A permit is stored in the `Notify` that the scheduler waits on. -/
def Stored (s : ScheduledCoordinator T) (task : SchedulerTask T) : Prop :=
  ∃ n, (task.phase = .throttled n ∨ task.phase = .waiting n) ∧ (s.notify task.tilesetId n).permit = true

theorem stored_or_full {s : ScheduledCoordinator T} (h : SchedulerInv s) {task : SchedulerTask T} (htask : task ∈ s.tasks)
    (hawaits : task.phase.awaits = true) :
    ∃ st, s.coordinator.tilesetStates task.tilesetId = some st ∧
      ((s.Stored task ∨ task.phase = .notified) ∨
        st.pendingChunks.isEmpty = false ∧ maxConcurrentFetchesPerTileset ≤ st.inflightFetchCount) := by
  obtain ⟨j, hj⟩ := List.mem_iff_getElem?.mp htask
  have hne : task.phase ≠ .returned := by
    intro hreturned
    rw [hreturned] at hawaits
    cases hawaits
  have hactive := active_of_mem hj hne
  obtain ⟨st, hst, -⟩ := (h.tasks task.tilesetId).running j task.phase hactive
  have hok := (h.tasks task.tilesetId).phases j task.phase st hactive hst
  refine ⟨st, hst, ?_⟩
  cases hphase : task.phase with
  | throttled n =>
    rw [hphase] at hok
    obtain ⟨rfl, hpending, hfull | hpermit⟩ := hok
    · exact Or.inr ⟨hpending, hfull⟩
    · refine Or.inl (Or.inl ⟨_, Or.inl hphase, ?_⟩)
      rw [SchedulerInv.notify_eq hst]
      exact hpermit
  | waiting n =>
    rw [hphase] at hok
    exact Or.inr ⟨hok.2.1, hok.2.2.1⟩
  | notified => exact Or.inl (Or.inr rfl)
  | sleeping =>
    rw [hphase] at hawaits
    cases hawaits
  | dispatching =>
    rw [hphase] at hawaits
    cases hawaits
  | shedding error =>
    rw [hphase] at hawaits
    cases hawaits
  | returned => exact absurd hphase hne

/-- In every state that is reached by passes of schedulers, fetches that join, groups that complete and receivers that go, in any
order: a scheduler that waits or is about to has the state of its tileset, whose counter is that of the outstanding groups; and if
fewer of them are in flight than may be while something is pending, a permit is stored for it or a notification was delivered to
it. If neither is so, there are as many outstanding groups as may be, and each has yet to complete. -/
theorem throttled_scheduler_notified (m : Nat) {s : ScheduledCoordinator T} (h : (machine T m).Reachable s)
    {task : SchedulerTask T} (htask : task ∈ s.tasks) (hawaits : task.phase.awaits = true) :
    ∃ st, s.coordinator.tilesetStates task.tilesetId = some st ∧
      st.inflightFetchCount = (s.coordinator.outstanding task.tilesetId).length ∧
      (st.inflightFetchCount < maxConcurrentFetchesPerTileset → st.pendingChunks.isEmpty = false →
        s.Stored task ∨ task.phase = .notified) ∧
      (¬(s.Stored task ∨ task.phase = .notified) →
        (s.coordinator.outstanding task.tilesetId).length = maxConcurrentFetchesPerTileset) := by
  have hinv := SchedulerInv.reachable h
  obtain ⟨st, hst, hcases⟩ := stored_or_full hinv htask hawaits
  have hfetch := hinv.fetch.agree task.tilesetId st hst
  refine ⟨st, hst, hfetch.count, fun hfree _ => ?_, fun hnot => ?_⟩
  · rcases hcases with hnotified | ⟨-, hfull⟩
    · exact hnotified
    · exact absurd hfull (Nat.not_le_of_lt hfree)
  · rcases hcases with hnotified | ⟨-, hfull⟩
    · exact absurd hnotified hnot
    · rw [← hfetch.count]
      exact Nat.le_antisymm hfetch.limit hfull

/-- One chunk more is asked for than may be fetched at once; a fetch completes when the scheduler is throttled and has not
registered. -/
def throttledRun : List (SchedulerAction Nat) :=
  [.fetchChunks 0 ((List.range 33).map (3 * ·)) 1000 0, .pass 0 0] ++ List.replicate 32 (.reserve 0 none) ++
    [.loop 0, .pass 0 0, .finishFetch 0 (.ok []), .completeGroup 0]

theorem throttled_scheduler_notified_throttledRun :
    ∃ s : ScheduledCoordinator Nat, (machine Nat 1).Reachable s ∧ ∃ task ∈ s.tasks, task.phase = .throttled 0 ∧
      s.Stored task := by
  have hrun : (((machine Nat 1).run (machine Nat 1).init throttledRun).map fun s =>
      (s.tasks.map fun task => (task.tilesetId, task.phase), (s.coordinator.tilesetStates 0).map fun st =>
        (st.inflightFetchCount, st.pendingChunks.isEmpty))) = some ([(0, .throttled 0)], some (31, false)) := by
    decide +kernel
  obtain ⟨s, hs, hview⟩ := Option.map_eq_some_iff.mp hrun
  obtain ⟨htasks, hstate⟩ := Prod.mk.inj hview
  obtain ⟨task, htask, hpair⟩ := List.mem_map.mp (htasks ▸ List.mem_singleton_self (0, SchedulerPhase.throttled 0))
  obtain ⟨htileset, hphase⟩ := Prod.mk.inj hpair
  have hreach := Machine.reachable_of_run hs
  obtain ⟨st, hst, -, hnotified, -⟩ := throttled_scheduler_notified 1 hreach htask (by rw [hphase]; rfl)
  rw [htileset] at hst
  rw [hst] at hstate
  obtain ⟨hcount, hpending⟩ := Prod.mk.inj (Option.some.inj hstate)
  refine ⟨s, hreach, task, htask, hphase, ?_⟩
  rcases hnotified (by rw [hcount]; decide) hpending with hstored | hdelivered
  · exact hstored
  · rw [hphase] at hdelivered
    cases hdelivered

end ScheduledCoordinator

end Biei
