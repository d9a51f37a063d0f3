import Biei.Lemmas.Drain

/-! # Draining is safe -/

namespace Biei

namespace DrainController

variable {s s' : DrainController} {i : Nat} {task : DrainTask}

/-- While the flag is clear, it stays so and no acquisition is granted. -/
theorem not_granted_of_step {a : DrainAction} (hdraining : s.accepting = false) (hnone : .granted ∉ s.tasks)
    (hs : s.step a = some s') : s'.accepting = false ∧ .granted ∉ s'.tasks := by
  have hset : ∀ (i : Nat) task', task' ≠ .granted → .granted ∉ s.tasks.set i task' := by
    intro i task' hne hmem
    rcases List.mem_or_eq_of_mem_set hmem with hmem | heq
    · exact hnone hmem
    · exact hne heq.symm
  have hconcat : ∀ task', task' ≠ .granted → .granted ∉ s.tasks ++ [task'] := by
    intro task' hne hmem
    rcases List.mem_append.mp hmem with hmem | hmem
    · exact hnone hmem
    · exact hne (List.mem_singleton.mp hmem).symm
  have hlower : ∀ (i : Nat) after, .granted ∉ (s.lower i after).tasks := by
    intro i after
    unfold lower
    split
    · exact hset i _ (by simp)
    · exact hset i _ (by simp)
  cases a with
  | tryAcquire =>
    cases hs
    exact ⟨hdraining, hconcat _ (by simp)⟩
  | beginDraining =>
    cases hs
    exact ⟨hdraining, hconcat _ (by simp)⟩
  | waitIdle =>
    cases hs
    exact ⟨hdraining, hconcat _ (by simp)⟩
  | move i =>
    obtain ⟨task, hi, hs⟩ := Option.bind_eq_some_iff.mp hs
    unfold move at hs
    split at hs
    · cases hs
      refine ⟨hdraining, hset i _ ?_⟩
      split <;> simp
    · cases hs
      exact ⟨hdraining, hset i _ (by simp)⟩
    · -- the second look at the flag finds it clear
      rw [← Option.some.inj hs, if_pos (by simp [isDraining, hdraining])]
      exact ⟨hdraining, hset i _ (by simp)⟩
    · cases hs
      exact ⟨hdraining, hlower i _⟩
    · cases hs
      exact ⟨rfl, hset i _ (by simp)⟩
    · cases hs
      refine ⟨hdraining, hset i _ ?_⟩
      split <;> simp
    · cases hs
      exact ⟨hdraining, hset i _ (by simp)⟩
    · cases hs
      refine ⟨hdraining, hset i _ ?_⟩
      split <;> simp
    · obtain ⟨out, -, hout⟩ := Option.map_eq_some_iff.mp hs
      rw [← hout]
      cases out with
      | inl wait => exact ⟨hdraining, hset i _ (by simp)⟩
      | inr u => exact ⟨hdraining, hset i _ (by simp)⟩
    · cases hs
    · cases hs
    · cases hs
    · cases hs
  | dropPermit i =>
    obtain ⟨task, hi, hs⟩ := Option.bind_eq_some_iff.mp hs
    unfold dropPermit at hs
    split at hs
    · cases hs
      exact ⟨hdraining, hlower i _⟩
    · cases hs
  | timeout i =>
    obtain ⟨task, hi, hs⟩ := Option.bind_eq_some_iff.mp hs
    unfold timeout at hs
    split at hs
    · cases hs
      exact ⟨hdraining, hset i _ (by simp)⟩
    · cases hs
  | cancel i =>
    obtain ⟨task, hi, hs⟩ := Option.bind_eq_some_iff.mp hs
    unfold cancel at hs
    split at hs
    · cases hs
      exact ⟨hdraining, hset i _ (by simp)⟩
    · cases hs

/-- The same over a run. -/
theorem not_granted_of_run {actions : List DrainAction} (hdraining : s.accepting = false) (hnone : .granted ∉ s.tasks)
    (hrun : machine.run s actions = some s') : .granted ∉ s'.tasks := by
  induction actions generalizing s with
  | nil => exact Option.some.inj hrun ▸ hnone
  | cons a actions ih =>
    obtain ⟨u, hu, hrun⟩ := Option.bind_eq_some_iff.mp hrun
    obtain ⟨hdraining', hnone'⟩ := not_granted_of_step (a := a) hdraining hnone hu
    exact ih hdraining' hnone' hrun

/-- A counter of zero means that nobody has a permit. -/
theorem Sound.not_granted (h : s.Sound) (hzero : s.inFlight = 0) : .granted ∉ s.tasks := by
  intro hmem
  obtain ⟨i, hi⟩ := List.mem_iff_getElem?.mp hmem
  have hpos := h.inFlight_pos hi rfl
  omega

/-! ## Waiters return -/

/-- The task returns that the node is idle, with moves of its own and of whoever is to notify. -/
def ReturnsIdle (s : DrainController) (i : Nat) : Prop :=
  ∃ (moves : List Nat) (s' : DrainController), machine.run s (moves.map .move) = some s' ∧ s'.tasks[i]? = some (.returned true)

theorem ReturnsIdle.cons {j : Nat} (h : s'.ReturnsIdle i) (hs : s.step (.move j) = some s') : s.ReturnsIdle i := by
  obtain ⟨moves, t, hrun, ht⟩ := h
  refine ⟨j :: moves, t, ?_, ht⟩
  show (s.step (.move j)).bind _ = _
  rw [hs]
  exact hrun

/-- A task that registers when the counter is zero returns at its next look. -/
theorem returnsIdle_of_registering (hi : s.tasks[i]? = some (.changing .registering)) (hzero : s.inFlight = 0) :
    s.ReturnsIdle i := by
  have hregister : s.step (.move i) = some (s.setTask i (.changing (.rechecking s.idle.notified))) := by
    show s.tasks[i]?.bind _ = _
    rw [hi]
    rfl
  have hi' := getElem?_set_of_some hi (.changing (.rechecking s.idle.notified))
  have hcheck : (s.setTask i (.changing (.rechecking s.idle.notified))).step (.move i) =
      some ((s.setTask i (.changing (.rechecking s.idle.notified))).setTask i (.returned true)) := by
    show (s.tasks.set i _)[i]?.bind _ = _
    rw [hi']
    simp [move, change, checkIdle, ChangeWait.step, setTask, hzero]
  have hdone : ((s.setTask i (.changing (.rechecking s.idle.notified))).setTask i (.returned true)).ReturnsIdle i :=
    ⟨[], _, rfl, getElem?_set_of_some hi' _⟩
  exact (hdone.cons hcheck).cons hregister

/-- A parked task whose future is ready registers anew. -/
theorem returnsIdle_of_ready {future : Notified} (hi : s.tasks[i]? = some (.changing (.parked future)))
    (hready : future.calls < s.idle.calls) (hzero : s.inFlight = 0) : s.ReturnsIdle i := by
  have hwake : s.step (.move i) = some (s.setTask i (.changing .registering)) := by
    show s.tasks[i]?.bind _ = _
    rw [hi]
    have hne : future.ready s.idle = true := by simpa [Notified.ready] using Nat.ne_of_lt hready
    simp [move, change, ChangeWait.step, hne]
  have hrest : (s.setTask i (.changing .registering)).ReturnsIdle i :=
    returnsIdle_of_registering (getElem?_set_of_some hi _) hzero
  exact hrest.cons hwake

/-- A task that is parked while the counter is zero was notified or is to be, and returns with that. -/
theorem Sound.returnsIdle (h : s.Sound) {future : Notified} (hi : s.tasks[i]? = some (.changing (.parked future)))
    (hzero : s.inFlight = 0) : s.ReturnsIdle i := by
  rcases h.awake future (List.mem_of_getElem? hi) with hbusy | hready | ⟨after, hafter⟩
  · exact absurd hzero hbusy
  · exact returnsIdle_of_ready hi hready hzero
  · obtain ⟨j, hj⟩ := List.mem_iff_getElem?.mp hafter
    have hnotify : s.step (.move j) = some { s.setTask j (.ended after) with idle := s.idle.notifyWaiters } := by
      show s.tasks[j]?.bind _ = _
      rw [hj]
      rfl
    have hne : j ≠ i := by
      rintro rfl
      cases hj.symm.trans hi
    have hi' : (s.tasks.set j (.ended after))[i]? = some (.changing (.parked future)) := by
      rw [List.getElem?_set_ne hne]
      exact hi
    have hseen := h.seen _ (List.mem_of_getElem? hi) future (Or.inr rfl)
    have hrest : ReturnsIdle { s.setTask j (.ended after) with idle := s.idle.notifyWaiters } i :=
      returnsIdle_of_ready hi' (Nat.lt_succ_of_le hseen) hzero
    exact hrest.cons hnotify

/-- Over every run: the counter is the number of permits and of undecided acquisitions, and whoever lowers it finds it above zero;
once the flag is clear and the counter is zero, there is no permit, and none is granted in any run from there; and a task that is
parked while the counter is zero was notified, or somebody is about to, and with that it returns. -/
theorem draining_safe (s : DrainController) (hs : machine.Reachable s) :
    s.inFlight = s.tasks.countP (· == .granted) + s.tasks.countP DrainTask.undecided ∧
    (∀ i : Nat, s.tasks[i]? = some .granted ∨ s.tasks[i]? = some .undoing → 0 < s.inFlight) ∧
    (s.accepting = false → s.inFlight = 0 → .granted ∉ s.tasks ∧
      ∀ actions s', machine.run s actions = some s' → .granted ∉ s'.tasks) ∧
    (∀ (i : Nat) future, s.tasks[i]? = some (.changing (.parked future)) → s.inFlight = 0 →
      (future.ready s.idle = true ∨ ∃ after, .notifying after ∈ s.tasks) ∧ s.ReturnsIdle i) := by
  have h := sound_of_reachable hs
  refine ⟨h.inFlight_eq, fun i hi => ?_, fun hdraining hzero => ?_, fun i future hi hzero => ⟨?_, h.returnsIdle hi hzero⟩⟩
  · rcases hi with hi | hi
    · exact h.inFlight_pos hi rfl
    · exact h.inFlight_pos hi rfl
  · have hnone := h.not_granted hzero
    exact ⟨hnone, fun actions s' hrun => not_granted_of_run hdraining hnone hrun⟩
  · rcases h.awake future (List.mem_of_getElem? hi) with hbusy | hready | hafter
    · exact absurd hzero hbusy
    · exact Or.inl (by simpa [Notified.ready] using Nat.ne_of_lt hready)
    · exact Or.inr hafter

/-- A permit is dropped after draining has begun, while somebody waits. -/
def drainedRun : List DrainAction :=
  [.tryAcquire, .move 0, .move 0, .move 0, .beginDraining, .move 1, .waitIdle, .move 2, .move 2, .move 2, .move 2, .dropPermit 0]

theorem draining_safe_drainedRun : ∃ s, machine.run new drainedRun = some s ∧ s.inFlight = 0 ∧ s.ReturnsIdle 2 := by
  have hrun : (machine.run new drainedRun).isSome = true := by decide +kernel
  obtain ⟨s, hs⟩ := Option.isSome_iff_exists.mp hrun
  have hs' : machine.run new drainedRun = some ((machine.run new drainedRun).getD new) := by rw [hs]; rfl
  have hzero : ((machine.run new drainedRun).getD new).inFlight = 0 := by decide +kernel
  have hparked : ((machine.run new drainedRun).getD new).tasks[2]? = some (.changing (.parked ⟨0⟩)) := by decide +kernel
  exact ⟨_, hs', hzero, ((draining_safe _ (Machine.reachable_of_run hs')).2.2.2 2 _ hparked hzero).2⟩

end DrainController

end Biei
