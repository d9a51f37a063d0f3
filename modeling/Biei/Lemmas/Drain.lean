import Biei.Server.Drain

/-! # What draining keeps -/

namespace Biei

namespace DrainTask

/-- The task has raised the counter, and not lowered it. -/
def counted : DrainTask → Bool
  | .deciding => true
  | .undoing => true
  | .granted => true
  | .checking => false
  | .incrementing => false
  | .storing => false
  | .reading => false
  | .notifying _ => false
  | .ended _ => false
  | .peeking => false
  | .changing _ => false
  | .returned _ => false
  | .cancelled => false

/-- The task is between its increment and its decision, which is carried out when the counter is lowered again. -/
def undecided : DrainTask → Bool
  | .deciding => true
  | .undoing => true
  | _ => false

/-- The task has registered with the future. -/
def Registered (task : DrainTask) (future : Notified) : Prop :=
  task = .changing (.rechecking future) ∨ task = .changing (.parked future)

end DrainTask

namespace DrainController

structure Sound (s : DrainController) : Prop where
  count : s.inFlight = s.tasks.countP DrainTask.counted
  seen : ∀ task ∈ s.tasks, ∀ future, task.Registered future → future.calls ≤ s.idle.calls
  awake : ∀ future, .changing (.parked future) ∈ s.tasks →
    s.inFlight ≠ 0 ∨ future.calls < s.idle.calls ∨ ∃ after, .notifying after ∈ s.tasks

variable {s s' : DrainController} {i : Nat} {task task' : DrainTask}

/-- Some task has raised the counter, so it is not zero. -/
theorem Sound.inFlight_pos (h : s.Sound) (hi : s.tasks[i]? = some task) (hc : task.counted = true) : 0 < s.inFlight := by
  rw [h.count]
  exact List.countP_pos_iff.mpr ⟨task, List.mem_of_getElem? hi, hc⟩

/-- The counter is the number of permits and of undecided acquisitions. -/
theorem Sound.inFlight_eq (h : s.Sound) :
    s.inFlight = s.tasks.countP (· == .granted) + s.tasks.countP DrainTask.undecided := by
  rw [h.count]
  induction s.tasks with
  | nil => rfl
  | cons task tasks ih =>
    rw [List.countP_cons, List.countP_cons, List.countP_cons, ih]
    cases task <;> simp [DrainTask.counted, DrainTask.undecided] <;> omega

variable {accepting : Bool}

/-- One task moves on, with what becomes of the counter and of the notifications. -/
theorem Sound.setTask (h : s.Sound) (hi : s.tasks[i]? = some task) {inFlight : Nat} {idle : ChangeNotify}
    (hcount : inFlight + (if task.counted then 1 else 0) = s.inFlight + if task'.counted then 1 else 0)
    (hcalls : s.idle.calls ≤ idle.calls) (hseen : ∀ future, task'.Registered future → future.calls ≤ idle.calls)
    (hawake : ∀ future, .changing (.parked future) ∈ s.tasks.set i task' →
      inFlight ≠ 0 ∨ future.calls < idle.calls ∨ ∃ after, .notifying after ∈ s.tasks.set i task') :
    Sound ⟨accepting, inFlight, idle, s.tasks.set i task'⟩ := by
  refine ⟨?_, fun other hother future hr => ?_, hawake⟩
  · have hset := countP_set_add DrainTask.counted hi task'
    have hold := h.count
    show inFlight = (s.tasks.set i task').countP DrainTask.counted
    omega
  · rcases List.mem_or_eq_of_mem_set hother with hother | rfl
    · exact (h.seen other hother future hr).trans hcalls
    · exact hseen future hr

/-- A step that leaves the counter and wakes nobody. -/
theorem Sound.keep (h : s.Sound) (hi : s.tasks[i]? = some task) (hcount : task.counted = task'.counted)
    (hnot : ∀ after, task ≠ .notifying after) (hseen : ∀ future, task'.Registered future → future.calls ≤ s.idle.calls)
    (hpark : ∀ future, task' = .changing (.parked future) → s.inFlight ≠ 0) :
    Sound ⟨accepting, s.inFlight, s.idle, s.tasks.set i task'⟩ := by
  refine h.setTask hi (by rw [hcount]) (Nat.le_refl _) hseen fun future hf => ?_
  rcases List.mem_or_eq_of_mem_set hf with hf | hf
  · rcases h.awake future hf with hbusy | hcalled | ⟨after, hafter⟩
    · exact Or.inl hbusy
    · exact Or.inr (Or.inl hcalled)
    · -- the task that is about to notify is another one
      obtain ⟨j, hj⟩ := List.mem_iff_getElem?.mp hafter
      have hij : i ≠ j := by
        rintro rfl
        exact hnot after (Option.some.inj (hi.symm.trans hj))
      refine Or.inr (Or.inr ⟨after, List.mem_of_getElem? (i := j) ?_⟩)
      rw [List.getElem?_set_ne hij]
      exact hj
  · exact Or.inl (hpark future hf.symm)

/-- A task that does not wait for the node to be idle. -/
theorem Sound.keep_away (h : s.Sound) (hi : s.tasks[i]? = some task) (hcount : task.counted = task'.counted)
    (hnot : ∀ after, task ≠ .notifying after) (haway : ∀ wait, task' ≠ .changing wait) :
    Sound ⟨accepting, s.inFlight, s.idle, s.tasks.set i task'⟩ := by
  refine h.keep hi hcount hnot (fun future hr => ?_) fun future hp => absurd hp (haway _)
  rcases hr with hr | hr
  · exact absurd hr (haway _)
  · exact absurd hr (haway _)

/-- The counter is lowered: who takes it to zero is to notify. -/
theorem Sound.lower (h : s.Sound) (hi : s.tasks[i]? = some task) (hc : task.counted = true) (after : DrainEnd) :
    (s.lower i after).Sound := by
  have hpos := h.inFlight_pos hi hc
  have hlower : (if s.inFlight = 0 then usizeMax else s.inFlight - 1) = s.inFlight - 1 := if_neg (by omega)
  unfold DrainController.lower
  rw [hlower]
  by_cases hone : s.inFlight = 1
  · rw [if_pos hone]
    refine h.setTask hi ?_ (Nat.le_refl _) (fun future hr => ?_) fun future _ => Or.inr (Or.inr ⟨after, ?_⟩)
    · rw [if_pos hc, if_neg (by simp [DrainTask.counted])]
      omega
    · rcases hr with hr | hr <;> cases hr
    · exact List.mem_of_getElem? (getElem?_set_of_some hi _)
  · rw [if_neg hone]
    refine h.setTask hi ?_ (Nat.le_refl _) (fun future hr => ?_) fun future _ => Or.inl (by omega)
    · rw [if_pos hc, if_neg (by simp [DrainTask.counted])]
      omega
    · rcases hr with hr | hr <;> cases hr

/-- A notification reaches all who have registered. -/
theorem Sound.notify (h : s.Sound) (hi : s.tasks[i]? = some task) {after : DrainEnd} (ht : task = .notifying after) :
    Sound { s.setTask i (.ended after) with idle := s.idle.notifyWaiters } := by
  refine h.setTask hi (by rw [ht]; rfl) (Nat.le_succ _) (fun future hr => ?_) fun future hf => Or.inr (Or.inl ?_)
  · rcases hr with hr | hr <;> cases hr
  · rcases List.mem_or_eq_of_mem_set hf with hf | hf
    · exact Nat.lt_succ_of_le (h.seen _ hf future (Or.inr rfl))
    · cases hf

theorem Sound.change (h : s.Sound) {wait : ChangeWait} (hi : s.tasks[i]? = some (.changing wait))
    (hs : s.change i wait = some s') :
    s'.Sound := by
  unfold DrainController.change checkIdle at hs
  have hdone : (s.setTask i (.returned true)).Sound := h.keep_away hi rfl (fun _ hp => by cases hp) fun _ hp => by cases hp
  cases wait with
  | first =>
    split at hs
    · cases hs
      exact hdone
    · cases hs
      exact h.keep hi rfl (fun _ hp => by cases hp) (fun _ hr => by rcases hr with hr | hr <;> cases hr) fun _ hp => by cases hp
  | registering =>
    cases hs
    refine h.keep hi rfl (fun _ hp => by cases hp) (fun future hr => ?_) fun _ hp => by cases hp
    rcases hr with hr | hr
    · injection hr with hr
      injection hr with hr
      rw [← hr]
      exact Nat.le_refl _
    · cases hr
  | rechecking future =>
    split at hs
    · cases hs
      exact hdone
    · rename_i hbusy
      cases hs
      refine h.keep hi rfl (fun _ hp => by cases hp) (fun future' hr => ?_) fun _ _ => hbusy
      rcases hr with hr | hr
      · cases hr
      · injection hr with hr
        injection hr with hr
        rw [← hr]
        exact h.seen _ (List.mem_of_getElem? hi) future (Or.inl rfl)
  | parked future =>
    simp only [ChangeWait.step] at hs
    split at hs
    · cases hs
      exact h.keep hi rfl (fun _ hp => by cases hp) (fun _ hr => by rcases hr with hr | hr <;> cases hr) fun _ hp => by cases hp
    · cases hs

theorem Sound.move (h : s.Sound) (hi : s.tasks[i]? = some task) (hs : s.move i task = some s') : s'.Sound := by
  unfold DrainController.move at hs
  split at hs
  · cases hs
    split
    · exact h.keep_away hi rfl (fun _ hp => by cases hp) fun _ hp => by cases hp
    · exact h.keep_away hi rfl (fun _ hp => by cases hp) fun _ hp => by cases hp
  · cases hs
    refine h.setTask hi rfl (Nat.le_refl _) (fun _ hr => ?_) fun _ _ => Or.inl (Nat.succ_ne_zero _)
    rcases hr with hr | hr <;> cases hr
  · cases hs
    split
    · exact h.keep_away hi rfl (fun _ hp => by cases hp) fun _ hp => by cases hp
    · exact h.keep_away hi rfl (fun _ hp => by cases hp) fun _ hp => by cases hp
  · cases hs
    exact h.lower hi rfl .refused
  · cases hs
    exact h.keep_away hi rfl (fun _ hp => by cases hp) fun _ hp => by cases hp
  · cases hs
    split
    · exact h.keep_away hi rfl (fun _ hp => by cases hp) fun _ hp => by cases hp
    · exact h.keep_away hi rfl (fun _ hp => by cases hp) fun _ hp => by cases hp
  · cases hs
    exact h.notify hi rfl
  · cases hs
    split
    · exact h.keep_away hi rfl (fun _ hp => by cases hp) fun _ hp => by cases hp
    · exact h.keep hi rfl (fun _ hp => by cases hp) (fun _ hr => by rcases hr with hr | hr <;> cases hr) fun _ hp => by cases hp
  · exact h.change hi hs
  · cases hs
  · cases hs
  · cases hs
  · cases hs

theorem Sound.dropPermit (h : s.Sound) (hi : s.tasks[i]? = some task) (hs : s.dropPermit i task = some s') : s'.Sound := by
  unfold DrainController.dropPermit at hs
  split at hs
  · cases hs
    exact h.lower hi rfl .released
  · cases hs

theorem Sound.timeout (h : s.Sound) (hi : s.tasks[i]? = some task) (hs : s.timeout i task = some s') : s'.Sound := by
  unfold DrainController.timeout at hs
  split at hs
  · cases hs
    exact h.keep_away hi rfl (fun _ hp => by cases hp) fun _ hp => by cases hp
  · cases hs

theorem Sound.cancel (h : s.Sound) (hi : s.tasks[i]? = some task) (hs : s.cancel i task = some s') : s'.Sound := by
  unfold DrainController.cancel at hs
  split at hs
  · cases hs
    exact h.keep_away hi rfl (fun _ hp => by cases hp) fun _ hp => by cases hp
  · cases hs

/-- A task that has just come counts for nothing yet. -/
theorem Sound.join (h : s.Sound) (hc : task.counted = false) (hw : ∀ wait, task ≠ .changing wait) :
    Sound { s with tasks := s.tasks ++ [task] } := by
  refine ⟨?_, fun other hother future hr => ?_, fun future hf => ?_⟩
  · show s.inFlight = (s.tasks ++ [task]).countP DrainTask.counted
    rw [List.countP_append, ← h.count, List.countP_singleton, hc]
    rfl
  · rcases List.mem_append.mp hother with hother | hother
    · exact h.seen other hother future hr
    · rw [List.mem_singleton.mp hother] at hr
      rcases hr with hr | hr
      · exact absurd hr (hw _)
      · exact absurd hr (hw _)
  · rcases List.mem_append.mp hf with hf | hf
    · rcases h.awake future hf with hbusy | hcalled | ⟨after, hafter⟩
      · exact Or.inl hbusy
      · exact Or.inr (Or.inl hcalled)
      · exact Or.inr (Or.inr ⟨after, List.mem_append_left _ hafter⟩)
    · exact absurd (List.mem_singleton.mp hf).symm (hw _)

theorem Sound.step {a : DrainAction} (h : s.Sound) (hs : s.step a = some s') : s'.Sound := by
  cases a with
  | tryAcquire =>
    cases hs
    exact h.join rfl fun _ hp => by cases hp
  | beginDraining =>
    cases hs
    exact h.join rfl fun _ hp => by cases hp
  | waitIdle =>
    cases hs
    exact h.join rfl fun _ hp => by cases hp
  | move i =>
    obtain ⟨task, hi, hs⟩ := Option.bind_eq_some_iff.mp hs
    exact h.move hi hs
  | dropPermit i =>
    obtain ⟨task, hi, hs⟩ := Option.bind_eq_some_iff.mp hs
    exact h.dropPermit hi hs
  | timeout i =>
    obtain ⟨task, hi, hs⟩ := Option.bind_eq_some_iff.mp hs
    exact h.timeout hi hs
  | cancel i =>
    obtain ⟨task, hi, hs⟩ := Option.bind_eq_some_iff.mp hs
    exact h.cancel hi hs

theorem sound_of_reachable (h : machine.Reachable s) : s.Sound :=
  h.invariant (I := Sound) ⟨rfl, fun _ ht => absurd ht List.not_mem_nil, fun _ ht => absurd ht List.not_mem_nil⟩
    fun _ a _ hi hs => hi.step (a := a) hs

end DrainController

end Biei
