import Biei.Lemmas.Waiters
import Biei.Storage.Scheduler

/-!
# Schedulers that are throttled

There is one scheduler at most, its state is there, and while it waits without a notification no slot is free.
-/

namespace Biei

/-! ## What a scheduler waits for -/

namespace TilesetFetchState

theorem enqueueChunk_capacityAvailable (st : TilesetFetchState) (now : Instant) (w c : Nat) :
    (st.enqueueChunk now w c).1.capacityAvailable = st.capacityAvailable := by
  unfold enqueueChunk
  simp only
  split
  · rfl
  · split
    · rfl
    · rfl

theorem enqueueChunks_capacityAvailable (cs : List Nat) (now : Instant) :
    ∀ (st : TilesetFetchState) (w : Nat), (st.enqueueChunks now w cs).1.capacityAvailable = st.capacityAvailable := by
  induction cs with
  | nil => exact fun _ _ => rfl
  | cons c cs ih => exact fun st w => (ih (st.enqueueChunk now w c).1 (w + 1)).trans (st.enqueueChunk_capacityAvailable now w c)

theorem foldl_completeChunk_capacityAvailable (closed : Nat → Bool) (result : GroupResult) (cs : List Nat) :
    ∀ acc : TilesetFetchState × List WaiterSend,
      (cs.foldl (completeChunk closed result) acc).1.capacityAvailable = acc.1.capacityAvailable := by
  induction cs with
  | nil => exact fun _ => rfl
  | cons c cs ih => exact fun acc => ih (completeChunk closed result acc c)

/-- A completion stores a permit when no slot was free and something is pending; and it takes none away. -/
theorem completeGroup_permit (st : TilesetFetchState) (closed : Nat → Bool) (r : ChunkRange) (result : GroupResult)
    (h : (maxConcurrentFetchesPerTileset ≤ st.inflightFetchCount ∧ st.pendingChunks.isEmpty = false) ∨
      st.capacityAvailable.permit = true) : (st.completeGroup closed r result).1.capacityAvailable.permit = true := by
  unfold completeGroup
  rw [foldl_completeChunk_capacityAvailable]
  simp only
  split
  · rfl
  · rename_i hneeds
    rcases h with ⟨hfull, hpending⟩ | hpermit
    · simp only [hpending, Bool.not_false, Bool.and_true, decide_eq_true_eq] at hneeds
      exact absurd hfull hneeds
    · exact hpermit

theorem contiguousLoop_ne_nil (m gap start stop : Nat) (cs : List Nat) : contiguousLoop m gap start stop cs ≠ [] := by
  induction cs generalizing start stop with
  | nil => simp [contiguousLoop]
  | cons c cs ih =>
    rw [contiguousLoop]
    split
    · exact ih start (c + 1)
    · simp

/-- A scheduler is throttled only when something is pending and no slot is free. -/
theorem full_of_throttled {st : TilesetFetchState} {m : Nat} {now : Instant}
    (h : (st.selectDispatchGroups m now).2 = .throttled) :
    (st.selectDispatchGroups m now).1 = st ∧ st.pendingChunks.isEmpty = false ∧
      maxConcurrentFetchesPerTileset ≤ st.inflightFetchCount := by
  unfold selectDispatchGroups at h ⊢
  by_cases hp : st.pendingChunks.isEmpty = true
  · rw [if_pos hp] at h
    cases h
  · by_cases hn : st.inflightFetchCount ≥ maxConcurrentFetchesPerTileset
    · rw [if_neg hp, if_pos hn]
      exact ⟨rfl, Bool.eq_false_of_not_eq_true hp, hn⟩
    · -- something is planned when something is pending and a slot is free
      have hplanned : (st.plannedGroups m).isEmpty = false := by
        rw [List.isEmpty_eq_false_iff, plannedGroups, Ne, List.take_eq_nil_iff, not_or]
        refine ⟨by omega, ?_⟩
        cases hlist : st.pendingChunks.toList with
        | nil =>
          rw [OrderedSet.isEmpty, hlist] at hp
          exact absurd rfl hp
        | cons c cs =>
          simp only [contiguousChunkRanges, hlist]
          exact contiguousLoop_ne_nil _ _ _ _ _
      simp only [if_neg hp, if_neg hn, hplanned] at h
      cases h

/-- Chunks are enqueued, and the scheduler is marked running when something is pending then. -/
theorem marked_enqueueChunks (st : TilesetFetchState) (len : Nat) (now : Instant) (w : Nat) (cs : List Nat) :
    let e := ({ st with archiveLen := max st.archiveLen len }.enqueueChunks now w cs).1
    let u := if !e.schedulerRunning && !e.pendingChunks.isEmpty then { e with schedulerRunning := true } else e
    u.inflightFetchCount = st.inflightFetchCount ∧ u.capacityAvailable = st.capacityAvailable ∧
      (st.schedulerRunning = true → u.schedulerRunning = true) ∧
      (st.pendingChunks.isEmpty = false → u.pendingChunks.isEmpty = false) := by
  intro e u
  obtain ⟨-, -, hcount, hrunning, hpending⟩ := enqueueChunks_spec cs now { st with archiveLen := max st.archiveLen len } w
  have hcapacity := enqueueChunks_capacityAvailable cs now { st with archiveLen := max st.archiveLen len } w
  have hkept : st.pendingChunks.isEmpty = false → e.pendingChunks.isEmpty = false := by
    intro hne
    by_contra hempty
    have hnone := OrderedSet.isEmpty_iff.mp (Bool.eq_true_of_not_eq_false hempty)
    have hall : st.pendingChunks.isEmpty = true :=
      OrderedSet.isEmpty_iff.mpr fun c hc => hnone c ((hpending c).mpr (Or.inl hc))
    rw [hall] at hne
    cases hne
  by_cases hmarks : (!e.schedulerRunning && !e.pendingChunks.isEmpty) = true
  · rw [show u = { e with schedulerRunning := true } from if_pos hmarks]
    exact ⟨hcount, hcapacity, fun _ => rfl, hkept⟩
  · rw [show u = e from if_neg hmarks]
    exact ⟨hcount, hcapacity, fun hrun => hrunning.trans hrun, hkept⟩

end TilesetFetchState

/-- What joining a tileset does to its state: it takes no slot, gives no permit, and unschedules nothing. -/
theorem Coordinator.fetchChunks_state {T : Type} [DecidableEq T] (s : Coordinator T) (t : T) (cs : List Nat) (len : Nat)
    (now : Instant) :
    ∃ u, (s.fetchChunks t cs len now).1.tilesetStates = Function.update s.tilesetStates t (some u) ∧
      u.inflightFetchCount = ((s.tilesetStates t).getD .default).inflightFetchCount ∧
      u.capacityAvailable = ((s.tilesetStates t).getD .default).capacityAvailable ∧
      (((s.tilesetStates t).getD .default).schedulerRunning = true → u.schedulerRunning = true) ∧
      (((s.tilesetStates t).getD .default).pendingChunks.isEmpty = false → u.pendingChunks.isEmpty = false) :=
  ⟨_, rfl, ((s.tilesetStates t).getD .default).marked_enqueueChunks len now s.nextWaiter cs⟩

/-! ## One tileset -/

/-- What a scheduler knows of the state of its tileset, whose `Notify` has the number `id`: while it is throttled, something is
pending, and a slot is free only when a permit is stored; once it is registered, neither is the case. -/
def SchedulerPhase.Ok (id : Nat) (u : TilesetFetchState) : SchedulerPhase → Prop
  | .throttled n => n = id ∧ u.pendingChunks.isEmpty = false ∧
      (maxConcurrentFetchesPerTileset ≤ u.inflightFetchCount ∨ u.capacityAvailable.permit = true)
  | .waiting n => n = id ∧ u.pendingChunks.isEmpty = false ∧ maxConcurrentFetchesPerTileset ≤ u.inflightFetchCount ∧
      u.capacityAvailable.permit = false
  | _ => True

/-- What holds of the state of a tileset, the number of its `Notify`, and the schedulers of it that have not returned. -/
structure TasksInv (st : Option TilesetFetchState) (id : Nat) (active : Nat → Option SchedulerPhase) : Prop where
  running : ∀ j p, active j = some p → ∃ u, st = some u ∧ u.schedulerRunning = true
  alone : ∀ j k p q, active j = some p → active k = some q → j = k
  phases : ∀ j p u, active j = some p → st = some u → p.Ok id u

namespace TasksInv

variable {st st' : Option TilesetFetchState} {id id' : Nat} {active : Nat → Option SchedulerPhase} {u u' : TilesetFetchState}
  {j : Nat} {p q : SchedulerPhase}

theorem of_none (h : ∀ j, active j = none) : TasksInv st id active where
  running := fun j p hj => by rw [h j] at hj; cases hj
  alone := fun j k p q hj => by rw [h j] at hj; cases hj
  phases := fun j p u hj => by rw [h j] at hj; cases hj

theorem start (h : ∀ j, active j = none) (hrunning : u.schedulerRunning = true) (hq : q.Ok id u) (j : Nat) :
    TasksInv (some u) id (Function.update active j (some q)) := by
  have hget : ∀ k p, Function.update active j (some q) k = some p → k = j ∧ p = q := by
    intro k p hk
    rcases update_eq_some hk with ⟨rfl, heq⟩ | ⟨-, hk⟩
    · exact ⟨rfl, (Option.some.inj heq).symm⟩
    · rw [h k] at hk
      cases hk
  refine ⟨fun k p hk => ⟨u, rfl, hrunning⟩, fun k l p q hk hl => ?_, fun k p v hk hv => ?_⟩
  · rw [(hget k p hk).1, (hget l q hl).1]
  · rw [(hget k p hk).2, ← Option.some.inj hv]
    exact hq

/-- There is no other scheduler than this. -/
theorem others (h : TasksInv st id active) (hj : active j = some p) : ∀ k, Function.update active j none k = none := by
  intro k
  by_contra hk
  obtain ⟨q, hq⟩ := Option.ne_none_iff_exists'.mp hk
  obtain ⟨hne, hq⟩ := update_none_eq_some hq
  exact hne (h.alone k j q p hq hj)

/-- The scheduler leaves, whatever it leaves behind. -/
theorem finish (h : TasksInv st id active) (hj : active j = some p) : TasksInv st' id' (Function.update active j none) :=
  of_none (h.others hj)

theorem move (h : TasksInv st id active) (hj : active j = some p) (hrunning : u'.schedulerRunning = true) (hq : q.Ok id u') :
    TasksInv (some u') id (Function.update active j (some q)) := by
  have hstart := start (h.others hj) hrunning hq j
  rwa [Function.update_idem] at hstart

/-- The state changes, and the scheduler stays where it is. -/
theorem restate (h : TasksInv (some u) id active) (hrunning : u.schedulerRunning = true → u'.schedulerRunning = true)
    (hphases : ∀ j p, active j = some p → p.Ok id u → p.Ok id u') : TasksInv (some u') id active where
  running := by
    intro j p hj
    obtain ⟨v, hv, hrun⟩ := h.running j p hj
    cases hv
    exact ⟨u', rfl, hrunning hrun⟩
  alone := h.alone
  phases := by
    intro j p v hj hv
    cases hv
    exact hphases j p hj (h.phases j p u hj rfl)

/-- A state that is not marked running has no scheduler. -/
theorem none_of_not_running (h : TasksInv st id active) (hnot : st.any TilesetFetchState.schedulerRunning = false) :
    ∀ j, active j = none := by
  intro j
  by_contra hj
  obtain ⟨p, hp⟩ := Option.ne_none_iff_exists'.mp hj
  obtain ⟨u, rfl, hrunning⟩ := h.running j p hp
  rw [Option.any_some, hrunning] at hnot
  cases hnot

end TasksInv

/-! ## The schedulers of all tilesets -/

/-- Where a task stands, when it is for the tileset and has not returned. -/
def SchedulerTask.activeAt {T : Type} [DecidableEq T] (task : SchedulerTask T) (t : T) : Option SchedulerPhase :=
  if task.tilesetId = t ∧ task.phase ≠ .returned then some task.phase else none

namespace ScheduledCoordinator

variable {T : Type} [DecidableEq T] {s : ScheduledCoordinator T} {t : T} {j : Nat} {task : SchedulerTask T}

/-- Where the schedulers of a tileset stand. -/
def active (s : ScheduledCoordinator T) (t : T) (j : Nat) : Option SchedulerPhase := s.tasks[j]?.bind fun task => task.activeAt t

theorem active_of_mem (hj : s.tasks[j]? = some task) (hphase : task.phase ≠ .returned) :
    s.active task.tilesetId j = some task.phase := by
  rw [active, hj]
  exact if_pos ⟨rfl, hphase⟩

theorem active_setTask (hj : s.tasks[j]? = some task) {phase : SchedulerPhase} (hphase : phase ≠ .returned) :
    (s.setTask j task phase).active task.tilesetId = Function.update (s.active task.tilesetId) j (some phase) := by
  have hset := bind_getElem?_set (fun task' : SchedulerTask T => task'.activeAt task.tilesetId) hj { task with phase }
  rw [SchedulerTask.activeAt, if_pos ⟨rfl, hphase⟩] at hset
  exact hset

theorem active_setTask_returned (hj : s.tasks[j]? = some task) :
    (s.setTask j task .returned).active task.tilesetId = Function.update (s.active task.tilesetId) j none := by
  have hset := bind_getElem?_set (fun task' : SchedulerTask T => task'.activeAt task.tilesetId) hj
    { task with phase := .returned }
  rw [SchedulerTask.activeAt, if_neg fun h => h.2 rfl] at hset
  exact hset

theorem active_setTask_of_ne (hj : s.tasks[j]? = some task) (ht : t ≠ task.tilesetId) (phase : SchedulerPhase) :
    (s.setTask j task phase).active t = s.active t := by
  have hset := bind_getElem?_set (fun task' : SchedulerTask T => task'.activeAt t) hj { task with phase }
  rw [SchedulerTask.activeAt, if_neg fun h => ht h.1.symm] at hset
  have hnone : s.active t j = none := by
    rw [active, hj]
    exact if_neg fun h => ht h.1.symm
  rw [show (s.setTask j task phase).active t = _ from hset, ← hnone]
  exact Function.update_eq_self ..

/-- What holds of the coordinator and its schedulers. -/
structure SchedulerInv (s : ScheduledCoordinator T) : Prop where
  fetch : Coordinator.FetchInv s.coordinator
  tasks : ∀ t, TasksInv (s.coordinator.tilesetStates t) (s.capacityAvailable t) (s.active t)
  fresh : ∀ t st, s.coordinator.tilesetStates t = some st → s.capacityAvailable t < s.nextNotify
  distinct : ∀ t t' st st', s.coordinator.tilesetStates t = some st → s.coordinator.tilesetStates t' = some st' →
    s.capacityAvailable t = s.capacityAvailable t' → t = t'

namespace SchedulerInv

variable {s' : ScheduledCoordinator T} {phase : SchedulerPhase}

theorem new : SchedulerInv (ScheduledCoordinator.new : ScheduledCoordinator T) where
  fetch := Coordinator.FetchInv.new
  tasks := fun _ => TasksInv.of_none fun _ => rfl
  fresh := fun t st h => by cases h
  distinct := fun t t' st st' h => by cases h

/-- A step that makes no state, and so no `Notify`, is looked at tileset by tileset. -/
theorem congr (h : SchedulerInv s) (hfetch : Coordinator.FetchInv s'.coordinator)
    (hnotify : s'.capacityAvailable = s.capacityAvailable) (hnext : s'.nextNotify = s.nextNotify)
    (hstates : ∀ t st', s'.coordinator.tilesetStates t = some st' → ∃ st, s.coordinator.tilesetStates t = some st)
    (htasks : ∀ t, TasksInv (s'.coordinator.tilesetStates t) (s.capacityAvailable t) (s'.active t)) : SchedulerInv s' where
  fetch := hfetch
  tasks := fun t => by rw [hnotify]; exact htasks t
  fresh := by
    intro t st' hst'
    obtain ⟨st, hst⟩ := hstates t st' hst'
    rw [hnotify, hnext]
    exact h.fresh t st hst
  distinct := by
    intro t t' u u' hu hu' heq
    obtain ⟨st, hst⟩ := hstates t u hu
    obtain ⟨st', hst'⟩ := hstates t' u' hu'
    rw [hnotify] at heq
    exact h.distinct t t' st st' hst hst' heq

/-- The tasks are as they were, and the numbers of each `Notify`. -/
structure Beside (s s' : ScheduledCoordinator T) : Prop where
  tasks : s'.tasks = s.tasks
  capacityAvailable : s'.capacityAvailable = s.capacityAvailable
  nextNotify : s'.nextNotify = s.nextNotify

theorem active_congr (htasks : s'.tasks = s.tasks) (t : T) : s'.active t = s.active t := by
  funext j
  rw [active, htasks]
  rfl

/-- Something happens beside the schedulers. -/
theorem beside (h : SchedulerInv s) (hbeside : Beside s s') (hfetch : Coordinator.FetchInv s'.coordinator)
    (hstates : ∀ t st', s'.coordinator.tilesetStates t = some st' → ∃ st, s.coordinator.tilesetStates t = some st)
    (htasks : ∀ t, TasksInv (s'.coordinator.tilesetStates t) (s.capacityAvailable t) (s.active t)) : SchedulerInv s' := by
  refine h.congr hfetch hbeside.capacityAvailable hbeside.nextNotify hstates fun t => ?_
  rw [active_congr hbeside.tasks t]
  exact htasks t

/-- A step of the coordinator that leaves all states as they are. -/
theorem coordinator (h : SchedulerInv s) {c : Coordinator T} (hfetch : Coordinator.FetchInv c)
    (hstates : c.tilesetStates = s.coordinator.tilesetStates) : SchedulerInv { s with coordinator := c } := by
  refine h.beside ⟨rfl, rfl, rfl⟩ hfetch (fun t st' hst' => ⟨st', hstates ▸ hst'⟩) fun t => ?_
  show TasksInv (c.tilesetStates t) _ _
  rw [hstates]
  exact h.tasks t

variable {m : Nat}

/-- A step of a group or of a receiver. -/
theorem coordinator_step (h : SchedulerInv s) {a : CoordinatorAction T}
    (hs : ((s.coordinator.step m a).map fun coordinator => ({ s with coordinator } : ScheduledCoordinator T)) = some s')
    (hstates : ∀ c, Coordinator.Stepped m s.coordinator a c → c.tilesetStates = s.coordinator.tilesetStates) :
      SchedulerInv s' := by
  obtain ⟨c, hc, rfl⟩ := Option.map_eq_some_iff.mp hs
  have hstepped := Coordinator.step_stepped hc
  exact h.coordinator (h.fetch.step hstepped) (hstates c hstepped)

variable {u : TilesetFetchState}

/-- A scheduler goes on, and the state of its tileset with it. -/
theorem moveTo (h : SchedulerInv s) (hj : s.tasks[j]? = some task) (hphase : task.phase ≠ .returned) (hbeside : Beside s s')
    (hfetch : Coordinator.FetchInv s'.coordinator)
    (hstates : s'.coordinator.tilesetStates = Function.update s.coordinator.tilesetStates task.tilesetId (some u))
    (hrunning : u.schedulerRunning = true) (hphase' : phase ≠ .returned) (hok : phase.Ok (s.capacityAvailable task.tilesetId) u) :
    SchedulerInv (s'.setTask j task phase) := by
  have hactive := active_of_mem hj hphase
  have hj' : s'.tasks[j]? = some task := by
    rw [hbeside.tasks]
    exact hj
  refine h.congr hfetch hbeside.capacityAvailable hbeside.nextNotify (fun t st' hst' => ?_) fun t => ?_
  · change s'.coordinator.tilesetStates t = some st' at hst'
    rw [hstates] at hst'
    rcases update_eq_some hst' with ⟨rfl, -⟩ | ⟨-, hst'⟩
    · obtain ⟨v, hv, -⟩ := (h.tasks task.tilesetId).running j task.phase hactive
      exact ⟨v, hv⟩
    · exact ⟨st', hst'⟩
  · show TasksInv (s'.coordinator.tilesetStates t) _ _
    rw [hstates]
    by_cases ht : t = task.tilesetId
    · subst ht
      rw [Function.update_self, active_setTask hj' hphase', active_congr hbeside.tasks]
      exact (h.tasks task.tilesetId).move hactive hrunning hok
    · rw [Function.update_of_ne ht, active_setTask_of_ne hj' ht, active_congr hbeside.tasks]
      exact h.tasks t

/-- A scheduler goes on by itself. -/
theorem setTask (h : SchedulerInv s) (hj : s.tasks[j]? = some task) (hphase : task.phase ≠ .returned)
    (hphase' : phase ≠ .returned)
    (hok : ∀ u, s.coordinator.tilesetStates task.tilesetId = some u → phase.Ok (s.capacityAvailable task.tilesetId) u) :
    SchedulerInv (s.setTask j task phase) := by
  obtain ⟨u, hu, hrunning⟩ := (h.tasks task.tilesetId).running j task.phase (active_of_mem hj hphase)
  refine h.moveTo hj hphase ⟨rfl, rfl, rfl⟩ h.fetch ?_ hrunning hphase' (hok u hu)
  rw [← hu, Function.update_eq_self]

/-- A scheduler returns. -/
theorem finish (h : SchedulerInv s) (hj : s.tasks[j]? = some task) (hphase : task.phase ≠ .returned) (hbeside : Beside s s')
    (hfetch : Coordinator.FetchInv s'.coordinator)
    (hstates : ∀ t, t ≠ task.tilesetId → s'.coordinator.tilesetStates t = s.coordinator.tilesetStates t) :
    SchedulerInv (s'.setTask j task .returned) := by
  have hactive := active_of_mem hj hphase
  have hj' : s'.tasks[j]? = some task := by
    rw [hbeside.tasks]
    exact hj
  refine h.congr hfetch hbeside.capacityAvailable hbeside.nextNotify (fun t st' hst' => ?_) fun t => ?_
  · by_cases ht : t = task.tilesetId
    · subst ht
      obtain ⟨v, hv, -⟩ := (h.tasks task.tilesetId).running j task.phase hactive
      exact ⟨v, hv⟩
    · exact ⟨st', (hstates t ht).symm.trans hst'⟩
  · by_cases ht : t = task.tilesetId
    · subst ht
      rw [active_setTask_returned hj', active_congr hbeside.tasks]
      exact (h.tasks task.tilesetId).finish hactive
    · rw [active_setTask_of_ne hj' ht, active_congr hbeside.tasks,
        show (s'.setTask j task .returned).coordinator.tilesetStates t = _ from
        hstates t ht]
      exact h.tasks t

/-! ## What the operations do -/

theorem beside_removeDrainableState (s : ScheduledCoordinator T) (t : T) : Beside s (s.removeDrainableState t) := ⟨rfl, rfl, rfl⟩

/-- The state of a tileset goes when it is drained, and nothing else changes. -/
theorem tilesetStates_removeDrainableState (c : Coordinator T) (t : T) :
    (c.removeDrainableState t).1.tilesetStates = c.tilesetStates ∨
      (∃ st, c.tilesetStates t = some st ∧ st.schedulerRunning = false) ∧
        (c.removeDrainableState t).1.tilesetStates = Function.update c.tilesetStates t none := by
  unfold Coordinator.removeDrainableState
  split
  · rename_i st hst
    split
    · rename_i hdrainable
      simp only [TilesetFetchState.isDrainable, Bool.and_eq_true, Bool.not_eq_true'] at hdrainable
      exact Or.inr ⟨⟨st, hst, hdrainable.1.1⟩, rfl⟩
    · exact Or.inl rfl
  · exact Or.inl rfl

theorem removeDrainableState (h : SchedulerInv s) (t : T) : SchedulerInv (s.removeDrainableState t) := by
  have hfetch := h.fetch.step (m := 0) (Coordinator.Stepped.remove t)
  rcases tilesetStates_removeDrainableState s.coordinator t with hstates | ⟨⟨st, hst, hnot⟩, hstates⟩
  · refine h.beside (beside_removeDrainableState s t) hfetch (fun t' st' hst' => ⟨st', hstates ▸ hst'⟩) fun t' => ?_
    show TasksInv ((s.coordinator.removeDrainableState t).1.tilesetStates t') _ _
    rw [hstates]
    exact h.tasks t'
  · refine h.beside (beside_removeDrainableState s t) hfetch (fun t' st' hst' => ?_) fun t' => ?_
    · change (s.coordinator.removeDrainableState t).1.tilesetStates t' = some st' at hst'
      rw [hstates] at hst'
      exact ⟨st', (update_none_eq_some hst').2⟩
    · show TasksInv ((s.coordinator.removeDrainableState t).1.tilesetStates t') _ _
      rw [hstates]
      by_cases ht : t' = t
      · -- it is not marked running, and so there is no scheduler
        subst ht
        refine TasksInv.of_none ((h.tasks t').none_of_not_running ?_)
        rw [hst, Option.any_some, hnot]
      · rw [Function.update_of_ne ht]
        exact h.tasks t'

theorem takePermit_eq (hu : s.coordinator.tilesetStates t = some u) :
    s.takePermit t (s.capacityAvailable t) =
      { s with coordinator := s.coordinator.setState t (some { u with capacityAvailable := ⟨false⟩ }) } := by
  simp only [takePermit, hu, if_true]

omit [DecidableEq T] in
theorem notify_eq (hu : s.coordinator.tilesetStates t = some u) :
    s.notify t (s.capacityAvailable t) = u.capacityAvailable := by
  simp only [notify, hu, if_true]

/-- What is in a `Notify` is nothing to the fetches. -/
theorem fetch_setPermit {c : Coordinator T} (h : Coordinator.FetchInv c) (hu : c.tilesetStates t = some u)
    (n : Notify) : Coordinator.FetchInv (c.setState t (some { u with capacityAvailable := n })) := by
  have hinv := h.agree t u hu
  exact h.setState ⟨hinv.waiting, hinv.scheduled, hinv.inflight, hinv.count, hinv.limit⟩

/-- The scheduler takes the permit that is stored, or is registered. -/
theorem poll (h : SchedulerInv s) (hj : s.tasks[j]? = some task) {n : Nat} (hphase : task.phase = .throttled n) :
    SchedulerInv ((s.takePermit task.tilesetId n).setTask j task .sleeping) ∧
      ((s.notify task.tilesetId n).permit = false → SchedulerInv (s.setTask j task (.waiting n))) := by
  have hne : task.phase ≠ .returned := by
    rw [hphase]
    exact nofun
  have hactive := active_of_mem hj hne
  obtain ⟨u, hu, hrunning⟩ := (h.tasks task.tilesetId).running j task.phase hactive
  have hok := (h.tasks task.tilesetId).phases j task.phase u hactive hu
  rw [hphase] at hok
  obtain ⟨rfl, hpending, hslots⟩ := hok
  constructor
  · rw [takePermit_eq hu]
    exact h.moveTo hj hne ⟨rfl, rfl, rfl⟩ (fetch_setPermit h.fetch hu _) rfl hrunning nofun trivial
  · intro hpermit
    rw [notify_eq hu] at hpermit
    refine h.setTask hj hne nofun fun v hv => ?_
    cases hu.symm.trans hv
    refine ⟨rfl, hpending, ?_, hpermit⟩
    rcases hslots with hfull | hstored
    · exact hfull
    · rw [hpermit] at hstored
      cases hstored

/-- A task that is registered with the `Notify` of a tileset is its scheduler. -/
theorem tilesetId_of_waiting (h : SchedulerInv s) (hj : s.tasks[j]? = some task)
    (hu : s.coordinator.tilesetStates t = some u) (hphase : task.phase = .waiting (s.capacityAvailable t)) :
      task.tilesetId = t := by
  have hne : task.phase ≠ .returned := by
    rw [hphase]
    exact nofun
  have hactive := active_of_mem hj hne
  obtain ⟨v, hv, -⟩ := (h.tasks task.tilesetId).running j task.phase hactive
  have hok := (h.tasks task.tilesetId).phases j task.phase v hactive hv
  rw [hphase] at hok
  exact h.distinct task.tilesetId t v u hv hu hok.1.symm

/-- The notification of a tileset's state goes to the task that is registered, if there is one. -/
theorem deliver_cases (hu : s.coordinator.tilesetStates t = some u) :
    (s.deliver t = s ∧
        (u.capacityAvailable.permit = false ∨ ∀ task ∈ s.tasks, task.phase ≠ .waiting (s.capacityAvailable t))) ∨
      ∃ j task, s.tasks[j]? = some task ∧ task.phase = .waiting (s.capacityAvailable t) ∧
        s.deliver t = (s.takePermit t (s.capacityAvailable t)).setTask j task .notified := by
  simp only [deliver, hu]
  split
  · cases hfind : s.tasks.findIdx? fun task => task.phase == .waiting (s.capacityAvailable t) with
    | none =>
      refine Or.inl ⟨rfl, Or.inr fun task htask hphase => ?_⟩
      have hno := List.findIdx?_eq_none_iff.mp hfind task htask
      rw [hphase, beq_self_eq_true] at hno
      cases hno
    | some j =>
      obtain ⟨hlt, hphase, -⟩ := List.findIdx?_eq_some_iff_getElem.mp hfind
      simp only [List.getElem?_eq_getElem hlt]
      exact Or.inr ⟨j, s.tasks[j], List.getElem?_eq_getElem hlt, eq_of_beq hphase, rfl⟩
  · rename_i hpermit
    exact Or.inl ⟨rfl, Or.inl (Bool.eq_false_of_not_eq_true hpermit)⟩

section Complete

variable {i : Nat} {g : DispatchedGroup T}

/-- Where the scheduler is not registered, a completion leaves it where it is: a permit is stored for it when it is throttled. -/
theorem tasks_completeGroup (h : SchedulerInv s) {u : TilesetFetchState} (hu : s.coordinator.tilesetStates t = some u)
    (hwaiting : ∀ j n, s.active t j ≠ some (.waiting n)) (r : ChunkRange) (result : GroupResult) :
    TasksInv (some (u.completeGroup s.coordinator.closed r result).1) (s.capacityAvailable t) (s.active t) := by
  obtain ⟨-, hpending, hrunning, -, -, -⟩ := u.completeGroup_spec s.coordinator.closed r result
  have htasks := h.tasks t
  rw [hu] at htasks
  refine htasks.restate (fun hrun => hrunning.trans hrun) fun j p hj hok => ?_
  cases p with
  | throttled n =>
    obtain ⟨hn, hne, hslots⟩ := hok
    exact ⟨hn, by rw [hpending]; exact hne, Or.inr (u.completeGroup_permit _ _ _ (hslots.imp_left fun hfull => ⟨hfull, hne⟩))⟩
  | waiting n => exact absurd hj (hwaiting j n)
  | sleeping => trivial
  | notified => trivial
  | dispatching => trivial
  | shedding error => trivial
  | returned => trivial

/-- A group completes, and the scheduler that waits for it is notified. -/
theorem deliver_completeDispatched (h : SchedulerInv s) (hg : s.coordinator.groups[i]? = some g) (result : GroupResult) :
    SchedulerInv (deliver { s with coordinator := s.coordinator.completeDispatched i g result } g.tilesetId) := by
  obtain ⟨u, hu⟩ := h.fetch.state_of_group hg
  have hfetch := h.fetch.completeDispatched hg result
  have hstates := Coordinator.tilesetStates_completeDispatched hu i result
  obtain ⟨-, -, hrunning, -, -, -⟩ := u.completeGroup_spec s.coordinator.closed g.chunkRange result
  generalize hc : s.coordinator.completeDispatched i g result = c at hfetch hstates ⊢
  have hown : c.tilesetStates g.tilesetId = some (u.completeGroup s.coordinator.closed g.chunkRange result).1 := by
    rw [hstates, Function.update_self]
  rcases deliver_cases (s := { s with coordinator := c }) hown with ⟨hdeliver, hnone⟩ | ⟨j, task, hj, hphase, hdeliver⟩
  · rw [hdeliver]
    -- nobody is registered: a completion where no slot is free stores a permit, and that would be delivered
    have hwaiting : ∀ j n, s.active g.tilesetId j ≠ some (.waiting n) := by
      intro j n hactive
      obtain ⟨rfl, hpending, hfull, -⟩ := (h.tasks g.tilesetId).phases j _ u hactive hu
      have hpermit := u.completeGroup_permit s.coordinator.closed g.chunkRange result (Or.inl ⟨hfull, hpending⟩)
      rcases hnone with hno | hnobody
      · rw [hpermit] at hno
        cases hno
      · obtain ⟨task, htask, hat⟩ := Option.bind_eq_some_iff.mp hactive
        unfold SchedulerTask.activeAt at hat
        split at hat
        · exact hnobody task (List.mem_of_getElem? htask) (Option.some.inj hat)
        · cases hat
    refine h.beside ⟨rfl, rfl, rfl⟩ hfetch (fun t st' hst' => ?_) fun t => ?_
    · change c.tilesetStates t = some st' at hst'
      rw [hstates] at hst'
      rcases update_eq_some hst' with ⟨rfl, -⟩ | ⟨-, hst'⟩
      · exact ⟨u, hu⟩
      · exact ⟨st', hst'⟩
    · show TasksInv (c.tilesetStates t) _ _
      rw [hstates]
      by_cases ht : t = g.tilesetId
      · subst ht
        rw [Function.update_self]
        exact h.tasks_completeGroup hu hwaiting g.chunkRange result
      · rw [Function.update_of_ne ht]
        exact h.tasks t
  · have htask := h.tilesetId_of_waiting hj hu hphase
    have hne : task.phase ≠ .returned := by
      rw [hphase]
      intro hreturned
      cases hreturned
    obtain ⟨v, hv, hrun⟩ := (h.tasks task.tilesetId).running j task.phase (active_of_mem hj hne)
    rw [htask] at hv
    cases hu.symm.trans hv
    rw [hdeliver, takePermit_eq hown]
    have hstates' : (c.setState g.tilesetId (some { (u.completeGroup s.coordinator.closed g.chunkRange result).1 with
          capacityAvailable := ⟨false⟩ })).tilesetStates =
        Function.update s.coordinator.tilesetStates task.tilesetId
          (some { (u.completeGroup s.coordinator.closed g.chunkRange result).1 with
          capacityAvailable := ⟨false⟩ }) := by
      rw [Coordinator.setState, hstates, Function.update_idem, htask]
    exact h.moveTo hj hne ⟨rfl, rfl, rfl⟩ (fetch_setPermit hfetch hown _) hstates' (hrunning.trans hrun)
      (fun hreturned => by cases hreturned) trivial

theorem completeDispatchedGroup (h : SchedulerInv s) (hg : s.coordinator.groups[i]? = some g) (result : GroupResult) :
    SchedulerInv (s.completeDispatchedGroup i g result) :=
  (h.deliver_completeDispatched hg result).removeDrainableState g.tilesetId

/-- A completion moves no scheduler but one that is registered. -/
theorem tasks_completeDispatchedGroup (h : SchedulerInv s) (hg : s.coordinator.groups[i]? = some g) (result : GroupResult)
    (hj : s.tasks[j]? = some task) (hphase : ∀ n, task.phase ≠ .waiting n) :
    (s.completeDispatchedGroup i g result).tasks[j]? = some task := by
  obtain ⟨u, hu⟩ := h.fetch.state_of_group hg
  have hown : (s.coordinator.completeDispatched i g result).tilesetStates g.tilesetId =
      some (u.completeGroup s.coordinator.closed g.chunkRange result).1 := by
    rw [Coordinator.tilesetStates_completeDispatched hu, Function.update_self]
  show (deliver { s with coordinator := s.coordinator.completeDispatched i g result } g.tilesetId).tasks[j]? = some task
  rcases deliver_cases (s := { s with coordinator := s.coordinator.completeDispatched i g result }) hown with
    ⟨hdeliver, -⟩ | ⟨k, other, hk, hwaiting, hdeliver⟩
  · rw [hdeliver]
    exact hj
  · have hne : k ≠ j := by
      rintro rfl
      cases hk.symm.trans hj
      exact hphase _ hwaiting
    rw [hdeliver, takePermit_eq hown]
    exact (List.getElem?_set_ne hne).trans hj

end Complete

/-! ## A pass of a scheduler -/

theorem pass (h : SchedulerInv s) (hj : s.tasks[j]? = some task) (hphase : task.phase = .sleeping) (m : Nat) (now : Instant) :
    SchedulerInv (s.pass m j task now) := by
  have hne : task.phase ≠ .returned := by
    rw [hphase]
    exact nofun
  obtain ⟨u, hu, hrunning⟩ := (h.tasks task.tilesetId).running j task.phase (active_of_mem hj hne)
  simp only [ScheduledCoordinator.pass, hu]
  have hpruned := h.fetch.step (m := m) (Coordinator.Stepped.prune task.tilesetId u hu)
  have hselected := hpruned.step (m := m) (Coordinator.Stepped.select task.tilesetId now _ (Function.update_self ..))
  have hspec := (u.pruneCancelledWaiters s.coordinator.closed).1.selectDispatchGroups_spec m now
  have hfull := @TilesetFetchState.full_of_throttled (u.pruneCancelledWaiters s.coordinator.closed).1 m now
  have hpass : (u.pruneCancelledWaiters s.coordinator.closed).1.schedulerRunning = true := hrunning
  generalize (u.pruneCancelledWaiters s.coordinator.closed).1 = pruned at hpruned hselected hspec hfull hpass ⊢
  generalize pruned.selectDispatchGroups m now = outcome at hselected hspec hfull ⊢
  obtain ⟨selected, decision⟩ := outcome
  have hstates : ((s.coordinator.setState task.tilesetId (some pruned)).setState task.tilesetId (some selected)).tilesetStates =
      Function.update s.coordinator.tilesetStates task.tilesetId (some selected) := Function.update_idem ..
  cases decision with
  | idle =>
    refine h.finish hj hne ⟨rfl, rfl, rfl⟩ (hselected.step (m := m) (Coordinator.Stepped.remove task.tilesetId)) fun t ht => ?_
    rcases tilesetStates_removeDrainableState { (s.coordinator.setState task.tilesetId (some pruned)).setState task.tilesetId
        (some selected) with groups := s.coordinator.groups ++ Coordinator.dispatchedGroups task.tilesetId .idle } task.tilesetId
      with hsame | ⟨-, hremoved⟩
    · refine (congrFun hsame t).trans ?_
      rw [hstates, Function.update_of_ne ht]
    · refine (congrFun hremoved t).trans ?_
      rw [Function.update_of_ne ht, hstates, Function.update_of_ne ht]
  | throttled =>
    obtain ⟨rfl, hpending, hslots⟩ := hfull rfl
    exact h.moveTo hj hne ⟨rfl, rfl, rfl⟩ hselected hstates hpass nofun ⟨rfl, hpending, Or.inl hslots⟩
  | dispatch groups archiveLen queueDelay pendingAtDispatch =>
    have hkept : selected.schedulerRunning = true := by
      cases hspec with
      | dispatch queueDelay pendingAtDispatch hw hr => exact hr.trans hpass
    exact h.moveTo hj hne ⟨rfl, rfl, rfl⟩ hselected hstates hkept nofun trivial

/-! ## A fetch joins -/

theorem active_concat (htasks : s'.tasks = s.tasks ++ [⟨t, .sleeping⟩]) :
    s'.active t = Function.update (s.active t) s.tasks.length (some .sleeping) := by
  have hconcat := bind_getElem?_concat (fun task : SchedulerTask T => task.activeAt t) s.tasks ⟨t, .sleeping⟩
  rw [SchedulerTask.activeAt, if_pos ⟨rfl, nofun⟩, ← htasks] at hconcat
  exact hconcat

theorem active_concat_of_ne (htasks : s'.tasks = s.tasks ++ [⟨t, .sleeping⟩]) {t' : T} (ht : t' ≠ t) :
    s'.active t' = s.active t' := by
  have hconcat := bind_getElem?_concat (fun task : SchedulerTask T => task.activeAt t') s.tasks ⟨t, .sleeping⟩
  rw [SchedulerTask.activeAt, if_neg fun h => ht h.1.symm, ← htasks] at hconcat
  have hnone : s.active t' s.tasks.length = none := by
    rw [active, List.getElem?_eq_none (Nat.le_refl _)]
    rfl
  rw [show s'.active t' = _ from hconcat, ← hnone]
  exact Function.update_eq_self ..

/-- A scheduler is spawned where none is running and one is marked so. -/
theorem tasks_of_fetchChunks {cs : List Nat} {len : Nat} {now : Instant}
    (hstates : (s.coordinator.fetchChunks t cs len now).1.tilesetStates = Function.update s.coordinator.tilesetStates t
      (some u)) :
    (s.fetchChunks t cs len now).tasks =
      if u.schedulerRunning && !(s.coordinator.tilesetStates t).any TilesetFetchState.schedulerRunning then
        s.tasks ++ [⟨t, .sleeping⟩]
      else s.tasks := by
  simp only [ScheduledCoordinator.fetchChunks, hstates, Function.update_self, Option.any_some]

/-- The scheduler of the tileset goes on as it was, or there was none and now there may be one. -/
theorem tasks_fetchChunks_self (h : SchedulerInv s) (t : T) (cs : List Nat) (len : Nat) (now : Instant) :
    TasksInv ((s.fetchChunks t cs len now).coordinator.tilesetStates t) ((s.fetchChunks t cs len now).capacityAvailable t)
      ((s.fetchChunks t cs len now).active t) := by
  obtain ⟨u, hstates, hcount, hcapacity, hrunning, hpending⟩ := s.coordinator.fetchChunks_state t cs len now
  have htasks := tasks_of_fetchChunks hstates
  have hown : (s.fetchChunks t cs len now).coordinator.tilesetStates t = some u :=
    (congrFun hstates t).trans (Function.update_self ..)
  rw [hown]
  by_cases hwas : (s.coordinator.tilesetStates t).any TilesetFetchState.schedulerRunning = true
  · -- its scheduler goes on: what it waits for is still missing
    obtain ⟨st, hst⟩ : ∃ st, s.coordinator.tilesetStates t = some st := by
      refine Option.ne_none_iff_exists'.mp fun hnone => ?_
      rw [hnone] at hwas
      cases hwas
    rw [hst, Option.getD_some] at hcount hcapacity hrunning hpending
    rw [hwas, Bool.not_true, Bool.and_false, if_neg Bool.false_ne_true] at htasks
    have hid : (s.fetchChunks t cs len now).capacityAvailable t = s.capacityAvailable t := by
      simp only [ScheduledCoordinator.fetchChunks, hst, Option.isSome_some, if_true]
    have hinv := h.tasks t
    rw [hst] at hinv
    rw [active_congr htasks, hid]
    refine hinv.restate hrunning fun j p _ hok => ?_
    cases p with
    | throttled n => exact ⟨hok.1, hpending hok.2.1, by rw [hcount, hcapacity]; exact hok.2.2⟩
    | waiting n => exact ⟨hok.1, hpending hok.2.1, by rw [hcount, hcapacity]; exact hok.2.2⟩
    | sleeping => trivial
    | notified => trivial
    | dispatching => trivial
    | shedding error => trivial
    | returned => trivial
  · rw [Bool.not_eq_true] at hwas
    have hnone := (h.tasks t).none_of_not_running hwas
    rw [hwas, Bool.not_false, Bool.and_true] at htasks
    split at htasks
    · rename_i hu
      have hok : SchedulerPhase.Ok ((s.fetchChunks t cs len now).capacityAvailable t) u .sleeping := trivial
      rw [active_concat htasks]
      exact TasksInv.start hnone hu hok _
    · rw [active_congr htasks]
      exact TasksInv.of_none hnone

theorem tasks_fetchChunks (h : SchedulerInv s) (t : T) (cs : List Nat) (len : Nat) (now : Instant) (t' : T) :
    TasksInv ((s.fetchChunks t cs len now).coordinator.tilesetStates t') ((s.fetchChunks t cs len now).capacityAvailable t')
      ((s.fetchChunks t cs len now).active t') := by
  by_cases ht : t' = t
  · rw [ht]
    exact h.tasks_fetchChunks_self t cs len now
  · obtain ⟨u, hstates, -⟩ := s.coordinator.fetchChunks_state t cs len now
    have hother : (s.fetchChunks t cs len now).coordinator.tilesetStates t' = s.coordinator.tilesetStates t' :=
      (congrFun hstates t').trans (Function.update_of_ne ht ..)
    have hactive : (s.fetchChunks t cs len now).active t' = s.active t' := by
      have htasks := tasks_of_fetchChunks hstates
      split at htasks
      · exact active_concat_of_ne htasks ht
      · exact active_congr htasks t'
    have hid : (s.fetchChunks t cs len now).capacityAvailable t' = s.capacityAvailable t' := by
      simp only [ScheduledCoordinator.fetchChunks]
      split
      · rfl
      · rw [Function.update_of_ne ht]
    rw [hother, hactive, hid]
    exact h.tasks t'

theorem fetchChunks (h : SchedulerInv s) (t : T) (cs : List Nat) (len : Nat) (now : Instant) :
    SchedulerInv (s.fetchChunks t cs len now) := by
  obtain ⟨u, hstates, -⟩ := s.coordinator.fetchChunks_state t cs len now
  have hfetch := h.fetch.step (m := 0) (Coordinator.Stepped.fetchChunks t cs len now)
  have hback : ∀ t' st', (s.fetchChunks t cs len now).coordinator.tilesetStates t' = some st' →
      t' = t ∨ ∃ st, s.coordinator.tilesetStates t' = some st := by
    intro t' st' hst'
    change (s.coordinator.fetchChunks t cs len now).1.tilesetStates t' = some st' at hst'
    rw [hstates] at hst'
    rcases update_eq_some hst' with ⟨rfl, -⟩ | ⟨-, hst'⟩
    · exact Or.inl rfl
    · exact Or.inr ⟨st', hst'⟩
  cases hst : s.coordinator.tilesetStates t with
  | some st =>
    refine h.congr hfetch ?_ ?_ (fun t' st' hst' => ?_) fun t' => ?_
    · simp only [ScheduledCoordinator.fetchChunks, hst, Option.isSome_some, if_true]
    · simp only [ScheduledCoordinator.fetchChunks, hst, Option.isSome_some, if_true]
    · rcases hback t' st' hst' with rfl | hold
      · exact ⟨st, hst⟩
      · exact hold
    · have htasks := h.tasks_fetchChunks t cs len now t'
      simp only [ScheduledCoordinator.fetchChunks, hst, Option.isSome_some, if_true] at htasks ⊢
      exact htasks
  | none =>
    -- the state that is made has a `Notify` that nobody had before
    have hids : (s.fetchChunks t cs len now).capacityAvailable = Function.update s.capacityAvailable t s.nextNotify := by
      simp only [ScheduledCoordinator.fetchChunks, hst, Option.isSome_none, Bool.false_eq_true, if_false]
    have hnext : (s.fetchChunks t cs len now).nextNotify = s.nextNotify + 1 := by
      simp only [ScheduledCoordinator.fetchChunks, hst, Option.isSome_none, Bool.false_eq_true, if_false]
    have hold : ∀ t' st', t' ≠ t → (s.fetchChunks t cs len now).coordinator.tilesetStates t' = some st' →
        ∃ st, s.coordinator.tilesetStates t' = some st := by
      intro t' st' hne hst'
      rcases hback t' st' hst' with heq | hold
      · exact absurd heq hne
      · exact hold
    refine ⟨hfetch, h.tasks_fetchChunks t cs len now, fun t' st' hst' => ?_, fun t₁ t₂ st₁ st₂ hst₁ hst₂ heq => ?_⟩
    · rw [hids, hnext]
      by_cases ht : t' = t
      · rw [ht, Function.update_self]
        exact Nat.lt_succ_self _
      · obtain ⟨st, hst⟩ := hold t' st' ht hst'
        rw [Function.update_of_ne ht]
        exact Nat.lt_succ_of_lt (h.fresh t' st hst)
    · rw [hids] at heq
      by_cases h₁ : t₁ = t
      · by_cases h₂ : t₂ = t
        · rw [h₁, h₂]
        · obtain ⟨st, hst⟩ := hold t₂ st₂ h₂ hst₂
          rw [h₁, Function.update_self, Function.update_of_ne h₂] at heq
          exact absurd heq (Nat.ne_of_gt (h.fresh t₂ st hst))
      · obtain ⟨u₁, hu₁⟩ := hold t₁ st₁ h₁ hst₁
        by_cases h₂ : t₂ = t
        · rw [h₂, Function.update_self, Function.update_of_ne h₁] at heq
          exact absurd heq (Nat.ne_of_lt (h.fresh t₁ u₁ hu₁))
        · obtain ⟨u₂, hu₂⟩ := hold t₂ st₂ h₂ hst₂
          rw [Function.update_of_ne h₁, Function.update_of_ne h₂] at heq
          exact h.distinct t₁ t₂ u₁ u₂ hu₁ hu₂ heq

/-! ## Steps -/

theorem step {a : SchedulerAction T} (h : SchedulerInv s) (hs : ScheduledCoordinator.step m s a = some s') :
    SchedulerInv s' := by
  cases a with
  | fetchChunks t cs len now => exact Option.some.inj hs ▸ h.fetchChunks t cs len now
  | pass j now =>
    simp only [ScheduledCoordinator.step] at hs
    split at hs
    · cases hs
    · rename_i task hj
      split at hs
      · rename_i hphase
        exact Option.some.inj hs ▸ h.pass hj hphase m now
      · cases hs
  | poll j =>
    simp only [ScheduledCoordinator.step] at hs
    split at hs
    · cases hs
    · rename_i task hj
      split at hs
      · rename_i n hphase
        split at hs
        · exact Option.some.inj hs ▸ (h.poll hj hphase).1
        · rename_i hpermit
          exact Option.some.inj hs ▸ (h.poll hj hphase).2 (Bool.eq_false_of_not_eq_true hpermit)
      · rename_i hphase
        exact Option.some.inj hs ▸ h.setTask hj (by rw [hphase]; exact nofun) nofun fun _ _ => trivial
      · cases hs
  | reserve j error =>
    simp only [ScheduledCoordinator.step] at hs
    split at hs
    · cases hs
    · rename_i task hj
      split at hs
      · rename_i i hphase hnext
        split at hs
        · exact Option.some.inj hs ▸ h.setTask hj (by rw [hphase]; exact nofun) nofun fun _ _ => trivial
        · refine h.coordinator_step hs fun c hstepped => ?_
          cases hstepped with
          | phase i g p hg ha hp => rfl
      · cases hs
  | shed j =>
    simp only [ScheduledCoordinator.step] at hs
    split at hs
    · cases hs
    · rename_i task hj
      split at hs
      · rename_i error i hphase hnext
        split at hs
        · cases hs
        · rename_i g hg
          have hj' := h.tasks_completeDispatchedGroup hg (.error error) hj (by rw [hphase]; exact fun n => nofun)
          exact Option.some.inj hs ▸ (h.completeDispatchedGroup hg (.error error)).setTask hj' (by rw [hphase]; exact nofun) nofun
            fun _ _ => trivial
      · cases hs
  | loop j =>
    simp only [ScheduledCoordinator.step] at hs
    split at hs
    · cases hs
    · rename_i task hj
      split at hs
      · rename_i hphase hnext
        exact Option.some.inj hs ▸ h.setTask hj (by rw [hphase]; exact nofun) nofun fun _ _ => trivial
      · cases hs
  | finishFetch i result =>
    refine h.coordinator_step hs fun c hstepped => ?_
    cases hstepped with
    | phase i g p hg ha hp => rfl
  | dropGuard i =>
    refine h.coordinator_step hs fun c hstepped => ?_
    cases hstepped with
    | phase i g p hg ha hp => rfl
  | completeGroup i =>
    simp only [ScheduledCoordinator.step] at hs
    split at hs
    · cases hs
    · rename_i g hg
      split at hs
      · exact Option.some.inj hs ▸ h.completeDispatchedGroup hg _
      · exact Option.some.inj hs ▸ h.completeDispatchedGroup hg _
      · cases hs
  | cancelReceiver w =>
    refine h.coordinator_step (m := m) (a := .cancelReceiver w) hs fun c hstepped => ?_
    cases hstepped with
    | cancel => rfl
    | phase i g p hg ha hp => rfl

theorem reachable (h : (machine T m).Reachable s) : SchedulerInv s :=
  h.invariant SchedulerInv.new fun _ _ _ hinv hs => hinv.step hs

end SchedulerInv

end ScheduledCoordinator

end Biei
