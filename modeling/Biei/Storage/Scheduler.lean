import Biei.Storage.Coordinator

/-!
# The scheduler task of a tileset

`run_scheduler` of `coordinator.rs`, as a task beside the others that share the coordinator. What it does under the lock is one
step: a pass prunes and selects, and decides there whether to stop, to wait or to dispatch. The waiting comes after the lock is
left. How long a task sleeps, which backend slots are free and in which order tasks run is left open; so is when the sleep is left
out, since it takes no time that a step could tell.

The `Notify` of a state is shared with the task that waits on it, and so it has a number: the task keeps the one it was given,
whatever becomes of the state.
-/

namespace Biei

/-- Where a scheduler stands. -/
inductive SchedulerPhase where
  /-- Before the next pass. -/
  | sleeping
  /-- Throttled: the lock is left, and `notified` is not polled yet. -/
  | throttled (capacityAvailable : Nat)
  /-- Registered with the `Notify`. -/
  | waiting (capacityAvailable : Nat)
  /-- The notification was delivered. -/
  | notified
  /-- Before the next group that was selected. -/
  | dispatching
  /-- The next group got no slot: it is completed with the error as soon as the lock is free. -/
  | shedding (error : ChunkFetchError)
  | returned
deriving DecidableEq

structure SchedulerTask (T : Type) where
  tilesetId : T
  phase : SchedulerPhase

/-- The coordinator with its schedulers, and the `Notify` that each state has. -/
structure ScheduledCoordinator (T : Type) where
  coordinator : Coordinator T
  capacityAvailable : T → Nat
  nextNotify : Nat
  /-- What was stored in the `Notify` of a state when the state was dropped. -/
  dropped : Nat → Notify
  tasks : List (SchedulerTask T)

inductive SchedulerAction (T : Type) where
  | fetchChunks (t : T) (requiredChunks : List Nat) (archiveLen : Nat) (now : Instant)
  /-- The part of a pass that is under the lock. -/
  | pass (j : Nat) (now : Instant)
  | poll (j : Nat)
  /-- `try_reserve_backend_group` for the next group, with its error if it has one. -/
  | reserve (j : Nat) (error : Option ChunkFetchError)
  | shed (j : Nat)
  /-- All groups are dispatched. -/
  | loop (j : Nat)
  | finishFetch (i : Nat) (result : GroupResult)
  | dropGuard (i : Nat)
  | completeGroup (i : Nat)
  | cancelReceiver (w : Nat)

/-- The next group of a tileset that was selected and has no slot yet. -/
def Coordinator.nextSelected {T : Type} [DecidableEq T] (s : Coordinator T) (t : T) : Option Nat :=
  s.groups.findIdx? fun g => decide (g.tilesetId = t) && match g.phase with | .selected => true | _ => false

namespace ScheduledCoordinator

variable {T : Type} [DecidableEq T]

def new : ScheduledCoordinator T := ⟨.new, fun _ => 0, 0, fun _ => ⟨false⟩, []⟩

/-- The `j`-th task moves to another phase. -/
def setTask (s : ScheduledCoordinator T) (j : Nat) (task : SchedulerTask T) (phase : SchedulerPhase) : ScheduledCoordinator T :=
  { s with tasks := s.tasks.set j { task with phase } }

/-- What is in a `Notify` that came from the state of a tileset: it may not be the tileset's any more. -/
def notify (s : ScheduledCoordinator T) (t : T) (n : Nat) : Notify :=
  match s.coordinator.tilesetStates t with
  | some st => if s.capacityAvailable t = n then st.capacityAvailable else s.dropped n
  | none => s.dropped n

/-- The permit is taken out of a `Notify`. -/
def takePermit (s : ScheduledCoordinator T) (t : T) (n : Nat) : ScheduledCoordinator T :=
  match s.coordinator.tilesetStates t with
  | some st =>
    if s.capacityAvailable t = n then
      { s with coordinator := s.coordinator.setState t (some { st with capacityAvailable := ⟨false⟩ }) }
    else { s with dropped := Function.update s.dropped n ⟨false⟩ }
  | none => { s with dropped := Function.update s.dropped n ⟨false⟩ }

/-- The critical section of `fetch_chunks`: a tileset without a state gets one, with its own `Notify`; a scheduler is spawned when
it is marked running. -/
def fetchChunks (s : ScheduledCoordinator T) (t : T) (requiredChunks : List Nat) (archiveLen : Nat) (now : Instant) :
    ScheduledCoordinator T :=
  let coordinator := (s.coordinator.fetchChunks t requiredChunks archiveLen now).1
  let wasRunning := (s.coordinator.tilesetStates t).any TilesetFetchState.schedulerRunning
  let isRunning := (coordinator.tilesetStates t).any TilesetFetchState.schedulerRunning
  { s with
    coordinator
    capacityAvailable :=
      if (s.coordinator.tilesetStates t).isSome then s.capacityAvailable else Function.update s.capacityAvailable t s.nextNotify
    nextNotify := if (s.coordinator.tilesetStates t).isSome then s.nextNotify else s.nextNotify + 1
    tasks := if isRunning && !wasRunning then s.tasks ++ [⟨t, .sleeping⟩] else s.tasks }

/-- `remove_drainable_state`: a task may have the `Notify` of the state still. -/
def removeDrainableState (s : ScheduledCoordinator T) (t : T) : ScheduledCoordinator T :=
  { s with
    coordinator := (s.coordinator.removeDrainableState t).1
    dropped :=
      if (s.coordinator.removeDrainableState t).2 then
        Function.update s.dropped (s.capacityAvailable t) (s.notify t (s.capacityAvailable t))
      else s.dropped }

/-- `notify_one` on the `Notify` of a state where a task is registered: the notification goes to the task, and is not stored.
Nothing is stored before that, or the task would not have been registered. -/
def deliver (s : ScheduledCoordinator T) (t : T) : ScheduledCoordinator T :=
  match s.coordinator.tilesetStates t with
  | none => s
  | some st =>
    if st.capacityAvailable.permit then
      match s.tasks.findIdx? fun task => task.phase == .waiting (s.capacityAvailable t) with
      | none => s
      | some j =>
        match s.tasks[j]? with
        | none => s
        | some task => (s.takePermit t (s.capacityAvailable t)).setTask j task .notified
    else s

/-- `complete_dispatched_group`: the group releases its slot, the scheduler is notified, and a drained state is removed. -/
def completeDispatchedGroup (s : ScheduledCoordinator T) (i : Nat) (g : DispatchedGroup T) (result : GroupResult) :
    ScheduledCoordinator T :=
  let s := { s with coordinator := s.coordinator.completeDispatched i g result }
  (s.deliver g.tilesetId).removeDrainableState g.tilesetId

/-- A pass of the loop of `run_scheduler`, up to where it leaves the lock. -/
def pass (maxFetchChunks : Nat) (s : ScheduledCoordinator T) (j : Nat) (task : SchedulerTask T) (now : Instant) :
    ScheduledCoordinator T :=
  let t := task.tilesetId
  match s.coordinator.tilesetStates t with
  | none => s.setTask j task .returned
  | some st =>
    let pruned := (st.pruneCancelledWaiters s.coordinator.closed).1
    let (selected, decision) := pruned.selectDispatchGroups maxFetchChunks now
    let c := (s.coordinator.setState t (some pruned)).setState t (some selected)
    let s := { s with coordinator := { c with groups := c.groups ++ Coordinator.dispatchedGroups t decision } }
    match decision with
    | .idle => (s.removeDrainableState t).setTask j task .returned
    | .throttled => s.setTask j task (.throttled (s.capacityAvailable t))
    | .dispatch _ _ _ _ => s.setTask j task .dispatching

def step (maxFetchChunks : Nat) (s : ScheduledCoordinator T) : SchedulerAction T → Option (ScheduledCoordinator T)
  | .fetchChunks t requiredChunks archiveLen now => some (s.fetchChunks t requiredChunks archiveLen now)
  | .pass j now =>
    match s.tasks[j]? with
    | none => none
    | some task =>
      match task.phase with
      | .sleeping => some (s.pass maxFetchChunks j task now)
      | _ => none
  | .poll j =>
    match s.tasks[j]? with
    | none => none
    | some task =>
      match task.phase with
      | .throttled n =>
        if (s.notify task.tilesetId n).permit then some ((s.takePermit task.tilesetId n).setTask j task .sleeping)
        else some (s.setTask j task (.waiting n))
      | .notified => some (s.setTask j task .sleeping)
      | _ => none
  | .reserve j error =>
    match s.tasks[j]? with
    | none => none
    | some task =>
      match task.phase, s.coordinator.nextSelected task.tilesetId with
      | .dispatching, some i =>
        match error with
        | some error => some (s.setTask j task (.shedding error))
        | none => (s.coordinator.step maxFetchChunks (.spawnFetch i)).map fun coordinator => { s with coordinator }
      | _, _ => none
  | .shed j =>
    match s.tasks[j]? with
    | none => none
    | some task =>
      match task.phase, s.coordinator.nextSelected task.tilesetId with
      | .shedding error, some i =>
        match s.coordinator.groups[i]? with
        | none => none
        | some g => some ((s.completeDispatchedGroup i g (.error error)).setTask j task .dispatching)
      | _, _ => none
  | .loop j =>
    match s.tasks[j]? with
    | none => none
    | some task =>
      match task.phase, s.coordinator.nextSelected task.tilesetId with
      | .dispatching, none => some (s.setTask j task .sleeping)
      | _, _ => none
  | .finishFetch i result =>
    (s.coordinator.step maxFetchChunks (.finishFetch i result)).map fun coordinator => { s with coordinator }
  | .dropGuard i => (s.coordinator.step maxFetchChunks (.dropGuard i)).map fun coordinator => { s with coordinator }
  | .completeGroup i =>
    match s.coordinator.groups[i]? with
    | none => none
    | some g =>
      match g.phase with
      | .completing result => some (s.completeDispatchedGroup i g result)
      | .detached result => some (s.completeDispatchedGroup i g result)
      | _ => none
  | .cancelReceiver w =>
    (s.coordinator.step maxFetchChunks (.cancelReceiver w)).map fun coordinator => { s with coordinator }

def machine (T : Type) [DecidableEq T] (maxFetchChunks : Nat) : Machine (ScheduledCoordinator T) (SchedulerAction T) where
  init := new
  step := step maxFetchChunks

end ScheduledCoordinator

end Biei
