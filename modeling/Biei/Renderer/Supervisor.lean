import Biei.Lib.OrderedMap
import Biei.Lib.Run

/-!
# Actor threads, their owners and the orphan budget

`protocol.rs` and `supervisor.rs`: an actor's owner may abandon its thread or be dropped, while the thread may exit. They meet in
the status of the thread, which is compared and exchanged, and in the supervisor's budget, which is locked. Every atomic operation
and every section under the lock is one step.
-/

namespace Biei

/-! ## The budget -/

/-- The part of the supervisor that counts orphaned threads. `orphanedThreads` is the counter before it is taken to its width:
below zero it has wrapped around. -/
structure OrphanBudget where
  maxOrphanedThreads : Nat
  orphanedThreads : Int
  orphanedByWorker : OrderedMap Nat Nat

namespace OrphanBudget

def new (maxOrphanedThreads : Nat) : OrphanBudget := ⟨maxOrphanedThreads, 0, .empty⟩

/-- The counter is read as no less than the limit; one that has wrapped around is more than any. -/
def isExhausted (b : OrphanBudget) : Bool := decide (b.orphanedThreads < 0 ∨ (b.maxOrphanedThreads : Int) ≤ b.orphanedThreads)

/-- `try_reserve_orphan`, under the lock. -/
def tryReserveOrphan (b : OrphanBudget) (workerId : Nat) : Option OrphanBudget :=
  if (b.orphanedByWorker.get? workerId).isSome || b.isExhausted then none
  else some { b with orphanedThreads := b.orphanedThreads + 1, orphanedByWorker := b.orphanedByWorker.insert workerId 1 }

/-- The first half of `reserve_orphan_unchecked`, under the lock. -/
def recordOrphan (b : OrphanBudget) (workerId : Nat) : OrphanBudget :=
  { b with orphanedByWorker := b.orphanedByWorker.insert workerId ((b.orphanedByWorker.get? workerId).getD 0 + 1) }

/-- The second half of `reserve_orphan_unchecked`, when the lock has been let go. -/
def countOrphan (b : OrphanBudget) : OrphanBudget := { b with orphanedThreads := b.orphanedThreads + 1 }

/-- `release_orphan`, under the lock. -/
def releaseOrphan (b : OrphanBudget) (workerId : Nat) : OrphanBudget :=
  match b.orphanedByWorker.get? workerId with
  | none => b
  | some count =>
    { b with
      orphanedThreads := b.orphanedThreads - 1
      orphanedByWorker :=
        if count - 1 = 0 then b.orphanedByWorker.erase workerId else b.orphanedByWorker.insert workerId (count - 1) }

end OrphanBudget

/-! ## Actors -/

inductive ThreadStatus where
  | running
  | orphaned
  | finished
deriving DecidableEq, Repr

/-- Where an actor's thread is: at work, or in the drop of `ActorThreadExit`, or returned. -/
inductive ThreadPhase where
  | running
  | releasing
  | returning
  | done
deriving DecidableEq, Repr

/-- Where the owner of an actor is. -/
inductive OwnerPhase where
  /-- Neither `try_abandon` nor `drop` is running. -/
  | held
  /-- `try_abandon` has found a handle. -/
  | checking
  | reserving
  | reserved
  /-- `try_abandon` gives the reservation back: the thread has finished, or was orphaned already. -/
  | releasing (finished : Bool)
  | joining
  /-- `drop` gives the thread its time. -/
  | dropping
  | detaching
  | recording
  | counting
  | dropped
deriving DecidableEq, Repr

/-- An actor: whether its owner has the thread's handle, the status both share, and what `try_abandon` answered last.
`reservations` and `releases` are what was entered in the budget for its thread and taken out again. -/
structure ActorThread where
  workerId : Nat
  handle : Bool
  status : ThreadStatus
  owner : OwnerPhase
  thread : ThreadPhase
  answer : Option Bool
  reservations : Nat
  releases : Nat
deriving DecidableEq, Repr

namespace ActorThread

/-- `spawn_with_backend_factory`. -/
def spawn (workerId : Nat) : ActorThread := ⟨workerId, true, .running, .held, .running, none, 0, 0⟩

def isFinished (a : ActorThread) : Bool := a.thread == .done

/-- `try_abandon` returns. -/
def answers (a : ActorThread) (result : Bool) : ActorThread := { a with owner := .held, answer := some result }

/-- A release that finds a count takes it out. -/
def notesRelease (a : ActorThread) (b : OrphanBudget) : ActorThread :=
  if (b.orphanedByWorker.get? a.workerId).isSome then { a with releases := a.releases + 1 } else a

/-- `try_abandon` is called. -/
def tryAbandon (a : ActorThread) : Option ActorThread :=
  match a.owner with
  | .held => if a.handle then some { a with owner := .checking } else some (a.answers true)
  | _ => none

/-- `drop` is called; it takes the handle. -/
def drop (a : ActorThread) : Option ActorThread :=
  match a.owner with
  | .held => if a.handle then some { a with handle := false, owner := .dropping } else some { a with owner := .dropped }
  | _ => none

/-- `ACTOR_JOIN_GRACE` is over. -/
def graceOver (a : ActorThread) : Option ActorThread :=
  match a.owner with
  | .dropping => if a.isFinished then some { a with owner := .dropped } else some { a with owner := .detaching }
  | _ => none

/-- The next step of `try_abandon` or `drop`. -/
def ownerStep (a : ActorThread) (b : OrphanBudget) : Option (ActorThread × OrphanBudget) :=
  match a.owner with
  | .held => none
  | .checking => if a.isFinished then some ({ a with handle := false, owner := .joining }, b) else
      some ({ a with owner := .reserving }, b)
  | .reserving =>
    match b.tryReserveOrphan a.workerId with
    | none => some (a.answers false, b)
    | some b' => some ({ a with owner := .reserved, reservations := a.reservations + 1 }, b')
  | .reserved =>
    match a.status with
    | .running => some ({ a with status := .orphaned, handle := false }.answers true, b)
    | .finished => some ({ a with owner := .releasing true }, b)
    | .orphaned => some ({ a with owner := .releasing false }, b)
  | .releasing true => some ({ a.notesRelease b with handle := false, owner := .joining }, b.releaseOrphan a.workerId)
  | .releasing false => some ((a.notesRelease b).answers false, b.releaseOrphan a.workerId)
  | .joining => if a.isFinished then some (a.answers true, b) else none
  | .dropping => if a.isFinished then some ({ a with owner := .dropped }, b) else none
  | .detaching =>
    if a.status = .running then some ({ a with status := .orphaned, owner := .recording }, b)
    else some ({ a with owner := .dropped }, b)
  | .recording => some ({ a with owner := .counting, reservations := a.reservations + 1 }, b.recordOrphan a.workerId)
  | .counting => some ({ a with owner := .dropped }, b.countOrphan)
  | .dropped => none

/-- The next step of the thread: `run_actor` returns, and `ActorThreadExit` is dropped. -/
def threadStep (a : ActorThread) (b : OrphanBudget) : Option (ActorThread × OrphanBudget) :=
  match a.thread with
  | .running => some ({ a with status := .finished, thread := if a.status = .orphaned then .releasing else .returning }, b)
  | .releasing => some ({ a.notesRelease b with thread := .returning }, b.releaseOrphan a.workerId)
  | .returning => some ({ a with thread := .done }, b)
  | .done => none

end ActorThread

/-! ## The system -/

/-- All actors ever spawned, with the budget their supervisor keeps. -/
structure ActorThreads where
  actors : List ActorThread
  budget : OrphanBudget

/-- Who of an actor's parties moves, or begins to. -/
inductive ActorMove where
  | tryAbandon
  | drop
  | graceOver
  | owner
  | thread
deriving DecidableEq, Repr

inductive ActorThreadAction where
  | spawn (workerId : Nat)
  | move (i : Nat) (m : ActorMove)
deriving DecidableEq, Repr

/-- What a move does to its actor and the budget. -/
def ActorThread.move (a : ActorThread) (b : OrphanBudget) : ActorMove → Option (ActorThread × OrphanBudget)
  | .tryAbandon => a.tryAbandon.map fun a' => (a', b)
  | .drop => a.drop.map fun a' => (a', b)
  | .graceOver => a.graceOver.map fun a' => (a', b)
  | .owner => a.ownerStep b
  | .thread => a.threadStep b

namespace ActorThreads

def new (maxOrphanedThreads : Nat) : ActorThreads := ⟨[], .new maxOrphanedThreads⟩

def step (s : ActorThreads) : ActorThreadAction → Option ActorThreads
  | .spawn workerId => some { s with actors := s.actors ++ [.spawn workerId] }
  | .move i m => s.actors[i]?.bind fun a => (a.move s.budget m).map fun r => ⟨s.actors.set i r.1, r.2⟩

def machine (maxOrphanedThreads : Nat) : Machine ActorThreads ActorThreadAction where
  init := new maxOrphanedThreads
  step := step

end ActorThreads

end Biei
