import Biei.Common.SingleFlight
import Biei.Lib.Run

/-!
# Draining

`drain.rs`: requests acquire permits until draining begins, and those who wait for the node to be idle are told when the last
permit is gone. Every load, store, addition and subtraction of the atomics is a step, as is a notification.
-/

namespace Biei

/-- What ends with a notification, or without one. -/
inductive DrainEnd where
  /-- `try_acquire` has returned `None`. -/
  | refused
  /-- A permit was dropped. -/
  | released
  /-- `begin_draining` has returned. -/
  | begun
deriving DecidableEq

/-- Where a call of `try_acquire` with its permit, of `begin_draining` or of `wait_idle` is. -/
inductive DrainTask where
  | checking
  | incrementing
  /-- The counter was raised, the flag is to be read again. -/
  | deciding
  /-- The flag was found clear, the counter is to be lowered again. -/
  | undoing
  | granted
  | storing
  | reading
  | notifying (after : DrainEnd)
  | ended (how : DrainEnd)
  | peeking
  | changing (wait : ChangeWait)
  | returned (idle : Bool)
  | cancelled
deriving DecidableEq

/-- `usize::MAX`. -/
def usizeMax : Nat := 2 ^ 64 - 1

/-- `DrainState`, with all tasks there were. The counter counts tasks, and there are never `usize::MAX` of them. -/
structure DrainController where
  accepting : Bool
  inFlight : Nat
  idle : ChangeNotify
  tasks : List DrainTask

inductive DrainAction where
  | tryAcquire
  | beginDraining
  | waitIdle
  /-- The task goes on. -/
  | move (i : Nat)
  | dropPermit (i : Nat)
  | timeout (i : Nat)
  | cancel (i : Nat)
deriving DecidableEq

namespace DrainController

def new : DrainController := ⟨true, 0, .new, []⟩

def isDraining (s : DrainController) : Bool := !s.accepting

def setTask (s : DrainController) (i : Nat) (task : DrainTask) : DrainController := { s with tasks := s.tasks.set i task }

/-- `fetch_sub(1)`, which wraps, with the notification to come when the counter was one. -/
def lower (s : DrainController) (i : Nat) (after : DrainEnd) : DrainController :=
  { s.setTask i (if s.inFlight = 1 then .notifying after else .ended after) with
    inFlight := if s.inFlight = 0 then usizeMax else s.inFlight - 1 }

/-- The check of `wait_idle`. -/
def checkIdle (s : DrainController) : Option Unit := if s.inFlight = 0 then some () else none

/-- `wait_for_change` goes on. -/
def change (s : DrainController) (i : Nat) (wait : ChangeWait) : Option DrainController :=
  (wait.step s.idle s.checkIdle).map fun
    | .inl wait => s.setTask i (.changing wait)
    | .inr () => s.setTask i (.returned true)

/-- What the task does next. -/
def move (s : DrainController) (i : Nat) : DrainTask → Option DrainController
  | .checking => some (s.setTask i (if s.isDraining then .ended .refused else .incrementing))
  | .incrementing => some { s.setTask i .deciding with inFlight := s.inFlight + 1 }
  | .deciding => some (s.setTask i (if s.isDraining then .undoing else .granted))
  | .undoing => some (s.lower i .refused)
  | .storing => some { s.setTask i .reading with accepting := false }
  | .reading => some (s.setTask i (if s.inFlight = 0 then .notifying .begun else .ended .begun))
  | .notifying after => some { s.setTask i (.ended after) with idle := s.idle.notifyWaiters }
  | .peeking => some (s.setTask i (if s.inFlight = 0 then .returned true else .changing .first))
  | .changing wait => s.change i wait
  | .granted => none
  | .ended _ => none
  | .returned _ => none
  | .cancelled => none

def dropPermit (s : DrainController) (i : Nat) : DrainTask → Option DrainController
  | .granted => some (s.lower i .released)
  | _ => none

/-- The time of a parked `wait_idle` is over. -/
def timeout (s : DrainController) (i : Nat) : DrainTask → Option DrainController
  | .changing (.parked _) => some (s.setTask i (.returned false))
  | _ => none

def cancel (s : DrainController) (i : Nat) : DrainTask → Option DrainController
  | .changing (.parked _) => some (s.setTask i .cancelled)
  | _ => none

def step (s : DrainController) : DrainAction → Option DrainController
  | .tryAcquire => some { s with tasks := s.tasks ++ [.checking] }
  | .beginDraining => some { s with tasks := s.tasks ++ [.storing] }
  | .waitIdle => some { s with tasks := s.tasks ++ [.peeking] }
  | .move i => s.tasks[i]?.bind (s.move i)
  | .dropPermit i => s.tasks[i]?.bind (s.dropPermit i)
  | .timeout i => s.tasks[i]?.bind (s.timeout i)
  | .cancel i => s.tasks[i]?.bind (s.cancel i)

def machine : Machine DrainController DrainAction where
  init := new
  step := step

end DrainController

end Biei
