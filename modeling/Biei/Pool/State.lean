import Biei.Lib.Run
import Biei.Types

/-!
# The pool's view of its workers

`PoolState` of `worker_pool.rs`: which profile each worker is committed to once its queue has drained, how many workers each
profile has, and which request-local sources each worker is believed to have.
-/

namespace Biei

/-- `*count -= 1` on a `usize`. -/
def wrappingPred (count : Nat) : Nat := if count = 0 then u64Bound - 1 else count - 1

/-- `ADDLAYER_SOURCE_AFFINITY_CAPACITY`. -/
def addlayerSourceAffinityCapacity : Nat := 64

/-- The vectors have an entry for each of the `n` workers. A profile without an entry in `profileCounts` counts as none. -/
structure PoolState (n : Nat) where
  loaded : Fin n → Option WorkerProfile
  dispatchGenerations : Fin n → UInt64
  profileCounts : WorkerProfile → Option Nat
  lastUsed : Fin n → Option Instant
  addlayerSourceIds : Fin n → Finset String
  /-- Least recently used first. -/
  addlayerSourceLru : Fin n → List String

namespace PoolState

variable {n : Nat}

def new : PoolState n := ⟨fun _ => none, fun _ => 0, fun _ => none, fun _ => none, fun _ => ∅, fun _ => []⟩

/-- The count goes down by one; an entry that gets to zero is removed. -/
def decrementProfileCount (s : PoolState n) (profile : WorkerProfile) : PoolState n :=
  match s.profileCounts profile with
  | none => s
  | some count =>
    let count := wrappingPred count
    { s with profileCounts := Function.update s.profileCounts profile (if count = 0 then none else some count) }

def clearAddlayerSources (s : PoolState n) (idx : Fin n) : PoolState n :=
  { s with
    addlayerSourceIds := Function.update s.addlayerSourceIds idx ∅
    addlayerSourceLru := Function.update s.addlayerSourceLru idx [] }

/-- Takes the worker's profile out, if it has one, and counts it no longer. -/
def takeLoaded (s : PoolState n) (idx : Fin n) : PoolState n :=
  match s.loaded idx with
  | none => s
  | some previous => { s with loaded := Function.update s.loaded idx none }.decrementProfileCount previous

/-- A command of the profile is dispatched to the worker; with the generation of the dispatch. -/
def markLoaded (s : PoolState n) (now : Instant) (idx : Fin n) (profile : WorkerProfile) : PoolState n × UInt64 :=
  let generation := s.dispatchGenerations idx + 1
  let s := { s with
    dispatchGenerations := Function.update s.dispatchGenerations idx generation
    lastUsed := Function.update s.lastUsed idx (some now) }
  if s.loaded idx = some profile then (s, generation)
  else
    let s := (s.takeLoaded idx).clearAddlayerSources idx
    ({ s with
        profileCounts := Function.update s.profileCounts profile (some ((s.profileCounts profile).getD 0 + 1))
        loaded := Function.update s.loaded idx (some profile) }, generation)

/-- The loop that makes room: the least recently used sources go while the set is full. -/
def evictAddlayerSources (ids : Finset String) : List String → Finset String × List String
  | [] => (ids, [])
  | evicted :: lru =>
    if addlayerSourceAffinityCapacity ≤ ids.card then evictAddlayerSources (ids.erase evicted) lru else (ids, evicted :: lru)

def markAddlayerSource (s : PoolState n) (idx : Fin n) (sourceId : String) : PoolState n :=
  let ids := s.addlayerSourceIds idx
  let lru := s.addlayerSourceLru idx
  if sourceId ∈ ids then
    { s with
      addlayerSourceLru := Function.update s.addlayerSourceLru idx (lru.filter (fun cached => cached ≠ sourceId) ++ [sourceId]) }
  else
    let (ids, lru) := evictAddlayerSources ids lru
    { s with
      addlayerSourceIds := Function.update s.addlayerSourceIds idx (insert sourceId ids)
      addlayerSourceLru := Function.update s.addlayerSourceLru idx (lru ++ [sourceId]) }

def clearLoaded (s : PoolState n) (idx : Fin n) : PoolState n :=
  let s := s.takeLoaded idx
  { s with lastUsed := Function.update s.lastUsed idx none }.clearAddlayerSources idx

/-- A command that did not leave its profile loaded takes the prediction back, unless another was dispatched since. -/
def clearLoadedIfLatest (s : PoolState n) (idx : Fin n) (dispatchGeneration : UInt64) : PoolState n :=
  if s.dispatchGenerations idx = dispatchGeneration then s.clearLoaded idx else s

end PoolState

/-- What is done to a pool's state. -/
inductive PoolOp (n : Nat) where
  | markLoaded (now : Instant) (idx : Fin n) (profile : WorkerProfile)
  | markAddlayerSource (idx : Fin n) (sourceId : String)
  | clearLoaded (idx : Fin n)
  | clearLoadedIfLatest (idx : Fin n) (dispatchGeneration : UInt64)

namespace PoolState

variable {n : Nat}

def apply (s : PoolState n) : PoolOp n → PoolState n
  | .markLoaded now idx profile => (s.markLoaded now idx profile).1
  | .markAddlayerSource idx sourceId => s.markAddlayerSource idx sourceId
  | .clearLoaded idx => s.clearLoaded idx
  | .clearLoadedIfLatest idx dispatchGeneration => s.clearLoadedIfLatest idx dispatchGeneration

def machine (n : Nat) : Machine (PoolState n) (PoolOp n) where
  init := new
  step s op := some (s.apply op)

end PoolState

end Biei
