import Biei.Lib.Run
import Biei.Lib.OrderedSet
import Biei.Basic

/-!
# The chunk fetch coordinator

`coordinator.rs` of the chunked store: the fetch state of one tileset and its four operations, and the coordinator that owns one
such state per tileset together with the groups it has dispatched.

Chunk indices and counters are natural numbers: every index is a byte offset divided by the chunk size, so `chunk + 1` and `end +
max_chunk_gap` stay below `u64::MAX`. The map `waiters` from a chunk to the senders waiting for it is kept as the list of its
pairs in order of registration: the vector of a chunk is the sublist of its pairs, and an absent key is a chunk with none (the
source never keeps an empty vector). A waiter is the number of its oneshot channel, whose sender the list holds and whose receiver
a caller awaits.
-/

namespace Biei

/-- Errors produced while fetching raw backend chunks. -/
inductive ChunkFetchError where
  | notFound
  | overloaded (text : String)
  | timeout (text : String)
  | backend (text : String)
  | message (text : String)
deriving DecidableEq, Repr

/-- A half-open range of chunk indices, `start..stop`. -/
structure ChunkRange where
  start : Nat
  stop : Nat
deriving DecidableEq, Repr

namespace ChunkRange

/-- The chunk lies in the range. -/
def Covers (r : ChunkRange) (c : Nat) : Prop := r.start ≤ c ∧ c < r.stop

instance (r : ChunkRange) (c : Nat) : Decidable (r.Covers c) := inferInstanceAs (Decidable (_ ∧ _))

/-- The chunks of the range, in ascending order. -/
def chunks (r : ChunkRange) : List Nat := List.range' r.start (r.stop - r.start)

end ChunkRange

/-! ## Planning: `contiguous_chunk_ranges` -/

/-- `MAX_CHUNK_GAP`: how many unrequested chunks a fetch may bridge between two requested ones. -/
def maxChunkGap : Nat := 1

/-- `MAX_CONCURRENT_FETCHES_PER_TILESET`. -/
def maxConcurrentFetchesPerTileset : Nat := 32

/-- The loop of `contiguous_chunk_ranges` over the chunks after the first one, with the open range `start..stop`. -/
def contiguousLoop (maxFetchChunks maxGap : Nat) (start stop : Nat) : List Nat → List ChunkRange
  | [] => [⟨start, stop⟩]
  | c :: cs =>
    if c ≤ stop + maxGap ∧ c + 1 - start ≤ maxFetchChunks then
      contiguousLoop maxFetchChunks maxGap start (c + 1) cs
    else
      ⟨start, stop⟩ :: contiguousLoop maxFetchChunks maxGap c (c + 1) cs

/-- The backend ranges that cover a set of chunks, bridging small gaps and never longer than the fetch limit (at least one). -/
def contiguousChunkRanges (chunks : OrderedSet Nat) (maxFetchChunks maxGap : Nat) : List ChunkRange :=
  match chunks.toList with
  | [] => []
  | c :: cs => contiguousLoop (max maxFetchChunks 1) maxGap c (c + 1) cs

/-! ## The fetch state of one tileset -/

/-- `tokio::sync::Notify`, as far as one waiting task can tell: at most one stored permit. -/
structure Notify where
  permit : Bool
deriving DecidableEq, Repr

/-- Stores a permit, unless one is stored. -/
def Notify.notifyOne (_ : Notify) : Notify := ⟨true⟩

/-- Inflight and pending fetch coordination state for a single tileset. -/
structure TilesetFetchState where
  pendingChunks : OrderedSet Nat
  firstPendingAt : Option Instant
  inflightChunks : OrderedSet Nat
  waiters : List (Nat × Nat)
  schedulerRunning : Bool
  inflightFetchCount : Nat
  capacityAvailable : Notify
  archiveLen : Nat
deriving DecidableEq

/-- The state a tileset starts from. -/
def TilesetFetchState.default : TilesetFetchState where
  pendingChunks := .empty
  firstPendingAt := none
  inflightChunks := .empty
  waiters := []
  schedulerRunning := false
  inflightFetchCount := 0
  capacityAvailable := ⟨false⟩
  archiveLen := 0

/-- How a newly requested chunk joined the fetch state. -/
inductive EnqueueOutcome where
  | joinedInflight
  | queued
  | joinedPending
deriving DecidableEq, Repr

structure EnqueuedChunk where
  chunkIndex : Nat
  receiver : Nat
  outcome : EnqueueOutcome
deriving DecidableEq, Repr

/-- Outcome of a scheduler pass asking the state what to dispatch next. -/
inductive DispatchDecision where
  | idle
  | throttled
  | dispatch (groups : List ChunkRange) (archiveLen : Nat) (queueDelay : Duration) (pendingAtDispatch : Nat)
deriving DecidableEq, Repr

/-- What a finished group fetch hands to `complete_group`: the bytes of its chunks, or the error of the whole group. -/
abbrev GroupResult := Except ChunkFetchError (List (Nat × Bytes))

/-- One send on a waiter's channel; `delivered` tells whether its receiver was still there. -/
structure WaiterSend where
  waiter : Nat
  result : Except ChunkFetchError Bytes
  delivered : Bool

namespace TilesetFetchState

/-- No scheduled or inflight work: the state can be dropped from the coordinator map. -/
def isDrainable (st : TilesetFetchState) : Bool :=
  !st.schedulerRunning && st.pendingChunks.isEmpty && st.inflightFetchCount == 0

/-- The body of the loop of `enqueue_chunks`: registers the waiter `w` for the chunk `c`. -/
def enqueueChunk (st : TilesetFetchState) (queuedAt : Instant) (w : Nat) (c : Nat) : TilesetFetchState × EnqueueOutcome :=
  let st := { st with waiters := st.waiters ++ [(c, w)] }
  if c ∈ st.inflightChunks then
    (st, .joinedInflight)
  else if c ∈ st.pendingChunks then
    (st, .joinedPending)
  else
    ({ st with
        pendingChunks := st.pendingChunks.insert c
        firstPendingAt := st.firstPendingAt.or (some queuedAt) }, .queued)

/-- Registers a waiter per requested chunk, queuing chunks not already inflight or pending. The channels are numbered from `w`. -/
def enqueueChunks (st : TilesetFetchState) (queuedAt : Instant) (w : Nat) : List Nat → TilesetFetchState × List EnqueuedChunk
  | [] => (st, [])
  | c :: cs =>
    let (st, outcome) := st.enqueueChunk queuedAt w c
    let (st, joined) := st.enqueueChunks queuedAt (w + 1) cs
    (st, ⟨c, w, outcome⟩ :: joined)

/-- Removes closed receivers before dispatch and unschedules pending chunks with no live waiter; returns how many were closed. -/
def pruneCancelledWaiters (st : TilesetFetchState) (closed : Nat → Bool) : TilesetFetchState × Nat :=
  let waiters := st.waiters.filter fun e => !closed e.2
  let pendingChunks := st.pendingChunks.filter fun c => waiters.any fun e => e.1 == c
  ({ st with
      waiters := waiters
      pendingChunks := pendingChunks
      firstPendingAt := if pendingChunks.isEmpty then none else st.firstPendingAt },
    st.waiters.length - waiters.length)

/-- Moves one selected range from pending to inflight. -/
def moveToInflight (st : TilesetFetchState) (r : ChunkRange) : TilesetFetchState :=
  { st with
    inflightChunks := st.inflightChunks.extend r.chunks
    pendingChunks := st.pendingChunks.eraseAll r.chunks }

/-- The ranges the next dispatch would take: as many of the planned ones as there are free fetch slots. -/
def plannedGroups (st : TilesetFetchState) (maxFetchChunks : Nat) : List ChunkRange :=
  (contiguousChunkRanges st.pendingChunks maxFetchChunks maxChunkGap).take
    (maxConcurrentFetchesPerTileset - st.inflightFetchCount)

/-- Selects the next batch of contiguous chunk ranges to dispatch, moving them from pending to inflight and reserving fetch slots.
Stops the scheduler when nothing is pending. -/
def selectDispatchGroups (st : TilesetFetchState) (maxFetchChunks : Nat) (now : Instant) : TilesetFetchState × DispatchDecision :=
  if st.pendingChunks.isEmpty then
    ({ st with schedulerRunning := false }, .idle)
  else if st.inflightFetchCount ≥ maxConcurrentFetchesPerTileset then
    (st, .throttled)
  else
    let groups := st.plannedGroups maxFetchChunks
    if groups.isEmpty then
      (st, .throttled)
    else
      let queueDelay := (st.firstPendingAt.map fun t => now - t).getD 0
      let moved := groups.foldl moveToInflight st
      ({ moved with
          firstPendingAt := if moved.pendingChunks.isEmpty then none else moved.firstPendingAt
          inflightFetchCount := st.inflightFetchCount + groups.length },
        .dispatch groups st.archiveLen queueDelay st.pendingChunks.toList.length)

/-- What the waiters of one chunk are told when their group finishes. -/
def chunkResult (result : GroupResult) (c : Nat) : Except ChunkFetchError Bytes :=
  match result with
  | .ok chunks =>
    match chunks.lookup c with
    | some bytes => .ok bytes
    | none => .error (.message ("fetched group omitted chunk " ++ toString c))
  | .error e => .error e

/-- The body of the loop of `complete_group`: the chunk leaves inflight and its waiters are answered. -/
def completeChunk (closed : Nat → Bool) (result : GroupResult) (acc : TilesetFetchState × List WaiterSend) (c : Nat) :
    TilesetFetchState × List WaiterSend :=
  ({ acc.1 with
      inflightChunks := acc.1.inflightChunks.erase c
      waiters := acc.1.waiters.filter fun e => e.1 != c },
    acc.2 ++ (acc.1.waiters.filter fun e => e.1 == c).map fun e => ⟨e.2, chunkResult result c, !closed e.2⟩)

/-- Releases a finished fetch group: frees its slot, clears the inflight chunks, and answers every waiter of its chunks. -/
def completeGroup (st : TilesetFetchState) (closed : Nat → Bool) (r : ChunkRange) (result : GroupResult) :
    TilesetFetchState × List WaiterSend :=
  let schedulerNeedsCapacity :=
    decide (st.inflightFetchCount ≥ maxConcurrentFetchesPerTileset) && !st.pendingChunks.isEmpty
  let st := { st with
    inflightFetchCount := st.inflightFetchCount - 1
    capacityAvailable := if schedulerNeedsCapacity then st.capacityAvailable.notifyOne else st.capacityAvailable }
  r.chunks.foldl (completeChunk closed result) (st, [])

end TilesetFetchState

/-! ## The coordinator -/

/-- Where a dispatched group stands between its selection and its completion. -/
inductive GroupPhase where
  /-- Selected; the scheduler has not yet reserved a backend slot for it. -/
  | selected
  /-- Its task runs the fetch under a `GroupCompletionGuard` without a result. -/
  | fetching
  /-- Its result is there (a fetch, or a shed group's error) and it waits for the lock of the states. -/
  | completing (result : GroupResult)
  /-- The guard was dropped; a spawned task waits for the lock with the result the guard held, or with its own error. -/
  | detached (result : GroupResult)

/-- A group that has been dispatched and has not completed. -/
structure DispatchedGroup (T : Type) where
  tilesetId : T
  chunkRange : ChunkRange
  archiveLen : Nat
  phase : GroupPhase

/-- The coordinator: the state of each tileset, and what the tasks around it hold (the dispatched groups, the channels opened so
far, which receivers are gone, what each channel was opened for, and everything sent). -/
structure Coordinator (T : Type) where
  tilesetStates : T → Option TilesetFetchState
  groups : List (DispatchedGroup T)
  nextWaiter : Nat
  closed : Nat → Bool
  registered : Nat → Option (T × Nat)
  sends : List WaiterSend

/-- The steps of the tasks that share a coordinator: each is one critical section, or one move of a group's own task. -/
inductive CoordinatorAction (T : Type) where
  | fetchChunks (t : T) (requiredChunks : List Nat) (archiveLen : Nat) (now : Instant)
  | pruneCancelledWaiters (t : T)
  | selectDispatchGroups (t : T) (now : Instant)
  | spawnFetch (i : Nat)
  | shedGroup (i : Nat) (error : ChunkFetchError)
  | finishFetch (i : Nat) (result : GroupResult)
  | dropGuard (i : Nat)
  | completeGroup (i : Nat)
  | removeDrainableState (t : T)
  | cancelReceiver (w : Nat)

/-- The error a guard dropped before its fetch returned leaves to the waiters. -/
def guardDroppedError : ChunkFetchError := .message "chunk fetch task cancelled or panicked"

namespace Coordinator

variable {T : Type} [DecidableEq T]

/-- A coordinator that has served nothing. -/
def new : Coordinator T where
  tilesetStates := fun _ => none
  groups := []
  nextWaiter := 0
  closed := fun _ => false
  registered := fun _ => none
  sends := []

/-- The coordinator with another state for one tileset. -/
def setState (s : Coordinator T) (t : T) (st : Option TilesetFetchState) : Coordinator T :=
  { s with tilesetStates := Function.update s.tilesetStates t st }

/-- The critical section of `fetch_chunks`: enqueue, and mark the scheduler running when there is something to schedule. -/
def fetchChunks (s : Coordinator T) (t : T) (requiredChunks : List Nat) (archiveLen : Nat) (now : Instant) :
    Coordinator T × List EnqueuedChunk :=
  let st := (s.tilesetStates t).getD .default
  let st := { st with archiveLen := max st.archiveLen archiveLen }
  let (st, enqueued) := st.enqueueChunks now s.nextWaiter requiredChunks
  let st := if !st.schedulerRunning && !st.pendingChunks.isEmpty then { st with schedulerRunning := true } else st
  ({ s.setState t (some st) with
      nextWaiter := s.nextWaiter + requiredChunks.length
      registered := fun w =>
        if s.nextWaiter ≤ w then (requiredChunks[w - s.nextWaiter]?).map fun c => (t, c) else s.registered w },
    enqueued)

/-- The groups a dispatch decision hands to the scheduler. -/
def dispatchedGroups (t : T) : DispatchDecision → List (DispatchedGroup T)
  | .dispatch groups archiveLen _ _ => groups.map fun r => ⟨t, r, archiveLen, .selected⟩
  | _ => []

/-- The group `i` moves to another phase. -/
def setPhase (s : Coordinator T) (i : Nat) (g : DispatchedGroup T) (phase : GroupPhase) : Coordinator T :=
  { s with groups := s.groups.set i { g with phase := phase } }

/-- `complete_dispatched_group` without its last line: the group is no longer outstanding, and its tileset's state, if it is still
there, releases it. -/
def completeDispatched (s : Coordinator T) (i : Nat) (g : DispatchedGroup T) (result : GroupResult) : Coordinator T :=
  let s := { s with groups := s.groups.eraseIdx i }
  match s.tilesetStates g.tilesetId with
  | none => s
  | some st =>
    let (st, sent) := st.completeGroup s.closed g.chunkRange result
    { s.setState g.tilesetId (some st) with sends := s.sends ++ sent }

/-- `remove_drainable_state`. -/
def removeDrainableState (s : Coordinator T) (t : T) : Coordinator T × Bool :=
  match s.tilesetStates t with
  | some st => if st.isDrainable then (s.setState t none, true) else (s, false)
  | none => (s, false)

/-- One step of the tasks that share the coordinator. -/
def step (maxFetchChunks : Nat) (s : Coordinator T) : CoordinatorAction T → Option (Coordinator T)
  | .fetchChunks t requiredChunks archiveLen now => some (s.fetchChunks t requiredChunks archiveLen now).1
  | .pruneCancelledWaiters t =>
    match s.tilesetStates t with
    | some st => some (s.setState t (some (st.pruneCancelledWaiters s.closed).1))
    | none => none
  | .selectDispatchGroups t now =>
    match s.tilesetStates t with
    | some st =>
      let (st, decision) := st.selectDispatchGroups maxFetchChunks now
      some { s.setState t (some st) with groups := s.groups ++ dispatchedGroups t decision }
    | none => none
  | .spawnFetch i =>
    match s.groups[i]? with
    | some g =>
      match g.phase with
      | .selected => some (s.setPhase i g .fetching)
      | _ => none
    | none => none
  | .shedGroup i error =>
    match s.groups[i]? with
    | some g =>
      match g.phase with
      | .selected => some (s.setPhase i g (.completing (.error error)))
      | _ => none
    | none => none
  | .finishFetch i result =>
    match s.groups[i]? with
    | some g =>
      match g.phase with
      | .fetching => some (s.setPhase i g (.completing result))
      | _ => none
    | none => none
  | .dropGuard i =>
    match s.groups[i]? with
    | some g =>
      match g.phase with
      | .fetching => some (s.setPhase i g (.detached (.error guardDroppedError)))
      | .completing result => some (s.setPhase i g (.detached result))
      | _ => none
    | none => none
  | .completeGroup i =>
    match s.groups[i]? with
    | some g =>
      match g.phase with
      | .completing result => some (s.completeDispatched i g result)
      | .detached result => some (s.completeDispatched i g result)
      | _ => none
    | none => none
  | .removeDrainableState t => some (s.removeDrainableState t).1
  | .cancelReceiver w => some { s with closed := Function.update s.closed w true }

/-- The coordinator as a machine, for a fetch limit. -/
def machine (T : Type) [DecidableEq T] (maxFetchChunks : Nat) : Machine (Coordinator T) (CoordinatorAction T) where
  init := new
  step := step maxFetchChunks

end Coordinator

end Biei
