import Biei.Pool.State
import Biei.Renderer.Worker

/-!
# The worker pool

`WorkerPool` of `worker_pool.rs` with the `worker_loop` of each worker. A call of `process` picks a worker, reserves a place in
its queue by compare-and-swap on the queue-depth counter, marks the worker's profile in the pool's state, and sends its command;
the command carries the accounting with it, and gives the place back when it is finished or dropped. Every access to shared state
is a step of its own.
-/

namespace Biei

/-- What a pool is spawned with. -/
structure PoolSpec where
  workers : Nat
  blCapacity : Nat
  /-- The hard limit as configured; the pool never takes it below the soft one. -/
  configuredQueueCapacity : Nat
  hash : AddLayerSource → UInt64

def PoolSpec.queueCapacity (spec : PoolSpec) : Nat := max spec.configuredQueueCapacity spec.blCapacity

/-! ## Picking a worker -/

inductive PickTier where
  | warmComfort
  | fresh
  | warmFull
  | allocSwapIdle
  | warmOverflow
  | warmSaturated
  | shortestQueue
deriving DecidableEq, Repr

/-- The declaration order of the tiers, by which they compare. -/
def PickTier.rank : PickTier → Nat
  | .warmComfort => 0
  | .fresh => 1
  | .warmFull => 2
  | .allocSwapIdle => 3
  | .warmOverflow => 4
  | .warmSaturated => 5
  | .shortestQueue => 6

structure PickScore where
  tier : PickTier
  sourceMiss : Bool
  queueDepth : Nat
  protectedSingleton : Bool
  shapeMismatch : Bool
  /-- Compared in reverse. -/
  profileCount : Nat
  lastSeen : Option Instant

/-- The derived order: field by field, `false` before `true` and `None` before every `Some`. -/
def PickScore.cmp (a b : PickScore) : Ordering :=
  (compare a.tier.rank b.tier.rank).then <| (compare a.sourceMiss.toNat b.sourceMiss.toNat).then <|
    (compare a.queueDepth b.queueDepth).then <| (compare a.protectedSingleton.toNat b.protectedSingleton.toNat).then <|
      (compare a.shapeMismatch.toNat b.shapeMismatch.toNat).then <| (compare b.profileCount a.profileCount).then <|
        compare (a.lastSeen.elim 0 Nat.succ) (b.lastSeen.elim 0 Nat.succ)

/-- `pick_score`. -/
def pickScore (spec : PoolSpec) (state : PoolState spec.workers) (profile : WorkerProfile) (sourceId : Option String)
    (idx : Fin spec.workers) (queueDepth : Nat) : PickScore :=
  let loadedProfile := state.loaded idx
  let warm := loadedProfile = some profile
  let expandThreshold := max (spec.blCapacity * 2 / 3) 1
  let tier : PickTier :=
    if loadedProfile.isSome ∧ warm ∧ queueDepth < expandThreshold then .warmComfort
    else if loadedProfile.isNone then .fresh
    else if warm ∧ queueDepth < spec.blCapacity then .warmFull
    else if ¬warm ∧ queueDepth = 0 then .allocSwapIdle
    else if warm ∧ queueDepth < spec.queueCapacity then .warmOverflow
    else if warm then .warmSaturated
    else .shortestQueue
  let sourceMiss := sourceId.any fun id => decide (id ∉ state.addlayerSourceIds idx)
  match tier, loadedProfile with
  | .allocSwapIdle, some loaded =>
    let count := (state.profileCounts loaded).getD 0
    ⟨.allocSwapIdle, sourceMiss, queueDepth, decide (count ≤ 1),
      decide (loaded.renderMode ≠ profile.renderMode ∨ loaded.scale ≠ profile.scale), count, state.lastUsed idx⟩
  | tier, _ => ⟨tier, sourceMiss, queueDepth, false, false, u64Bound - 1, none⟩

/-- `best_available_worker`, with the queue depths as the scan has read them: the first of the best scored below the hard
limit. -/
def bestAvailableWorker (spec : PoolSpec) (state : PoolState spec.workers) (profile : WorkerProfile) (sourceId : Option String)
    (seen : List Nat) : Option (Fin spec.workers) :=
  let scored := (List.finRange spec.workers).filterMap fun idx =>
    let queueDepth := seen.getD idx.val 0
    if queueDepth < spec.queueCapacity then some (idx, pickScore spec state profile sourceId idx queueDepth) else none
  (scored.foldl (fun best candidate =>
    match best with
    | none => some candidate
    | some kept => if candidate.2.cmp kept.2 = .lt then some candidate else some kept) none).map Prod.fst

/-! ## Calls and commands -/

inductive ProcessError where
  | queueFull (task : InternalTask)
  | queueDisconnected

/-- What a caller of `process` ends with. -/
inductive CallResult where
  | outcome (result : TaskResult)
  | error (err : ProcessError)
  | cancelled

/-- The accounting side effects of an accepted command. `stamp` is the number of the dispatch among all of the pool, which the
source does not keep. -/
structure WorkerCompletion (n : Nat) where
  workerIdx : Fin n
  dispatchGeneration : UInt64
  stamp : Nat

/-- Where a call of `process` and its command are. -/
inductive CallPhase (n : Nat) where
  | called
  /-- The scan for the best worker has read these queue depths. -/
  | scanning (seen : List Nat)
  /-- `try_reserve` is to load the counter. -/
  | picked (idx : Fin n) (hinted : Bool)
  | reserving (idx : Fin n) (hinted : Bool) (current : Nat)
  | reserved (idx : Fin n)
  /-- The command awaits room in the channel. -/
  | sending (completion : WorkerCompletion n)
  /-- It has a place in the channel, and is about to be put there. -/
  | permitted (completion : WorkerCompletion n)
  | queued (completion : WorkerCompletion n)
  | running (completion : WorkerCompletion n)
  /-- The completion has been finished or dropped; the counter is still to go down. -/
  | releasing (completion : WorkerCompletion n)
  | ended (completion : Option (WorkerCompletion n))

/-- The completion of a command that has been made. -/
def CallPhase.completion {n : Nat} : CallPhase n → Option (WorkerCompletion n)
  | .called => none
  | .scanning _ => none
  | .picked .. => none
  | .reserving .. => none
  | .reserved _ => none
  | .sending c => some c
  | .permitted c => some c
  | .queued c => some c
  | .running c => some c
  | .releasing c => some c
  | .ended c => c

/-- The worker a place is reserved at, from the reservation until the counter has gone down. -/
def CallPhase.holds {n : Nat} : CallPhase n → Option (Fin n)
  | .called => none
  | .scanning _ => none
  | .picked .. => none
  | .reserving .. => none
  | .reserved idx => some idx
  | .sending c => some c.workerIdx
  | .permitted c => some c.workerIdx
  | .queued c => some c.workerIdx
  | .running c => some c.workerIdx
  | .releasing c => some c.workerIdx
  | .ended _ => none

/-- A call of `process`. `taken` and `given` count how often it has raised and lowered a counter, `enqueued` says whether its
command has been in a channel. -/
structure ProcessCall (n : Nat) where
  task : InternalTask
  prepared : Option PreparedProfile
  routeTier : RouteTier
  workerHint : Option UInt32
  phase : CallPhase n
  admittedAtOverflow : Bool
  result : Option CallResult
  taken : Nat
  given : Nat
  enqueued : Bool

/-! ## A worker's loop -/

/-- How the stages of a task end. -/
inductive StageEnd where
  /-- Before the profile is set up: a deadline has passed or a permit was closed. -/
  | beforeSetup (failure : StageFailure)
  | setupFailed (err : RendererError)
  | afterSetup (failure : StageFailure)
  | rendered (output : RenderOutput)

/-- The profile or the credential partition is another one. -/
def needsSetup (current : Option (WorkerProfile × Option CredentialCachePartition)) (task : InternalTask) : Bool :=
  match current with
  | none => true
  | some (profile, partition) => profile != task.workerProfile || partition != task.partition

/-- `run_stages`: the worker's profile after the stages, and how they ended. A profile is set up only when it is another one. -/
def runStages (current : Option (WorkerProfile × Option CredentialCachePartition)) (task : InternalTask) (stageEnd : StageEnd) :
    Option (Option (WorkerProfile × Option CredentialCachePartition) × Except StageFailure RenderOutput) :=
  let swap := needsSetup current task
  let setUp := if swap then some (task.workerProfile, task.partition) else current
  match stageEnd with
  | .beforeSetup failure => some (current, .error failure)
  | .setupFailed err => if swap then some (current, .error (.rendererError .styleSwap err)) else none
  | .afterSetup failure => some (setUp, .error failure)
  | .rendered output => some (setUp, .ok output)

/-- What `worker_loop` does about the failure of a task. -/
def keptAfter (current : Option (WorkerProfile × Option CredentialCachePartition)) :
    Except StageFailure RenderOutput → Option (WorkerProfile × Option CredentialCachePartition)
  | .error (.rendererError _ err) => if Worker.rendererErrorInvalidatesWarmState err then none else current
  | .error (.deadlineExceeded _) => current
  | .error (.permitClosed _) => current
  | .ok _ => current

def FailureKind.fromRendererError : RendererError → FailureKind
  | .timeout => .renderTimeout
  | .actorDead => .rendererDead
  | .styleLoadFailed .. => .styleUnavailable
  | .setupFailed .. => .other
  | .styleNotReady .. => .styleNotReady
  | .sourceFetchFailed .. => .sourceUnavailable
  | .renderFailed _ => .other

/-- How an error is displayed. -/
def RendererError.text : RendererError → String
  | .styleLoadFailed styleId source => "style load failed for " ++ styleId.id ++ ": " ++ source
  | .setupFailed styleId source => "renderer setup failed for " ++ styleId.id ++ ": " ++ source
  | .styleNotReady styleId version => "style not ready for " ++ styleId.id ++ "@" ++ toString version.toNat
  | .sourceFetchFailed hash source => "source fetch failed for " ++ toString hash.toNat ++ ": " ++ source
  | .renderFailed source => "render failed: " ++ source
  | .timeout => "render timeout"
  | .actorDead => "renderer actor dead"

/-- The result a caller is answered with. -/
def taskResult (routeTier : RouteTier) : Except StageFailure RenderOutput → TaskResult
  | .ok output => .completed routeTier output
  | .error (.deadlineExceeded _) => .rejected .deadlineExceeded
  | .error (.rendererError _ err) => .failed err.text (.fromRendererError err)
  | .error (.permitClosed _) => .failed RendererError.actorDead.text (.fromRendererError .actorDead)

/-- `WorkerCmd`: the command of a call, or the one that ends the loop. -/
inductive PoolCmd where
  | process (call : Nat)
  | retire
deriving DecidableEq

inductive PoolWorkerPhase where
  | idle
  | running (call : Nat)
  /-- The stages have ended; the completion is still to be finished. -/
  | executed (call : Nat) (result : Except StageFailure RenderOutput)
  /-- The completion is finished; the caller is still to be answered. -/
  | responding (call : Nat) (result : Except StageFailure RenderOutput)
  | stopped

/-- A worker: its channel, the profile its renderer has loaded with the partition, and where it is in its loop. `last` is how the
last command's stages ended, and `taken` its stamp. -/
structure PoolWorker where
  queue : List PoolCmd
  currentProfile : Option (WorkerProfile × Option CredentialCachePartition)
  phase : PoolWorkerPhase
  last : Option (Except StageFailure RenderOutput)
  taken : Nat

def PoolWorker.isStopped (w : PoolWorker) : Bool :=
  match w.phase with
  | .stopped => true
  | .idle => false
  | .running _ => false
  | .executed .. => false
  | .responding .. => false

/-- What a channel of `worker_loop` holds. -/
def channelCapacity : Nat := 1024

/-! ## The pool -/

/-- A pool with its workers and all calls of `process` so far. `marks` is how many dispatches were marked. -/
structure WorkerPool (spec : PoolSpec) where
  queueDepths : Fin spec.workers → Nat
  state : PoolState spec.workers
  workers : Fin spec.workers → PoolWorker
  calls : List (ProcessCall spec.workers)
  marks : Nat

/-- The steps of a pool; `p` is a call and `w` a worker. -/
inductive PoolAction (spec : PoolSpec) where
  | process (task : InternalTask) (prepared : Option PreparedProfile) (routeTier : RouteTier) (workerHint : Option UInt32)
  | look (p : Nat)
  | scan (p : Nat)
  | pick (p : Nat)
  | load (p : Nat)
  | compareExchange (p : Nat) (spurious : Bool)
  | mark (p : Nat) (now : Instant)
  | acquire (p : Nat)
  | push (p : Nat)
  | sendFailed (p : Nat)
  | cancel (p : Nat)
  | release (p : Nat)
  | take (w : Fin spec.workers)
  | execute (w : Fin spec.workers) (stageEnd : StageEnd)
  | finish (w : Fin spec.workers)
  | respond (w : Fin spec.workers)
  | crash (w : Fin spec.workers)
  | drain (w : Fin spec.workers)
  | retire (w : Fin spec.workers)

namespace WorkerPool

variable {spec : PoolSpec}

def new : WorkerPool spec where
  queueDepths := fun _ => 0
  state := .new
  workers := fun _ => ⟨[], none, .idle, none, 0⟩
  calls := []
  marks := 0

def setCall (s : WorkerPool spec) (p : Nat) (c : ProcessCall spec.workers) : WorkerPool spec :=
    { s with calls := s.calls.set p c }

def setWorker (s : WorkerPool spec) (w : Fin spec.workers) (worker : PoolWorker) : WorkerPool spec :=
  { s with workers := Function.update s.workers w worker }

/-- `prepared_profile.addlayer_source.stable_source_id()`. -/
def addlayerSourceId (spec : PoolSpec) (c : ProcessCall spec.workers) : Option String :=
  (c.prepared.bind PreparedProfile.addlayerSource).map (AddLayerSourceCache.stableSourceId spec.hash)

/-- The places of a channel that are taken: by what is in it, and by those about to be put there. -/
def channelLen (s : WorkerPool spec) (w : Fin spec.workers) : Nat :=
  (s.workers w).queue.length + s.calls.countP fun c =>
    match c.phase with
    | .permitted completion => decide (completion.workerIdx = w)
    | _ => false

def hasRoom (s : WorkerPool spec) (w : Fin spec.workers) : Bool :=
  !(s.workers w).isStopped && decide (s.channelLen w < channelCapacity)

/-- The result a caller gets, unless it has one already. -/
def answered (c : ProcessCall spec.workers) (result : CallResult) : ProcessCall spec.workers :=
  { c with result := c.result.or (some result) }

/-- The call fails without a reservation. -/
def reject (s : WorkerPool spec) (p : Nat) (c : ProcessCall spec.workers) : WorkerPool spec :=
  s.setCall p { answered c (.error (.queueFull c.task)) with phase := .ended none }

/-- The first half of dropping a completion that was not finished: the prediction is taken back. -/
def dropCompletion (s : WorkerPool spec) (p : Nat) (c : ProcessCall spec.workers) (completion : WorkerCompletion spec.workers) :
    WorkerPool spec :=
  { s.setCall p { c with phase := .releasing completion } with
    state := s.state.clearLoadedIfLatest completion.workerIdx completion.dispatchGeneration }

/-- The command the worker's loop has in hand, with its call. -/
def inHand (s : WorkerPool spec) (w : Fin spec.workers) :
    Option (Nat × ProcessCall spec.workers × WorkerCompletion spec.workers) :=
  let found (p : Nat) := s.calls[p]?.bind fun c =>
    match c.phase with
    | .running completion => some (p, c, completion)
    | _ => none
  match (s.workers w).phase with
  | .running p => found p
  | .executed p _ => found p
  | .idle => none
  | .responding .. => none
  | .stopped => none

/-- The steps of a call of `process`. -/
def callStep (s : WorkerPool spec) (p : Nat) (c : ProcessCall spec.workers) : PoolAction spec → Option (WorkerPool spec)
  | .look _ =>
    match c.phase with
    | .called =>
      match c.workerHint with
      | some wid =>
        if h : wid.toNat < spec.workers then some (s.setCall p { c with phase := .picked ⟨wid.toNat, h⟩ true })
        else some (s.setCall p { c with phase := .scanning [] })
      | none => some (s.setCall p { c with phase := .scanning [] })
    | _ => none
  | .scan _ =>
    match c.phase with
    | .scanning seen =>
      if h : seen.length < spec.workers then
        some (s.setCall p { c with phase := .scanning (seen ++ [s.queueDepths ⟨seen.length, h⟩]) })
      else none
    | _ => none
  | .pick _ =>
    match c.phase with
    | .scanning seen =>
      if seen.length < spec.workers then none
      else
        match bestAvailableWorker spec s.state c.task.workerProfile (addlayerSourceId spec c) seen with
        | some idx => some (s.setCall p { c with phase := .picked idx false })
        | none => some (s.reject p c)
    | _ => none
  | .load _ =>
    match c.phase with
    | .picked idx hinted => some (s.setCall p { c with phase := .reserving idx hinted (s.queueDepths idx) })
    | _ => none
  | .compareExchange _ spurious =>
    match c.phase with
    | .reserving idx hinted current =>
      if spec.queueCapacity ≤ current then
        if hinted then some (s.reject p c) else some (s.setCall p { c with phase := .scanning [] })
      else if s.queueDepths idx = current ∧ spurious = false then
        some { s.setCall p { c with
            phase := .reserved idx, admittedAtOverflow := decide (spec.blCapacity ≤ current), taken := c.taken + 1 } with
          queueDepths := Function.update s.queueDepths idx (current + 1) }
      else some (s.setCall p { c with phase := .reserving idx hinted (s.queueDepths idx) })
    | _ => none
  | .mark _ now =>
    match c.phase with
    | .reserved idx =>
      let (state, generation) := s.state.markLoaded now idx c.task.workerProfile
      some { s.setCall p { c with phase := .sending ⟨idx, generation, s.marks + 1⟩ } with
        state := (addlayerSourceId spec c).elim state (state.markAddlayerSource idx)
        marks := s.marks + 1 }
    | _ => none
  | .acquire _ =>
    match c.phase with
    | .sending completion =>
      if s.hasRoom completion.workerIdx then some (s.setCall p { c with phase := .permitted completion }) else none
    | _ => none
  | .push _ =>
    match c.phase with
    | .permitted completion =>
      let w := completion.workerIdx
      some ((s.setCall p { c with phase := .queued completion, enqueued := true }).setWorker w
        { s.workers w with queue := (s.workers w).queue ++ [.process p] })
    | _ => none
  -- the receiver is gone: the command comes back and is dropped
  | .sendFailed _ =>
    match c.phase with
    | .sending completion =>
      if (s.workers completion.workerIdx).isStopped then
        some (s.dropCompletion p (answered c (.error (.queueFull c.task))) completion)
      else none
    | _ => none
  -- a caller can be cancelled where it awaits: its place in the channel, or the answer
  | .cancel _ =>
    match c.phase with
    | .sending completion => some (s.dropCompletion p (answered c .cancelled) completion)
    | .queued _ => some (s.setCall p (answered c .cancelled))
    | .running _ => some (s.setCall p (answered c .cancelled))
    | .releasing _ => some (s.setCall p (answered c .cancelled))
    | .ended (some _) => some (s.setCall p (answered c .cancelled))
    | _ => none
  -- the second half of dropping a completion
  | .release _ =>
    match c.phase with
    | .releasing completion =>
      let w := completion.workerIdx
      some { s.setCall p { c with phase := .ended (some completion), given := c.given + 1 } with
        queueDepths := Function.update s.queueDepths w (wrappingPred (s.queueDepths w)) }
    | _ => none
  | _ => none

/-- The steps of a worker's loop, and the end of it. -/
def workerStep (s : WorkerPool spec) (w : Fin spec.workers) : PoolAction spec → Option (WorkerPool spec)
  | .take _ =>
    match (s.workers w).phase, (s.workers w).queue with
    | .idle, .process p :: rest =>
      s.calls[p]?.bind fun c =>
        match c.phase with
        | .queued completion =>
          some ((s.setCall p { c with phase := .running completion }).setWorker w
            { s.workers w with queue := rest, phase := .running p, taken := completion.stamp })
        | _ => none
    | .idle, .retire :: rest => some (s.setWorker w { s.workers w with queue := rest, phase := .stopped })
    | _, _ => none
  | .execute _ stageEnd =>
    match (s.workers w).phase with
    | .running p =>
      s.calls[p]?.bind fun c => (runStages (s.workers w).currentProfile c.task stageEnd).map fun (current, result) =>
        s.setWorker w { s.workers w with
          currentProfile := keptAfter current result, phase := .executed p result, last := some result }
    | _ => none
  | .finish _ =>
    match (s.workers w).phase, s.inHand w with
    | .executed p result, some (_, c, completion) =>
      let state :=
        match result with
        | .ok _ => s.state
        | .error _ => s.state.clearLoadedIfLatest completion.workerIdx completion.dispatchGeneration
      some { (s.setCall p { c with phase := .releasing completion }).setWorker w
          { s.workers w with phase := .responding p result } with
        state := state }
    | _, _ => none
  -- the answer is sent once the counter has gone down
  | .respond _ =>
    match (s.workers w).phase with
    | .responding p result =>
      s.calls[p]?.bind fun c =>
        match c.phase with
        | .ended _ =>
          some ((s.setCall p (answered c (.outcome (taskResult c.routeTier result)))).setWorker w
            { s.workers w with phase := .idle })
        | _ => none
    | _ => none
  -- the worker's task ends by a panic or an abort, and drops what it has in hand
  | .crash _ =>
    if (s.workers w).isStopped then none
    else
      let stopped := s.setWorker w { s.workers w with phase := .stopped }
      match s.inHand w with
      | some (p, c, completion) => some (stopped.dropCompletion p (answered c (.error .queueDisconnected)) completion)
      | none => some stopped
  -- what is left in the channel of a worker that has ended is dropped
  | .drain _ =>
    if (s.workers w).isStopped then
      match (s.workers w).queue with
      | .process p :: rest =>
        s.calls[p]?.bind fun c =>
          match c.phase with
          | .queued completion =>
            some ((s.setWorker w { s.workers w with queue := rest }).dropCompletion p
              (answered c (.error .queueDisconnected)) completion)
          | _ => none
      | .retire :: rest => some (s.setWorker w { s.workers w with queue := rest })
      | [] => none
    else none
  | .retire _ =>
    if s.hasRoom w then some (s.setWorker w { s.workers w with queue := (s.workers w).queue ++ [.retire] }) else none
  | _ => none

def step (s : WorkerPool spec) (a : PoolAction spec) : Option (WorkerPool spec) :=
  match a with
  | .process task prepared routeTier workerHint =>
    some { s with calls := s.calls ++ [⟨task, prepared, routeTier, workerHint, .called, false, none, 0, 0, false⟩] }
  | .look p => s.calls[p]?.bind fun c => s.callStep p c a
  | .scan p => s.calls[p]?.bind fun c => s.callStep p c a
  | .pick p => s.calls[p]?.bind fun c => s.callStep p c a
  | .load p => s.calls[p]?.bind fun c => s.callStep p c a
  | .compareExchange p _ => s.calls[p]?.bind fun c => s.callStep p c a
  | .mark p _ => s.calls[p]?.bind fun c => s.callStep p c a
  | .acquire p => s.calls[p]?.bind fun c => s.callStep p c a
  | .push p => s.calls[p]?.bind fun c => s.callStep p c a
  | .sendFailed p => s.calls[p]?.bind fun c => s.callStep p c a
  | .cancel p => s.calls[p]?.bind fun c => s.callStep p c a
  | .release p => s.calls[p]?.bind fun c => s.callStep p c a
  | .take w => s.workerStep w a
  | .execute w _ => s.workerStep w a
  | .finish w => s.workerStep w a
  | .respond w => s.workerStep w a
  | .crash w => s.workerStep w a
  | .drain w => s.workerStep w a
  | .retire w => s.workerStep w a

def machine (spec : PoolSpec) : Machine (WorkerPool spec) (PoolAction spec) where
  init := new
  step := step

end WorkerPool

end Biei
