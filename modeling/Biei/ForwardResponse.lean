import Biei.Lib.Slice
import Biei.Pool.WorkerPool
import Biei.RenderKey
import Biei.Text

/-!
# Outcomes on the wire

`TaskOutcome` of `types.rs`, how a node comes to one, and `wire.rs`: the header of a forward response, which travels as
length-prefixed JSON in front of the image. A timeline travels as milliseconds from the arrival of the task; the receiver puts it
back onto its own clock.
-/

namespace Biei

/-! ## Outcomes -/

structure RenderObservation where
  renderMode : RenderMode
  scale : Scale
  outputFormat : ImageFormat
  width : UInt16
  height : UInt16
  styleSetupDuration : Option Duration
  sourceSetupDuration : Option Duration
deriving DecidableEq

def RenderObservation.fromTask (task : InternalTask) (styleSetupDuration sourceSetupDuration : Option Duration) :
    RenderObservation :=
  let (width, height) :=
    match task.request with
    | .tile _ _ _ tileSize => (tileSize, tileSize)
    | .staticImage _ width height _ _ _ _ => (width, height)
  ⟨task.request.renderMode, task.pixelRatio.toScale, task.outputFormat, width, height, styleSetupDuration, sourceSetupDuration⟩

structure CompletedInfo where
  nodeId : NodeId
  /-- Cache hits bypass the workers. -/
  workerId : Option UInt32
  routeTier : RouteTier
  startedAt : Instant
  nativeRenderStartedAt : Instant
  nativeRenderCompletedAt : Instant
  completedAt : Instant
  styleSwap : Bool
  coldStart : Bool
  sourceLoaded : Bool
  admittedAtOverflow : Bool
  renderObservation : Option RenderObservation
deriving DecidableEq

/-- `TaskResult` with everything a caller is told about a completed task. -/
inductive TaskOutcome.Result where
  | completed (info : CompletedInfo) (output : RenderOutput)
  | rejected (reason : RejectionReason)
  | failed (error : String) (kind : FailureKind)
deriving DecidableEq

/-- What of a result the routing, the cache and the pool go by. -/
def TaskOutcome.Result.toTaskResult : TaskOutcome.Result → TaskResult
  | .completed info output => .completed info.routeTier output
  | .rejected reason => .rejected reason
  | .failed error kind => .failed error kind

/-- Final result of handling a task. -/
structure TaskOutcome where
  taskId : UInt64
  requestId : RequestId
  arrivedAt : Instant
  hadSource : Bool
  deadlineStage : Option DeadlineStage
  result : TaskOutcome.Result
deriving DecidableEq

def RenderRequest.hasAddlayerSource : RenderRequest → Bool
  | .tile .. => false
  | .staticImage _ _ _ _ _ _ addlayer => addlayer.any fun a => a.source.isSome

def InternalTask.hasSource (task : InternalTask) : Bool := task.source.isSome || task.request.hasAddlayerSource

/-- The envelope of an outcome: `outcome_for` of a worker, and `TaskMeta::outcome` of a node. -/
def outcomeFor (task : InternalTask) (hadSource : Bool) (result : TaskOutcome.Result) : TaskOutcome :=
  ⟨task.id, task.requestId, task.arrivedAt, hadSource, none, result⟩

/-- What `run_stages` returns. It reads the clock when it has its permit, before the native render and after it. -/
structure StageSuccess where
  output : RenderOutput
  startedAt : Instant
  nativeRenderStartedAt : Instant
  nativeRenderCompletedAt : Instant
  styleSwap : Bool
  coldStart : Bool
  sourceLoaded : Bool
  styleSetupDuration : Option Duration
  sourceSetupDuration : Option Duration
  clock : startedAt ≤ nativeRenderStartedAt ∧ nativeRenderStartedAt ≤ nativeRenderCompletedAt

def completedOutcome (task : InternalTask) (hadSource : Bool) (nodeId : NodeId) (workerId : UInt32) (routeTier : RouteTier)
    (admittedAtOverflow : Bool) (success : StageSuccess) (now : Instant) : TaskOutcome :=
  outcomeFor task hadSource <| .completed
    { nodeId, workerId := some workerId, routeTier
      startedAt := success.startedAt
      nativeRenderStartedAt := success.nativeRenderStartedAt
      nativeRenderCompletedAt := success.nativeRenderCompletedAt
      completedAt := now
      styleSwap := success.styleSwap
      coldStart := success.coldStart
      sourceLoaded := success.sourceLoaded
      admittedAtOverflow
      renderObservation := some (.fromTask task success.styleSetupDuration success.sourceSetupDuration) }
    success.output

def rejectedOutcome (task : InternalTask) (hadSource : Bool) (reason : RejectionReason) : TaskOutcome :=
  outcomeFor task hadSource (.rejected reason)

def deadlineRejectedOutcome (task : InternalTask) (hadSource : Bool) (stage : DeadlineStage) : TaskOutcome :=
  { rejectedOutcome task hadSource .deadlineExceeded with deadlineStage := some stage }

def failedOutcome (task : InternalTask) (hadSource : Bool) (err : RendererError) : TaskOutcome :=
  outcomeFor task hadSource (.failed err.text (.fromRendererError err))

/-- The outcome a worker's loop comes to, with the time it is done. -/
def workerOutcome (task : InternalTask) (hadSource : Bool) (nodeId : NodeId) (workerId : UInt32) (routeTier : RouteTier)
    (admittedAtOverflow : Bool) (now : Instant) : Except StageFailure StageSuccess → TaskOutcome
  | .ok success => completedOutcome task hadSource nodeId workerId routeTier admittedAtOverflow success now
  | .error (.deadlineExceeded stage) => deadlineRejectedOutcome task hadSource stage
  | .error (.rendererError _ err) => failedOutcome task hadSource err
  | .error (.permitClosed _) => failedOutcome task hadSource .actorDead

/-- A worker answers its caller with the result the pool's model has for the same stages. -/
theorem toTaskResult_workerOutcome (task : InternalTask) (hadSource : Bool) (nodeId : NodeId) (workerId : UInt32)
    (routeTier : RouteTier)
    (admittedAtOverflow : Bool) (now : Instant) (stages : Except StageFailure StageSuccess) :
    (workerOutcome task hadSource nodeId workerId routeTier admittedAtOverflow now stages).result.toTaskResult =
      taskResult routeTier (stages.map StageSuccess.output) := by
  match stages with
  | .ok success => rfl
  | .error (.deadlineExceeded stage) => rfl
  | .error (.rendererError stage err) => rfl
  | .error (.permitClosed stage) => rfl

def cacheHitOutcome (nodeId : NodeId) (task : InternalTask) (output : RenderOutput) (now : Instant) : TaskOutcome :=
  outcomeFor task task.hasSource <| .completed
    { nodeId, workerId := none, routeTier := .renderCacheHit
      startedAt := task.arrivedAt
      nativeRenderStartedAt := now
      nativeRenderCompletedAt := now
      completedAt := now
      styleSwap := false
      coldStart := false
      sourceLoaded := false
      admittedAtOverflow := false
      renderObservation := none }
    output

/-! ## Headers -/

/-- `duration_millis`. -/
def durationMillis (d : Duration) : UInt64 := UInt64.ofNat (min (d / 1000000) (u64Bound - 1))

/-- `millis_since`. -/
def millisSince (instant base : Instant) : UInt64 := durationMillis (instant - base)

/-- `Duration::from_millis`. -/
def fromMillis (ms : UInt64) : Duration := ms.toNat * 1000000

structure WireRenderObservation where
  renderMode : RenderMode
  scale : Scale
  outputFormat : ImageFormat
  width : UInt16
  height : UInt16
  styleSetupMs : Option UInt64
  sourceSetupMs : Option UInt64
deriving DecidableEq

def WireRenderObservation.ofObservation (o : RenderObservation) : WireRenderObservation :=
  ⟨o.renderMode, o.scale, o.outputFormat, o.width, o.height, o.styleSetupDuration.map durationMillis,
    o.sourceSetupDuration.map durationMillis⟩

def RenderObservation.ofWire (o : WireRenderObservation) : RenderObservation :=
  ⟨o.renderMode, o.scale, o.outputFormat, o.width, o.height, o.styleSetupMs.map fromMillis, o.sourceSetupMs.map fromMillis⟩

inductive OutcomeResult where
  | completed (nodeId : NodeId) (workerId : Option UInt32) (routeTier : RouteTier)
      (renderStartedMs nativeRenderStartedMs nativeRenderCompletedMs completedMs : UInt64)
      (styleSwap coldStart sourceLoaded admittedAtOverflow : Bool) (renderObservation : Option WireRenderObservation)
  | rejected (reason : RejectionReason) (deadlineStage : Option DeadlineStage)
  | failed (error : String) (kind : FailureKind)
deriving DecidableEq

structure OutcomeHeader where
  taskId : UInt64
  requestId : RequestId
  styleId : StyleId
  hadSource : Bool
  imageFormat : Option ImageFormat
  result : OutcomeResult
deriving DecidableEq

/-- `OutcomeHeader::from_task_outcome`. -/
def OutcomeHeader.fromTaskOutcome (outcome : TaskOutcome) (styleId : StyleId) : OutcomeHeader × Option RenderOutput :=
  match outcome.result with
  | .completed info output =>
    (⟨outcome.taskId, outcome.requestId, styleId, outcome.hadSource, some output.format,
      .completed info.nodeId info.workerId info.routeTier (millisSince info.startedAt outcome.arrivedAt)
        (millisSince info.nativeRenderStartedAt outcome.arrivedAt) (millisSince info.nativeRenderCompletedAt outcome.arrivedAt)
        (millisSince info.completedAt outcome.arrivedAt) info.styleSwap info.coldStart info.sourceLoaded info.admittedAtOverflow
        (info.renderObservation.map .ofObservation)⟩, some output)
  | .rejected reason =>
    (⟨outcome.taskId, outcome.requestId, styleId, outcome.hadSource, none, .rejected reason outcome.deadlineStage⟩, none)
  | .failed error kind => (⟨outcome.taskId, outcome.requestId, styleId, outcome.hadSource, none, .failed error kind⟩, none)

/-- `OutcomeHeader::into_task_outcome`: the peer's offsets, put so that the peer's timeline ends when its response was
received. -/
def OutcomeHeader.intoTaskOutcome (header : OutcomeHeader) (arrivedAt receivedAt : Instant) (output : Option RenderOutput) :
    TaskOutcome :=
  let outcome (deadlineStage : Option DeadlineStage) (result : TaskOutcome.Result) : TaskOutcome :=
    ⟨header.taskId, header.requestId, arrivedAt, header.hadSource, deadlineStage, result⟩
  match header.result with
  | .completed nodeId workerId routeTier renderStartedMs nativeRenderStartedMs nativeRenderCompletedMs completedMs styleSwap
      coldStart
      sourceLoaded admittedAtOverflow renderObservation =>
    let completedAt := max receivedAt arrivedAt
    let peerDuration := fromMillis completedMs
    let peerArrivedAt := max (if peerDuration ≤ completedAt then completedAt - peerDuration else arrivedAt) arrivedAt
    let peerDuration := completedAt - peerArrivedAt
    let peerOffset (offsetMs : UInt64) := peerArrivedAt + min (fromMillis offsetMs) peerDuration
    match output with
    | some output =>
      outcome none (.completed
        { nodeId, workerId, routeTier
          startedAt := peerOffset renderStartedMs
          nativeRenderStartedAt := peerOffset nativeRenderStartedMs
          nativeRenderCompletedAt := peerOffset nativeRenderCompletedMs
          completedAt, styleSwap, coldStart, sourceLoaded, admittedAtOverflow
          renderObservation := renderObservation.map .ofWire }
        output)
    | none => outcome none (.failed "completed response missing render output" .other)
  | .rejected reason deadlineStage => outcome deadlineStage (.rejected reason)
  | .failed error kind => outcome none (.failed error kind)

/-- The times of a completed task are in order. -/
def OutcomeResult.timelineOk : OutcomeResult → Bool
  | .completed _ _ _ renderStartedMs nativeRenderStartedMs nativeRenderCompletedMs completedMs _ _ _ _ _ =>
    decide (renderStartedMs ≤ nativeRenderStartedMs ∧ nativeRenderStartedMs ≤ nativeRenderCompletedMs ∧
      nativeRenderCompletedMs ≤ completedMs)
  | .rejected .. => true
  | .failed .. => true

/-! ## JSON -/

/-- A number written out reads as a number. -/
theorem isNumberText_repr (n : Nat) : isNumberText n.repr = true := by
  have hdigit : ∀ c ∈ Nat.toDigits 10 n, c.isDigit = true := fun c hc => Nat.isDigit_of_mem_toDigits (by decide) (by decide) hc
  unfold isNumberText
  rw [Nat.toList_repr, Bool.and_eq_true, List.all_eq_true]
  refine ⟨fun c hc => by simp [isNumberChar, hdigit c hc], ?_⟩
  cases hdigits : Nat.toDigits 10 n with
  | nil => exact absurd hdigits Nat.toDigits_ne_nil
  | cons c cs => simp [hdigit c (hdigits ▸ List.mem_cons_self)]

namespace Json

def ofNat (n : Nat) : Json := .number ⟨n.repr, isNumberText_repr n⟩

def ofOption {α : Type} (f : α → Json) : Option α → Json
  | none => .null
  | some a => f a

end Json

def RenderMode.name : RenderMode → String
  | .static => "Static"
  | .tile => "Tile"

def Scale.name : Scale → String
  | .x1 => "X1"
  | .x2 => "X2"

def ImageFormat.name : ImageFormat → String
  | .png => "Png"
  | .webp => "Webp"
  | .jpeg => "Jpeg"

def RouteTier.name : RouteTier → String
  | .renderCacheHit => "RenderCacheHit"
  | .tier1WarmTracking => "Tier1WarmTracking"
  | .tier2HrwBl => "Tier2HrwBl"
  | .tier3DrainSwap => "Tier3DrainSwap"
  | .tier4Overflow => "Tier4Overflow"

def RejectionReason.name : RejectionReason → String
  | .queueFull => "QueueFull"
  | .noCapacity => "NoCapacity"
  | .rendererDegraded => "RendererDegraded"
  | .drainTooSlow => "DrainTooSlow"
  | .unknownStyle => "UnknownStyle"
  | .hopLimitExceeded => "HopLimitExceeded"
  | .forwardFailed => "ForwardFailed"
  | .deadlineTooClose => "DeadlineTooClose"
  | .deadlineExceeded => "DeadlineExceeded"

def FailureKind.name : FailureKind → String
  | .renderTimeout => "RenderTimeout"
  | .rendererDead => "RendererDead"
  | .styleUnavailable => "StyleUnavailable"
  | .styleNotReady => "StyleNotReady"
  | .sourceUnavailable => "SourceUnavailable"
  | .preparationTimeout => "PreparationTimeout"
  | .other => "Other"

def DeadlineStage.name : DeadlineStage → String
  | .acquireRenderPermit => "AcquireRenderPermit"
  | .styleSwap => "StyleSwap"
  | .ensureSource => "EnsureSource"
  | .acquireNativeRenderPermit => "AcquireNativeRenderPermit"
  | .render => "Render"

def WireRenderObservation.toJson (o : WireRenderObservation) : Json :=
  .object [("render_mode", .string o.renderMode.name), ("scale", .string o.scale.name),
    ("output_format", .string o.outputFormat.name), ("width", .ofNat o.width.toNat), ("height", .ofNat o.height.toNat),
    ("style_setup_ms", .ofOption (fun ms => .ofNat ms.toNat) o.styleSetupMs),
    ("source_setup_ms", .ofOption (fun ms => .ofNat ms.toNat) o.sourceSetupMs)]

/-- The field a result is flattened into. -/
def OutcomeResult.toField : OutcomeResult → String × Json
  | .completed nodeId workerId routeTier renderStartedMs nativeRenderStartedMs nativeRenderCompletedMs completedMs styleSwap
      coldStart
      sourceLoaded admittedAtOverflow renderObservation =>
    ("completed", .object [("node_id", .string nodeId.id), ("worker_id", .ofOption (fun id => .ofNat id.toNat) workerId),
      ("route_tier", .string routeTier.name), ("render_started_ms", .ofNat renderStartedMs.toNat),
      ("native_render_started_ms", .ofNat nativeRenderStartedMs.toNat),
      ("native_render_completed_ms", .ofNat nativeRenderCompletedMs.toNat), ("completed_ms", .ofNat completedMs.toNat),
      ("style_swap", .bool styleSwap), ("cold_start", .bool coldStart), ("source_loaded", .bool sourceLoaded),
      ("admitted_at_overflow", .bool admittedAtOverflow),
      ("render_observation", .ofOption WireRenderObservation.toJson renderObservation)])
  | .rejected reason deadlineStage =>
    ("rejected", .object [("reason", .string reason.name),
      ("deadline_stage", .ofOption (fun stage => .string stage.name) deadlineStage)])
  | .failed error kind => ("failed", .object [("error", .string error), ("kind", .string kind.name)])

def OutcomeHeader.toJson (header : OutcomeHeader) : Json :=
  .object [("task_id", .ofNat header.taskId.toNat), ("request_id", .string header.requestId.value),
    ("style_id", .string header.styleId.id), ("had_source", .bool header.hadSource),
    ("image_format", .ofOption (fun format => .string format.name) header.imageFormat), header.result.toField]

/-- `serde_json::to_vec` of a header. -/
@[irreducible]
def OutcomeHeader.toVec (header : OutcomeHeader) : Bytes := utf8 header.toJson.print

/-! ## Frames -/

inductive WireError where
  | decode (err : String)
  | invalidCompletedTimeline
  | truncated
  | tooLarge
deriving DecidableEq

/-- The bytes of the length in front of a header. -/
def headerPrefixBytes : Nat := 4

/-- `encode_response_header`. -/
def encodeResponseHeader (header : OutcomeHeader) : Except WireError Bytes :=
  let json := header.toVec
  if json.length < 2 ^ 32 then .ok (beBytes headerPrefixBytes json.length ++ json) else .error .tooLarge

section

-- `serde_json::from_slice`
variable (fromSlice : Bytes → Except String OutcomeHeader)

/-- `decode_response_prefix`; `none` stands for a panic. -/
def decodeResponsePrefix (body : Bytes) : Option (Except WireError (OutcomeHeader × Nat)) :=
  if body.length < headerPrefixBytes then some (.error .truncated)
  else do
    let b0 ← body[0]?
    let b1 ← body[1]?
    let b2 ← body[2]?
    let b3 ← body[3]?
    match checkedAdd headerPrefixBytes (ofBeBytes [b0, b1, b2, b3]) with
    | none => some (.error .truncated)
    | some payloadEnd =>
      if body.length < payloadEnd then some (.error .truncated)
      else do
        let payload ← slice? body headerPrefixBytes payloadEnd
        match fromSlice payload with
        | .error err => some (.error (.decode err))
        | .ok header =>
          if header.result.timelineOk then some (.ok (header, payloadEnd)) else some (.error .invalidCompletedTimeline)

/-- `decode_response_bytes`. -/
def decodeResponseBytes (body : Bytes) : Option (Except WireError (OutcomeHeader × Bytes)) := do
  match ← decodeResponsePrefix fromSlice body with
  | .error err => some (.error err)
  | .ok (header, payloadEnd) =>
    let image ← slice? body payloadEnd body.length
    some (.ok (header, image))

/-- The outcomes a node comes to: of its workers, of its cache, of its own decisions, and of a response it has received from a
peer. The clock is read once more when a worker is done. -/
inductive Produced : TaskOutcome → Prop where
  | worker (task : InternalTask) (hadSource : Bool) (nodeId : NodeId) (workerId : UInt32) (routeTier : RouteTier)
      (admittedAtOverflow : Bool) (now : Instant) (stages : Except StageFailure StageSuccess)
      (clock : ∀ success, stages = .ok success → success.nativeRenderCompletedAt ≤ now) :
      Produced (workerOutcome task hadSource nodeId workerId routeTier admittedAtOverflow now stages)
  | cacheHit (nodeId : NodeId) (task : InternalTask) (output : RenderOutput) (now : Instant) :
      Produced (cacheHitOutcome nodeId task output now)
  | reject (task : InternalTask) (reason : RejectionReason) : Produced (rejectedOutcome task task.hasSource reason)
  | fail (task : InternalTask) (error : String) (kind : FailureKind) :
      Produced (outcomeFor task task.hasSource (.failed error kind))
  | forwarded (body : Bytes) (header : OutcomeHeader) (image : Bytes) (arrivedAt receivedAt : Instant)
      (output : Option RenderOutput)
      (received : decodeResponseBytes fromSlice body = some (.ok (header, image))) :
      Produced (header.intoTaskOutcome arrivedAt receivedAt output)

end

end Biei
