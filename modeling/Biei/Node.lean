import Biei.RenderCache
import Biei.Routing.Dispatcher
import Biei.Wire

/-!
# Nodes that render for each other

`node.rs`: the handling of a task on the node it arrives at and on the node it is forwarded to. The model runs a whole cluster:
every node with its render output cache, every task being handled, and the messages between the nodes. A step is what one task
does between two awaits, or a step of one node's cache. What a task meets from outside (the clock, the gossip view, the queues of
the workers, the health of the renderer, how a render and a send end) comes with the action, and any of it may come.
-/

namespace Biei

/-- `MIN_FORWARD_BUDGET_MS`. -/
def minForwardBudgetMs : Nat := 200

/-- `MAX_FORWARDING_HOPS`. -/
def maxForwardingHops : UInt8 := 1

/-- How a send of the transport ended for its caller. -/
inductive SendResult where
  | timeout
  | response (result : TaskResult)
  | retryable
  | fatal
deriving DecidableEq

/-- An answer after which the failover loop goes on to the next candidate. -/
def SendResult.isRetryable : SendResult → Bool
  | .timeout => false
  | .response (.rejected reason) => reason.isRetryableAtForward
  | .response _ => false
  | .retryable => true
  | .fatal => true

/-- One send: to whom, what, and its end once there is one. -/
structure Attempt where
  candidate : ForwardCandidate
  request : ForwardRequest
  sentAt : Instant
  ended : Option SendResult

/-- A call of `forward_with_failover`. -/
structure ForwardCall where
  routeTier : RouteTier
  candidates : List ForwardCandidate
  attempts : List Attempt

/-- How a task came to the node: over the public ingress, or by a message of a peer. -/
inductive Entry where
  | incoming
  | forwarded (message : Nat) (routeTier : RouteTier)
deriving DecidableEq

/-- Where the handling of a task stands. -/
inductive HandlerPhase where
  /-- In `acquire_render_output_cache`; the caller of the cache tells more. -/
  | acquiring
  /-- Waits for the cluster view. -/
  | routing
  /-- Prepared, queued or rendered here. The candidates are left when the worker does not take it; after a failed failover, the
  reason the task is rejected for is kept instead. -/
  | working (routeTier : RouteTier) (fallback : List ForwardCandidate) (exhausted : Option RejectionReason)
  /-- At the head of the failover loop. -/
  | forwarding (rest : List ForwardCandidate)
  /-- Waits for the end of the send of a message. -/
  | sent (message : Nat) (rest : List ForwardCandidate)
  | finished (result : TaskResult)
  /-- Has offered its outcome to the cache, and is about to drop its guard. -/
  | leaving (result : TaskResult)
  | done (result : TaskResult)
  | aborted
deriving DecidableEq

/-- A task being handled by a node. -/
structure Handler where
  node : NodeId
  task : InternalTask
  entry : Entry
  /-- Its number among the callers of the node's cache; none when the task is not cached. -/
  caller : Option Nat
  phase : HandlerPhase
  call : Option ForwardCall

structure Message where
  origin : Nat
  target : NodeId
  request : ForwardRequest
  /-- The handler of it, once it is delivered. -/
  delivered : Option Nat

structure Cluster where
  caches : NodeId → RenderOutputCache RenderCacheKey
  handlers : List Handler
  messages : List Message

/-- What is fixed of a cluster: how each node decides, and which nodes have a cache. -/
structure ClusterSpec where
  dispatcher : NodeId → Dispatcher
  rng : RoutingRng
  cacheEnabled : NodeId → Bool
  self : ∀ n, (dispatcher n).nodeId = n

/-- How the preparation and the local processing of a task ended. -/
inductive LocalResult where
  | outcome (result : TaskResult)
  | preparationError (error : String) (kind : FailureKind)
  | renderAdmissionClosed
  | queueFull
  | queueDisconnected

/-- How a send ends, seen from the transport. -/
inductive SendEnd where
  | timeout
  | responded
  | retryable
  | fatal

inductive ClusterAction where
  | handleIncoming (node : NodeId) (task : InternalTask) (now : Instant)
  | cache (node : NodeId) (action : RenderCacheAction RenderCacheKey)
  | acquired (i : Nat) (canStartRender : Bool)
  | giveUp (i : Nat) (now : Instant)
  | route (i : Nat) (now : Instant) (view : Option ClusterView) (accepts : Bool) (workers : List WorkerView)
      (canStartRender : Bool)
  | localEnd (i : Nat) (now : Instant) (result : LocalResult)
  | send (i : Nat) (now : Instant)
  | exhaust (i : Nat) (now : Instant) (canStartRender : Bool)
  | deliver (m : Nat) (now : Instant) (delayMs : Nat) (acceptsRevision canStartRender : Bool)
  | sendEnd (i : Nat) (ended : SendEnd)
  | insert (i : Nat)
  | leave (i : Nat)
  | abort (i : Nat)

/-- `forward_budget_too_small`. -/
def forwardBudgetTooSmall (task : InternalTask) (now : Instant) : Bool :=
  decide (task.deadline - now < minForwardBudgetMs * 1000000)

/-- The reason of a failover without success: the last retryable rejection, else a failed transport. -/
def exhaustionReason (attempts : List Attempt) : RejectionReason :=
  let rejections := attempts.filterMap fun a =>
    match a.ended with
    | some (.response (.rejected reason)) => some reason
    | _ => none
  rejections.getLast?.getD (if attempts.any fun a => decide (a.ended = some .retryable ∨ a.ended = some .fatal) then
    .forwardFailed
    else .noCapacity)

/-- The calls of the cache that a handler does not make at a point of its own choice. -/
def RenderCacheAction.isInner : RenderCacheAction RenderCacheKey → Bool
  | .cacheGet _ => true
  | .lockFlights _ => true
  | .cacheInsert _ => true
  | .sendModify _ => true
  | .wake _ => true
  | .evict _ => true
  | .lookupOrJoin _ _ => false
  | .insertFromOutcome _ _ => false
  | .dropLeader _ => false
  | .giveUp _ => false

/-! ## A task on its node -/

namespace Handler

/-- `is_enabled_for`, on a node that has a cache. -/
def isCacheable (task : InternalTask) : Bool := task.source.all fun s => decide (s.policy = .cacheable)

/-- The handler in another phase. -/
def goTo (h : Handler) (phase : HandlerPhase) : Handler := { h with phase := phase }

/-- The start of `forward_with_failover`: the hop and the budget are checked before any candidate. -/
def startForward (h : Handler) (now : Instant) (routeTier : RouteTier) (candidates : List ForwardCandidate) : Handler :=
  if h.task.forwardingHops ≥ maxForwardingHops then h.goTo (.finished (.rejected .hopLimitExceeded))
  else if forwardBudgetTooSmall h.task now then h.goTo (.finished (.rejected .deadlineTooClose))
  else { h with phase := .forwarding candidates, call := some ⟨routeTier, candidates, []⟩ }

/-- The rest of `handle_incoming_inner` after the cluster view has come: the decision, and what follows from it at once. -/
def route (S : ClusterSpec) (h : Handler) (now : Instant) (view : Option ClusterView) (accepts : Bool) (workers : List WorkerView)
    (canStartRender : Bool) : Handler :=
  match view with
  | none => h.goTo (.finished (.rejected .deadlineExceeded))
  | some view =>
    if now ≥ h.task.deadline then h.goTo (.finished (.rejected .deadlineExceeded))
    else
      match (S.dispatcher h.node).decideWithLocalState S.rng now h.task view ⟨h.node, accepts, workers⟩ with
      | .local routeTier _ fallback =>
        if canStartRender then h.goTo (.working routeTier fallback none)
        else if fallback = [] then h.goTo (.finished (.rejected .rendererDegraded))
        else h.startForward now routeTier fallback
      | .forward routeTier candidates => h.startForward now routeTier candidates
      | .reject reason =>
        h.goTo (.finished (.rejected (if reason = .noCapacity ∧ accepts = false then .rendererDegraded else reason)))

/-- The end of the local work: a task that no worker took goes to the fallback candidates, if there are any. -/
def localEnd (h : Handler) (now : Instant) (routeTier : RouteTier) (fallback : List ForwardCandidate)
    (exhausted : Option RejectionReason) (result : LocalResult) : Handler :=
  match result with
  | .outcome result => h.goTo (.finished result)
  | .preparationError error kind => h.goTo (.finished (.failed error kind))
  | .renderAdmissionClosed =>
    if fallback = [] then h.goTo (.finished (.rejected .rendererDegraded)) else h.startForward now routeTier fallback
  | .queueFull =>
    if fallback = [] then h.goTo (.finished (.rejected (exhausted.getD .queueFull))) else h.startForward now routeTier fallback
  | .queueDisconnected => h.goTo (.finished (.failed "worker queue disconnected" .other))

/-- The failover has no candidate left: local overflow, when the renderer may start and the deadline has not passed. -/
def exhaust (h : Handler) (now : Instant) (canStartRender : Bool) : Handler :=
  let reason := exhaustionReason (h.call.elim [] ForwardCall.attempts)
  if canStartRender then
    if now ≥ h.task.deadline then h.goTo (.finished (.rejected .deadlineExceeded))
    else h.goTo (.working .tier4Overflow [] (some reason))
  else h.goTo (.finished (.rejected reason))

/-- The message of the next attempt. -/
def forwardRequest (h : Handler) (now : Instant) (hopLatency : Duration) (call : ForwardCall) (candidate : ForwardCandidate) :
    ForwardRequest where
  task := h.task.toForwardWire now hopLatency
  routeTier := call.routeTier
  drainWorker := candidate.drainWorker
  originResponseBudgetMs := clampedMillis (h.task.deadline - now)

/-- The last attempt gets its end. -/
def endAttempt (call : ForwardCall) (ended : SendResult) : ForwardCall :=
  { call with attempts := call.attempts.dropLast ++ call.attempts.getLast?.toList.map fun a => { a with ended := some ended } }

/-- The loop after a send: the next candidate, or the outcome. -/
def sendEnd (h : Handler) (rest : List ForwardCandidate) (ended : SendResult) : Handler :=
  let h := { h with call := h.call.map (endAttempt · ended) }
  if ended.isRetryable then h.goTo (.forwarding rest)
  else
    match ended with
    | .response result => h.goTo (.finished result)
    | _ => h.goTo (.finished (.rejected .deadlineExceeded))

end Handler

/-! ## The cluster -/

namespace Cluster

def new : Cluster where
  caches := fun _ => RenderOutputCache.new
  handlers := []
  messages := []

def setHandler (s : Cluster) (i : Nat) (h : Handler) : Cluster := { s with handlers := s.handlers.set i h }

def setCache (s : Cluster) (n : NodeId) (c : RenderOutputCache RenderCacheKey) : Cluster :=
  { s with caches := Function.update s.caches n c }

/-- The caller of a handler, in its cache. -/
def callerOf (s : Cluster) (h : Handler) : Option (RenderCaller RenderCacheKey) :=
  h.caller.bind fun c => (s.caches h.node).callers[c]?

/-- A handler is entered: past its deadline it is rejected; a cacheable task calls the cache; any other goes on at once. -/
def accept (S : ClusterSpec) (s : Cluster) (n : NodeId) (task : InternalTask) (entry : Entry) (now : Instant)
    (canStartRender : Bool) : Cluster :=
  let h : Handler := ⟨n, task, entry, none, .done (.rejected .deadlineExceeded), none⟩
  if now ≥ task.deadline then { s with handlers := s.handlers ++ [h] }
  else if S.cacheEnabled n && Handler.isCacheable task then
    { s.setCache n { s.caches n with
        callers := (s.caches n).callers ++
          [⟨.fromTask task, task.authorization.map RenderAuthorization.readableNamespaces, .lookup none⟩] } with
      handlers := s.handlers ++ [{ h with caller := some (s.caches n).callers.length, phase := .acquiring }] }
  else
    match entry with
    | .incoming => { s with handlers := s.handlers ++ [h.goTo .routing] }
    | .forwarded _ routeTier =>
      { s with handlers := s.handlers ++ [h.goTo (if canStartRender then .working routeTier [] none
          else .done (.rejected .rendererDegraded))] }

/-- A handler that makes a call of its cache and moves on. -/
def call (s : Cluster) (i : Nat) (h : Handler) (action : Nat → RenderCacheAction RenderCacheKey) (phase : HandlerPhase) :
    Option Cluster :=
  match h.caller with
  | some c => ((s.caches h.node).step (action c)).map fun cache => (s.setCache h.node cache).setHandler i (h.goTo phase)
  | none => none

def step (S : ClusterSpec) (s : Cluster) : ClusterAction → Option Cluster
  | .handleIncoming n task now => some (s.accept S n task .incoming now true)
  | .cache n action => if action.isInner then ((s.caches n).step action).map (s.setCache n) else none
  | .acquired i canStartRender =>
    match s.handlers[i]? with
    | some h =>
      match h.phase, (s.callerOf h).map RenderCaller.phase with
      | .acquiring, some (.hit entry) => some (s.setHandler i (h.goTo (.done (.completed .renderCacheHit entry.output))))
      | .acquiring, some (.leading _) =>
        match h.entry with
        | .incoming => some (s.setHandler i (h.goTo .routing))
        | .forwarded _ routeTier =>
          if canStartRender then some (s.setHandler i (h.goTo (.working routeTier [] none)))
          else s.call i h .dropLeader (.done (.rejected .rendererDegraded))
      | _, _ => none
    | none => none
  | .giveUp i now =>
    match s.handlers[i]? with
    | some h =>
      match h.phase with
      | .acquiring => if now ≥ h.task.deadline then s.call i h .giveUp (.done (.rejected .deadlineExceeded)) else none
      | _ => none
    | none => none
  | .route i now view accepts workers canStartRender =>
    match s.handlers[i]? with
    | some h =>
      match h.phase with
      | .routing => some (s.setHandler i (h.route S now view accepts workers canStartRender))
      | _ => none
    | none => none
  | .localEnd i now result =>
    match s.handlers[i]? with
    | some h =>
      match h.phase with
      | .working routeTier fallback exhausted => some (s.setHandler i (h.localEnd now routeTier fallback exhausted result))
      | _ => none
    | none => none
  | .send i now =>
    match s.handlers[i]? with
    | some h =>
      match h.phase, h.call with
      | .forwarding (candidate :: rest), some call =>
        if forwardBudgetTooSmall h.task now then some (s.setHandler i (h.goTo (.finished (.rejected .deadlineTooClose))))
        else
          let request := h.forwardRequest now (S.dispatcher h.node).costs.hopLatency call candidate
          some { s.setHandler i { h with
              phase := .sent s.messages.length rest
              call := some { call with attempts := call.attempts ++ [⟨candidate, request, now, none⟩] } } with
            messages := s.messages ++ [⟨i, candidate.nodeId, request, none⟩] }
      | _, _ => none
    | none => none
  | .exhaust i now canStartRender =>
    match s.handlers[i]? with
    | some h =>
      match h.phase with
      | .forwarding [] => some (s.setHandler i (h.exhaust now canStartRender))
      | _ => none
    | none => none
  | .deliver m now delayMs acceptsRevision canStartRender =>
    match s.messages[m]? with
    | some msg =>
      match msg.delivered with
      | none =>
        -- the transport takes the time of its own address lookup off the budget
        let wire := { msg.request.task with remainingBudgetMs := msg.request.task.remainingBudgetMs - delayMs }
        let entry := .forwarded m msg.request.routeTier
        let s := { s with messages := s.messages.set m { msg with delivered := some s.handlers.length } }
        if acceptsRevision then some (s.accept S msg.target (wire.intoInternal now) entry now canStartRender)
        else
          some { s with handlers := s.handlers ++
            [⟨msg.target, wire.intoInternal now, entry, none, .done (.rejected .unknownStyle), none⟩] }
      | some _ => none
    | none => none
  | .sendEnd i ended =>
    match s.handlers[i]? with
    | some h =>
      match h.phase with
      | .sent m rest =>
        match ended with
        | .timeout => some (s.setHandler i (h.sendEnd rest .timeout))
        | .retryable => some (s.setHandler i (h.sendEnd rest .retryable))
        | .fatal => some (s.setHandler i (h.sendEnd rest .fatal))
        | .responded =>
          match ((s.messages[m]?.bind Message.delivered).bind (s.handlers[·]?)).map Handler.phase with
          | some (.done result) => some (s.setHandler i (h.sendEnd rest (.response result)))
          | _ => none
      | _ => none
    | none => none
  | .insert i =>
    match s.handlers[i]? with
    | some h =>
      match h.phase with
      | .finished result => s.call i h (.insertFromOutcome · result) (.leaving result)
      | _ => none
    | none => none
  | .leave i =>
    match s.handlers[i]? with
    | some h =>
      match h.phase, h.caller with
      | .finished result, none => some (s.setHandler i (h.goTo (.done result)))
      | .leaving result, some _ => s.call i h .dropLeader (.done result)
      | _, _ => none
    | none => none
  | .abort i =>
    match s.handlers[i]? with
    | some h =>
      match h.phase with
      | .acquiring => s.call i h .giveUp .aborted
      | .routing | .working .. | .forwarding _ | .sent .. =>
        match h.caller with
        | none => some (s.setHandler i (h.goTo .aborted))
        | some _ => s.call i h .dropLeader .aborted
      | _ => none
    | none => none

/-- The cluster, as a machine. -/
def machine (S : ClusterSpec) : Machine Cluster ClusterAction where
  init := new
  step := step S

end Cluster

end Biei
