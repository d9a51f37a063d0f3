import Biei.Node

/-!
# Sending a task to a peer

`internal.rs`: what the transport does to a forward request before it leaves the node, and what a pass of `forward_with_failover`
reads off the clock on the way there. What the model leaves open (the readings, how the address lookup and the post end) comes
with the pass.
-/

namespace Biei

/-- The cast `as u32`. -/
def asU32 (n : Nat) : Nat := n % 2 ^ 32

/-- `Duration::as_millis`, a `u128`. -/
def asMillis (d : Duration) : Nat := d / 1000000

def durationMillisCeil (d : Duration) : Nat :=
  let whole := asMillis d
  -- `subsec_nanos` is what the seconds leave
  let rounded := if d % 1000000000 % 1000000 = 0 then whole else min (whole + 1) (2 ^ 128 - 1)
  asU32 (min rounded (2 ^ 32 - 1))

inductive ForwardError where
  | retryable (message : String)
  | fatal (message : String)

/-- How the lookup of a peer's address ended: past the deadline, without an address, or with one. -/
inductive Resolution where
  | elapsed
  | absent
  | addr (addr : String)

/-- The readings of the clock in one pass of the failover loop, in the order of the source, and what the pass met. -/
structure Pass where
  /-- By `forward_budget_too_small`. -/
  checkedAt : Instant
  /-- By the loop, for the budgets of the request. -/
  computedAt : Instant
  /-- By the transport, before the lookup and after it. -/
  startedAt : Instant
  resolvedAt : Instant
  /-- By the transport, for the timeout of the post. -/
  postedAt : Instant
  endedAt : Instant
  /-- None when the loop's own timeout fires before the request is posted. -/
  resolution : Option Resolution
  /-- How the send of a posted request ended. -/
  ended : SendResult

/-- The clock does not go back in a pass. -/
structure Pass.Ordered (p : Pass) : Prop where
  checked : p.checkedAt ≤ p.computedAt
  computed : p.computedAt ≤ p.startedAt
  started : p.startedAt ≤ p.resolvedAt
  resolved : p.resolvedAt ≤ p.postedAt
  posted : p.postedAt ≤ p.endedAt

/-- A request on its way; its body is the JSON of the forward request. -/
structure PeerPost where
  url : String
  timeout : Duration
  request : ForwardRequest

/-! ## The transport -/

namespace HttpTransport

/-- `MAX_FORWARD_TIMEOUT`. -/
def maxForwardTimeout : Duration := 30 * 1000000000

/-- The timeout of a send, from the origin's response budget. -/
def sendTimeout (responseBudgetMs : Nat) : Duration := max (min (responseBudgetMs * 1000000) maxForwardTimeout) 1000000

/-- The budgets after a lookup of this many milliseconds. -/
def charge (fwd : ForwardRequest) (resolutionMs : Nat) : ForwardRequest :=
  { fwd with
    task := { fwd.task with remainingBudgetMs := fwd.task.remainingBudgetMs - resolutionMs }
    originResponseBudgetMs := max (fwd.originResponseBudgetMs - resolutionMs) 1 }

/-- `send` up to the post; nothing when the caller gives the send up first. -/
def send (target : NodeId) (fwd : ForwardRequest) (pass : Pass) : Option (Except ForwardError PeerPost) :=
  if fwd.originResponseBudgetMs = 0 then some (.error (.fatal "forward request has zero origin response budget"))
  else
    let deadline := pass.startedAt + sendTimeout fwd.originResponseBudgetMs
    match pass.resolution with
    | none => none
    | some .elapsed => some (.error (.retryable ("peer address resolution exceeded origin response budget for " ++ target.id)))
    | some .absent => some (.error (.retryable ("no advertise address for node " ++ target.id)))
    | some (.addr addr) =>
      -- the receiver counts the budget from its arrival: the lookup is not granted again
      let resolutionMs := durationMillisCeil (pass.resolvedAt - pass.startedAt)
      if fwd.task.remainingBudgetMs - resolutionMs = 0 then
        some (.error (.retryable ("peer address resolution exhausted remote execution budget for " ++ target.id)))
      else
        some (.ok ⟨"http://" ++ addr ++ "/_internal/forward", max (deadline - pass.postedAt) 1000000, charge fwd resolutionMs⟩)

end HttpTransport

/-! ## The failover loop -/

/-- The loop of `forward_with_failover` over the transport, with the pass each candidate gets: the requests that are posted. -/
def Handler.failover (h : Handler) (hopLatency : Duration) (call : ForwardCall) :
    List (ForwardCandidate × Pass) → List (Pass × PeerPost)
  | [] => []
  | (candidate, pass) :: rest =>
    if forwardBudgetTooSmall h.task pass.checkedAt then []
    else
      match HttpTransport.send candidate.nodeId (h.forwardRequest pass.computedAt hopLatency call candidate) pass with
      | none => []
      | some (.error _) => h.failover hopLatency call rest
      | some (.ok post) => (pass, post) :: if pass.ended.isRetryable then h.failover hopLatency call rest else []

/-- Passes one after another. -/
def InOrder (passes : List (ForwardCandidate × Pass)) : Prop :=
  (∀ p ∈ passes, p.2.Ordered) ∧ passes.Pairwise fun p q => p.2.endedAt ≤ q.2.checkedAt

/-- Past the last second an instant can have. -/
def instantBound : Instant := 2 ^ 63 * 1000000000

/-- The execution budget a posted request carries. -/
def PeerPost.budget (post : PeerPost) : Nat := post.request.task.remainingBudgetMs

end Biei
