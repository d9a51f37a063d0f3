import Biei.Config
import Biei.Types

/-!
# Rendezvous hashing

`hrw.rs`: the weight of a node for a worker profile, over the stable style id, the render mode and the scale.
-/

namespace Biei

/-- The UTF-8 bytes of a string. -/
def asBytes (s : String) : List UInt8 := s.toList.flatMap String.utf8EncodeChar

/-- `splitmix64_finalize`. -/
def splitmix64Finalize (value : UInt64) : UInt64 :=
  let value := (value ^^^ (value >>> 30)) * 0xbf58476d1ce4e5b9
  let value := (value ^^^ (value >>> 27)) * 0x94d049bb133111eb
  value ^^^ (value >>> 31)

def fnv1aContinue (h : UInt64) (bytes : List UInt8) : UInt64 :=
  bytes.foldl (fun h b => (h ^^^ b.toUInt64) * 0x100000001b3) h

def fnv1a (bytes : List UInt8) : UInt64 := fnv1aContinue 0xcbf29ce484222325 bytes

def fnv1aProfile (profile : WorkerProfile) : UInt64 :=
  let h := fnv1a (asBytes profile.style.id.id)
  let h := fnv1aContinue h [0]
  let h := fnv1aContinue h [match profile.renderMode with | .static => 115 | .tile => 116]
  let h := fnv1aContinue h [0]
  fnv1aContinue h [match profile.scale with | .x1 => 49 | .x2 => 50]

/-- The weight of a node for a profile. -/
def hrwWeight (profile : WorkerProfile) (node : NodeId) : UInt64 :=
  let h := fnv1aProfile profile * 0x9E3779B97F4A7C15
  splitmix64Finalize (h ^^^ (fnv1a (asBytes node.id) * 0xBF58476D1CE4E5B9))

/-- The body of the loop of `top_hrw_candidates`: a node goes before the first with a smaller weight, if that is within the
limit. -/
def insertHrw (profile : WorkerProfile) (limit : Nat) (top : List (UInt64 × NodeId)) (node : NodeId) : List (UInt64 × NodeId) :=
  let weight := hrwWeight profile node
  let insertAt := top.findIdx fun e => decide (weight > e.1)
  if insertAt < limit then (top.insertIdx insertAt (weight, node)).take limit else top

/-- `top_hrw_candidates`: the eligible members of the largest weights, in descending order; equal weights keep member order. -/
def topHrwCandidates (members : List NodeId) (profile : WorkerProfile) (limit : Nat) (eligible : NodeId → Bool) :
    List ForwardCandidate :=
  ((members.filter eligible).foldl (insertHrw profile limit) []).map fun e => ⟨e.2, none⟩

example : splitmix64Finalize 1 = 0x5692161d100b05e5 := by decide

/-! ## The dispatcher

`dispatcher.rs`: where a task is to be rendered. A node decides from the propagated view of the cluster, in which its own
authoritative state stands in place of what gossip says of it, through four tiers that differ in the nodes they look at and in
the capacity they ask for; the candidates of the tier that answers become a local, a forwarding or a rejecting decision. -/

/-- `DEFAULT_FORWARD_CANDIDATES`. -/
def defaultForwardCandidates : Nat := 2

/-- The propagated view: the members and what gossip tells of them. A state is stored under the id of the node it is about. -/
structure ClusterView where
  members : List NodeId
  states : List (NodeId × NodeStateView)
  keys : (states.map Prod.fst).Nodup
  ids : ∀ e ∈ states, e.2.id = e.1

/-- The cluster state with an optional authoritative local entry. -/
structure DispatchView where
  cluster : ClusterView
  localState : Option NodeStateView

namespace DispatchView

/-- `DispatchView::new`: the local state counts only when the node is a member. -/
def new (cluster : ClusterView) (localState : Option NodeStateView) : DispatchView :=
  ⟨cluster, localState.filter fun s => decide (s.id ∈ cluster.members)⟩

def members (v : DispatchView) : List NodeId := v.cluster.members

/-- The gossip entries that no local entry stands in place of. -/
def remoteEntries (v : DispatchView) : List (NodeId × NodeStateView) :=
  v.cluster.states.filter fun e => v.localState.all fun s => decide (s.id ≠ e.1)

def stateEntries (v : DispatchView) : List (NodeId × NodeStateView) :=
  v.remoteEntries ++ v.localState.toList.map fun s => (s.id, s)

def states (v : DispatchView) : List NodeStateView := v.remoteEntries.map Prod.snd ++ v.localState.toList

def state (v : DispatchView) (id : NodeId) : Option NodeStateView :=
  (v.localState.filter fun s => decide (s.id = id)).or (v.cluster.states.lookup id)

end DispatchView

/-- The generator behind the Tier-1 draws: a third-party crate, of which only the documented range of a draw is used. -/
structure RoutingRng where
  State : Type
  seedFromU64 : UInt64 → State
  randomRange : State → (n : Nat) → 0 < n → Fin n × State

structure Dispatcher where
  nodeId : NodeId
  config : RoutingConfig
  costs : CostConfig
  blCapacity : Nat
  queueCapacity : Nat
  seed : UInt64
  /-- `new` raises the hard limit to the soft one. -/
  soft_le_hard : blCapacity ≤ queueCapacity

/-- `Dispatcher::new`. -/
def Dispatcher.new (nodeId : NodeId) (config : RoutingConfig) (costs : CostConfig) (blCapacity queueCapacity : Nat)
    (resolvedSeed : UInt64) : Dispatcher where
  nodeId := nodeId
  config := config
  costs := costs
  blCapacity := blCapacity
  queueCapacity := max queueCapacity blCapacity
  seed := resolvedSeed
  soft_le_hard := Nat.le_max_right _ _

def routingSeed (seed taskId : UInt64) : UInt64 := splitmix64Finalize (seed ^^^ (taskId * 0x9E3779B97F4A7C15))

/-! ## Tier 1 -/

structure WarmCandidate where
  node : NodeStateView
  warmCount : Nat
  styleSpareBl : Nat

/-- What the loop of `warm_candidate` gathers. -/
structure WarmTally where
  warmCount : Nat
  styleSpareBl : Nat
  hasUsableCapacity : Bool

/-- The loop body: a fresh worker can expand an already-warm profile. -/
def warmWorker (profile : WorkerProfile) (bl : Nat) (t : WarmTally) (w : WorkerView) : WarmTally :=
  if w.loadedProfile = some profile then
    ⟨t.warmCount + 1, t.styleSpareBl + (bl - w.queueDepth), t.hasUsableCapacity || decide (w.queueDepth < bl)⟩
  else if w.loadedProfile = none then { t with hasUsableCapacity := true }
  else t

def warmCandidate (node : NodeStateView) (profile : WorkerProfile) (bl : Nat) : Option WarmCandidate :=
  if node.acceptsNewRenders then
    let t := node.workers.foldl (warmWorker profile bl) ⟨0, 0, false⟩
    if 0 < t.warmCount ∧ t.hasUsableCapacity then some ⟨node, t.warmCount, t.styleSpareBl⟩ else none
  else none

/-- The ticket loop of the weighted draw; `none` is its `unreachable!`. -/
def pickWeighted : List WarmCandidate → Nat → Option NodeId
  | [], _ => none
  | c :: cs, ticket => if ticket < c.warmCount then some c.node.id else pickWeighted cs (ticket - c.warmCount)

/-- The two samples of the power-of-two draw: distinct indices, and the candidate with more spare room. `none` is a failed
`expect`. -/
def pickOfTwo (candidates : List WarmCandidate) (firstIdx secondDraw : Nat) : Option NodeId :=
  let secondIdx := if secondDraw ≥ firstIdx then secondDraw + 1 else secondDraw
  match candidates[firstIdx]?, candidates[secondIdx]? with
  | some first, some second => some (if first.styleSpareBl ≥ second.styleSpareBl then first.node.id else second.node.id)
  | _, _ => none

/-- Of two candidates there is a first. -/
theorem length_pos_of_one_lt {candidates : List WarmCandidate} (h : 1 < candidates.length) : 0 < candidates.length :=
  Nat.zero_lt_of_lt h

/-- Of two candidates there is one besides the first. -/
theorem length_sub_one_pos {candidates : List WarmCandidate} (h : 1 < candidates.length) : 0 < candidates.length - 1 :=
  Nat.sub_pos_of_lt h

/-- The draw among the warm candidates, by the configured strategy. -/
def pickWarm (rng : RoutingRng) (strategy : Tier1Strategy) (gen : rng.State) (candidates : List WarmCandidate) : Option NodeId :=
  match strategy with
  | .weightedRandom =>
    let totalWeight := (candidates.map (·.warmCount)).sum
    if h : 0 < totalWeight then pickWeighted candidates (rng.randomRange gen totalWeight h).1 else none
  | .powerOfTwo =>
    if h : 1 < candidates.length then
      let draw := rng.randomRange gen candidates.length (length_pos_of_one_lt h)
      pickOfTwo candidates draw.1 (rng.randomRange draw.2 (candidates.length - 1) (length_sub_one_pos h)).1
    else candidates.head?.map (·.node.id)

namespace Dispatcher

def warmCandidates (d : Dispatcher) (view : DispatchView) (profile : WorkerProfile) : List WarmCandidate :=
  view.states.filterMap fun node => warmCandidate node profile d.blCapacity

def selectWarmTarget (d : Dispatcher) (rng : RoutingRng) (task : InternalTask) (view : DispatchView) (profile : WorkerProfile) :
    Option NodeId :=
  pickWarm rng d.config.tier1Strategy (rng.seedFromU64 (routingSeed d.seed task.id)) (d.warmCandidates view profile)

/-! ## Tier 3 -/

/-- `estimate_drain_eta`: every queued task ahead is taken to pay a profile swap and a render. -/
def estimateDrainEta (d : Dispatcher) (w : WorkerView) (taskProfile : WorkerProfile) : Duration :=
  let warm := d.costs.warmRenderCost.mid
  let first := d.costs.firstRenderCost.mid
  let setup := d.costs.styleSetupCost.mid
  let queueWait := (durationCheckedMul (first + setup) (w.queueDepth % 2 ^ 32)).getD durationMax
  durationSaturatingAdd queueWait (if w.loadedProfile = some taskProfile then warm else setup + first)

/-- The workers of the nodes that accept renders, in the order of the view. -/
def drainable (view : DispatchView) : List (NodeId × WorkerView) :=
  (view.stateEntries.filter fun e => e.2.acceptsNewRenders).flatMap fun e => e.2.workers.map fun w => (e.1, w)

/-- `cluster_counts`: how many of those workers hold a profile. -/
def clusterCounts (view : DispatchView) (profile : WorkerProfile) : Nat :=
  (drainable view).countP fun e => decide (e.2.loadedProfile = some profile)

structure Tier3SortKey where
  protect : Bool
  shapeMismatch : Bool
  reversedCount : Nat

def tier3SortKey (loadedProfile : Option WorkerProfile) (taskProfile : WorkerProfile) (counts : WorkerProfile → Nat) :
    Tier3SortKey :=
  match loadedProfile with
  | none => ⟨false, true, 2 ^ 64 - 1⟩
  | some profile =>
    ⟨decide (counts profile ≤ 1),
      decide (profile.renderMode ≠ taskProfile.renderMode ∨ profile.scale ≠ taskProfile.scale), counts profile⟩

/-- The order of the eviction candidates: by key, then queue depth, then node and worker identity. -/
def tier3Compare (taskProfile : WorkerProfile) (counts : WorkerProfile → Nat) (a b : NodeId × WorkerView) : Ordering :=
  let ka := tier3SortKey a.2.loadedProfile taskProfile counts
  let kb := tier3SortKey b.2.loadedProfile taskProfile counts
  (compare ka.protect kb.protect).then
    ((compare ka.shapeMismatch kb.shapeMismatch).then
      ((compare kb.reversedCount ka.reversedCount).then
        ((compare a.2.queueDepth b.2.queueDepth).then
          ((compare a.1.id b.1.id).then (compare a.2.id b.2.id)))))

/-- A worker that may be drained for the task: short queue, and not already warm for it. -/
def isDrainCandidate (d : Dispatcher) (taskProfile : WorkerProfile) (w : WorkerView) : Bool :=
  decide (w.queueDepth < d.config.drainMaxQueue) && decide (w.loadedProfile ≠ some taskProfile)

/-- The drain ends within the SLA of the task; a deadline past the clock always holds. -/
def meetsSla (d : Dispatcher) (now : Instant) (task : InternalTask) (w : WorkerView) : Bool :=
  (instantCheckedAdd task.arrivedAt d.costs.sla).all fun deadline =>
    (instantCheckedAdd now (d.estimateDrainEta w task.workerProfile)).any fun t => decide (t ≤ deadline)

/-- The loop over the sorted candidates: whether the limit is reached is looked at once a candidate is selected. -/
def selectWithinSla (d : Dispatcher) (now : Instant) (task : InternalTask) (limit : Nat) :
    List ForwardCandidate → List (NodeId × WorkerView) → List ForwardCandidate
  | selected, [] => selected
  | selected, (nid, w) :: rest =>
    if d.meetsSla now task w then
      let selected := selected ++ [⟨nid, some w.id⟩]
      if selected.length ≥ limit then selected else d.selectWithinSla now task limit selected rest
    else d.selectWithinSla now task limit selected rest

def tier3CandidatesView (d : Dispatcher) (now : Instant) (view : DispatchView) (task : InternalTask) (limit : Nat) :
    List ForwardCandidate :=
  let candidates := (drainable view).filter fun e => d.isDrainCandidate task.workerProfile e.2
  let sorted := candidates.insertionSort fun a b => tier3Compare task.workerProfile (clusterCounts view) a b ≠ .gt
  d.selectWithinSla now task limit [] sorted

/-! ## The decision -/

/-- `materialize_candidates`: self first is a local decision, and a task that already took its hop is never sent on. -/
def materializeCandidates (d : Dispatcher) (task : InternalTask) (tier : RouteTier) (candidates : List ForwardCandidate) :
    Decision :=
  match candidates with
  | [] => .reject .noCapacity
  | first :: rest =>
    if first.nodeId = d.nodeId then
      .local tier first.drainWorker (if task.forwardingHops ≥ 1 then [] else rest.filter fun c => decide (c.nodeId ≠ d.nodeId))
    else if task.forwardingHops ≥ 1 then .local tier none []
    else .forward tier (candidates.filter fun c => decide (c.nodeId ≠ d.nodeId))

/-- The members whose known state passes a capacity check, by rendezvous weight. -/
def hrwWhere (view : DispatchView) (profile : WorkerProfile) (eligible : NodeId → NodeStateView → Bool) : List ForwardCandidate :=
  topHrwCandidates view.members profile defaultForwardCandidates fun id => (view.state id).any (eligible id)

def decideView (d : Dispatcher) (rng : RoutingRng) (now : Instant) (task : InternalTask) (view : DispatchView) : Decision :=
  let profile := task.workerProfile
  match d.selectWarmTarget rng task view profile with
  | some target =>
    let fallback := hrwWhere view profile fun id node => decide (id ≠ target) && node.hasCapacity d.blCapacity
    d.materializeCandidates task .tier1WarmTracking (⟨target, none⟩ :: fallback.take (defaultForwardCandidates - 1))
  | none =>
    let tier2 := hrwWhere view profile fun _ node => node.hasCapacity d.blCapacity
    if tier2 ≠ [] then d.materializeCandidates task .tier2HrwBl tier2
    else
      let tier3 := if d.config.tier3Enabled then d.tier3CandidatesView now view task defaultForwardCandidates else []
      if tier3 ≠ [] then d.materializeCandidates task .tier3DrainSwap tier3
      else
        let tier4 := hrwWhere view profile fun _ node => node.hasAdmissionCapacity d.queueCapacity
        if tier4 ≠ [] then d.materializeCandidates task .tier4Overflow tier4 else .reject .noCapacity

def decideWithLocalState (d : Dispatcher) (rng : RoutingRng) (now : Instant) (task : InternalTask) (cluster : ClusterView)
    (localState : NodeStateView) : Decision :=
  d.decideView rng now task (DispatchView.new cluster (some localState))

end Dispatcher

end Biei
