import Biei.Pool.WorkerPool
import Biei.Text

/-!
# What a node tells the others

`encode_worker_kvs` and `NodeStateView::from_kvs` of `types.rs`, and the publisher of `node.rs`. A node writes four values for
each of its workers and one for itself, and publishes those that have changed since it last did; a receiver puts the workers
together again from the values it has, in whatever order it gets them.
-/

namespace Biei

/-! ## Values -/

namespace StyleRevision

def toGossipValue (revision : StyleRevision) : String := revision.id.id ++ "@" ++ revision.version.toNat.repr

def parseGossipValue (s : String) : Option StyleRevision := do
  let (id, v) ← rsplitOnce '@' s.toList
  if id.isEmpty then none
  else do
    let version ← parseUnsigned u64Bound v
    some ⟨⟨String.ofList id⟩, UInt64.ofNat version⟩

end StyleRevision

def RenderMode.asGossipValue : RenderMode → String
  | .static => "static"
  | .tile => "tile"

def RenderMode.parseGossipValue (value : String) : Option RenderMode :=
  if value = "static" then some .static else if value = "tile" then some .tile else none

def Scale.asGossipValue : Scale → String
  | .x1 => "1x"
  | .x2 => "2x"

def Scale.parseGossipValue (value : String) : Option Scale :=
  if value = "1x" then some .x1 else if value = "2x" then some .x2 else none

/-! ## Encoding -/

/-- `NodeKvs`. -/
abbrev NodeKvs := String → Option String

/-- `RENDER_ADMISSION_GOSSIP_KEY`. -/
def renderAdmissionGossipKey : String := "renderer.accepting"

/-- The state of a worker, as it is published. -/
structure WorkerStatus where
  id : UInt32
  loadedProfile : Option WorkerProfile
  queueDepth : UInt64

/-- What a receiver is to see of the worker. -/
def WorkerStatus.view (w : WorkerStatus) : WorkerView := ⟨w.id, w.loadedProfile, w.queueDepth.toNat⟩

def workerKey (id : UInt32) (field : String) : String := "worker." ++ id.toNat.repr ++ "." ++ field

/-- `encode_worker_kvs`. -/
def encodeWorkerKvs (out : NodeKvs) (w : WorkerStatus) : NodeKvs :=
  let (styleValue, modeValue, scaleValue) :=
    match w.loadedProfile with
    | some profile => (profile.style.toGossipValue, profile.renderMode.asGossipValue, profile.scale.asGossipValue)
    | none => ("", "", "")
  let out := Function.update out (workerKey w.id "style") (some styleValue)
  let out := Function.update out (workerKey w.id "mode") (some modeValue)
  let out := Function.update out (workerKey w.id "scale") (some scaleValue)
  Function.update out (workerKey w.id "queue") (some w.queueDepth.toNat.repr)

/-- What a node is about to publish. -/
structure Snapshot where
  workers : List WorkerStatus
  acceptsNewRenders : Bool

/-- `snapshot_kvs`, with the admission state. -/
def Snapshot.kvs (s : Snapshot) : NodeKvs :=
  Function.update (s.workers.foldl encodeWorkerKvs fun _ => none) renderAdmissionGossipKey
    (some (if s.acceptsNewRenders then "true" else "false"))

/-- The workers of a pool, in the order of their numbers. -/
def WorkerPool.statuses {spec : PoolSpec} (s : WorkerPool spec) : List WorkerStatus :=
  (List.finRange spec.workers).map fun i => ⟨UInt32.ofNat i.val, s.state.loaded i, UInt64.ofNat (s.queueDepths i)⟩

/-- The publisher's loop: what it sent last, and what the gossip has of the node. -/
structure Publisher where
  lastSent : NodeKvs
  store : NodeKvs

def Publisher.new : Publisher := ⟨fun _ => none, fun _ => none⟩

/-- One round of the loop: only values that differ from those sent last are set. -/
def Publisher.publish (p : Publisher) (s : Snapshot) : Publisher :=
  let changed : NodeKvs := fun key => (s.kvs key).filter fun value => decide (p.lastSent key ≠ some value)
  ⟨s.kvs, fun key => (changed key).or (p.store key)⟩

/-! ## Decoding -/

/-- What is known of a worker so far. -/
structure Builder where
  loadedRevision : Option (Option StyleRevision)
  renderMode : Option RenderMode
  scale : Option Scale
  queueDepth : Option Nat

def Builder.default : Builder := ⟨none, none, none, none⟩

def Builder.set (b : Builder) (field value : String) : Builder :=
  if field = "style" then
    if value.isEmpty then { b with loadedRevision := some none }
    else
      match StyleRevision.parseGossipValue value with
      | some revision => { b with loadedRevision := some (some revision) }
      -- a malformed revision leaves the worker partial
      | none => b
  else if field = "mode" ∧ ¬value.isEmpty then { b with renderMode := RenderMode.parseGossipValue value }
  else if field = "scale" ∧ ¬value.isEmpty then { b with scale := Scale.parseGossipValue value }
  else if field = "queue" then { b with queueDepth := parseUnsigned u64Bound value.toList }
  else b

/-- The worker, if enough is known of it. -/
def Builder.worker? (wid : Nat) (b : Builder) : Option WorkerView := do
  let loadedProfile ←
    match ← b.loadedRevision with
    | none => some none
    | some style => do some (some ⟨style, ← b.renderMode, ← b.scale⟩)
  some ⟨UInt32.ofNat wid, loadedProfile, ← b.queueDepth⟩

/-- The worker and the field a key is about. -/
def workerKey? (key : String) : Option (Nat × String) := do
  let rest ← stripLead "worker.".toList key.toList
  let (wid, field) ← splitOnce '.' rest
  let wid ← parseUnsigned (2 ^ 32) wid
  some (wid, String.ofList field)

/-- The loop over the pairs: the admission state, and the workers met so far. -/
structure Decoding where
  acceptsNewRenders : Bool
  ids : OrderedSet Nat
  builders : Nat → Builder

namespace Decoding

def new : Decoding := ⟨false, .empty, fun _ => .default⟩

def step (d : Decoding) (pair : String × String) : Decoding :=
  if pair.1 = renderAdmissionGossipKey then { d with acceptsNewRenders := decide (pair.2 = "true") }
  else
    match workerKey? pair.1 with
    | none => d
    | some (wid, field) =>
      { d with
        ids := d.ids.insert wid
        builders := Function.update d.builders wid ((d.builders wid).set field pair.2) }

end Decoding

/-- `NodeStateView::from_kvs`. -/
def NodeStateView.fromKvs (id : NodeId) (pairs : List (String × String)) : NodeStateView :=
  let decoded := pairs.foldl Decoding.step .new
  { id
    acceptsNewRenders := decoded.acceptsNewRenders
    workers := decoded.ids.toList.filterMap fun wid => (decoded.builders wid).worker? wid }

end Biei
