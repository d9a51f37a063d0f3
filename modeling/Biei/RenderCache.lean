import Biei.Lib.Run
import Biei.Types

/-!
# The render output cache and its flights

`render_cache.rs`: a node-local cache of rendered images and, per key, at most one render in flight. The model follows every
caller of `lookup_or_join` through its cache lookups, the lock of the flight map, waiting, leading and the drop of its guard; each
step is one access to the shared state. The sixteen shards of the flight map are one map: a shard is a function of the key.

The cache crate may drop an entry at any time, because it is full or because the entry is too old; `evict` is such a drop.
-/

namespace Biei

/-- What the cache holds for a key: the image, and the grants of the task that produced it. -/
structure CachedRenderOutput where
  output : RenderOutput
  requiredNamespaces : Option NamespaceSet
deriving DecidableEq

/-- `is_authorized_for`. -/
def CachedRenderOutput.isAuthorizedFor (e : CachedRenderOutput) (readableNamespaces : Option NamespaceSet) : Bool :=
  match e.requiredNamespaces, readableNamespaces with
  | none, none => true
  | some required, some readable => readable.allows required
  | none, some _ => false
  | some _, none => false

/-- Where a caller stands. A flight is the number of its watch channel; `after` is the flight the caller was woken from, if
any. -/
inductive CallerPhase where
  /-- About to look into the cache, without the lock. -/
  | lookup (after : Option Nat)
  /-- About to take the lock of the flight map. -/
  | locking (after : Option Nat)
  | hit (entry : CachedRenderOutput)
  /-- Holds the leader guard of a flight. -/
  | leading (flight : Nat)
  /-- In `insert_from_outcome`, after its check of the resident entry. -/
  | inserting (flight : Nat) (output : RenderOutput)
  /-- In the guard's drop, which has taken the sender of `removed` out of the map. -/
  | notifying (removed : Option Nat)
  | waiting (flight : Nat)
  | gone
deriving DecidableEq

/-- A caller of `lookup_or_join`: its key and its grants never change. -/
structure RenderCaller (K : Type) where
  key : K
  readableNamespaces : Option NamespaceSet
  phase : CallerPhase

/-- The cache of a node, its flights, its callers so far, and which senders have sent their change. The last field records who
handed which image to `insert_from_outcome`. -/
structure RenderOutputCache (K : Type) where
  cache : K → Option CachedRenderOutput
  inFlight : K → Option Nat
  nextFlight : Nat
  changed : Nat → Bool
  callers : List (RenderCaller K)
  produced : List (Nat × RenderOutput)

/-- The steps of the callers, and of the cache crate. -/
inductive RenderCacheAction (K : Type) where
  | lookupOrJoin (key : K) (readableNamespaces : Option NamespaceSet)
  | cacheGet (p : Nat)
  | lockFlights (p : Nat)
  | insertFromOutcome (p : Nat) (result : TaskResult)
  | cacheInsert (p : Nat)
  | dropLeader (p : Nat)
  | sendModify (p : Nat)
  | wake (p : Nat)
  | giveUp (p : Nat)
  | evict (key : K)

namespace RenderOutputCache

variable {K : Type} [DecidableEq K]

def new : RenderOutputCache K where
  cache := fun _ => none
  inFlight := fun _ => none
  nextFlight := 0
  changed := fun _ => false
  callers := []
  produced := []

/-- The cache with one caller in another phase. -/
def setPhase (s : RenderOutputCache K) (p : Nat) (c : RenderCaller K) (phase : CallerPhase) : RenderOutputCache K :=
  { s with callers := s.callers.set p { c with phase := phase } }

/-- A lookup that serves only callers the resident entry's grants allow. -/
def authorizedGet (s : RenderOutputCache K) (c : RenderCaller K) : Option CachedRenderOutput :=
  (s.cache c.key).filter fun e => e.isAuthorizedFor c.readableNamespaces

/-- The part of `lookup_or_join_key` under the lock of the flight map: a second lookup, then the flight of the key or a new
one. -/
def lockFlights (s : RenderOutputCache K) (p : Nat) (c : RenderCaller K) : RenderOutputCache K :=
  match s.authorizedGet c with
  | some entry => s.setPhase p c (.hit entry)
  | none =>
    match s.inFlight c.key with
    | some flight => s.setPhase p c (.waiting flight)
    | none =>
      { s.setPhase p c (.leading s.nextFlight) with
        inFlight := Function.update s.inFlight c.key (some s.nextFlight)
        nextFlight := s.nextFlight + 1 }

/-- `insert_from_outcome` up to the insertion: an image is kept back when the resident entry requires other grants. -/
def insertFromOutcome (s : RenderOutputCache K) (p : Nat) (c : RenderCaller K) (flight : Nat) (result : TaskResult) :
    RenderOutputCache K :=
  match result with
  | .completed _ output =>
    let s := { s with produced := s.produced ++ [(p, output)] }
    match s.cache c.key with
    | some existing =>
      if existing.requiredNamespaces ≠ c.readableNamespaces then s else s.setPhase p c (.inserting flight output)
    | none => s.setPhase p c (.inserting flight output)
  | _ => s

/-- One step of a caller, or an eviction. -/
def step (s : RenderOutputCache K) : RenderCacheAction K → Option (RenderOutputCache K)
  | .lookupOrJoin key readableNamespaces => some { s with callers := s.callers ++ [⟨key, readableNamespaces, .lookup none⟩] }
  | .cacheGet p =>
    match s.callers[p]? with
    | some c =>
      match c.phase with
      | .lookup after =>
        match s.authorizedGet c with
        | some entry => some (s.setPhase p c (.hit entry))
        | none => some (s.setPhase p c (.locking after))
      | _ => none
    | none => none
  | .lockFlights p =>
    match s.callers[p]? with
    | some c =>
      match c.phase with
      | .locking _ => some (s.lockFlights p c)
      | _ => none
    | none => none
  | .insertFromOutcome p result =>
    match s.callers[p]? with
    | some c =>
      match c.phase with
      | .leading flight => some (s.insertFromOutcome p c flight result)
      | _ => none
    | none => none
  | .cacheInsert p =>
    match s.callers[p]? with
    | some c =>
      match c.phase with
      | .inserting flight output =>
        some { s.setPhase p c (.leading flight) with
          cache := Function.update s.cache c.key (some ⟨output, c.readableNamespaces⟩) }
      | _ => none
    | none => none
  | .dropLeader p =>
    match s.callers[p]? with
    | some c =>
      match c.phase with
      | .leading _ =>
        some { s.setPhase p c (.notifying (s.inFlight c.key)) with inFlight := Function.update s.inFlight c.key none }
      | _ => none
    | none => none
  | .sendModify p =>
    match s.callers[p]? with
    | some c =>
      match c.phase with
      | .notifying (some removed) => some { s.setPhase p c .gone with changed := Function.update s.changed removed true }
      | .notifying none => some (s.setPhase p c .gone)
      | _ => none
    | none => none
  | .wake p =>
    match s.callers[p]? with
    | some c =>
      match c.phase with
      | .waiting flight => if s.changed flight then some (s.setPhase p c (.lookup (some flight))) else none
      | _ => none
    | none => none
  | .giveUp p =>
    match s.callers[p]? with
    | some c =>
      match c.phase with
      | .waiting _ => some (s.setPhase p c .gone)
      | _ => none
    | none => none
  | .evict key => some { s with cache := Function.update s.cache key none }

/-- The render output cache of a node, as a machine. -/
def machine (K : Type) [DecidableEq K] : Machine (RenderOutputCache K) (RenderCacheAction K) where
  init := new
  step := step

end RenderOutputCache

end Biei
