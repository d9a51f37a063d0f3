import Biei.Basic
import Biei.Lib.RefreshGate

/-!
# The cluster view cache

`node/view_cache.rs`: callers share one view of the cluster, which one of them at a time loads. What is done under the lock of the
state is one step; between two of them the clock runs, the gossip epoch rises and other callers come and go. What `gossip.view`
gives is the environment's choice.
-/

namespace Biei

structure CachedClusterView (V : Type) where
  expiresAt : Instant
  gossipEpoch : Nat
  view : V
deriving DecidableEq

structure ClusterViewCacheState (V : Type) where
  cached : Option (CachedClusterView V)
  loading : Bool
deriving DecidableEq

/-- `usable_cached_view`: a view of another epoch is not, an expired one is while it is being replaced, for the grace. -/
def usableCachedView {V : Type} (state : ClusterViewCacheState V) (staleGrace : Duration) (gossipEpoch : Nat) (now : Instant) :
    Option V :=
  match state.cached with
  | none => none
  | some cached =>
    if cached.gossipEpoch ≠ gossipEpoch then none
    else if cached.expiresAt > now ∨ (state.loading = true ∧ cached.expiresAt + staleGrace > now) then some cached.view
    else none

/-- What a caller does once it has announced the end of its load. -/
inductive ViewNext (V : Type) where
  | retry
  | give (view : Option V)
  | gone
deriving DecidableEq

inductive ViewPhase (V : Type) where
  /-- At the top of the loop. -/
  | looping
  | looking
  | subscribing
  /-- Subscribed to the version, about to look under the lock again. -/
  | electing (seen : Nat)
  /-- `loading` is set, the epoch is to be read. -/
  | claimed
  | fetching (epoch : Nat)
  /-- `gossip.view` has given the view, which was made in the epoch `madeIn`. -/
  | fetched (epoch : Nat) (view : V) (madeIn : Nat)
  | storing (epoch : Nat) (view : V) (madeIn : Nat)
  /-- The load is dropped without a view. -/
  | abandoning (next : ViewNext V)
  /-- `loading` is cleared, the version is to be raised. -/
  | announcing (next : ViewNext V)
  | waiting (seen : Nat)
  | returned (view : Option V)
  | cancelled
deriving DecidableEq

/-- A call of `get_or_load`, with the instant and the epoch it was made in. -/
structure ViewCaller (V : Type) where
  deadline : Instant
  startedAt : Instant
  startedIn : Nat
  phase : ViewPhase V
deriving DecidableEq

/-- A view that was stored: the epoch it was made in, when it was stored and which caller had loaded it. -/
structure StoredView (V : Type) where
  view : V
  madeIn : Nat
  storedAt : Instant
  storedBy : Nat
deriving DecidableEq

/-- The cache with its callers and clock, and the epochs and stored views there have been so far. -/
structure ClusterViewCache (V : Type) where
  ttl : Duration
  state : ClusterViewCacheState V
  changed : Nat
  callers : List (ViewCaller V)
  now : Instant
  epoch : Nat
  epochs : List Nat
  stored : List (StoredView V)

inductive ViewStep (V : Type) where
  | checkDeadline
  | look
  | subscribe
  | elect
  | readEpoch
  | receive (view : V)
  | compareEpoch
  | store
  | abandon
  | announce
  | wake
  | timeout
  | cancel

inductive ViewAction (V : Type) where
  | call (deadline : Instant)
  | move (i : Nat) (step : ViewStep V)
  | advance (d : Duration)
  | raiseEpoch (epoch : Nat)

def ViewNext.phase {V : Type} : ViewNext V → ViewPhase V
  | .retry => .looping
  | .give view => .returned view
  | .gone => .cancelled

namespace ClusterViewCache

variable {V : Type}

def new (ttl : Duration) (epoch : Nat) : ClusterViewCache V := ⟨ttl, ⟨none, false⟩, 0, [], 0, epoch, [epoch], []⟩

def setPhase (s : ClusterViewCache V) (i : Nat) (caller : ViewCaller V) (phase : ViewPhase V) : ClusterViewCache V :=
  { s with callers := s.callers.set i { caller with phase := phase } }

/-- What a caller can use now. -/
def usable (s : ClusterViewCache V) : Option V := usableCachedView s.state s.ttl s.epoch s.now

/-- The look under the lock that a subscribed caller takes. -/
def elect (s : ClusterViewCache V) (i : Nat) (caller : ViewCaller V) (seen : Nat) : ClusterViewCache V :=
  match s.usable with
  | some view => s.setPhase i caller (.returned (some view))
  | none =>
    if s.state.loading then s.setPhase i caller (.waiting seen)
    else { s.setPhase i caller .claimed with state := { s.state with loading := true } }

/-- `ClusterViewLoad::complete`, up to the notification. -/
def store (s : ClusterViewCache V) (i : Nat) (caller : ViewCaller V) (epoch : Nat) (view : V) (madeIn : Nat) :
    ClusterViewCache V :=
  { s.setPhase i caller (.announcing (.give (some view))) with
    state := ⟨some ⟨s.now + s.ttl, epoch, view⟩, false⟩
    stored := s.stored ++ [⟨view, madeIn, s.now, i⟩] }

/-- A step of one caller. A future that is past its deadline may still be ready before the timer is looked at. -/
def callerStep (s : ClusterViewCache V) (i : Nat) (caller : ViewCaller V) (step : ViewStep V) : Option (ClusterViewCache V) :=
  match step, caller.phase with
  | .checkDeadline, .looping => some (s.setPhase i caller (if s.now ≥ caller.deadline then .returned none else .looking))
  | .look, .looking =>
    match s.usable with
    | some view => some (s.setPhase i caller (.returned (some view)))
    | none => some (s.setPhase i caller .subscribing)
  | .subscribe, .subscribing => some (s.setPhase i caller (.electing s.changed))
  | .elect, .electing seen => some (s.elect i caller seen)
  | .readEpoch, .claimed => some (s.setPhase i caller (.fetching s.epoch))
  | .receive view, .fetching epoch => some (s.setPhase i caller (.fetched epoch view s.epoch))
  | .compareEpoch, .fetched epoch view madeIn =>
    some (s.setPhase i caller (if s.epoch ≠ epoch then .abandoning .retry else .storing epoch view madeIn))
  | .store, .storing epoch view madeIn => some (s.store i caller epoch view madeIn)
  | .abandon, .abandoning next =>
    some { s.setPhase i caller (.announcing next) with state := { s.state with loading := false } }
  | .announce, .announcing next => some { s.setPhase i caller next.phase with changed := s.changed + 1 }
  | .wake, .waiting seen => if s.changed ≠ seen then some (s.setPhase i caller .looping) else none
  | .timeout, .fetching _ => if caller.deadline ≤ s.now then some (s.setPhase i caller (.abandoning (.give none))) else none
  | .timeout, .waiting _ => if caller.deadline ≤ s.now then some (s.setPhase i caller (.returned none)) else none
  | .cancel, .fetching _ => some (s.setPhase i caller (.abandoning .gone))
  | .cancel, .waiting _ => some (s.setPhase i caller .cancelled)
  | _, _ => none

def step (s : ClusterViewCache V) : ViewAction V → Option (ClusterViewCache V)
  | .call deadline => some { s with callers := s.callers ++ [⟨deadline, s.now, s.epoch, .looping⟩] }
  | .move i m => s.callers[i]?.bind fun caller => s.callerStep i caller m
  | .advance d => some { s with now := s.now + d }
  | .raiseEpoch epoch => if s.epoch < epoch then some { s with epoch := epoch, epochs := s.epochs ++ [epoch] } else none

def machine (ttl : Duration) (epoch : Nat) : Machine (ClusterViewCache V) (ViewAction V) where
  init := new ttl epoch
  step := step

end ClusterViewCache

end Biei
