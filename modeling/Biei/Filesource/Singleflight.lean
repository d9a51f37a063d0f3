import Biei.Filesource.Network

/-!
# Fetches shared by several renderers

`fetch_coalesced` and the flights it shares. A caller that finds no flight for its key leads one; the others wait for it. What is
done under one lock is one step. Completing a flight takes several, with the lock of the map held: others may read the flight
meanwhile, but nobody can join it. Aborting one takes the two locks one after the other. A caller is dropped at any time.
-/

namespace Biei.Filesource

def flightShards : Nat := 32

structure FlightRequestSemantics where
  cacheAllowed : Bool
  priorEtag : Option String
  priorModified : Option SystemTime
  priorExpires : Option SystemTime
  hasPriorData : Bool
deriving DecidableEq

structure FlightKey where
  resource : ResourceRequestKey
  persistent : Bool
  priority : String
  semantics : FlightRequestSemantics
deriving DecidableEq

def priorityLabel : Priority → String
  | .low => "low"
  | .regular => "regular"

/-- `FlightRequestSemantics::from_request`. -/
def ResourceRequest.flightSemantics (request : ResourceRequest) : FlightRequestSemantics :=
  ⟨request.hasCache, request.priorEtag, request.priorModified, request.priorExpires, request.priorData.isSome⟩

def ResourceRequest.flightKey (request : ResourceRequest) : FlightKey :=
  ⟨request.key, usesSharedCache request.storagePolicy, priorityLabel request.priority, request.flightSemantics⟩

/-! ## Flights -/

inductive FlightState where
  | pending
  | complete (response : Response)
  | aborted
deriving DecidableEq

/-- Where the leader of a flight stands. -/
inductive LeaderStage where
  /-- `fetch_with_retries`. -/
  | fetching
  /-- `FlightLeader::complete`, with the lock of the map: it was counted whether anybody joined. -/
  | completing (response : Response) (joined : Bool)
  /-- The copy is made; the waiters are not notified yet. -/
  | published (response : Response)
  /-- The flight is still in the map. -/
  | leaving (response : Response)
  /-- The leader is dropped before it has completed. -/
  | dropping
  /-- The flight is aborted; the waiters are not notified yet. -/
  | aborting
  /-- The aborted flight is still in the map. -/
  | removing
  | ended
deriving DecidableEq

/-- `Flight`, with its leader. -/
structure Flight where
  key : FlightKey
  leader : Nat
  state : FlightState
  stage : LeaderStage
  /-- What the leader's fetch has returned. -/
  outcome : Option Response

/-! ## Callers -/

/-- Where a caller of `fetch_coalesced` stands. -/
inductive CallerPhase where
  /-- Before the map is looked up. -/
  | entering
  | leading (flight : Nat)
  /-- In `wait_for_change`, before the first check. -/
  | joined (flight : Nat)
  /-- The flight was pending; `notified` is not enabled yet. -/
  | registering (flight : Nat)
  /-- Before the check with `notified` enabled; whether it was notified since. -/
  | registered (flight : Nat) (notified : Bool)
  /-- Awaits the notification. -/
  | parked (flight : Nat) (notified : Bool)
  | returned (flight : Nat) (response : Response)
  | cancelled
deriving DecidableEq

/-- The flight that a caller waits for. -/
def CallerPhase.waits : CallerPhase → Option Nat
  | .joined f => some f
  | .registering f => some f
  | .registered f _ => some f
  | .parked f _ => some f
  | _ => none

/-- The flight that a caller has a reference to. -/
def CallerPhase.holds : CallerPhase → Option Nat
  | .leading f => some f
  | p => p.waits

/-- `notify_waiters`: everyone who is registered with the flight. -/
def CallerPhase.notify (f : Nat) : CallerPhase → CallerPhase
  | .registered g notified => .registered g (notified || g == f)
  | .parked g notified => .parked g (notified || g == f)
  | p => p

structure FlightCaller where
  key : FlightKey
  phase : CallerPhase

structure Coalescer where
  /-- The flight of each key; the maps of all shards together. -/
  entries : FlightKey → Option Nat
  /-- Who holds the lock of a shard's map from one step to the next. -/
  locked : Nat → Option Nat
  nextFlight : Nat
  flights : Nat → Flight
  callers : List FlightCaller

inductive FlightAction where
  | call (request : ResourceRequest)
  /-- The lookup in the map, which joins a flight or inserts one. -/
  | enter (i : Nat)
  /-- The leader's fetch returns, and the references are counted. -/
  | fetched (i : Nat) (response : Response)
  | publish (i : Nat)
  | notify (i : Nat)
  /-- The flight leaves the map. -/
  | leave (i : Nat)
  | abort (i : Nat)
  | check (i : Nat)
  | register (i : Nat)
  | recheck (i : Nat)
  | wake (i : Nat)
  /-- The caller is dropped. -/
  | cancel (i : Nat)

namespace Coalescer

variable (hash : FlightKey → Nat)

/-- `flight_shard`. -/
def flightShard (key : FlightKey) : Nat := hash key % flightShards

def new : Coalescer where
  entries := fun _ => none
  locked := fun _ => none
  nextFlight := 0
  flights := fun _ => ⟨ResourceRequest.flightKey ⟨"", .unknown, .volatile, false, .regular, none, none, none, none, none, none⟩,
    0,
    .pending, .ended, none⟩
  callers := []

/-- `Arc::strong_count` of a flight. -/
def strongCount (s : Coalescer) (f : Nat) : Nat :=
  (if s.entries (s.flights f).key = some f then 1 else 0) + s.callers.countP fun c => c.phase.holds == some f

/-- The `i`-th caller moves to another phase. -/
def setPhase (s : Coalescer) (i : Nat) (c : FlightCaller) (phase : CallerPhase) : Coalescer :=
  { s with callers := s.callers.set i { c with phase } }

def setFlight (s : Coalescer) (f : Nat) (flight : Flight) : Coalescer := { s with flights := Function.update s.flights f flight }

/-- `notify_waiters` of a flight. -/
def notifyWaiters (s : Coalescer) (f : Nat) : Coalescer :=
  { s with callers := s.callers.map fun c => { c with phase := c.phase.notify f } }

/-- `remove_flight`: the flight leaves the map when it is the one there. -/
def removeFlight (s : Coalescer) (f : Nat) : Coalescer :=
  if s.entries (s.flights f).key = some f then { s with entries := Function.update s.entries (s.flights f).key none } else s

/-- What a waiting caller does once the flight has changed: it returns the response, or tries again. -/
def settle (s : Coalescer) (i : Nat) (c : FlightCaller) (f : Nat) (pending : CallerPhase) : Coalescer :=
  match (s.flights f).state with
  | .pending => s.setPhase i c pending
  | .complete response => s.setPhase i c (.returned f response)
  | .aborted => s.setPhase i c .entering

/-- The lookup of `fetch_coalesced`. -/
def enter (s : Coalescer) (i : Nat) (c : FlightCaller) : Coalescer :=
  match s.entries c.key with
  | some f => s.setPhase i c (.joined f)
  | none =>
    { (s.setPhase i c (.leading s.nextFlight)).setFlight s.nextFlight ⟨c.key, i, .pending, .fetching, none⟩ with
      entries := Function.update s.entries c.key (some s.nextFlight)
      nextFlight := s.nextFlight + 1 }

/-- What the leader of a flight does next. -/
def leaderStep (s : Coalescer) (i : Nat) (c : FlightCaller) (f : Nat) : FlightAction → Option Coalescer
  | .fetched _ response =>
    if (s.flights f).stage = .fetching ∧ s.locked (flightShard hash c.key) = none then
      let ownedRefs := 1 + if s.entries c.key = some f then 1 else 0
      some { s.setFlight f { s.flights f with
          stage := .completing response (decide (s.strongCount f > ownedRefs)), outcome := some response } with
        locked := Function.update s.locked (flightShard hash c.key) (some i) }
    else none
  | .publish _ =>
    match (s.flights f).stage with
    | .completing response true =>
      some (s.setFlight f { s.flights f with state := .complete response, stage := .published response })
    | _ => none
  | .notify _ =>
    match (s.flights f).stage with
    | .published response => some ((s.setFlight f { s.flights f with stage := .leaving response }).notifyWaiters f)
    | .aborting => some ((s.setFlight f { s.flights f with stage := .removing }).notifyWaiters f)
    | _ => none
  | .leave _ =>
    match (s.flights f).stage with
    | .completing response false =>
      some { ((s.removeFlight f).setFlight f { s.flights f with stage := .ended }).setPhase i c (.returned f response) with
        locked := Function.update s.locked (flightShard hash c.key) none }
    | .leaving response =>
      some { ((s.removeFlight f).setFlight f { s.flights f with stage := .ended }).setPhase i c (.returned f response) with
        locked := Function.update s.locked (flightShard hash c.key) none }
    | .removing =>
      if s.locked (flightShard hash c.key) = none then
        some (((s.removeFlight f).setFlight f { s.flights f with stage := .ended }).setPhase i c .cancelled)
      else none
    | _ => none
  | .abort _ =>
    match (s.flights f).stage with
    | .dropping => some (s.setFlight f { s.flights f with state := .aborted, stage := .aborting })
    | _ => none
  | .cancel _ =>
    if (s.flights f).stage = .fetching then some (s.setFlight f { s.flights f with stage := .dropping }) else none
  | _ => none

/-- What a caller does next. -/
def callerStep (s : Coalescer) (i : Nat) (c : FlightCaller) (a : FlightAction) : Option Coalescer :=
  match c.phase, a with
  | .entering, .enter _ => if s.locked (flightShard hash c.key) = none then some (s.enter i c) else none
  | .leading f, a => s.leaderStep hash i c f a
  | .joined f, .check _ => some (s.settle i c f (.registering f))
  | .registering f, .register _ => some (s.setPhase i c (.registered f false))
  | .registered f notified, .recheck _ => some (s.settle i c f (.parked f notified))
  | .parked f true, .wake _ => some (s.setPhase i c (.registering f))
  | .entering, .cancel _ => some (s.setPhase i c .cancelled)
  | .joined _, .cancel _ => some (s.setPhase i c .cancelled)
  | .registering _, .cancel _ => some (s.setPhase i c .cancelled)
  | .registered _ _, .cancel _ => some (s.setPhase i c .cancelled)
  | .parked _ _, .cancel _ => some (s.setPhase i c .cancelled)
  | _, _ => none

end Coalescer

/-- Whose step it is. -/
def FlightAction.caller : FlightAction → Option Nat
  | .call _ => none
  | .enter i | .fetched i _ | .publish i | .notify i | .leave i | .abort i | .check i | .register i | .recheck i | .wake
      i | .cancel i =>
    some i

def Coalescer.step (hash : FlightKey → Nat) (s : Coalescer) (a : FlightAction) : Option Coalescer :=
  match a with
  | .call request => some { s with callers := s.callers ++ [⟨request.flightKey, .entering⟩] }
  | a => a.caller.bind fun i => (s.callers[i]?).bind fun c => s.callerStep hash i c a

def coalescer (hash : FlightKey → Nat) : Machine Coalescer FlightAction where
  init := .new
  step := Coalescer.step hash

end Biei.Filesource
