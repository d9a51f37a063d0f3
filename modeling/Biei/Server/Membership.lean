import Biei.Common.SingleFlight
import Biei.Lib.RefreshGate

/-!
# Peer addresses

`advertise_addr_of` of `membership.rs`: lookups share a snapshot of the addresses. One of them refreshes it; the others wait only
as long as there is none, and are served an expired one otherwise.
-/

namespace Biei

/-- `PEER_ADDRESS_CACHE_TTL`, in milliseconds. -/
def peerAddressCacheTtl : Duration := 100

structure CachedPeerAddresses (N A : Type) where
  expiresAt : Instant
  addresses : N → Option A

structure PeerAddressCacheState (N A : Type) where
  snapshot : Option (CachedPeerAddresses N A)
  refreshing : Bool

inductive Lookup (A : Type) where
  | answer (address : Option A)
  | refresh

section

variable {N A : Type}

/-- What a lookup finds under the lock; who is to refresh sets the flag. -/
def PeerAddressCacheState.check (state : PeerAddressCacheState N A) (nodeId : N) (now : Instant) :
    PeerAddressCacheState N A × Option (Lookup A) :=
  match state.snapshot with
  | some snapshot =>
    if snapshot.expiresAt > now then (state, some (.answer (snapshot.addresses nodeId)))
    else if state.refreshing then (state, some (.answer (snapshot.addresses nodeId)))
    else ({ state with refreshing := true }, some .refresh)
  | none => if state.refreshing then (state, none) else ({ state with refreshing := true }, some .refresh)

inductive AddressPhase (N A : Type) where
  | changing (wait : ChangeWait)
  /-- The flag is set, the addresses are being loaded. -/
  | loading
  | loaded (addresses : N → Option A)
  | abandoning
  /-- The flag is cleared, the waiters are to be notified; a lookup that is cancelled has no answer. -/
  | announcing (answer : Option (Option A))
  | returned (address : Option A)
  | cancelled

structure AddressLookup (N A : Type) where
  nodeId : N
  phase : AddressPhase N A

structure PeerAddresses (N A : Type) where
  state : PeerAddressCacheState N A
  changed : ChangeNotify
  lookups : List (AddressLookup N A)
  now : Instant

inductive AddressStep (N A : Type) where
  | change
  | receive (addresses : N → Option A)
  | store
  | abandon
  | announce
  | cancel

inductive AddressAction (N A : Type) where
  | lookUp (nodeId : N)
  | move (i : Nat) (step : AddressStep N A)
  | advance (d : Duration)

namespace PeerAddresses

def new : PeerAddresses N A := ⟨⟨none, false⟩, .new, [], 0⟩

def setPhase (s : PeerAddresses N A) (i : Nat) (lookup : AddressLookup N A) (phase : AddressPhase N A) : PeerAddresses N A :=
  { s with lookups := s.lookups.set i { lookup with phase := phase } }

/-- What follows the end of `wait_for_change`. -/
def Lookup.phase : Lookup A → AddressPhase N A
  | .answer address => .returned address
  | .refresh => .loading

/-- `wait_for_change` goes on; its check looks at the state, and may set the flag. -/
def change (s : PeerAddresses N A) (i : Nat) (lookup : AddressLookup N A) (wait : ChangeWait) : Option (PeerAddresses N A) :=
  let (state, found) := s.state.check lookup.nodeId s.now
  (wait.step s.changed found).map fun
    | .inl wait => s.setPhase i lookup (.changing wait)
    | .inr found => { s.setPhase i lookup (Lookup.phase found) with state := state }

/-- The addresses are put in place, up to the notification. -/
def store (s : PeerAddresses N A) (i : Nat) (lookup : AddressLookup N A) (addresses : N → Option A) : PeerAddresses N A :=
  { s.setPhase i lookup (.announcing (some (addresses lookup.nodeId))) with
    state := ⟨some ⟨s.now + peerAddressCacheTtl, addresses⟩, false⟩ }

def lookupStep (s : PeerAddresses N A) (i : Nat) (lookup : AddressLookup N A) (step : AddressStep N A) :
    Option (PeerAddresses N A) :=
  match step, lookup.phase with
  | .change, .changing wait => s.change i lookup wait
  | .receive addresses, .loading => some (s.setPhase i lookup (.loaded addresses))
  | .store, .loaded addresses => some (s.store i lookup addresses)
  | .abandon, .abandoning => some { s.setPhase i lookup (.announcing none) with state := { s.state with refreshing := false } }
  | .announce, .announcing answer =>
    some { s.setPhase i lookup (answer.elim .cancelled .returned) with changed := s.changed.notifyWaiters }
  | .cancel, .loading => some (s.setPhase i lookup .abandoning)
  | .cancel, .changing (.parked _) => some (s.setPhase i lookup .cancelled)
  | _, _ => none

def step (s : PeerAddresses N A) : AddressAction N A → Option (PeerAddresses N A)
  | .lookUp nodeId => some { s with lookups := s.lookups ++ [⟨nodeId, .changing .first⟩] }
  | .move i m => s.lookups[i]?.bind fun lookup => s.lookupStep i lookup m
  | .advance d => some { s with now := s.now + d }

def machine : Machine (PeerAddresses N A) (AddressAction N A) where
  init := new
  step := step

end PeerAddresses

end

end Biei
