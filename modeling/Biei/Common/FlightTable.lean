import Biei.Lib.Run
import Biei.Lib.Update

/-!
# Single flight, step by step

`singleflight.rs`: a leader's guard, when it is dropped, takes the sender out of the map under the lock, then sends its outcome if
it has one, then lets go of the sender. A follower is woken by either of the last two, and reads the channel after that. Every one
of these is a step that others may come between.
-/

namespace Biei

/-- A `watch` channel: its value, whether it was sent to, and whether its sender is gone. -/
structure WatchChannel (ε : Type) where
  value : Option ε
  changed : Bool
  closed : Bool
deriving DecidableEq

/-- How far a leader's guard is. -/
inductive GuardPhase where
  | live
  /-- `drop` is to lock the map. -/
  | dropping
  /-- What was in the map under the guard's key is taken out. -/
  | removed (sender : Option Nat)
  | sent (sender : Option Nat)
  | ended
deriving DecidableEq

/-- A guard, with the channel that was made for it; its own code does not know of the channel. -/
structure LeaderGuard (κ ε : Type) where
  key : κ
  channel : Nat
  outcome : Option ε
  phase : GuardPhase
deriving DecidableEq

inductive FollowerPhase (ε : Type) where
  | waiting
  /-- `changed` has returned. -/
  | woken
  | returned (value : Option ε)
  | cancelled
deriving DecidableEq

structure Follower (ε : Type) where
  receiver : Nat
  phase : FollowerPhase ε
deriving DecidableEq

/-- The senders in the map, and all channels, guards and followers there were. -/
structure FlightTable (κ ε : Type) where
  entries : κ → Option Nat
  channels : List (WatchChannel ε)
  guards : List (LeaderGuard κ ε)
  followers : List (Follower ε)

/-- What leaders and followers do. A panic or a cancellation of a leader drops its guard. -/
inductive FlightStep (κ ε : Type) where
  | begin (key : κ)
  | completeWith (g : Nat) (value : ε)
  | drop (g : Nat)
  | remove (g : Nat)
  | send (g : Nat)
  | close (g : Nat)
  | wake (f : Nat)
  | read (f : Nat)
  | cancel (f : Nat)
deriving DecidableEq

namespace FlightTable

variable {κ ε : Type} [DecidableEq κ]

/-- `SingleFlight::default`. -/
def empty : FlightTable κ ε := ⟨fun _ => none, [], [], []⟩

/-- `begin`. -/
def begin (t : FlightTable κ ε) (key : κ) : FlightTable κ ε :=
  match t.entries key with
  | some sender => { t with followers := t.followers ++ [⟨sender, .waiting⟩] }
  | none =>
    { t with
      entries := Function.update t.entries key (some t.channels.length)
      channels := t.channels ++ [⟨none, false, false⟩]
      guards := t.guards ++ [⟨key, t.channels.length, none, .live⟩] }

/-- A step of one guard. -/
def moveGuard (t : FlightTable κ ε) (g : Nat) (move : LeaderGuard κ ε → Option (LeaderGuard κ ε)) : Option (FlightTable κ ε) :=
  t.guards[g]?.bind fun guard => (move guard).map fun guard' => { t with guards := t.guards.set g guard' }

/-- `complete_with`: the guard has its outcome, and is dropped. -/
def completeWith (value : ε) (guard : LeaderGuard κ ε) : Option (LeaderGuard κ ε) :=
  match guard.phase with
  | .live => some { guard with outcome := some value, phase := .dropping }
  | _ => none

def dropGuard (guard : LeaderGuard κ ε) : Option (LeaderGuard κ ε) :=
  match guard.phase with
  | .live => some { guard with phase := .dropping }
  | _ => none

/-- The sender leaves the map. -/
def remove (t : FlightTable κ ε) (g : Nat) : Option (FlightTable κ ε) :=
  t.guards[g]?.bind fun guard =>
    match guard.phase with
    | .dropping =>
      some { t with
        entries := Function.update t.entries guard.key none
        guards := t.guards.set g { guard with phase := .removed (t.entries guard.key) } }
    | _ => none

/-- A channel is changed, if there is one. -/
def setChannel (t : FlightTable κ ε) (sender : Option Nat) (change : WatchChannel ε → WatchChannel ε) : List (WatchChannel ε) :=
  match sender with
  | some c => t.channels.modify c change
  | none => t.channels

/-- The outcome is sent, if there is one. -/
def send (t : FlightTable κ ε) (g : Nat) : Option (FlightTable κ ε) :=
  t.guards[g]?.bind fun guard =>
    match guard.phase with
    | .removed sender =>
      some { t with
        channels :=
          match guard.outcome with
          | some value => t.setChannel sender fun channel => { channel with value := some value, changed := true }
          | none => t.channels
        guards := t.guards.set g { guard with phase := .sent sender } }
    | _ => none

/-- The sender is gone. -/
def close (t : FlightTable κ ε) (g : Nat) : Option (FlightTable κ ε) :=
  t.guards[g]?.bind fun guard =>
    match guard.phase with
    | .sent sender =>
      some { t with
        channels := t.setChannel sender fun channel => { channel with closed := true }
        guards := t.guards.set g { guard with phase := .ended } }
    | _ => none

/-- `changed` returns: the channel was sent to, or its sender is gone. -/
def wake (t : FlightTable κ ε) (f : Nat) : Option (FlightTable κ ε) :=
  t.followers[f]?.bind fun follower =>
    match follower.phase, t.channels[follower.receiver]? with
    | .waiting, some channel =>
      if channel.changed || channel.closed then some { t with followers := t.followers.set f { follower with phase := .woken } }
      else none
    | _, _ => none

/-- `wait` returns what the channel holds. -/
def read (t : FlightTable κ ε) (f : Nat) : Option (FlightTable κ ε) :=
  t.followers[f]?.bind fun follower =>
    match follower.phase, t.channels[follower.receiver]? with
    | .woken, some channel => some { t with followers := t.followers.set f { follower with phase := .returned channel.value } }
    | _, _ => none

def cancel (t : FlightTable κ ε) (f : Nat) : Option (FlightTable κ ε) :=
  t.followers[f]?.bind fun follower =>
    match follower.phase with
    | .waiting => some { t with followers := t.followers.set f { follower with phase := .cancelled } }
    | .woken => some { t with followers := t.followers.set f { follower with phase := .cancelled } }
    | _ => none

def step (t : FlightTable κ ε) : FlightStep κ ε → Option (FlightTable κ ε)
  | .begin key => some (t.begin key)
  | .completeWith g value => t.moveGuard g (completeWith value)
  | .drop g => t.moveGuard g dropGuard
  | .remove g => t.remove g
  | .send g => t.send g
  | .close g => t.close g
  | .wake f => t.wake f
  | .read f => t.read f
  | .cancel f => t.cancel f

def machine : Machine (FlightTable κ ε) (FlightStep κ ε) where
  init := empty
  step := step

end FlightTable

end Biei
