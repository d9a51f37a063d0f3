import Biei.Basic
import Biei.Lib.Update

/-!
# Single flight

`SingleFlight` of `mmpf-common`: for each key at most one leader, whose followers wait on a channel. Dropping the leader's guard
takes the key out of the map and then sends the outcome, if there is one; a follower cannot tell the two apart, since it only sees
that the channel has changed, so they are one step.
-/

namespace Biei

/-- What the followers of a flight see. -/
inductive Channel (ε : Type) where
  | pending
  /-- The sender is gone, after it sent the outcome, if any. -/
  | closed (outcome : Option ε)
deriving DecidableEq

/-- The senders of the flights under way, by key, and all channels there were. -/
structure SingleFlight (κ ε : Type) where
  entries : κ → Option Nat
  channels : Nat → Channel ε
  nextChannel : Nat

namespace SingleFlight

variable {κ ε : Type} [DecidableEq κ]

/-- `SingleFlight::default`. -/
def empty : SingleFlight κ ε := ⟨fun _ => none, fun _ => .pending, 0⟩

/-- `begin` when the key has no flight: the caller leads one. -/
def lead (f : SingleFlight κ ε) (key : κ) : SingleFlight κ ε where
  entries := Function.update f.entries key (some f.nextChannel)
  channels := Function.update f.channels f.nextChannel .pending
  nextChannel := f.nextChannel + 1

/-- `Drop` of the leader's guard. -/
def dropGuard (f : SingleFlight κ ε) (key : κ) (outcome : Option ε) : SingleFlight κ ε :=
  match f.entries key with
  | none => f
  | some c =>
    { f with
      entries := Function.update f.entries key none
      channels := Function.update f.channels c (.closed outcome) }

/-- The channels in the map are open, were made, and are not shared by two keys. -/
structure Wf (f : SingleFlight κ ε) : Prop where
  made : ∀ key c, f.entries key = some c → c < f.nextChannel
  pending : ∀ key c, f.entries key = some c → f.channels c = .pending
  inj : ∀ key key' c, f.entries key = some c → f.entries key' = some c → key = key'

variable {f : SingleFlight κ ε}

omit [DecidableEq κ] in
/-- A new table is well formed. -/
theorem Wf.empty : (SingleFlight.empty : SingleFlight κ ε).Wf where
  made _ _ h := by cases h
  pending _ _ h := by cases h
  inj _ _ _ h := by cases h

/-- A new leader keeps the table well formed. -/
theorem Wf.lead (h : f.Wf) (key : κ) : (f.lead key).Wf := by
  refine ⟨fun k c hc => ?_, fun k c hc => ?_, fun k k' c hc hc' => ?_⟩
  · rcases update_eq_some hc with ⟨-, hc⟩ | ⟨-, hc⟩
    · exact Nat.lt_succ_of_le (Nat.le_of_eq (Option.some.inj hc).symm)
    · exact Nat.lt_succ_of_lt (h.made k c hc)
  · show Function.update f.channels f.nextChannel .pending c = .pending
    rcases update_eq_some hc with ⟨-, hc⟩ | ⟨-, hc⟩
    · rw [Option.some.inj hc, Function.update_self]
    · rw [Function.update_of_ne (Nat.ne_of_lt (h.made k c hc)), h.pending k c hc]
  · rcases update_eq_some hc with ⟨hk, hnew⟩ | ⟨-, hold⟩
    · rcases update_eq_some hc' with ⟨hk', -⟩ | ⟨-, hold'⟩
      · exact hk.trans hk'.symm
      · exact absurd (Option.some.inj hnew).symm (Nat.ne_of_lt (h.made k' c hold'))
    · rcases update_eq_some hc' with ⟨-, hnew'⟩ | ⟨-, hold'⟩
      · exact absurd (Option.some.inj hnew').symm (Nat.ne_of_lt (h.made k c hold))
      · exact h.inj k k' c hold hold'

/-- A dropped guard keeps the table well formed. -/
theorem Wf.dropGuard (h : f.Wf) (key : κ) (outcome : Option ε) : (f.dropGuard key outcome).Wf := by
  unfold SingleFlight.dropGuard
  split
  · exact h
  · rename_i c hkey
    refine ⟨fun k c' hc => ?_, fun k c' hc => ?_, fun k k' c' hc hc' => ?_⟩
    · exact h.made k c' (update_none_eq_some hc).2
    · obtain ⟨hk, hc⟩ := update_none_eq_some hc
      have hne : c' ≠ c := fun heq => hk (h.inj k key c (heq ▸ hc) hkey)
      show Function.update f.channels c (.closed outcome) c' = .pending
      rw [Function.update_of_ne hne, h.pending k c' hc]
    · exact h.inj k k' c' (update_none_eq_some hc).2 (update_none_eq_some hc').2

/-- A flight leaves the map, or it was not there. -/
theorem dropGuard_entries (f : SingleFlight κ ε) (key : κ) (outcome : Option ε) :
    (f.dropGuard key outcome).entries = Function.update f.entries key none := by
  unfold dropGuard
  split
  · rename_i hnone
    rw [← hnone, Function.update_eq_self]
  · rfl

/-- A dropped guard opens no channel. -/
theorem dropGuard_nextChannel (f : SingleFlight κ ε) (key : κ) (outcome : Option ε) :
    (f.dropGuard key outcome).nextChannel = f.nextChannel := by
  unfold dropGuard
  split <;> rfl

variable {c : Nat}

/-- What a flight that was there sends. -/
theorem dropGuard_channels (f : SingleFlight κ ε) {key : κ} (h : f.entries key = some c) (outcome : Option ε) :
    (f.dropGuard key outcome).channels = Function.update f.channels c (.closed outcome) := by
  unfold dropGuard
  rw [h]

/-- A follower's channel: made, and either closed or that of its key's flight. -/
def Follows (f : SingleFlight κ ε) (key : κ) (c : Nat) : Prop :=
  c < f.nextChannel ∧ (f.channels c = .pending → f.entries key = some c)

omit [DecidableEq κ] in
/-- Who finds a flight follows it. -/
theorem Wf.follows (h : f.Wf) {key : κ} (hc : f.entries key = some c) : f.Follows key c := ⟨h.made key c hc, fun _ => hc⟩

variable {key key' : κ}

/-- Another leader changes nothing for a follower. -/
theorem Follows.lead (h : f.Follows key c) (hnone : f.entries key' = none) :
    (f.lead key').Follows key c := by
  refine ⟨Nat.lt_succ_of_lt h.1, fun hp => ?_⟩
  have hold : f.channels c = .pending := by
    rw [← hp]
    exact (Function.update_of_ne (Nat.ne_of_lt h.1) _ _).symm
  have hkey : key ≠ key' := fun heq => by
    rw [← heq, h.2 hold] at hnone
    cases hnone
  show Function.update f.entries key' (some f.nextChannel) key = some c
  rw [Function.update_of_ne hkey]
  exact h.2 hold

/-- A dropped guard keeps its followers. -/
theorem Follows.dropGuard (h : f.Follows key c) (outcome : Option ε) :
    (f.dropGuard key' outcome).Follows key c := by
  refine ⟨by rw [dropGuard_nextChannel]; exact h.1, fun hp => ?_⟩
  rw [dropGuard_entries]
  cases hd : f.entries key' with
  | none =>
    have hsame : f.dropGuard key' outcome = f := by unfold SingleFlight.dropGuard; rw [hd]
    rw [hsame] at hp
    rw [← hd, Function.update_eq_self]
    exact h.2 hp
  | some d =>
    rw [dropGuard_channels f hd] at hp
    have hcd : c ≠ d := fun heq => by
      rw [heq, Function.update_self] at hp
      cases hp
    rw [Function.update_of_ne hcd] at hp
    have hkey : key ≠ key' := fun heq => by
      rw [← heq, h.2 hp] at hd
      exact hcd (Option.some.inj hd)
    rw [Function.update_of_ne hkey]
    exact h.2 hp

/-- A follower's channel is not the new one. -/
theorem Follows.channels_lead (h : f.Follows key c) : (f.lead key').channels c = f.channels c :=
  Function.update_of_ne (Nat.ne_of_lt h.1) _ _

/-- What a follower is told was there before, or comes from the leader of its own key. -/
theorem Follows.channels_dropGuard (h : f.Follows key c) (hwf : f.Wf) {outcome : Option ε} {o : ε}
    (hc : (f.dropGuard key' outcome).channels c = .closed (some o)) :
    f.channels c = .closed (some o) ∨ (key = key' ∧ outcome = some o) := by
  cases hd : f.entries key' with
  | none =>
    have hsame : f.dropGuard key' outcome = f := by unfold SingleFlight.dropGuard; rw [hd]
    rw [hsame] at hc
    exact Or.inl hc
  | some d =>
    rw [dropGuard_channels f hd] at hc
    by_cases hcd : c = d
    · subst hcd
      rw [Function.update_self] at hc
      cases hc
      exact Or.inr ⟨hwf.inj key key' c (h.2 (hwf.pending key' c hd)) hd, rfl⟩
    · rw [Function.update_of_ne hcd] at hc
      exact Or.inl hc

end SingleFlight

/-! ## Waiting for a change

`wait_for_change` of `sync.rs` over a `Notify`. `notify_waiters` stores no permit: it reaches the `Notified` futures there are,
which know the number of such calls from when they were made. -/

/-- A `Notify`, as far as `notify_waiters` goes: how often it was called. -/
structure ChangeNotify where
  calls : Nat
deriving DecidableEq

/-- A `Notified` future, with the number of calls it was made at. -/
structure Notified where
  calls : Nat
deriving DecidableEq

namespace ChangeNotify

def new : ChangeNotify := ⟨0⟩

def notified (n : ChangeNotify) : Notified := ⟨n.calls⟩

def notifyWaiters (n : ChangeNotify) : ChangeNotify := ⟨n.calls + 1⟩

end ChangeNotify

/-- The future is ready: there was a call since it was made. -/
def Notified.ready (future : Notified) (n : ChangeNotify) : Bool := future.calls != n.calls

/-- Where a call of `wait_for_change` is. -/
inductive ChangeWait where
  /-- The check without registration. -/
  | first
  | registering
  /-- Registered, about to check again. -/
  | rechecking (future : Notified)
  | parked (future : Notified)
deriving DecidableEq

/-- A step of `wait_for_change`, where `check` gives a value now or none. -/
def ChangeWait.step {α : Type} (n : ChangeNotify) (check : Option α) : ChangeWait → Option (ChangeWait ⊕ α)
  | .first =>
    match check with
    | some value => some (.inr value)
    | none => some (.inl .registering)
  | .registering => some (.inl (.rechecking n.notified))
  | .rechecking future =>
    match check with
    | some value => some (.inr value)
    | none => some (.inl (.parked future))
  | .parked future => if future.ready n then some (.inl .registering) else none

end Biei
