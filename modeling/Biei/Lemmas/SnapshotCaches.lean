import Biei.Node.ViewCache
import Biei.Server.Membership
import Biei.Storage.Peer

/-!
# The snapshot caches as gates

Every step of a cache is a step of its gate, or none.
-/

namespace Biei

/-! ## The cluster view cache -/

section

variable {V : Type}

def ViewPhase.party : ViewPhase V → GateParty
  | .looping => .idle
  | .looking => .idle
  | .subscribing => .idle
  | .electing seen => .registered seen
  | .claimed => .refreshing
  | .fetching _ => .refreshing
  | .fetched .. => .refreshing
  | .storing .. => .refreshing
  | .abandoning _ => .refreshing
  | .announcing _ => .announcing
  | .waiting seen => .parked seen
  | .returned _ => .idle
  | .cancelled => .idle

theorem ViewNext.party_phase (next : ViewNext V) : next.phase.party = .idle := by
  cases next <;> rfl

namespace ClusterViewCache

def gate (s : ClusterViewCache V) : RefreshGate := ⟨s.state.loading, s.changed, s.callers.map fun caller => caller.phase.party⟩

variable {s s' : ClusterViewCache V} {i : Nat} {caller : ViewCaller V}

theorem goes_elect (hi : s.callers[i]? = some caller) {seen : Nat} (hphase : caller.phase = .electing seen) :
    s.gate.Goes (s.elect i caller seen).gate := by
  unfold elect
  split
  · exact .move_map (m := .leave) hi (congrArg ViewPhase.party hphase) rfl
  · split
    · rename_i hloading
      exact .move_map (m := .park) hi (congrArg ViewPhase.party hphase) (if_pos hloading)
    · rename_i hloading
      exact .move_map (m := .claim) hi (congrArg ViewPhase.party hphase) (RefreshGate.claim_of_clear hloading)

theorem goes_callerStep {step : ViewStep V} (hi : s.callers[i]? = some caller) (hs : s.callerStep i caller step = some s') :
    s.gate.Goes s'.gate := by
  unfold callerStep at hs
  split at hs
  · rename_i hphase
    cases hs
    split
    · exact .stay_map hi (congrArg ViewPhase.party hphase).symm
    · exact .stay_map hi (congrArg ViewPhase.party hphase).symm
  · rename_i hphase
    split at hs
    · cases hs
      exact .stay_map hi (congrArg ViewPhase.party hphase).symm
    · cases hs
      exact .stay_map hi (congrArg ViewPhase.party hphase).symm
  · rename_i hphase
    cases hs
    exact .move_map (m := .register) hi (congrArg ViewPhase.party hphase) rfl
  · rename_i seen hphase
    cases hs
    exact goes_elect hi hphase
  · rename_i hphase
    cases hs
    exact .stay_map hi (congrArg ViewPhase.party hphase).symm
  · rename_i view epoch hphase
    cases hs
    exact .stay_map hi (congrArg ViewPhase.party hphase).symm
  · rename_i epoch view madeIn hphase
    cases hs
    split
    · exact .stay_map hi (congrArg ViewPhase.party hphase).symm
    · exact .stay_map hi (congrArg ViewPhase.party hphase).symm
  · rename_i epoch view madeIn hphase
    cases hs
    exact .move_map (m := .finish) hi (congrArg ViewPhase.party hphase) rfl
  · rename_i next hphase
    cases hs
    exact .move_map (m := .finish) hi (congrArg ViewPhase.party hphase) rfl
  · rename_i next hphase
    cases hs
    refine .move_map (m := .announce) hi (congrArg ViewPhase.party hphase) ?_
    show _ = some (⟨_, _, (s.callers.map _).set i next.phase.party⟩ : RefreshGate)
    rw [next.party_phase]
    rfl
  · rename_i seen hphase
    split at hs
    · cases hs
      exact .move_map (m := .leave) hi (congrArg ViewPhase.party hphase) rfl
    · cases hs
  · rename_i epoch hphase
    split at hs
    · cases hs
      exact .stay_map hi (congrArg ViewPhase.party hphase).symm
    · cases hs
  · rename_i seen hphase
    split at hs
    · cases hs
      exact .move_map (m := .leave) hi (congrArg ViewPhase.party hphase) rfl
    · cases hs
  · rename_i epoch hphase
    cases hs
    exact .stay_map hi (congrArg ViewPhase.party hphase).symm
  · rename_i seen hphase
    cases hs
    exact .move_map (m := .leave) hi (congrArg ViewPhase.party hphase) rfl
  · cases hs

theorem goes_step {a : ViewAction V} (hs : s.step a = some s') : s.gate.Goes s'.gate := by
  cases a with
  | call deadline =>
    cases hs
    exact .join_map rfl
  | move i step =>
    obtain ⟨caller, hi, hs⟩ := Option.bind_eq_some_iff.mp hs
    exact goes_callerStep hi hs
  | advance d =>
    cases hs
    exact .refl s.gate
  | raiseEpoch epoch =>
    simp only [step] at hs
    split at hs
    · cases hs
      exact .refl s.gate
    · cases hs

theorem gate_sound {ttl : Duration} {epoch : Nat} (h : (machine ttl epoch).Reachable s) : s.gate.Sound :=
  RefreshGate.sound_of_reachable (h.map (N := RefreshGate.machine) gate rfl fun _ action _ _ hs => goes_step (a := action) hs)

/-! What the callers hold of the views that were stored. -/

/-- The view that was stored was made in an epoch that was current at some time in the call, and the caller stored it in the
call. -/
structure Own (s : ClusterViewCache V) (i : Nat) (startedAt : Instant) (startedIn : Nat) (l : StoredView V) : Prop where
  by_caller : l.storedBy = i
  since : startedAt ≤ l.storedAt
  epoch : startedIn ≤ l.madeIn
  current : l.madeIn ∈ s.epochs

def PhaseOk (s : ClusterViewCache V) (i : Nat) (startedAt : Instant) (startedIn : Nat) : ViewPhase V → Prop
  | .fetching epoch => startedIn ≤ epoch ∧ epoch ≤ s.epoch ∧ epoch ∈ s.epochs
  | .fetched epoch _ madeIn => startedIn ≤ epoch ∧ epoch ≤ madeIn ∧ madeIn ≤ s.epoch ∧ epoch ∈ s.epochs
  | .storing epoch _ madeIn => madeIn = epoch ∧ startedIn ≤ epoch ∧ epoch ∈ s.epochs
  | .abandoning next => ∀ view, next ≠ .give (some view)
  | .announcing next => ∀ view, next = .give (some view) → ∃ l ∈ s.stored, l.view = view ∧ Own s i startedAt startedIn l
  | .looping => True
  | .looking => True
  | .subscribing => True
  | .electing _ => True
  | .claimed => True
  | .waiting _ => True
  | .returned _ => True
  | .cancelled => True

/-- The cached view is one that was stored, with the epoch it was made in. -/
def CachedOk (s : ClusterViewCache V) (c : CachedClusterView V) : Prop :=
  ∃ l ∈ s.stored, l.view = c.view ∧ l.madeIn = c.gossipEpoch ∧ c.expiresAt = l.storedAt + s.ttl

structure Inv (s : ClusterViewCache V) : Prop where
  epoch : s.epoch ∈ s.epochs
  stored : ∀ l ∈ s.stored, l.storedAt ≤ s.now
  cached : ∀ c, s.state.cached = some c → s.CachedOk c
  callers : ∀ (i : Nat) caller, s.callers[i]? = some caller →
    caller.startedAt ≤ s.now ∧ caller.startedIn ≤ s.epoch ∧ s.PhaseOk i caller.startedAt caller.startedIn caller.phase

/-- Time goes on, epochs rise and views are added. -/
structure Grows (s s' : ClusterViewCache V) : Prop where
  ttl : s'.ttl = s.ttl
  now : s.now ≤ s'.now
  epoch : s.epoch ≤ s'.epoch
  epochs : s.epochs ⊆ s'.epochs
  stored : s.stored ⊆ s'.stored

variable {phase : ViewPhase V}

theorem PhaseOk.mono (h : s.Grows s') {startedAt : Instant} {startedIn : Nat}
    (hp : s.PhaseOk i startedAt startedIn phase) : s'.PhaseOk i startedAt startedIn phase := by
  cases phase with
  | fetching epoch => exact ⟨hp.1, hp.2.1.trans h.epoch, h.epochs hp.2.2⟩
  | fetched epoch view madeIn => exact ⟨hp.1, hp.2.1, hp.2.2.1.trans h.epoch, h.epochs hp.2.2.2⟩
  | storing epoch view madeIn => exact ⟨hp.1, hp.2.1, h.epochs hp.2.2⟩
  | abandoning next => exact hp
  | announcing next =>
    intro view hv
    obtain ⟨l, hl, hview, hown⟩ := hp view hv
    exact ⟨l, h.stored hl, hview, hown.by_caller, hown.since, hown.epoch, h.epochs hown.current⟩
  | looping => trivial
  | looking => trivial
  | subscribing => trivial
  | electing seen => trivial
  | claimed => trivial
  | waiting seen => trivial
  | returned view => trivial
  | cancelled => trivial

theorem CachedOk.mono (h : s.Grows s') {c : CachedClusterView V} (hc : s.CachedOk c) : s'.CachedOk c := by
  obtain ⟨l, hl, hview, hmade, hexpires⟩ := hc
  exact ⟨l, h.stored hl, hview, hmade, h.ttl ▸ hexpires⟩

/-- One caller moves to the phase, and the others see the rest grow. -/
theorem Inv.move (h : s.Inv) (hi : s.callers[i]? = some caller) (hgrows : s.Grows s')
    (hcallers : s'.callers = s.callers.set i { caller with phase := phase }) (hepoch : s'.epoch ∈ s'.epochs)
    (hstored : ∀ l ∈ s'.stored, l.storedAt ≤ s'.now) (hcached : ∀ c, s'.state.cached = some c → s'.CachedOk c)
    (hphase : s'.PhaseOk i caller.startedAt caller.startedIn phase) : s'.Inv := by
  refine ⟨hepoch, hstored, hcached, fun j other hother => ?_⟩
  rw [hcallers] at hother
  rcases getElem?_set_cases hi hother with ⟨rfl, rfl⟩ | ⟨-, hother⟩
  · obtain ⟨hat, hin, -⟩ := h.callers j caller hi
    exact ⟨hat.trans hgrows.now, hin.trans hgrows.epoch, hphase⟩
  · obtain ⟨hat, hin, hok⟩ := h.callers j other hother
    exact ⟨hat.trans hgrows.now, hin.trans hgrows.epoch, hok.mono hgrows⟩

/-- A step that stores nothing; it may set or clear the flag, and raise the version. -/
theorem Inv.setPhase (h : s.Inv) (hi : s.callers[i]? = some caller) (loading : Bool) (changed : Nat)
    (hphase : s.PhaseOk i caller.startedAt caller.startedIn phase) :
    Inv { s.setPhase i caller phase with state := ⟨s.state.cached, loading⟩, changed := changed } := by
  have hgrows : s.Grows { s.setPhase i caller phase with state := ⟨s.state.cached, loading⟩, changed := changed } :=
    ⟨rfl, Nat.le_refl _, Nat.le_refl _, fun _ h => h, fun _ h => h⟩
  exact h.move hi hgrows rfl h.epoch h.stored (fun c hc => (h.cached c hc).mono hgrows) (hphase.mono hgrows)

theorem Inv.elect (h : s.Inv) (hi : s.callers[i]? = some caller) (seen : Nat) : (s.elect i caller seen).Inv := by
  unfold ClusterViewCache.elect
  split
  · exact h.setPhase hi _ _ trivial
  · split
    · exact h.setPhase hi _ _ trivial
    · exact h.setPhase hi _ _ trivial

/-- A view is stored that was made in the epoch that it is stored under. -/
theorem Inv.store (h : s.Inv) (hi : s.callers[i]? = some caller) {epoch madeIn : Nat} {view : V}
    (hphase : caller.phase = .storing epoch view madeIn) : (s.store i caller epoch view madeIn).Inv := by
  obtain ⟨hat, -, hok⟩ := h.callers i caller hi
  rw [hphase] at hok
  obtain ⟨rfl, hsince, hcurrent⟩ := hok
  have hgrows : s.Grows (s.store i caller madeIn view madeIn) :=
    ⟨rfl, Nat.le_refl _, Nat.le_refl _, fun _ h => h, fun _ h => List.mem_append_left _ h⟩
  have hmem : (⟨view, madeIn, s.now, i⟩ : StoredView V) ∈ (s.store i caller madeIn view madeIn).stored :=
    List.mem_append_right _ (List.mem_singleton.mpr rfl)
  refine h.move hi hgrows rfl h.epoch (fun l hl => ?_) (fun c hc => ?_) fun v hv => ?_
  · rcases List.mem_append.mp hl with hl | hl
    · exact h.stored l hl
    · rw [List.mem_singleton.mp hl]
      exact Nat.le_refl _
  · cases hc
    exact ⟨_, hmem, rfl, rfl, rfl⟩
  · injection hv with hv
    exact ⟨_, hmem, Option.some.inj hv, rfl, hat, hsince, hcurrent⟩

theorem Inv.callerStep {step : ViewStep V} (h : s.Inv) (hi : s.callers[i]? = some caller)
    (hs : s.callerStep i caller step = some s') : s'.Inv := by
  obtain ⟨-, hin, hok⟩ := h.callers i caller hi
  unfold ClusterViewCache.callerStep at hs
  split at hs
  · cases hs
    split
    · exact h.setPhase hi _ _ trivial
    · exact h.setPhase hi _ _ trivial
  · split at hs
    · cases hs
      exact h.setPhase hi _ _ trivial
    · cases hs
      exact h.setPhase hi _ _ trivial
  · cases hs
    exact h.setPhase hi _ _ trivial
  · cases hs
    exact h.elect hi _
  · cases hs
    exact h.setPhase hi _ _ ⟨hin, Nat.le_refl _, h.epoch⟩
  · rename_i epoch hphase
    rw [hphase] at hok
    cases hs
    exact h.setPhase hi _ _ ⟨hok.1, hok.2.1, Nat.le_refl _, hok.2.2⟩
  · rename_i epoch view madeIn hphase
    rw [hphase] at hok
    cases hs
    split
    · exact h.setPhase hi _ _ fun _ hv => by cases hv
    · -- the epoch that rose no further than where it was read is the one the view was made in
      rename_i hsame
      have hepoch : s.epoch = epoch := not_not.mp hsame
      have hmade : madeIn = epoch := Nat.le_antisymm (hepoch ▸ hok.2.2.1) hok.2.1
      exact h.setPhase hi _ _ ⟨hmade, hok.1, hok.2.2.2⟩
  · rename_i epoch view madeIn hphase
    cases hs
    exact h.store hi hphase
  · rename_i next hphase
    rw [hphase] at hok
    cases hs
    exact h.setPhase hi _ _ fun view hv => absurd hv (hok view)
  · rename_i next hphase
    cases hs
    refine h.setPhase hi _ _ ?_
    cases next with
    | retry => trivial
    | give view => trivial
    | gone => trivial
  · split at hs
    · cases hs
      exact h.setPhase hi _ _ trivial
    · cases hs
  · split at hs
    · cases hs
      exact h.setPhase hi _ _ fun _ hv => by cases hv
    · cases hs
  · split at hs
    · cases hs
      exact h.setPhase hi _ _ trivial
    · cases hs
  · cases hs
    exact h.setPhase hi _ _ fun _ hv => by cases hv
  · cases hs
    exact h.setPhase hi _ _ trivial
  · cases hs

/-- The callers see the clock and the epoch go on. -/
theorem Inv.grow (h : s.Inv) (hgrows : s.Grows s') (hcallers : s'.callers = s.callers) (hstored : s'.stored = s.stored)
    (hstate : s'.state = s.state) (hepoch : s'.epoch ∈ s'.epochs) : s'.Inv := by
  refine ⟨hepoch, fun l hl => (h.stored l (hstored ▸ hl)).trans hgrows.now, fun c hc => (h.cached c (hstate ▸ hc)).mono hgrows,
    fun i caller hi => ?_⟩
  obtain ⟨hat, hin, hok⟩ := h.callers i caller (hcallers ▸ hi)
  exact ⟨hat.trans hgrows.now, hin.trans hgrows.epoch, hok.mono hgrows⟩

theorem Inv.step {a : ViewAction V} (h : s.Inv) (hs : s.step a = some s') : s'.Inv := by
  cases a with
  | call deadline =>
    cases hs
    have hgrows : s.Grows { s with callers := s.callers ++ [⟨deadline, s.now, s.epoch, .looping⟩] } :=
      ⟨rfl, Nat.le_refl _, Nat.le_refl _, fun _ h => h, fun _ h => h⟩
    refine ⟨h.epoch, h.stored, fun c hc => (h.cached c hc).mono hgrows, fun i caller hi => ?_⟩
    rcases getElem?_concat_cases hi with ⟨-, rfl⟩ | hi
    · exact ⟨Nat.le_refl _, Nat.le_refl _, trivial⟩
    · obtain ⟨hat, hin, hok⟩ := h.callers i caller hi
      exact ⟨hat, hin, hok.mono hgrows⟩
  | move i step =>
    obtain ⟨caller, hi, hs⟩ := Option.bind_eq_some_iff.mp hs
    exact h.callerStep hi hs
  | advance d =>
    cases hs
    exact h.grow ⟨rfl, Nat.le_add_right _ _, Nat.le_refl _, fun _ h => h, fun _ h => h⟩ rfl rfl rfl h.epoch
  | raiseEpoch epoch =>
    simp only [ClusterViewCache.step] at hs
    split at hs
    · rename_i hlt
      cases hs
      exact h.grow ⟨rfl, Nat.le_refl _, Nat.le_of_lt hlt, fun _ h => List.mem_append_left _ h, fun _ h => h⟩ rfl rfl rfl
        (List.mem_append_right _ (List.mem_singleton.mpr rfl))
    · cases hs

theorem inv_of_reachable {ttl : Duration} {epoch : Nat} (h : (machine ttl epoch).Reachable s) : s.Inv := by
  refine h.invariant (I := Inv) ⟨List.mem_singleton.mpr rfl, fun _ hl => absurd hl List.not_mem_nil, fun _ hc =>
    (by cases hc), ?_⟩
    fun _ a _ hi hs => hi.step (a := a) hs
  intro i caller hi
  simp [machine, new] at hi

end ClusterViewCache

end

/-! ## The peer snapshot cache -/

section

variable {P : Type}

def PeerLoadPhase.party : PeerLoadPhase P → GateParty
  | .looping => .idle
  | .subscribing => .idle
  | .electing seen => .registered seen
  | .claimed => .refreshing
  | .fetching => .refreshing
  | .fetched _ => .refreshing
  | .abandoning => .refreshing
  | .announcing _ => .announcing
  | .waiting seen => .parked seen
  | .returned _ => .idle
  | .cancelled => .idle
  | .panicked => .idle

/-- The loader is there until it is called, which happens once, and is there when it is to be called. -/
def PeerLoadCaller.Ok (caller : PeerLoadCaller P) : Prop :=
  (caller.load = true ∧ caller.calls = 0 ∨ caller.load = false ∧ caller.calls = 1) ∧
    match caller.phase with
    | .looping => caller.load = true
    | .subscribing => caller.load = true
    | .electing _ => caller.load = true
    | .claimed => caller.load = true
    | .waiting _ => caller.load = true
    | .panicked => False
    | .fetching => True
    | .fetched _ => True
    | .abandoning => True
    | .announcing _ => True
    | .returned _ => True
    | .cancelled => True

namespace PeerSnapshotCache

def gate (s : PeerSnapshotCache P) : RefreshGate := ⟨s.state.loading, s.changed, s.callers.map fun caller => caller.phase.party⟩

variable {s s' : PeerSnapshotCache P} {i : Nat} {caller : PeerLoadCaller P}

theorem announced_party (peers : Option P) : (peers.elim PeerLoadPhase.cancelled PeerLoadPhase.returned).party = .idle := by
  cases peers <;> rfl

theorem goes_elect (hi : s.callers[i]? = some caller) {seen : Nat} (hphase : caller.phase = .electing seen) :
    s.gate.Goes (s.elect i caller seen).gate := by
  unfold elect
  split
  · exact .move_map (m := .leave) hi (congrArg PeerLoadPhase.party hphase) rfl
  · split
    · rename_i hloading
      exact .move_map (m := .park) hi (congrArg PeerLoadPhase.party hphase) (if_pos hloading)
    · rename_i hloading
      exact .move_map (m := .claim) hi (congrArg PeerLoadPhase.party hphase) (RefreshGate.claim_of_clear hloading)

theorem goes_callerStep {step : PeerLoadStep P} (hi : s.callers[i]? = some caller) (hok : caller.Ok)
    (hs : s.callerStep i caller step = some s') : s.gate.Goes s'.gate := by
  unfold callerStep at hs
  split at hs
  · rename_i hphase
    split at hs
    · cases hs
      exact .stay_map hi (congrArg PeerLoadPhase.party hphase).symm
    · cases hs
      exact .stay_map hi (congrArg PeerLoadPhase.party hphase).symm
  · rename_i hphase
    cases hs
    exact .move_map (m := .register) hi (congrArg PeerLoadPhase.party hphase) rfl
  · rename_i seen hphase
    cases hs
    exact goes_elect hi hphase
  · rename_i hphase
    have hload : caller.load = true := by
      have hload := hok.2
      rw [hphase] at hload
      exact hload
    rw [← Option.some.inj hs, callLoader, if_pos hload]
    exact .stay_map hi (congrArg PeerLoadPhase.party hphase).symm
  · rename_i peers hphase
    cases hs
    exact .stay_map hi (congrArg PeerLoadPhase.party hphase).symm
  · rename_i peers hphase
    cases hs
    exact .move_map (m := .finish) hi (congrArg PeerLoadPhase.party hphase) rfl
  · rename_i hphase
    cases hs
    exact .move_map (m := .finish) hi (congrArg PeerLoadPhase.party hphase) rfl
  · rename_i peers hphase
    cases hs
    refine .move_map (m := .announce) hi (congrArg PeerLoadPhase.party hphase) ?_
    show _ = some (⟨_, _, (s.callers.map _).set i (peers.elim PeerLoadPhase.cancelled PeerLoadPhase.returned).party⟩ :
      RefreshGate)
    rw [announced_party]
    rfl
  · rename_i seen hphase
    split at hs
    · cases hs
      exact .move_map (m := .leave) hi (congrArg PeerLoadPhase.party hphase) rfl
    · cases hs
  · rename_i hphase
    cases hs
    exact .stay_map hi (congrArg PeerLoadPhase.party hphase).symm
  · rename_i seen hphase
    cases hs
    exact .move_map (m := .leave) hi (congrArg PeerLoadPhase.party hphase) rfl
  · cases hs

/-- A step moves the one caller, and keeps its loader right. -/
theorem callerStep_ok {step : PeerLoadStep P} (hok : caller.Ok) (hs : s.callerStep i caller step = some s') :
    ∃ caller', s'.callers = s.callers.set i caller' ∧ caller'.Ok := by
  have hload := hok.2
  unfold callerStep at hs
  split at hs
  · rename_i hphase
    rw [hphase] at hload
    split at hs
    · cases hs
      exact ⟨_, rfl, hok.1, trivial⟩
    · cases hs
      exact ⟨_, rfl, hok.1, hload⟩
  · rename_i hphase
    rw [hphase] at hload
    cases hs
    exact ⟨_, rfl, hok.1, hload⟩
  · rename_i seen hphase
    rw [hphase] at hload
    cases hs
    unfold elect
    split
    · exact ⟨_, rfl, hok.1, trivial⟩
    · split
      · exact ⟨_, rfl, hok.1, hload⟩
      · exact ⟨_, rfl, hok.1, hload⟩
  · rename_i hphase
    rw [hphase] at hload
    rw [← Option.some.inj hs, callLoader, if_pos hload]
    refine ⟨_, rfl, Or.inr ⟨rfl, ?_⟩, trivial⟩
    rcases hok.1 with ⟨-, hcalls⟩ | ⟨hnone, -⟩
    · exact congrArg (· + 1) hcalls
    · exact absurd (hload.symm.trans hnone) (by decide)
  · cases hs
    exact ⟨_, rfl, hok.1, trivial⟩
  · cases hs
    exact ⟨_, rfl, hok.1, trivial⟩
  · cases hs
    exact ⟨_, rfl, hok.1, trivial⟩
  · rename_i peers hphase
    cases hs
    refine ⟨_, rfl, hok.1, ?_⟩
    cases peers with
    | none => trivial
    | some peers => trivial
  · rename_i seen hphase
    rw [hphase] at hload
    split at hs
    · cases hs
      exact ⟨_, rfl, hok.1, hload⟩
    · cases hs
  · cases hs
    exact ⟨_, rfl, hok.1, trivial⟩
  · cases hs
    exact ⟨_, rfl, hok.1, trivial⟩
  · cases hs

theorem callers_ok {ttl : Duration} (h : (machine ttl).Reachable s) : ∀ caller ∈ s.callers, caller.Ok := by
  refine h.invariant (I := fun s => ∀ caller ∈ s.callers, caller.Ok) (fun _ hc => absurd hc List.not_mem_nil)
    fun s a s' hok hs => ?_
  cases a with
  | call =>
    cases hs
    intro caller hcaller
    rcases List.mem_append.mp hcaller with hcaller | hcaller
    · exact hok caller hcaller
    · rw [List.mem_singleton.mp hcaller]
      exact ⟨Or.inl ⟨rfl, rfl⟩, rfl⟩
  | move i step =>
    obtain ⟨caller, hi, hs⟩ := Option.bind_eq_some_iff.mp hs
    obtain ⟨caller', hcallers, hok'⟩ := callerStep_ok (hok caller (List.mem_of_getElem? hi)) hs
    rw [hcallers]
    intro other hother
    rcases List.mem_or_eq_of_mem_set hother with hother | rfl
    · exact hok other hother
    · exact hok'
  | advance d =>
    cases hs
    exact hok

theorem goes_step {a : PeerLoadAction P} (hok : ∀ caller ∈ s.callers, caller.Ok) (hs : s.step a = some s') :
    s.gate.Goes s'.gate := by
  cases a with
  | call =>
    cases hs
    exact .join_map rfl
  | move i step =>
    obtain ⟨caller, hi, hs⟩ := Option.bind_eq_some_iff.mp hs
    exact goes_callerStep hi (hok caller (List.mem_of_getElem? hi)) hs
  | advance d =>
    cases hs
    exact .refl s.gate

theorem gate_sound {ttl : Duration} (h : (machine ttl).Reachable s) : s.gate.Sound :=
  RefreshGate.sound_of_reachable
    (h.map (N := RefreshGate.machine) gate rfl fun _ a _ hr hs => goes_step (a := a) (callers_ok hr) hs)

end PeerSnapshotCache

end

/-! ## Peer addresses -/

section

variable {N A : Type}

def ChangeWait.party : ChangeWait → GateParty
  | .first => .idle
  | .registering => .idle
  | .rechecking future => .registered future.calls
  | .parked future => .parked future.calls

def AddressPhase.party : AddressPhase N A → GateParty
  | .changing wait => wait.party
  | .loading => .refreshing
  | .loaded _ => .refreshing
  | .abandoning => .refreshing
  | .announcing _ => .announcing
  | .returned _ => .idle
  | .cancelled => .idle

namespace PeerAddresses

def gate (s : PeerAddresses N A) : RefreshGate := ⟨s.state.refreshing, s.changed.calls, s.lookups.map fun lookup =>
    lookup.phase.party⟩

variable {s s' : PeerAddresses N A} {i : Nat} {lookup : AddressLookup N A}

theorem announced_party (answer : Option (Option A)) :
    (answer.elim AddressPhase.cancelled AddressPhase.returned : AddressPhase N A).party = .idle := by
  cases answer <;> rfl

/-- A check that finds nothing leaves the state and finds the flag set; one that finds an answer leaves the state; one that is to
refresh finds the flag clear, and sets it. -/
theorem check_cases (state : PeerAddressCacheState N A) (nodeId : N) (now : Instant) :
    (state.check nodeId now = (state, none) ∧ state.refreshing = true) ∨
      (∃ address, state.check nodeId now = (state, some (.answer address))) ∨
      (state.check nodeId now = ({ state with refreshing := true }, some .refresh) ∧ ¬state.refreshing = true) := by
  unfold PeerAddressCacheState.check
  split
  · split
    · exact Or.inr (Or.inl ⟨_, rfl⟩)
    · split
      · exact Or.inr (Or.inl ⟨_, rfl⟩)
      · rename_i hclear
        exact Or.inr (Or.inr ⟨rfl, hclear⟩)
  · split
    · rename_i hset
      exact Or.inl ⟨rfl, hset⟩
    · rename_i hclear
      exact Or.inr (Or.inr ⟨rfl, hclear⟩)

theorem goes_change {wait : ChangeWait} (hi : s.lookups[i]? = some lookup) (hphase : lookup.phase = .changing wait)
    (hs : s.change i lookup wait = some s') : s.gate.Goes s'.gate := by
  unfold change at hs
  cases wait with
  | first =>
    rcases check_cases s.state lookup.nodeId s.now with ⟨hc, -⟩ | ⟨address, hc⟩ | ⟨hc, hclear⟩
    · rw [hc] at hs
      cases hs
      exact .stay_map hi (congrArg AddressPhase.party hphase).symm
    · rw [hc] at hs
      cases hs
      exact .stay_map hi (congrArg AddressPhase.party hphase).symm
    · rw [hc] at hs
      cases hs
      exact .move_map (m := .claim) hi (congrArg AddressPhase.party hphase) (RefreshGate.claim_of_clear hclear)
  | registering =>
    cases hs
    exact .move_map (m := .register) hi (congrArg AddressPhase.party hphase) rfl
  | rechecking future =>
    rcases check_cases s.state lookup.nodeId s.now with ⟨hc, hset⟩ | ⟨address, hc⟩ | ⟨hc, hclear⟩
    · rw [hc] at hs
      cases hs
      exact .move_map (m := .park) hi (congrArg AddressPhase.party hphase) (if_pos hset)
    · rw [hc] at hs
      cases hs
      exact .move_map (m := .leave) hi (congrArg AddressPhase.party hphase) rfl
    · rw [hc] at hs
      cases hs
      exact .move_map (m := .claim) hi (congrArg AddressPhase.party hphase) (RefreshGate.claim_of_clear hclear)
  | parked future =>
    simp only [ChangeWait.step] at hs
    split at hs
    · cases hs
      exact .move_map (m := .leave) hi (congrArg AddressPhase.party hphase) rfl
    · cases hs

theorem goes_lookupStep {step : AddressStep N A} (hi : s.lookups[i]? = some lookup) (hs : s.lookupStep i lookup step = some s') :
    s.gate.Goes s'.gate := by
  unfold lookupStep at hs
  split at hs
  · rename_i wait hphase
    exact goes_change hi hphase hs
  · rename_i addresses hphase
    cases hs
    exact .stay_map hi (congrArg AddressPhase.party hphase).symm
  · rename_i addresses hphase
    cases hs
    exact .move_map (m := .finish) hi (congrArg AddressPhase.party hphase) rfl
  · rename_i hphase
    cases hs
    exact .move_map (m := .finish) hi (congrArg AddressPhase.party hphase) rfl
  · rename_i answer hphase
    cases hs
    refine .move_map (m := .announce) hi (congrArg AddressPhase.party hphase) ?_
    show _ = some (⟨_, _, (s.lookups.map _).set i
      (answer.elim AddressPhase.cancelled AddressPhase.returned : AddressPhase N A).party⟩ : RefreshGate)
    rw [announced_party]
    rfl
  · rename_i hphase
    cases hs
    exact .stay_map hi (congrArg AddressPhase.party hphase).symm
  · rename_i future hphase
    cases hs
    exact .move_map (m := .leave) hi (congrArg AddressPhase.party hphase) rfl
  · cases hs

theorem goes_step {a : AddressAction N A} (hs : s.step a = some s') : s.gate.Goes s'.gate := by
  cases a with
  | lookUp nodeId =>
    cases hs
    exact .join_map rfl
  | move i step =>
    obtain ⟨lookup, hi, hs⟩ := Option.bind_eq_some_iff.mp hs
    exact goes_lookupStep hi hs
  | advance d =>
    cases hs
    exact .refl s.gate

theorem gate_sound (h : machine.Reachable s) : s.gate.Sound :=
  RefreshGate.sound_of_reachable (h.map (N := RefreshGate.machine) gate rfl fun _ a _ _ hs => goes_step (a := a) hs)

end PeerAddresses

end

end Biei
