import Biei.Lemmas.SnapshotCaches

/-! # What the snapshot caches promise -/

namespace Biei

/-! ## The cluster view cache -/

namespace ClusterViewCache

variable {V : Type} {s s' : ClusterViewCache V} {i : Nat} {caller caller' : ViewCaller V} {view : V}

/-- The view was made in an epoch that was current at some time in the call, and stored less than twice the `ttl` ago, or by the
caller in its call. -/
def Served (s : ClusterViewCache V) (i : Nat) (caller : ViewCaller V) (view : V) : Prop :=
  ∃ l ∈ s.stored, l.view = view ∧ l.madeIn ∈ s.epochs ∧ caller.startedIn ≤ l.madeIn ∧ l.storedAt ≤ s.now ∧
    (s.now < l.storedAt + 2 * s.ttl ∨ (l.storedBy = i ∧ caller.startedAt ≤ l.storedAt))

/-- A view that can be used is of the current epoch. -/
theorem Inv.served_of_usable (h : s.Inv) (hi : s.callers[i]? = some caller) (hu : s.usable = some view) :
    s.Served i caller view := by
  obtain ⟨-, hin, -⟩ := h.callers i caller hi
  unfold usable usableCachedView at hu
  split at hu
  · cases hu
  · rename_i c hc
    split at hu
    · cases hu
    · rename_i hepoch
      have hsame : c.gossipEpoch = s.epoch := not_not.mp hepoch
      split at hu
      · rename_i hfresh
        obtain ⟨l, hl, hview, hmade, hexpires⟩ := h.cached c hc
        have hmadeIn : l.madeIn = s.epoch := hmade.trans hsame
        refine ⟨l, hl, hview.trans (Option.some.inj hu), hmadeIn ▸ h.epoch, hmadeIn ▸ hin, h.stored l hl, Or.inl ?_⟩
        rw [hexpires] at hfresh
        rcases hfresh with hlt | ⟨-, hlt⟩ <;> lia
      · cases hu

/-- A step moves the one caller. -/
theorem callerStep_set {step : ViewStep V} (hs : s.callerStep i caller step = some s') :
    ∃ phase, s'.callers = s.callers.set i { caller with phase := phase } := by
  unfold callerStep at hs
  split at hs
  case h_4 =>
    cases hs
    unfold elect
    split
    · exact ⟨_, rfl⟩
    · split
      · exact ⟨_, rfl⟩
      · exact ⟨_, rfl⟩
  case h_2 =>
    split at hs
    · exact ⟨_, congrArg ClusterViewCache.callers (Option.some.inj hs).symm⟩
    · exact ⟨_, congrArg ClusterViewCache.callers (Option.some.inj hs).symm⟩
  case h_11 | h_12 | h_13 =>
    split at hs
    · exact ⟨_, congrArg ClusterViewCache.callers (Option.some.inj hs).symm⟩
    · cases hs
  case h_16 => cases hs
  all_goals exact ⟨_, congrArg ClusterViewCache.callers (Option.some.inj hs).symm⟩

/-- A caller that returns a view was served it. -/
theorem Inv.returns_callerStep {step : ViewStep V} (h : s.Inv) (hi : s.callers[i]? = some caller)
    (hs : s.callerStep i caller step = some s') (hi' : s'.callers[i]? = some caller')
      (hr : caller'.phase = .returned (some view)) :
    s.Served i caller view := by
  have hset : ∀ phase, s'.callers = s.callers.set i { caller with phase := phase } → phase = .returned (some view) := by
    intro phase hnew
    rw [hnew, getElem?_set_of_some hi] at hi'
    rw [← hr, ← Option.some.inj hi']
  obtain ⟨-, -, hok⟩ := h.callers i caller hi
  unfold ClusterViewCache.callerStep at hs
  split at hs
  · cases hs
    have hphase := hset _ rfl
    split at hphase
    · cases hphase
    · cases hphase
  · split at hs
    · rename_i given hgiven
      cases hs
      injection hset _ rfl with hview
      cases hview
      exact h.served_of_usable hi hgiven
    · cases hs
      cases hset _ rfl
  · cases hs
    cases hset _ rfl
  · cases hs
    unfold ClusterViewCache.elect at hset
    split at hset
    · rename_i given hgiven
      injection hset _ rfl with hview
      cases hview
      exact h.served_of_usable hi hgiven
    · split at hset
      · cases hset _ rfl
      · cases hset _ rfl
  · cases hs
    cases hset _ rfl
  · cases hs
    cases hset _ rfl
  · cases hs
    have hphase := hset _ rfl
    split at hphase
    · cases hphase
    · cases hphase
  · cases hs
    cases hset _ rfl
  · cases hs
    cases hset _ rfl
  · -- the caller's own load is over
    rename_i next hphase
    rw [hphase] at hok
    cases hs
    have hnext := hset _ rfl
    cases next with
    | retry => cases hnext
    | gone => cases hnext
    | give given =>
      injection hnext with hview
      obtain ⟨l, hl, hlview, hown⟩ := hok view (congrArg _ hview)
      exact ⟨l, hl, hlview, hown.current, hown.epoch, h.stored l hl, Or.inr ⟨hown.by_caller, hown.since⟩⟩
  · split at hs
    · cases hs
      cases hset _ rfl
    · cases hs
  · split at hs
    · cases hs
      cases hset _ rfl
    · cases hs
  · split at hs
    · cases hs
      injection hset _ rfl with hview
      cases hview
    · cases hs
  · cases hs
    cases hset _ rfl
  · cases hs
    cases hset _ rfl
  · cases hs

theorem Inv.returns {a : ViewAction V} (h : s.Inv) (hs : s.step a = some s') (hi : s.callers[i]? = some caller)
    (hnot : ∀ view, caller.phase ≠ .returned view) (hi' : s'.callers[i]? = some caller')
    (hr : caller'.phase = .returned (some view)) : s.Served i caller view := by
  have hsame : s'.callers[i]? = s.callers[i]? → s.Served i caller view := by
    intro heq
    rw [heq, hi] at hi'
    cases hi'
    exact absurd hr (hnot _)
  cases a with
  | call deadline =>
    cases hs
    exact hsame (by rw [hi]; exact getElem?_concat_of_some hi _)
  | move j step =>
    obtain ⟨mover, hj, hs⟩ := Option.bind_eq_some_iff.mp hs
    by_cases hne : i = j
    · subst hne
      cases hi.symm.trans hj
      exact h.returns_callerStep hi hs hi' hr
    · obtain ⟨phase, hcallers⟩ := callerStep_set hs
      exact hsame (by rw [hcallers, List.getElem?_set_ne (Ne.symm hne)])
  | advance d =>
    cases hs
    exact hsame rfl
  | raiseEpoch epoch =>
    simp only [ClusterViewCache.step] at hs
    split at hs
    · cases hs
      exact hsame rfl
    · cases hs

end ClusterViewCache

/-! ## The peer snapshot cache -/

namespace PeerSnapshotCache

variable {P : Type} {s s' : PeerSnapshotCache P} {i : Nat} {caller : PeerLoadCaller P}

/-- A step leaves the snapshot, or stores one now; and a caller that gets peers gets fresh ones, or its own. -/
theorem callerStep_effect {step : PeerLoadStep P} (hs : s.callerStep i caller step = some s') :
    s'.now = s.now ∧ (s'.state.cached = s.state.cached ∨ ∃ peers, s'.state.cached = some ⟨s.now, peers⟩) ∧
      ∃ caller', s'.callers = s.callers.set i caller' ∧
        ∀ peers, caller'.phase = .returned peers → s.get = some peers ∨ caller.phase = .announcing (some peers) := by
  unfold callerStep at hs
  split at hs
  · split at hs
    · rename_i given hgiven
      cases hs
      refine ⟨rfl, Or.inl rfl, _, rfl, fun peers hp => Or.inl ?_⟩
      injection hp with hp
      exact hp ▸ hgiven
    · cases hs
      exact ⟨rfl, Or.inl rfl, _, rfl, fun _ hp => by cases hp⟩
  · cases hs
    exact ⟨rfl, Or.inl rfl, _, rfl, fun _ hp => by cases hp⟩
  · cases hs
    unfold elect
    split
    · rename_i given hgiven
      refine ⟨rfl, Or.inl rfl, _, rfl, fun peers hp => Or.inl ?_⟩
      injection hp with hp
      exact hp ▸ hgiven
    · split
      · exact ⟨rfl, Or.inl rfl, _, rfl, fun _ hp => by cases hp⟩
      · exact ⟨rfl, Or.inl rfl, _, rfl, fun _ hp => by cases hp⟩
  · cases hs
    unfold callLoader
    split
    · exact ⟨rfl, Or.inl rfl, _, rfl, fun _ hp => by cases hp⟩
    · exact ⟨rfl, Or.inl rfl, _, rfl, fun _ hp => by cases hp⟩
  · cases hs
    exact ⟨rfl, Or.inl rfl, _, rfl, fun _ hp => by cases hp⟩
  · cases hs
    exact ⟨rfl, Or.inr ⟨_, rfl⟩, _, rfl, fun _ hp => by cases hp⟩
  · cases hs
    exact ⟨rfl, Or.inl rfl, _, rfl, fun _ hp => by cases hp⟩
  · rename_i given hphase
    cases hs
    refine ⟨rfl, Or.inl rfl, _, rfl, fun peers hp => Or.inr ?_⟩
    cases given with
    | none => cases hp
    | some given =>
      injection hp with hp
      exact hp ▸ hphase
  · split at hs
    · cases hs
      exact ⟨rfl, Or.inl rfl, _, rfl, fun _ hp => by cases hp⟩
    · cases hs
  · cases hs
    exact ⟨rfl, Or.inl rfl, _, rfl, fun _ hp => by cases hp⟩
  · cases hs
    exact ⟨rfl, Or.inl rfl, _, rfl, fun _ hp => by cases hp⟩
  · cases hs

/-- The clock is not behind the snapshot. -/
theorem storedAt_le {ttl : Duration} (h : (machine ttl).Reachable s) : ∀ snapshot, s.state.cached = some snapshot →
    snapshot.storedAt ≤ s.now := by
  refine h.invariant (I := fun s => ∀ snapshot, s.state.cached = some snapshot → snapshot.storedAt ≤ s.now)
    (fun _ hc => by cases hc)
    fun s a s' hle hs => ?_
  cases a with
  | call =>
    cases hs
    exact hle
  | advance d =>
    cases hs
    exact fun snapshot hc => (hle snapshot hc).trans (Nat.le_add_right _ _)
  | move i step =>
    obtain ⟨caller, hi, hs⟩ := Option.bind_eq_some_iff.mp hs
    obtain ⟨hnow, hcached | ⟨peers, hcached⟩, -⟩ := callerStep_effect hs
    · rw [hnow, hcached]
      exact hle
    · intro snapshot hc
      rw [hcached] at hc
      rw [hnow, ← Option.some.inj hc]

/-- The snapshot is the cached one, stored less than the `ttl` ago; or the caller had loaded it. -/
def Hit (s : PeerSnapshotCache P) (caller : PeerLoadCaller P) (peers : P) : Prop :=
  (∃ snapshot, s.state.cached = some snapshot ∧ snapshot.peers = peers ∧ snapshot.storedAt ≤ s.now ∧
    s.now < snapshot.storedAt + s.ttl) ∨ caller.phase = .announcing (some peers)

theorem returns {ttl : Duration} (h : (machine ttl).Reachable s) {a : PeerLoadAction P} (hs : s.step a = some s')
    (hi : s.callers[i]? = some caller) (hnot : ∀ peers, caller.phase ≠ .returned peers) {caller' : PeerLoadCaller P}
    (hi' : s'.callers[i]? = some caller') {peers : P} (hr : caller'.phase = .returned peers) : s.Hit caller peers := by
  have hsame : s'.callers[i]? = s.callers[i]? → s.Hit caller peers := by
    intro heq
    rw [heq, hi] at hi'
    cases hi'
    exact absurd hr (hnot _)
  cases a with
  | call =>
    cases hs
    exact hsame (by rw [hi]; exact getElem?_concat_of_some hi _)
  | advance d =>
    cases hs
    exact hsame rfl
  | move j step =>
    obtain ⟨mover, hj, hs⟩ := Option.bind_eq_some_iff.mp hs
    obtain ⟨-, -, moved, hcallers, hreturned⟩ := callerStep_effect hs
    by_cases hne : i = j
    · subst hne
      cases hi.symm.trans hj
      rw [hcallers, getElem?_set_of_some hi] at hi'
      cases hi'
      rcases hreturned peers hr with hget | hown
      · obtain ⟨snapshot, hcached, hage⟩ := Option.bind_eq_some_iff.mp hget
        split at hage
        · rename_i hyoung
          have hle := storedAt_le h snapshot hcached
          exact Or.inl ⟨snapshot, hcached, Option.some.inj hage, hle, by lia⟩
        · cases hage
      · exact Or.inr hown
    · exact hsame (by rw [hcallers, List.getElem?_set_ne (Ne.symm hne)])

end PeerSnapshotCache

/-! ## All of it -/

/-- The three caches over all runs. -/
theorem snapshot_caches_kept :
    (∀ (V : Type) (ttl : Duration) (epoch : Nat) (s : ClusterViewCache V), (ClusterViewCache.machine ttl epoch).Reachable s →
      s.gate.Kept ∧ ∀ a s' (i : Nat) caller caller' view, s.step a = some s' → s.callers[i]? = some caller →
        (∀ view, caller.phase ≠ .returned view) → s'.callers[i]? = some caller' → caller'.phase = .returned (some view) →
        s.Served i caller view) ∧
    (∀ (P : Type) (ttl : Duration) (s : PeerSnapshotCache P), (PeerSnapshotCache.machine ttl).Reachable s →
      s.gate.Kept ∧ (∀ caller ∈ s.callers, caller.calls ≤ 1 ∧ caller.phase ≠ .panicked) ∧
      ∀ a s' (i : Nat) caller caller' peers, s.step a = some s' → s.callers[i]? = some caller →
        (∀ peers, caller.phase ≠ .returned peers) → s'.callers[i]? = some caller' → caller'.phase = .returned peers →
        s.Hit caller peers) ∧
    (∀ (N A : Type) (s : PeerAddresses N A), PeerAddresses.machine.Reachable s → s.gate.Kept) := by
  refine ⟨fun V ttl epoch s hs => ⟨(ClusterViewCache.gate_sound hs).kept, ?_⟩,
    fun P ttl s hs => ⟨(PeerSnapshotCache.gate_sound hs).kept, fun caller hcaller => ?_, ?_⟩,
    fun N A s hs => (PeerAddresses.gate_sound hs).kept⟩
  · intro a s' i caller caller' view hstep hi hnot hi' hr
    exact (ClusterViewCache.inv_of_reachable hs).returns hstep hi hnot hi' hr
  · obtain ⟨hcalls, hphase⟩ := PeerSnapshotCache.callers_ok hs caller hcaller
    refine ⟨?_, fun hp => ?_⟩
    · rcases hcalls with ⟨-, hcalls⟩ | ⟨-, hcalls⟩
      · exact hcalls ▸ Nat.zero_le 1
      · exact Nat.le_of_eq hcalls
    · rw [hp] at hphase
      exact hphase
  · intro a s' i caller caller' peers hstep hi hnot hi' hr
    exact PeerSnapshotCache.returns hs hstep hi hnot hi' hr

end Biei
