import Biei.Lib.Update
import Biei.Lemmas.Coordinator

/-!
# The invariants of the coordinator

`FetchInv` ties each tileset's state to the groups outstanding for it, and `WaitersInv` says where each registered waiter is.
-/

namespace Biei

/-- The ranges a decision dispatches. -/
def DispatchDecision.groups : DispatchDecision → List ChunkRange
  | .idle => []
  | .throttled => []
  | .dispatch groups _ _ _ => groups

/-! ## One tileset -/

/-- The state of a tileset agrees with the ranges outstanding for it: every live waiter has its chunk pending or being fetched,
pending chunks have a scheduler, chunks in flight are covered, and the slot counter counts the outstanding groups within the
limit. -/
structure TilesetInv (closed : Nat → Bool) (outstanding : List ChunkRange) (st : TilesetFetchState) : Prop where
  waiting : ∀ e ∈ st.waiters, closed e.2 = false → e.1 ∈ st.pendingChunks ∨ ∃ r ∈ outstanding, r.Covers e.1
  scheduled : ∀ c ∈ st.pendingChunks, st.schedulerRunning = true
  inflight : ∀ c ∈ st.inflightChunks, ∃ r ∈ outstanding, r.Covers c
  count : st.inflightFetchCount = outstanding.length
  limit : st.inflightFetchCount ≤ maxConcurrentFetchesPerTileset

namespace TilesetInv

variable {closed : Nat → Bool} {out : List ChunkRange} {st : TilesetFetchState}

/-- The state a tileset starts from, with nothing outstanding. -/
theorem default : TilesetInv closed [] TilesetFetchState.default where
  waiting := by simp [TilesetFetchState.default]
  scheduled := by simp [TilesetFetchState.default]
  inflight := by simp [TilesetFetchState.default]
  count := rfl
  limit := Nat.zero_le _

/-- Only which ranges are outstanding matters, not their order. -/
theorem perm {out' : List ChunkRange} (h : TilesetInv closed out st) (hp : out.Perm out') : TilesetInv closed out' st where
  waiting := fun e he hc => (h.waiting e he hc).imp_right fun ⟨r, hr, hcov⟩ => ⟨r, hp.mem_iff.mp hr, hcov⟩
  scheduled := h.scheduled
  inflight := fun c hc => (h.inflight c hc).imp fun _ ⟨hr, hcov⟩ => ⟨hp.mem_iff.mp hr, hcov⟩
  count := h.count.trans hp.length_eq
  limit := h.limit

/-- A receiver that goes away asks for less. -/
theorem cancel (h : TilesetInv closed out st) (w : Nat) : TilesetInv (Function.update closed w true) out st where
  waiting := by
    intro e he hc
    refine h.waiting e he ?_
    by_cases hw : e.2 = w
    · rw [hw, Function.update_self] at hc
      exact absurd hc (by simp)
    · rwa [Function.update_of_ne hw] at hc
  scheduled := h.scheduled
  inflight := h.inflight
  count := h.count
  limit := h.limit

/-- Enqueueing keeps the invariant once the scheduler is marked running: a requested chunk is in flight, hence covered, or
pending. -/
theorem enqueue (h : TilesetInv closed out st) (archiveLen : Nat) (now : Instant) (w : Nat) (cs : List Nat)
    {st' : TilesetFetchState} (hst : st' = ({ st with archiveLen := archiveLen }.enqueueChunks now w cs).1) :
    TilesetInv closed out
      (if !st'.schedulerRunning && !st'.pendingChunks.isEmpty then { st' with schedulerRunning := true } else st') := by
  obtain ⟨hw, hi, hn, hr, hp⟩ := TilesetFetchState.enqueueChunks_spec cs now { st with archiveLen := archiveLen } w
  rw [← hst] at hw hi hn hr hp
  have hwait : ∀ e ∈ st'.waiters, closed e.2 = false → e.1 ∈ st'.pendingChunks ∨ ∃ r ∈ out, r.Covers e.1 := by
    intro e he hc
    rw [hw, List.mem_append] at he
    rcases he with he | he
    · exact (h.waiting e he hc).imp_left fun hpend => (hp e.1).mpr (Or.inl hpend)
    · by_cases hin : e.1 ∈ st.inflightChunks
      · exact Or.inr (h.inflight e.1 hin)
      · exact Or.inl ((hp e.1).mpr (Or.inr ⟨List.fst_mem_of_mem_zipIdx he, hin⟩))
  have hinfl : ∀ c ∈ st'.inflightChunks, ∃ r ∈ out, r.Covers c := by
    rw [hi]
    exact h.inflight
  split
  · exact ⟨hwait, fun _ _ => rfl, hinfl, hn.trans h.count, hn.trans_le h.limit⟩
  · rename_i hcond
    refine ⟨hwait, fun c hc => ?_, hinfl, hn.trans h.count, hn.trans_le h.limit⟩
    have hne : st'.pendingChunks.isEmpty = false := by
      by_contra hemp
      exact OrderedSet.isEmpty_iff.mp (by simpa using hemp) c hc
    simpa [hne] using hcond

/-- Pruning takes out closed receivers, and only chunks that no live waiter waits for. -/
theorem prune (h : TilesetInv closed out st) : TilesetInv closed out (st.pruneCancelledWaiters closed).1 where
  waiting := by
    intro e he hc
    have hmem : e ∈ st.waiters := (List.mem_filter.mp he).1
    refine (h.waiting e hmem hc).imp_left fun hpend => ?_
    refine OrderedSet.mem_filter.mpr ⟨hpend, List.any_eq_true.mpr ⟨e, he, by simp⟩⟩
  scheduled := fun c hc => h.scheduled c (OrderedSet.mem_filter.mp hc).1
  inflight := h.inflight
  count := h.count
  limit := h.limit

/-- A selection keeps the invariant, with the groups it dispatches outstanding: a pending chunk it takes is covered by the range
that took it. -/
theorem select (h : TilesetInv closed out st) {m : Nat} {st' : TilesetFetchState} {d : DispatchDecision}
    (hs : TilesetFetchState.Selected m st st' d) :
    TilesetInv closed (out ++ d.groups) st' := by
  cases hs with
  | idle hp hst =>
    subst hst
    rw [DispatchDecision.groups, List.append_nil]
    exact ⟨h.waiting, fun c hc => absurd hc (hp c), h.inflight, h.count, h.limit⟩
  | throttled hg hst =>
    subst hst
    rwa [DispatchDecision.groups, List.append_nil]
  | dispatch queueDelay pendingAtDispatch hw hr hi hp hn ha hle =>
    refine ⟨fun e he hc => ?_, fun c hc => ?_, fun c hc => ?_, ?_, hle⟩
    · rw [hw] at he
      by_cases hcov : ∃ r ∈ st.plannedGroups m, r.Covers e.1
      · obtain ⟨r, hr, hcr⟩ := hcov
        exact Or.inr ⟨r, List.mem_append_right _ hr, hcr⟩
      · rcases h.waiting e he hc with hpend | ⟨r, hr, hcr⟩
        · exact Or.inl ((hp e.1).mpr ⟨hpend, hcov⟩)
        · exact Or.inr ⟨r, List.mem_append_left _ hr, hcr⟩
    · rw [hr]
      exact h.scheduled c ((hp c).mp hc).1
    · rcases (hi c).mp hc with hc | ⟨r, hr, hcr⟩
      · obtain ⟨r, hr, hcr⟩ := h.inflight c hc
        exact ⟨r, List.mem_append_left _ hr, hcr⟩
      · exact ⟨r, List.mem_append_right _ hr, hcr⟩
    · rw [hn, h.count, DispatchDecision.groups, List.length_append]

/-- Completing an outstanding group keeps the invariant without it: whoever waited for a chunk only this group covered has been
answered. -/
theorem complete {r : ChunkRange} (h : TilesetInv closed (r :: out) st) (result : GroupResult) :
    TilesetInv closed out (st.completeGroup closed r result).1 := by
  obtain ⟨hw, hp, hr, hn, hi, -⟩ := st.completeGroup_spec closed r result
  refine ⟨fun e he hc => ?_, fun c hc => ?_, fun c hc => ?_, ?_, ?_⟩
  · rw [hw, List.mem_filter] at he
    obtain ⟨he, hncov⟩ := he
    rw [hp]
    refine (h.waiting e he hc).imp_right ?_
    rintro ⟨r', hr', hcov⟩
    rcases List.mem_cons.mp hr' with rfl | hr'
    · exact absurd hcov (by simpa using hncov)
    · exact ⟨r', hr', hcov⟩
  · rw [hp] at hc
    rw [hr]
    exact h.scheduled c hc
  · obtain ⟨hc, hncov⟩ := (hi c).mp hc
    obtain ⟨r', hr', hcov⟩ := h.inflight c hc
    rcases List.mem_cons.mp hr' with rfl | hr'
    · exact absurd hcov hncov
    · exact ⟨r', hr', hcov⟩
  · have hcount := h.count
    rw [List.length_cons] at hcount
    omega
  · have hlimit := h.limit
    omega

end TilesetInv

/-! ## What a step can do -/

/-- The result a group brings to its completion, once it has one. -/
def GroupPhase.result : GroupPhase → Option GroupResult
  | .selected => none
  | .fetching => none
  | .completing result => some result
  | .detached result => some result

namespace Coordinator

variable {T : Type} [DecidableEq T]

/-- The kinds of steps: a fetch joins, the scheduler prunes or selects, a group moves between phases, a group completes, a drained
state is removed, or a receiver goes away. -/
inductive Stepped (m : Nat) (s : Coordinator T) : CoordinatorAction T → Coordinator T → Prop where
  | fetchChunks (t : T) (cs : List Nat) (len : Nat) (now : Instant) :
      Stepped m s (.fetchChunks t cs len now) (s.fetchChunks t cs len now).1
  | prune (t : T) (st : TilesetFetchState) (hst : s.tilesetStates t = some st) :
      Stepped m s (.pruneCancelledWaiters t) (s.setState t (some (st.pruneCancelledWaiters s.closed).1))
  | select (t : T) (now : Instant) (st : TilesetFetchState) (hst : s.tilesetStates t = some st) :
      Stepped m s (.selectDispatchGroups t now)
        { s.setState t (some (st.selectDispatchGroups m now).1) with
          groups := s.groups ++ dispatchedGroups t (st.selectDispatchGroups m now).2 }
  | phase (a : CoordinatorAction T) (i : Nat) (g : DispatchedGroup T) (p : GroupPhase) (hg : s.groups[i]? = some g)
      (ha : ∀ t now, a ≠ .selectDispatchGroups t now)
      (hp : ∀ chunks, p.result = some (.ok chunks) → g.phase.result = some (.ok chunks) ∨ a = .finishFetch i (.ok chunks)) :
      Stepped m s a (s.setPhase i g p)
  | complete (i : Nat) (g : DispatchedGroup T) (result : GroupResult) (hg : s.groups[i]? = some g)
      (hr : g.phase.result = some result) : Stepped m s (.completeGroup i) (s.completeDispatched i g result)
  | remove (t : T) : Stepped m s (.removeDrainableState t) (s.removeDrainableState t).1
  | cancel (w : Nat) : Stepped m s (.cancelReceiver w) { s with closed := Function.update s.closed w true }

variable {m : Nat} {a : CoordinatorAction T} {s s' : Coordinator T}

/-- Every step is of one of these kinds. -/
theorem step_stepped (h : s.step m a = some s') :
    Stepped m s a s' := by
  cases a with
  | fetchChunks t cs len now =>
    simp only [step, Option.some.injEq] at h
    exact h ▸ Stepped.fetchChunks t cs len now
  | pruneCancelledWaiters t =>
    simp only [step] at h
    split at h
    · rename_i st hst
      exact Option.some.inj h ▸ Stepped.prune t st hst
    · cases h
  | selectDispatchGroups t now =>
    simp only [step] at h
    split at h
    · rename_i st hst
      exact Option.some.inj h ▸ Stepped.select t now st hst
    · cases h
  | spawnFetch i =>
    simp only [step] at h
    split at h
    · rename_i g hg
      split at h
      · exact Option.some.inj h ▸ Stepped.phase _ i g _ hg (by simp) (by simp [GroupPhase.result])
      · cases h
    · cases h
  | shedGroup i error =>
    simp only [step] at h
    split at h
    · rename_i g hg
      split at h
      · exact Option.some.inj h ▸ Stepped.phase _ i g _ hg (by simp) (by simp [GroupPhase.result])
      · cases h
    · cases h
  | finishFetch i result =>
    simp only [step] at h
    split at h
    · rename_i g hg
      split at h
      · refine Option.some.inj h ▸ Stepped.phase _ i g _ hg (by simp) fun chunks hc => Or.inr ?_
        rw [show result = .ok chunks by simpa [GroupPhase.result] using hc]
      · cases h
    · cases h
  | dropGuard i =>
    simp only [step] at h
    split at h
    · rename_i g hg
      split at h
      · exact Option.some.inj h ▸ Stepped.phase _ i g _ hg (by simp) (by simp [GroupPhase.result])
      · rename_i result hphase
        exact Option.some.inj h ▸ Stepped.phase _ i g _ hg (by simp) (by simp [GroupPhase.result, hphase])
      · cases h
    · cases h
  | completeGroup i =>
    simp only [step] at h
    split at h
    · rename_i g hg
      split at h
      · rename_i result hphase
        exact Option.some.inj h ▸ Stepped.complete i g _ hg (by rw [hphase]; rfl)
      · rename_i result hphase
        exact Option.some.inj h ▸ Stepped.complete i g _ hg (by rw [hphase]; rfl)
      · cases h
    · cases h
  | removeDrainableState t =>
    simp only [step, Option.some.injEq] at h
    exact h ▸ Stepped.remove t
  | cancelReceiver w =>
    simp only [step, Option.some.injEq] at h
    exact h ▸ Stepped.cancel w

/-- Outstanding ranges depend on the groups alone. -/
theorem outstanding_congr (h : s'.spans = s.spans) (t : T) : s'.outstanding t = s.outstanding t := by
  rw [outstanding, outstanding, h]

/-- The outstanding ranges after a selection. -/
theorem outstanding_select (s : Coordinator T) (t : T) (st : Option TilesetFetchState) (d : DispatchDecision) (t' : T) :
    outstanding { s.setState t st with groups := s.groups ++ dispatchedGroups t d } t' =
      if t' = t then s.outstanding t' ++ d.groups else s.outstanding t' := by
  refine outstanding_append ?_ t'
  cases d <;> simp [spans, dispatchedGroups, DispatchDecision.groups]

/-- A completed group is no longer outstanding, whether its state was still there or not. -/
theorem spans_completeDispatched (s : Coordinator T) (i : Nat) (g : DispatchedGroup T) (result : GroupResult) :
    (s.completeDispatched i g result).spans = s.spans.eraseIdx i := by
  unfold completeDispatched
  cases hst : s.tilesetStates g.tilesetId <;> simp [hst, spans, Coordinator.setState, List.eraseIdx_map]

variable {s : Coordinator T} {g : DispatchedGroup T} {t : T} {i : Nat}

/-- The states after a completion: the group's own tileset has released it, the others are as they were. -/
theorem completeDispatched_get {result : GroupResult}
    {u : TilesetFetchState} (h : (s.completeDispatched i g result).tilesetStates t = some u) :
    (t = g.tilesetId ∧ ∃ st, s.tilesetStates t = some st ∧ u = (st.completeGroup s.closed g.chunkRange result).1) ∨
      (t ≠ g.tilesetId ∧ s.tilesetStates t = some u) := by
  unfold completeDispatched at h
  cases hst : s.tilesetStates g.tilesetId with
  | none =>
    simp only [hst] at h
    refine Or.inr ⟨fun ht => ?_, h⟩
    rw [ht, hst] at h
    cases h
  | some st =>
    simp only [hst] at h
    rcases update_eq_some h with ⟨rfl, hsome⟩ | ⟨hne, hget⟩
    · exact Or.inl ⟨rfl, st, hst, (Option.some.inj hsome).symm⟩
    · exact Or.inr ⟨hne, hget⟩

/-! ## Fetches -/

/-- Every tileset's state agrees with its outstanding groups, and a tileset without a state has none. -/
structure FetchInv (s : Coordinator T) : Prop where
  agree : ∀ t st, s.tilesetStates t = some st → TilesetInv s.closed (s.outstanding t) st
  absent : ∀ t, s.tilesetStates t = none → s.outstanding t = []

theorem FetchInv.new : FetchInv (Coordinator.new : Coordinator T) where
  agree := by simp [Coordinator.new]
  absent := fun _ _ => rfl

variable {st : TilesetFetchState}

/-- Replacing one tileset's state by another that agrees with the same groups. -/
theorem FetchInv.setState (h : FetchInv s) (hst : TilesetInv s.closed (s.outstanding t) st) :
    FetchInv (s.setState t (some st)) where
  agree := by
    intro t' st' hget
    show TilesetInv s.closed (s.outstanding t') st'
    rcases update_eq_some hget with ⟨rfl, hsome⟩ | ⟨-, hget⟩
    · exact Option.some.inj hsome ▸ hst
    · exact h.agree t' st' hget
  absent := by
    intro t' hget
    rcases update_eq_none hget with ⟨-, hnone⟩ | ⟨-, hget⟩
    · cases hnone
    · exact h.absent t' hget

/-- The invariant reads only the states, the receivers and the outstanding ranges. -/
theorem FetchInv.congr (h : FetchInv s) (hst : s'.tilesetStates = s.tilesetStates)
    (hc : s'.closed = s.closed) (ho : ∀ t, s'.outstanding t = s.outstanding t) : FetchInv s' where
  agree := by
    intro t st hget
    rw [hst] at hget
    rw [hc, ho t]
    exact h.agree t st hget
  absent := by
    intro t hget
    rw [hst] at hget
    rw [ho t]
    exact h.absent t hget

/-- The state a fetch starts from agrees with the groups, whether it was there or is made. -/
theorem FetchInv.getD (h : FetchInv s) (t : T) :
    TilesetInv s.closed (s.outstanding t) ((s.tilesetStates t).getD .default) := by
  cases hst : s.tilesetStates t with
  | none =>
    rw [h.absent t hst]
    exact TilesetInv.default
  | some st => exact h.agree t st hst

/-- A drainable state has no outstanding group, and only receivers that are gone. -/
theorem FetchInv.drainable (h : FetchInv s) (hst : s.tilesetStates t = some st) (hd : st.isDrainable = true) :
    s.outstanding t = [] ∧ ∀ e ∈ st.waiters, s.closed e.2 = true := by
  have hinv := h.agree t st hst
  simp only [TilesetFetchState.isDrainable, Bool.and_eq_true, beq_iff_eq] at hd
  obtain ⟨⟨-, hemp⟩, hzero⟩ := hd
  have hnil : s.outstanding t = [] := List.eq_nil_of_length_eq_zero (hinv.count ▸ hzero)
  refine ⟨hnil, fun e he => ?_⟩
  by_contra hopen
  rcases hinv.waiting e he (by simpa using hopen) with hp | ⟨r, hr, -⟩
  · exact OrderedSet.isEmpty_iff.mp hemp e.1 hp
  · rw [hnil] at hr
    cases hr

/-- The tileset of a group has a state: the group itself is outstanding. -/
theorem FetchInv.state_of_group (h : FetchInv s) (hg : s.groups[i]? = some g) : ∃ st, s.tilesetStates g.tilesetId = some st := by
  cases hst : s.tilesetStates g.tilesetId with
  | some st => exact ⟨st, rfl⟩
  | none =>
    have hmem : g.chunkRange ∈ s.outstanding g.tilesetId :=
      mem_outstanding.mpr ⟨g, List.mem_of_getElem? hg, rfl, rfl⟩
    rw [h.absent _ hst] at hmem
    cases hmem

theorem tilesetStates_completeDispatched (hst : s.tilesetStates g.tilesetId = some st) (i : Nat) (result : GroupResult) :
    (s.completeDispatched i g result).tilesetStates =
      Function.update s.tilesetStates g.tilesetId (some (st.completeGroup s.closed g.chunkRange result).1) := by
  simp [completeDispatched, hst, Coordinator.setState]

theorem FetchInv.completeDispatched (h : FetchInv s)
    (hg : s.groups[i]? = some g) (result : GroupResult) : FetchInv (s.completeDispatched i g result) := by
  obtain ⟨st, hst⟩ := h.state_of_group hg
  obtain ⟨hown, hother⟩ := outstanding_eraseIdx hg (spans_completeDispatched s i g result)
  have hstates := tilesetStates_completeDispatched hst i result
  have hclosed : (s.completeDispatched i g result).closed = s.closed := by
    simp [Coordinator.completeDispatched, hst, Coordinator.setState]
  refine ⟨fun t' st' hget => ?_, fun t' hget => ?_⟩
  · rw [hstates] at hget
    rw [hclosed]
    rcases update_eq_some hget with ⟨rfl, hsome⟩ | ⟨hne, hget⟩
    · exact Option.some.inj hsome ▸ ((h.agree _ st hst).perm hown).complete result
    · exact (h.agree t' st' hget).perm (hother t' hne)
  · rw [hstates] at hget
    rcases update_eq_none hget with ⟨-, hnone⟩ | ⟨hne, hget⟩
    · cases hnone
    · have hnil := hother t' hne
      rw [h.absent t' hget] at hnil
      exact List.nil_perm.mp hnil

/-- Every step keeps the fetch invariant. -/
theorem FetchInv.step (h : FetchInv s) (hs : Stepped m s a s') :
    FetchInv s' := by
  cases hs with
  | fetchChunks t cs len now =>
    refine FetchInv.congr (h.setState ((h.getD t).enqueue _ now s.nextWaiter cs rfl)) rfl rfl fun _ => rfl
  | prune t st hst => exact h.setState (h.agree t st hst).prune
  | select t now st hst =>
    have hsel := (h.agree t st hst).select (st.selectDispatchGroups_spec m now)
    refine ⟨fun t' st' hget => ?_, fun t' hget => ?_⟩
    · rw [outstanding_select]
      rcases update_eq_some hget with ⟨rfl, hsome⟩ | ⟨hne, hget⟩
      · rw [if_pos rfl]
        exact Option.some.inj hsome ▸ hsel
      · rw [if_neg hne]
        exact h.agree t' st' hget
    · rw [outstanding_select]
      rcases update_eq_none hget with ⟨-, hnone⟩ | ⟨hne, hget⟩
      · cases hnone
      · rw [if_neg hne]
        exact h.absent t' hget
  | phase _ i g p hg _ _ => exact h.congr rfl rfl (outstanding_congr (spans_setPhase hg p))
  | complete i g result hg _ => exact h.completeDispatched hg result
  | remove t =>
    unfold removeDrainableState
    split
    · rename_i st hst
      split
      · rename_i hd
        refine ⟨fun t' st' hget => ?_, fun t' hget => ?_⟩
        · rcases update_eq_some hget with ⟨-, hsome⟩ | ⟨-, hget⟩
          · cases hsome
          · exact h.agree t' st' hget
        · rcases update_eq_none hget with ⟨rfl, -⟩ | ⟨-, hget⟩
          · exact (h.drainable hst hd).1
          · exact h.absent t' hget
      · exact h
    · exact h
  | cancel w => exact ⟨fun t st hget => (h.agree t st hget).cancel w, h.absent⟩

/-! ## Waiters -/

/-- Where every channel is: a waiter that some state holds was opened for that tileset and chunk and has not been answered, no
waiter has been answered twice, and a channel whose receiver is still there has been answered or is still held. -/
structure WaitersInv (s : Coordinator T) : Prop where
  distinct : ∀ t st, s.tilesetStates t = some st → (st.waiters.map Prod.snd).Nodup
  held : ∀ t st, s.tilesetStates t = some st → ∀ e ∈ st.waiters,
    s.registered e.2 = some (t, e.1) ∧ e.2 < s.nextWaiter ∧ e.2 ∉ s.sends.map WaiterSend.waiter
  sentOnce : (s.sends.map WaiterSend.waiter).Nodup
  sentOpened : ∀ w ∈ s.sends.map WaiterSend.waiter, w < s.nextWaiter
  kept : ∀ w, w < s.nextWaiter → s.closed w = false →
    (∃ x ∈ s.sends, x.waiter = w ∧ x.delivered = true) ∨ ∃ t st c, s.tilesetStates t = some st ∧ (c, w) ∈ st.waiters

omit [DecidableEq T] in
theorem WaitersInv.new : WaitersInv (Coordinator.new : Coordinator T) where
  distinct := by simp [Coordinator.new]
  held := by simp [Coordinator.new]
  sentOnce := List.nodup_nil
  sentOpened := by simp [Coordinator.new]
  kept := by simp [Coordinator.new]

/-- Replacing one tileset's state by another that lost only waiters whose receivers are gone. -/
theorem WaitersInv.setState (h : WaitersInv s) {st st' : TilesetFetchState}
    (hst : s.tilesetStates t = some st) (hsub : st'.waiters.Sublist st.waiters)
    (hlive : ∀ e ∈ st.waiters, s.closed e.2 = false → e ∈ st'.waiters) : WaitersInv (s.setState t (some st')) where
  distinct := by
    intro t' u hget
    rcases update_eq_some hget with ⟨rfl, hsome⟩ | ⟨-, hget⟩
    · exact Option.some.inj hsome ▸ (h.distinct t' st hst).sublist (hsub.map _)
    · exact h.distinct t' u hget
  held := by
    intro t' u hget e he
    rcases update_eq_some hget with ⟨rfl, hsome⟩ | ⟨-, hget⟩
    · cases hsome
      exact h.held t' st hst e (hsub.subset he)
    · exact h.held t' u hget e he
  sentOnce := h.sentOnce
  sentOpened := h.sentOpened
  kept := by
    intro w hw hc
    refine (h.kept w hw hc).imp_right ?_
    rintro ⟨t', u, c, hget, he⟩
    by_cases ht : t' = t
    · subst ht
      obtain rfl : st = u := by simpa [hst] using hget
      exact ⟨t', st', c, Function.update_self .., hlive _ he hc⟩
    · exact ⟨t', u, c, (Function.update_of_ne ht ..).trans hget, he⟩

omit [DecidableEq T] in
/-- The invariant reads neither the groups nor anything of a state but its waiters. -/
theorem WaitersInv.congr (h : WaitersInv s) (hst : s'.tilesetStates = s.tilesetStates)
    (hc : s'.closed = s.closed) (hn : s'.nextWaiter = s.nextWaiter) (hr : s'.registered = s.registered)
    (hs : s'.sends = s.sends) : WaitersInv s' := by
  constructor
  · rw [hst]; exact h.distinct
  · rw [hst, hn, hr, hs]; exact h.held
  · rw [hs]; exact h.sentOnce
  · rw [hs, hn]; exact h.sentOpened
  · rw [hst, hc, hn, hs]; exact h.kept

/-- The channels one call opens are fresh and registered for its tileset. -/
theorem WaitersInv.fetchChunks (h : WaitersInv s) (t : T) (cs : List Nat) (len : Nat) (now : Instant) :
    WaitersInv (s.fetchChunks t cs len now).1 := by
  obtain ⟨st', hst', hws⟩ : ∃ st', (s.fetchChunks t cs len now).1.tilesetStates = Function.update s.tilesetStates t (some st') ∧
      st'.waiters = ((s.tilesetStates t).getD .default).waiters ++ cs.zipIdx s.nextWaiter := by
    refine ⟨_, rfl, ?_⟩
    have hspec := (TilesetFetchState.enqueueChunks_spec cs now { (s.tilesetStates t).getD .default with
      archiveLen := max ((s.tilesetStates t).getD .default).archiveLen len } s.nextWaiter).1
    split <;> exact hspec
  have hsends : (s.fetchChunks t cs len now).1.sends = s.sends := rfl
  have hnext : (s.fetchChunks t cs len now).1.nextWaiter = s.nextWaiter + cs.length := rfl
  have hreg : ∀ w, (s.fetchChunks t cs len now).1.registered w =
      if s.nextWaiter ≤ w then (cs[w - s.nextWaiter]?).map fun c => (t, c) else s.registered w := fun _ => rfl
  -- Of the new state's waiters, the old ones are as they were and the others lie in the fresh block of ids.
  have hold : ∀ e ∈ ((s.tilesetStates t).getD .default).waiters,
      ∃ st, s.tilesetStates t = some st ∧ e ∈ st.waiters := by
    intro e he
    cases hst : s.tilesetStates t with
    | none =>
      rw [hst] at he
      simp [TilesetFetchState.default] at he
    | some st =>
      rw [hst] at he
      exact ⟨st, rfl, he⟩
  have hfresh : ∀ e ∈ cs.zipIdx s.nextWaiter, s.nextWaiter ≤ e.2 ∧ cs[e.2 - s.nextWaiter]? = some e.1 := by
    rintro ⟨c, w⟩ he
    exact List.mk_mem_zipIdx_iff_le_and_getElem?_sub.mp he
  have holdHeld : ∀ t' st, s.tilesetStates t' = some st → ∀ e ∈ st.waiters,
      (s.fetchChunks t cs len now).1.registered e.2 = some (t', e.1) ∧ e.2 < s.nextWaiter + cs.length ∧
        e.2 ∉ s.sends.map WaiterSend.waiter := by
    intro t' st hst e he
    obtain ⟨h1, h2, h3⟩ := h.held t' st hst e he
    refine ⟨?_, by omega, h3⟩
    rw [hreg, if_neg (by omega)]
    exact h1
  refine ⟨fun t' u hget => ?_, fun t' u hget e he => ?_, h.sentOnce, fun w hw => ?_, fun w hw hc => ?_⟩
  · rw [hst'] at hget
    rcases update_eq_some hget with ⟨rfl, hsome⟩ | ⟨-, hget⟩
    · rw [← Option.some.inj hsome, hws, List.map_append, List.nodup_append]
      refine ⟨?_, ?_, ?_⟩
      · cases hst : s.tilesetStates t' with
        | none => exact List.nodup_nil
        | some st => exact h.distinct t' st hst
      · rw [List.zipIdx_map_snd]
        exact List.nodup_range'
      · intro a ha b hb hab
        obtain ⟨e, he, rfl⟩ := List.mem_map.mp ha
        obtain ⟨e', he', rfl⟩ := List.mem_map.mp hb
        obtain ⟨st, hst, he⟩ := hold e he
        have h1 := (h.held t' st hst e he).2.1
        have h2 := (hfresh e' he').1
        omega
    · exact h.distinct t' u hget
  · rw [hst'] at hget
    rw [hsends, hnext]
    rcases update_eq_some hget with ⟨rfl, hsome⟩ | ⟨-, hget⟩
    · rw [← Option.some.inj hsome, hws, List.mem_append] at he
      rcases he with he | he
      · obtain ⟨st, hst, he⟩ := hold e he
        exact holdHeld t' st hst e he
      · obtain ⟨h1, h2⟩ := hfresh e he
        refine ⟨?_, ?_, fun hsent => ?_⟩
        · rw [hreg, if_pos h1, h2]
          rfl
        · have := (List.getElem?_eq_some_iff.mp h2).1
          omega
        · have := h.sentOpened e.2 hsent
          omega
    · exact holdHeld t' u hget e he
  · have := h.sentOpened w hw
    rw [hnext]
    omega
  · rw [hnext] at hw
    by_cases hlt : w < s.nextWaiter
    · refine (h.kept w hlt hc).imp_right ?_
      rintro ⟨t', u, c, hget, he⟩
      by_cases ht : t' = t
      · subst ht
        refine ⟨t', st', c, by rw [hst', Function.update_self], ?_⟩
        rw [hws, hget]
        exact List.mem_append_left _ he
      · exact ⟨t', u, c, by rw [hst', Function.update_of_ne ht]; exact hget, he⟩
    · obtain ⟨c, hcs⟩ : ∃ c, cs[w - s.nextWaiter]? = some c := by
        rw [List.getElem?_eq_getElem (by omega)]
        exact ⟨_, rfl⟩
      refine Or.inr ⟨t, st', c, by rw [hst', Function.update_self], ?_⟩
      rw [hws]
      exact List.mem_append_right _ (List.mk_mem_zipIdx_iff_le_and_getElem?_sub.mpr ⟨by omega, hcs⟩)

/-- Completing a group answers the waiters of its chunks, each once, and keeps the others. -/
theorem WaitersInv.complete (h : WaitersInv s) (i : Nat) (g : DispatchedGroup T) (result : GroupResult) :
    WaitersInv (s.completeDispatched i g result) := by
  cases hst : s.tilesetStates g.tilesetId with
  | none =>
    have heq : s.completeDispatched i g result = { s with groups := s.groups.eraseIdx i } := by
      simp [completeDispatched, hst]
    rw [heq]
    exact h.congr rfl rfl rfl rfl rfl
  | some st =>
    obtain ⟨hw, -, -, -, -, hsent⟩ := st.completeGroup_spec s.closed g.chunkRange result
    have hdist := h.distinct _ st hst
    have hstates : (s.completeDispatched i g result).tilesetStates =
        Function.update s.tilesetStates g.tilesetId (some (st.completeGroup s.closed g.chunkRange result).1) := by
      simp [completeDispatched, hst, Coordinator.setState]
    have hsends : (s.completeDispatched i g result).sends =
        s.sends ++ TilesetFetchState.answers st.waiters s.closed result g.chunkRange.chunks := by
      simp [completeDispatched, hst, Coordinator.setState, hsent]
    have hnext : (s.completeDispatched i g result).nextWaiter = s.nextWaiter := by
      simp [completeDispatched, hst, Coordinator.setState]
    have hreg : (s.completeDispatched i g result).registered = s.registered := by
      simp [completeDispatched, hst, Coordinator.setState]
    have hclosed : (s.completeDispatched i g result).closed = s.closed := by
      simp [completeDispatched, hst, Coordinator.setState]
    -- Who is answered was held by this state, for a chunk of the group.
    have hans : ∀ w, w ∈ (TilesetFetchState.answers st.waiters s.closed result g.chunkRange.chunks).map WaiterSend.waiter →
        ∃ c, g.chunkRange.Covers c ∧ (c, w) ∈ st.waiters := by
      intro w hwm
      obtain ⟨x, hx, rfl⟩ := List.mem_map.mp hwm
      obtain ⟨c, hc, he, -, -⟩ := TilesetFetchState.mem_answers.mp hx
      exact ⟨c, ChunkRange.mem_chunks.mp hc, he⟩
    refine ⟨fun t u hget => ?_, fun t u hget e he => ?_, ?_, fun w hwm => ?_, fun w hlt hc => ?_⟩
    · rw [hstates] at hget
      rcases update_eq_some hget with ⟨rfl, hsome⟩ | ⟨-, hget⟩
      · rw [← Option.some.inj hsome, hw]
        exact hdist.sublist (List.filter_sublist.map _)
      · exact h.distinct t u hget
    · rw [hstates] at hget
      rw [hreg, hnext, hsends, List.map_append, List.mem_append, not_or]
      rcases update_eq_some hget with ⟨rfl, hsome⟩ | ⟨hne, hget⟩
      · rw [← Option.some.inj hsome, hw, List.mem_filter] at he
        obtain ⟨he, hncov⟩ := he
        obtain ⟨h1, h2, h3⟩ := h.held _ st hst e he
        refine ⟨h1, h2, h3, fun hm => ?_⟩
        obtain ⟨c, hcov, hec⟩ := hans _ hm
        have : e = (c, e.2) := List.inj_on_of_nodup_map hdist he hec rfl
        rw [this] at hncov
        exact absurd hcov (by simpa using hncov)
      · obtain ⟨h1, h2, h3⟩ := h.held t u hget e he
        refine ⟨h1, h2, h3, fun hm => ?_⟩
        obtain ⟨c, -, hec⟩ := hans _ hm
        have hother := (h.held _ st hst _ hec).1
        rw [h1] at hother
        exact hne (congrArg Prod.fst (Option.some.inj hother))
    · rw [hsends, List.map_append, List.nodup_append]
      refine ⟨h.sentOnce, TilesetFetchState.nodup_answers hdist _ _ g.chunkRange.nodup_chunks, ?_⟩
      rintro a ha b hb rfl
      obtain ⟨c, -, hec⟩ := hans a hb
      exact (h.held _ st hst _ hec).2.2 ha
    · rw [hnext]
      rw [hsends, List.map_append, List.mem_append] at hwm
      rcases hwm with hwm | hwm
      · exact h.sentOpened w hwm
      · obtain ⟨c, -, hec⟩ := hans w hwm
        exact (h.held _ st hst _ hec).2.1
    · rw [hnext] at hlt
      rw [hclosed] at hc
      rw [hsends, hstates]
      rcases h.kept w hlt hc with ⟨x, hx, hxw, hd⟩ | ⟨t, u, c, hget, he⟩
      · exact Or.inl ⟨x, List.mem_append_left _ hx, hxw, hd⟩
      · by_cases ht : t = g.tilesetId
        · subst ht
          obtain rfl : st = u := by simpa [hst] using hget
          by_cases hcov : g.chunkRange.Covers c
          · refine Or.inl ⟨⟨w, TilesetFetchState.chunkResult result c, true⟩, List.mem_append_right _ ?_, rfl, rfl⟩
            exact TilesetFetchState.mem_answers.mpr ⟨c, ChunkRange.mem_chunks.mpr hcov, he, rfl, by simp [hc]⟩
          · refine Or.inr ⟨_, _, c, Function.update_self .., ?_⟩
            rw [hw, List.mem_filter]
            exact ⟨he, by simpa using hcov⟩
        · exact Or.inr ⟨t, u, c, (Function.update_of_ne ht ..).trans hget, he⟩

/-- Removing a state that holds no live waiter loses none. -/
theorem WaitersInv.remove (h : WaitersInv s) (hst : s.tilesetStates t = some st) (hgone : ∀ e ∈ st.waiters, s.closed e.2 = true) :
    WaitersInv (s.setState t none) where
  distinct := by
    intro t' u hget
    rcases update_eq_some hget with ⟨-, hsome⟩ | ⟨-, hget⟩
    · cases hsome
    · exact h.distinct t' u hget
  held := by
    intro t' u hget
    rcases update_eq_some hget with ⟨-, hsome⟩ | ⟨-, hget⟩
    · cases hsome
    · exact h.held t' u hget
  sentOnce := h.sentOnce
  sentOpened := h.sentOpened
  kept := by
    intro w hw hc
    refine (h.kept w hw hc).imp_right ?_
    rintro ⟨t', u, c, hget, he⟩
    by_cases ht : t' = t
    · subst ht
      obtain rfl : st = u := by simpa [hst] using hget
      have hgone' := hgone _ he
      rw [show s.closed w = false from hc] at hgone'
      cases hgone'
    · exact ⟨t', u, c, (Function.update_of_ne ht ..).trans hget, he⟩

/-- Every step keeps the waiters' invariant. -/
theorem WaitersInv.step (h : WaitersInv s) (hf : FetchInv s) (hs : Stepped m s a s') : WaitersInv s' := by
  cases hs with
  | fetchChunks t cs len now => exact h.fetchChunks t cs len now
  | prune t st hst =>
    refine h.setState hst List.filter_sublist fun e he hc => ?_
    exact List.mem_filter.mpr ⟨he, by simp [hc]⟩
  | select t now st hst =>
    have hw := (st.selectDispatchGroups_spec m now).waiters_eq
    refine WaitersInv.congr (h.setState hst ?_ fun e he _ => ?_) rfl rfl rfl rfl rfl
    · rw [hw]
    · rwa [hw]
  | phase _ i g p hg _ _ => exact h.congr rfl rfl rfl rfl rfl
  | complete i g result hg _ => exact h.complete i g result
  | remove t =>
    unfold removeDrainableState
    split
    · rename_i st hst
      split
      · rename_i hd
        exact h.remove hst (hf.drainable hst hd).2
      · exact h
    · exact h
  | cancel w =>
    refine ⟨h.distinct, h.held, h.sentOnce, h.sentOpened, fun w' hw' hc => h.kept w' hw' ?_⟩
    by_cases hww : w' = w
    · rw [hww] at hc
      simp at hc
    · simpa [Function.update_of_ne hww] using hc

end Coordinator

end Biei
