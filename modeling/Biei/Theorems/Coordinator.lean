import Biei.Lemmas.Waiters

/-!
# The chunk fetch coordinator: no waiter is lost, and when in-flight tracking is exact

No waiter is lost; and the chunks in flight are tracked exactly when no planned range covers a chunk that is in flight already.
-/

namespace Biei

namespace Coordinator

variable {T : Type} [DecidableEq T]

/-! ## No waiter is lost -/

/-- What the coordinator owes its waiters, in one state. -/
structure NoWaiterLost (s : Coordinator T) : Prop where
  /-- A registered waiter whose receiver is there waits for a chunk that is pending under a running scheduler, or that a group
  still outstanding covers. -/
  waiting : ∀ t st, s.tilesetStates t = some st → ∀ c w, (c, w) ∈ st.waiters → s.closed w = false →
    (c ∈ st.pendingChunks ∧ st.schedulerRunning = true) ∨ ∃ g ∈ s.groups, g.tilesetId = t ∧ g.chunkRange.Covers c
  /-- A channel whose receiver is there has been answered, or some state still holds it for the chunk it was opened for. -/
  kept : ∀ w, w < s.nextWaiter → s.closed w = false →
    (∃ x ∈ s.sends, x.waiter = w ∧ x.delivered = true) ∨
      ∃ t st c, s.registered w = some (t, c) ∧ s.tilesetStates t = some st ∧ (c, w) ∈ st.waiters
  /-- A chunk in flight is covered by a group still outstanding. -/
  inflight : ∀ t st, s.tilesetStates t = some st → ∀ c ∈ st.inflightChunks,
    ∃ g ∈ s.groups, g.tilesetId = t ∧ g.chunkRange.Covers c
  /-- The slot counter is the number of outstanding groups, within the limit. -/
  count : ∀ t st, s.tilesetStates t = some st →
    st.inflightFetchCount = (s.groups.filter fun g => g.tilesetId = t).length ∧
      st.inflightFetchCount ≤ maxConcurrentFetchesPerTileset
  /-- Completing any outstanding group finds its state, with a slot to give back. -/
  noUnderflow : ∀ g ∈ s.groups, ∃ st, s.tilesetStates g.tilesetId = some st ∧ 1 ≤ st.inflightFetchCount
  /-- No waiter has been answered twice. -/
  answeredOnce : (s.sends.map WaiterSend.waiter).Nodup
  /-- A state is removed only when every receiver it holds is gone and no group of its tileset is outstanding. -/
  removal : ∀ t, (s.removeDrainableState t).2 = true →
    (∀ g ∈ s.groups, g.tilesetId ≠ t) ∧ ∀ st, s.tilesetStates t = some st → ∀ e ∈ st.waiters, s.closed e.2 = true

variable {s : Coordinator T} {m : Nat}

/-- Both invariants hold of every reachable state. -/
theorem reachable_inv (h : (machine T m).Reachable s) : FetchInv s ∧ WaitersInv s := by
  refine h.invariant (I := fun s => FetchInv s ∧ WaitersInv s) ⟨FetchInv.new, WaitersInv.new⟩ ?_
  rintro s a s' ⟨hf, hw⟩ hs
  have hstep := step_stepped hs
  exact ⟨hf.step hstep, hw.step hf hstep⟩

variable {t : T}

theorem exists_outstanding {c : Nat} :
    (∃ r ∈ s.outstanding t, r.Covers c) ↔ ∃ g ∈ s.groups, g.tilesetId = t ∧ g.chunkRange.Covers c := by
  constructor
  · rintro ⟨r, hr, hc⟩
    obtain ⟨g, hg, ht, rfl⟩ := mem_outstanding.mp hr
    exact ⟨g, hg, ht, hc⟩
  · rintro ⟨g, hg, ht, hc⟩
    exact ⟨_, mem_outstanding.mpr ⟨g, hg, ht, rfl⟩, hc⟩

theorem length_outstanding (s : Coordinator T) (t : T) :
    (s.outstanding t).length = (s.groups.filter fun g => g.tilesetId = t).length := by
  simp only [outstanding, spans, List.length_map, List.filter_map, Function.comp_def]

/-- A removal found a drainable state. -/
theorem removeDrainableState_true (h : (s.removeDrainableState t).2 = true) :
    ∃ st, s.tilesetStates t = some st ∧ st.isDrainable = true := by
  unfold removeDrainableState at h
  split at h
  · rename_i st hst
    split at h
    · rename_i hd
      exact ⟨st, hst, hd⟩
    · cases h
  · cases h

/-- No run of the coordinator loses a waiter, whatever the order of enqueues, prunes, selections, completions (of a finished
fetch, of a shed group, or of a dropped guard) and cancellations. -/
theorem coordinator_no_waiter_lost (m : Nat) (s : Coordinator T) (h : (machine T m).Reachable s) : NoWaiterLost s := by
  obtain ⟨hf, hw⟩ := reachable_inv h
  refine ⟨?_, ?_, ?_, ?_, ?_, hw.sentOnce, ?_⟩
  · intro t st hst c w he hc
    have hinv := hf.agree t st hst
    rcases hinv.waiting (c, w) he hc with hp | hcov
    · exact Or.inl ⟨hp, hinv.scheduled c hp⟩
    · exact Or.inr (exists_outstanding.mp hcov)
  · intro w hlt hc
    refine (hw.kept w hlt hc).imp_right ?_
    rintro ⟨t, st, c, hst, he⟩
    exact ⟨t, st, c, (hw.held t st hst (c, w) he).1, hst, he⟩
  · intro t st hst c hc
    exact exists_outstanding.mp ((hf.agree t st hst).inflight c hc)
  · intro t st hst
    have hinv := hf.agree t st hst
    exact ⟨hinv.count.trans (length_outstanding s t), hinv.limit⟩
  · intro g hg
    have hmem : g.chunkRange ∈ s.outstanding g.tilesetId := mem_outstanding.mpr ⟨g, hg, rfl, rfl⟩
    cases hst : s.tilesetStates g.tilesetId with
    | none =>
      rw [hf.absent _ hst] at hmem
      cases hmem
    | some st =>
      refine ⟨st, rfl, ?_⟩
      rw [(hf.agree _ st hst).count]
      exact List.length_pos_of_mem hmem
  · intro t hrem
    obtain ⟨st, hst, hd⟩ := removeDrainableState_true hrem
    obtain ⟨hnil, hgone⟩ := hf.drainable hst hd
    refine ⟨fun g hg ht => ?_, fun st' hst' => ?_⟩
    · have hmem : g.chunkRange ∈ s.outstanding t := mem_outstanding.mpr ⟨g, hg, ht, rfl⟩
      rw [hnil] at hmem
      cases hmem
    · obtain rfl : st = st' := by simpa [hst] using hst'
      exact hgone

/-- A run in which one of two waiters of a chunk is answered by a shed group, and a drained state is removed. -/
def shedRun : List (CoordinatorAction Nat) :=
  [.fetchChunks 7 [3, 5] 100 0, .selectDispatchGroups 7 1, .fetchChunks 7 [5] 100 2, .cancelReceiver 0,
    .shedGroup 0 (.overloaded "backend fetch group limit reached"), .completeGroup 0, .selectDispatchGroups 7 3,
    .removeDrainableState 7]

theorem coordinator_no_waiter_lost_shedRun :
    ∃ s, (machine Nat 4).run (machine Nat 4).init shedRun = some s ∧ s.sends.map (·.delivered) = [false, true, true] ∧
      NoWaiterLost s := by
  refine ⟨_, rfl, by decide, ?_⟩
  exact coordinator_no_waiter_lost 4 _ (Machine.reachable_of_run (show (machine Nat 4).run _ shedRun = some _ from rfl))

/-! ## When in-flight tracking is exact -/

/-- The chunks in flight are exactly those an outstanding group covers, and no chunk is covered by two of them, so that a
completing group answers no waiter whose chunk another group is still fetching. -/
structure InflightExact (s : Coordinator T) : Prop where
  tracked : ∀ t st, s.tilesetStates t = some st → ∀ c,
    c ∈ st.inflightChunks ↔ ∃ g ∈ s.groups, g.tilesetId = t ∧ g.chunkRange.Covers c
  single : ∀ (i j : Nat) (g g' : DispatchedGroup T), i ≠ j → s.groups[i]? = some g → s.groups[j]? = some g' →
    g.tilesetId = g'.tilesetId →
    ∀ c, ¬(g.chunkRange.Covers c ∧ g'.chunkRange.Covers c)
  answersOwn : ∀ (i : Nat) (g : DispatchedGroup T) st result, s.groups[i]? = some g → s.tilesetStates g.tilesetId = some st →
    ∀ x ∈ (st.completeGroup s.closed g.chunkRange result).2, ∀ c, s.registered x.waiter = some (g.tilesetId, c) →
      ∀ (j : Nat) (g' : DispatchedGroup T), j ≠ i → s.groups[j]? = some g' → g'.tilesetId = g.tilesetId → ¬g'.chunkRange.Covers c

/-- Some range of the next dispatch bridges over a chunk that is already in flight. -/
def BridgesInflight (m : Nat) (st : TilesetFetchState) : Prop :=
  ∃ r ∈ st.plannedGroups m, ∃ c ∈ st.inflightChunks, r.Covers c

/-- The step is no selection that bridges over a chunk in flight. -/
def SelectsClear (m : Nat) (s : Coordinator T) (a : CoordinatorAction T) : Prop :=
  ∀ t now, a = .selectDispatchGroups t now → ∀ st, s.tilesetStates t = some st → ¬BridgesInflight m st

/-- Exactness, tileset by tileset, over the outstanding ranges. -/
structure TrackedExactly (s : Coordinator T) : Prop where
  tracked : ∀ t st, s.tilesetStates t = some st → ∀ c, c ∈ st.inflightChunks ↔ ∃ r ∈ s.outstanding t, r.Covers c
  disjoint : ∀ t, (s.outstanding t).Pairwise ChunkRange.Disjoint

/-- The ranges of a tileset are pairwise disjoint when any two groups of one tileset are. -/
theorem outstanding_pairwise_iff :
    (∀ t, (s.outstanding t).Pairwise ChunkRange.Disjoint) ↔
      s.groups.Pairwise fun g g' => g.tilesetId = g'.tilesetId → g.chunkRange.Disjoint g'.chunkRange := by
  simp only [outstanding, spans, List.pairwise_map, List.pairwise_filter, decide_eq_true_eq]
  constructor
  · intro h
    rw [List.pairwise_iff_getElem]
    intro i j hi hj hij ht
    exact List.pairwise_iff_getElem.mp (h _) i j hi hj hij ht rfl
  · intro h t
    exact h.imp fun hab ha hb => hab (ha.trans hb.symm)

/-- In a state where the waiters are where they should be, both ways to say exactness agree. -/
theorem inflightExact_iff (hw : WaitersInv s) : InflightExact s ↔ TrackedExactly s := by
  constructor
  · intro h
    refine ⟨fun t st hst c => (h.tracked t st hst c).trans exists_outstanding.symm, outstanding_pairwise_iff.mpr ?_⟩
    rw [List.pairwise_iff_getElem]
    intro i j hi hj hij ht c
    exact h.single i j _ _ (by omega) (List.getElem?_eq_getElem hi) (List.getElem?_eq_getElem hj) ht c
  · intro h
    have hpair := List.pairwise_iff_getElem.mp (outstanding_pairwise_iff.mp h.disjoint)
    have hsingle : ∀ (i j : Nat) (g g' : DispatchedGroup T), i ≠ j → s.groups[i]? = some g → s.groups[j]? = some g' →
      g.tilesetId = g'.tilesetId →
        ∀ c, ¬(g.chunkRange.Covers c ∧ g'.chunkRange.Covers c) := by
      intro i j g g' hij hg hg' ht c
      obtain ⟨hi, rfl⟩ := List.getElem?_eq_some_iff.mp hg
      obtain ⟨hj, rfl⟩ := List.getElem?_eq_some_iff.mp hg'
      rcases Nat.lt_or_gt_of_ne hij with hlt | hlt
      · exact hpair i j hi hj hlt ht c
      · exact (hpair j i hj hi hlt ht.symm).symm c
    refine ⟨fun t st hst c => (h.tracked t st hst c).trans exists_outstanding, hsingle, ?_⟩
    intro i g st result hg hst x hx c hreg j g' hji hg' ht hcov
    rw [(st.completeGroup_spec s.closed g.chunkRange result).2.2.2.2.2, TilesetFetchState.mem_answers] at hx
    obtain ⟨c', hc', he, -, -⟩ := hx
    have hreg' := (hw.held _ st hst _ he).1
    rw [hreg] at hreg'
    obtain rfl : c = c' := congrArg Prod.snd (Option.some.inj hreg')
    exact hsingle j i g' g hji hg' hg ht c ⟨hcov, ChunkRange.mem_chunks.mp hc'⟩

/-- A step that leaves the groups and every state's inflight set alone keeps exactness. -/
theorem TrackedExactly.congr {s s' : Coordinator T} (h : TrackedExactly s) (ho : ∀ t, s'.outstanding t = s.outstanding t)
    (hi : ∀ t st', s'.tilesetStates t = some st' →
      (∃ st, s.tilesetStates t = some st ∧ st'.inflightChunks = st.inflightChunks) ∨
        (s.outstanding t = [] ∧ st'.inflightChunks = .empty)) : TrackedExactly s' where
  tracked := by
    intro t st' hst' c
    rw [ho t]
    rcases hi t st' hst' with ⟨st, hst, heq⟩ | ⟨hnil, heq⟩
    · rw [heq]
      exact h.tracked t st hst c
    · simp [heq, hnil]
  disjoint := fun t => by rw [ho t]; exact h.disjoint t

/-- A selection keeps exactness exactly when it bridges over no chunk in flight: the ranges it adds are disjoint from each other,
and they are disjoint from the outstanding ones when they cover nothing in flight. -/
theorem trackedExactly_select_iff (h : TrackedExactly s) {st : TilesetFetchState} (hst : s.tilesetStates t = some st)
    (now : Instant) :
    TrackedExactly { s.setState t (some (st.selectDispatchGroups m now).1) with
      groups := s.groups ++ dispatchedGroups t (st.selectDispatchGroups m now).2 } ↔ ¬BridgesInflight m st := by
  have hspec := st.selectDispatchGroups_spec m now
  generalize (st.selectDispatchGroups m now).1 = st' at hspec ⊢
  generalize (st.selectDispatchGroups m now).2 = d at hspec ⊢
  obtain ⟨hgroups, hi⟩ : d.groups = st.plannedGroups m ∧
      ∀ c, c ∈ st'.inflightChunks ↔ c ∈ st.inflightChunks ∨ ∃ r ∈ st.plannedGroups m, r.Covers c := by
    cases hspec with
    | idle hp hst' =>
      subst hst'
      simp [DispatchDecision.groups, TilesetFetchState.plannedGroups_eq_nil hp]
    | throttled hg hst' =>
      subst hst'
      simp [DispatchDecision.groups, hg]
    | dispatch _ _ _ _ hi => exact ⟨rfl, hi⟩
  constructor
  · rintro h' ⟨r, hr, c, hc, hcov⟩
    have hdis := h'.disjoint t
    rw [outstanding_select, if_pos rfl, hgroups, List.pairwise_append] at hdis
    obtain ⟨r', hr', hcov'⟩ := (h.tracked t st hst c).mp hc
    exact hdis.2.2 r' hr' r hr c ⟨hcov', hcov⟩
  · intro hclear
    refine ⟨fun t' u hget c => ?_, fun t' => ?_⟩
    · rw [outstanding_select]
      rcases update_eq_some hget with ⟨rfl, hsome⟩ | ⟨hne, hget⟩
      · rw [if_pos rfl, ← Option.some.inj hsome, hi c, h.tracked t' st hst c, hgroups]
        simp only [List.mem_append, or_and_right, exists_or]
      · rw [if_neg hne]
        exact h.tracked t' u hget c
    · rw [outstanding_select]
      split
      · rename_i ht
        subst ht
        rw [hgroups, List.pairwise_append]
        refine ⟨h.disjoint t', plannedGroups_disjoint st m, fun r' hr' r hr c hcov => ?_⟩
        exact hclear ⟨r, hr, c, (h.tracked t' st hst c).mpr ⟨r', hr', hcov.1⟩, hcov.2⟩
      · exact h.disjoint t'

/-- Completing a group keeps exactness: what the group covered, no other group covers. -/
theorem TrackedExactly.complete (h : TrackedExactly s) {i : Nat} {g : DispatchedGroup T}
    (hg : s.groups[i]? = some g) (result : GroupResult) : TrackedExactly (s.completeDispatched i g result) := by
  obtain ⟨hown, hother⟩ := outstanding_eraseIdx hg (spans_completeDispatched s i g result)
  have hdis := (hown.pairwise_iff ChunkRange.Disjoint.symm).mp (h.disjoint g.tilesetId)
  obtain ⟨hfirst, hrest⟩ := List.pairwise_cons.mp hdis
  refine ⟨fun t u hget c => ?_, fun t => ?_⟩
  · rcases completeDispatched_get hget with ⟨rfl, st, hst, rfl⟩ | ⟨hne, hget⟩
    · rw [(st.completeGroup_spec s.closed g.chunkRange result).2.2.2.2.1 c, h.tracked _ st hst c]
      constructor
      · rintro ⟨⟨r, hr, hcov⟩, hncov⟩
        rcases List.mem_cons.mp (hown.mem_iff.mp hr) with rfl | hr
        · exact absurd hcov hncov
        · exact ⟨r, hr, hcov⟩
      · rintro ⟨r, hr, hcov⟩
        exact ⟨⟨r, hown.mem_iff.mpr (List.mem_cons_of_mem _ hr), hcov⟩, fun hg => hfirst r hr c ⟨hg, hcov⟩⟩
    · rw [h.tracked t u hget c]
      simp only [(hother t hne).mem_iff]
  · by_cases ht : t = g.tilesetId
    · exact ht ▸ hrest
    · exact ((hother t ht).pairwise_iff ChunkRange.Disjoint.symm).mp (h.disjoint t)

/-- From an exact state, a step leads to an exact state precisely when it is no selection that bridges over a chunk in flight. -/
theorem trackedExactly_step_iff {s s' : Coordinator T} {a : CoordinatorAction T} (hf : FetchInv s)
    (h : TrackedExactly s) (hs : Stepped m s a s') : TrackedExactly s' ↔ SelectsClear m s a := by
  cases hs with
  | select t now st hst =>
    rw [trackedExactly_select_iff h hst now]
    constructor
    · rintro hclear t' now' heq st' hst'
      obtain ⟨rfl, rfl⟩ : t = t' ∧ now = now' := by simpa using heq
      obtain rfl : st = st' := by simpa [hst] using hst'
      exact hclear
    · intro hclear
      exact hclear t now rfl st hst
  | fetchChunks t cs len now =>
    refine iff_of_true (h.congr (fun _ => rfl) fun t' st' hget => ?_) (by simp [SelectsClear])
    rcases update_eq_some hget with ⟨rfl, hsome⟩ | ⟨-, hget⟩
    · have hi := (TilesetFetchState.enqueueChunks_spec cs now { (s.tilesetStates t').getD .default with
        archiveLen := max ((s.tilesetStates t').getD .default).archiveLen len } s.nextWaiter).2.1
      have hst' : st'.inflightChunks = ((s.tilesetStates t').getD .default).inflightChunks := by
        cases hsome
        split <;> exact hi
      cases hst : s.tilesetStates t' with
      | none =>
        rw [hst] at hst'
        exact Or.inr ⟨hf.absent t' hst, hst'⟩
      | some st =>
        rw [hst] at hst'
        exact Or.inl ⟨st, rfl, hst'⟩
    · exact Or.inl ⟨st', hget, rfl⟩
  | prune t st hst =>
    refine iff_of_true (h.congr (fun _ => rfl) fun t' st' hget => Or.inl ?_) (by simp [SelectsClear])
    rcases update_eq_some hget with ⟨rfl, hsome⟩ | ⟨-, hget⟩
    · exact ⟨st, hst, by rw [← Option.some.inj hsome]; rfl⟩
    · exact ⟨st', hget, rfl⟩
  | phase _ i g p hg ha _ =>
    refine iff_of_true (h.congr (outstanding_congr (spans_setPhase hg p)) fun t' st' hget => Or.inl ⟨st', hget, rfl⟩) ?_
    intro t now heq
    exact absurd heq (ha t now)
  | complete i g result hg _ => exact iff_of_true (h.complete hg result) (by simp [SelectsClear])
  | remove t =>
    refine iff_of_true (h.congr (fun t' => ?_) fun t' st' hget => Or.inl ?_) (by simp [SelectsClear])
    · unfold removeDrainableState
      split
      · split <;> rfl
      · rfl
    · unfold removeDrainableState at hget
      split at hget
      · split at hget
        · rcases update_eq_some hget with ⟨-, hsome⟩ | ⟨-, hget⟩
          · cases hsome
          · exact ⟨st', hget, rfl⟩
        · exact ⟨st', hget, rfl⟩
      · exact ⟨st', hget, rfl⟩
  | cancel w => exact iff_of_true (h.congr (fun _ => rfl) fun t' st' hget => Or.inl ⟨st', hget, rfl⟩) (by simp [SelectsClear])

/-- A run keeps the tracking of chunks in flight exact in every state it visits if and only if none of its selections plans a
range over a chunk that is already in flight. -/
theorem inflight_exact_iff_selects_clear (m : Nat) (as : List (CoordinatorAction T)) (s : Coordinator T)
    (h : (machine T m).run (machine T m).init as = some s) :
    (machine T m).HoldsAlong InflightExact as ↔ (machine T m).GuardedAlong (SelectsClear m) as := by
  refine Machine.holdsAlong_iff_guardedAlong ?_ (fun s a s' hr hP hs => ?_) as s h
  · refine (inflightExact_iff WaitersInv.new).mpr ⟨by simp [Coordinator.new], fun t => List.Pairwise.nil⟩
  · obtain ⟨hf, hw⟩ := reachable_inv hr
    have hw' := (reachable_inv (hr.next hs)).2
    rw [inflightExact_iff hw']
    exact trackedExactly_step_iff hf ((inflightExact_iff hw).mp hP) (step_stepped hs)

/-- Chunk 1 is fetched alone; then 0 and 2 are requested, and the range planned for them covers 1. -/
def bridgeRun : List (CoordinatorAction Nat) :=
  [.fetchChunks 7 [1] 100 0, .selectDispatchGroups 7 1, .spawnFetch 0, .fetchChunks 7 [0, 2] 100 2, .selectDispatchGroups 7 3,
    .spawnFetch 1]

/-- The first selection of that run plans nothing over a chunk in flight, so the run is exact up to there. -/
theorem inflight_exact_iff_selects_clear_bridgeRun :
    (machine Nat 4).HoldsAlong InflightExact (bridgeRun.take 2) := by
  refine (inflight_exact_iff_selects_clear 4 (bridgeRun.take 2) _ rfl).mpr ?_
  rintro pre a hp s hs t now rfl st hst ⟨r, -, c, hc, -⟩
  obtain rfl : pre = bridgeRun.take 1 := by
    rcases pre with _ | ⟨x, _ | ⟨y, pre⟩⟩ <;> simp [bridgeRun] at hp ⊢
    exact hp.1
  have hempty : ∀ s, (machine Nat 4).run (machine Nat 4).init (bridgeRun.take 1) = some s →
      ∀ t st, s.tilesetStates t = some st → st.inflightChunks = .empty := by
    rintro _ ⟨⟩ t st hst
    rcases update_eq_some hst with ⟨-, hsome⟩ | ⟨-, hnone⟩
    · cases hsome
      decide
    · cases hnone
  rw [hempty s hs t st hst] at hc
  exact OrderedSet.not_mem_empty c hc

/-- After the second selection two groups are fetching chunk 1. When the first of them fails, it answers the waiter of chunk 1 and
takes the chunk out of flight, although the second is still fetching it. -/
theorem bridgeRun_not_inflight_exact :
    ∃ s, (machine Nat 4).run (machine Nat 4).init
        (bridgeRun ++ [.finishFetch 0 (.error (.backend "connection reset")), .completeGroup 0]) = some s ∧
      s.sends.map (fun x => (x.waiter, x.delivered)) = [(0, true)] ∧ s.groups.map (·.chunkRange) = [⟨0, 3⟩] ∧
      ¬InflightExact s := by
  refine ⟨_, rfl, by decide, by decide, fun h => ?_⟩
  have hmem := (h.tracked 7 _ rfl 1).mpr ⟨_, List.mem_singleton.mpr rfl, rfl, by decide⟩
  revert hmem
  decide

end Coordinator

end Biei
