import Biei.Lemmas.Dispatcher

/-!
# The order of the eviction candidates

The comparator of Tier 3 compares a rank in a linear order.
-/

namespace Biei

namespace Dispatcher

/-- Protected, of another shape, how often the profile is allocated (the more the earlier), queue depth, node and worker. -/
abbrev Tier3Rank := Bool ×ₗ Bool ×ₗ ℕᵒᵈ ×ₗ ℕ ×ₗ String ×ₗ ℕ

def tier3Rank (taskProfile : WorkerProfile) (counts : WorkerProfile → Nat) (e : NodeId × WorkerView) : Tier3Rank :=
  let key := tier3SortKey e.2.loadedProfile taskProfile counts
  toLex (key.protect, toLex (key.shapeMismatch, toLex (OrderDual.toDual key.reversedCount, toLex (e.2.queueDepth,
    toLex (e.1.id, e.2.id.toNat)))))

/-- What is told of a worker that is to be drained. -/
def hinted (e : NodeId × WorkerView) : ForwardCandidate := ⟨e.1, some e.2.id⟩

variable {taskProfile : WorkerProfile} {counts : WorkerProfile → Nat}

theorem tier3Compare_ne_gt_iff {a b : NodeId × WorkerView} :
    tier3Compare taskProfile counts a b ≠ .gt ↔ tier3Rank taskProfile counts a ≤ tier3Rank taskProfile counts b := by
  unfold tier3Compare tier3Rank
  refine then_ne_gt_iff compare_lt_iff_lt compare_eq_iff_eq ?_
  refine then_ne_gt_iff compare_lt_iff_lt compare_eq_iff_eq ?_
  refine then_ne_gt_iff ?_ ?_ ?_
  · exact Nat.compare_eq_lt
  · rw [Nat.compare_eq_eq]
    exact eq_comm
  refine then_ne_gt_iff Nat.compare_eq_lt Nat.compare_eq_eq ?_
  refine then_ne_gt_iff compare_lt_iff_lt compare_eq_iff_eq ?_
  exact Ordering.ne_gt_iff_isLE.trans (Std.isLE_compare.trans UInt32.le_iff_toNat_le)

/-- The candidate, read off its rank. -/
def Tier3Rank.candidate (rank : Tier3Rank) : ForwardCandidate :=
  let identity := (ofLex (ofLex (ofLex (ofLex (ofLex rank).2).2).2).2)
  ⟨⟨identity.1⟩, some (UInt32.ofNat identity.2)⟩

theorem candidate_tier3Rank (e : NodeId × WorkerView) : (tier3Rank taskProfile counts e).candidate = hinted e := by
  show (⟨⟨e.1.id⟩, some (UInt32.ofNat e.2.id.toNat)⟩ : ForwardCandidate) = hinted e
  rw [UInt32.ofNat_toNat]
  rfl

/-! ## Who qualifies -/

variable {d : Dispatcher} {now : Instant} {task : InternalTask} {view view' : DispatchView}

/-- The drain ends by the deadline of the SLA, if that is an instant of the clock. -/
def FitsSla (d : Dispatcher) (now : Instant) (task : InternalTask) (w : WorkerView) : Prop :=
  task.arrivedAt + d.costs.sla < 2 ^ 63 * 1000000000 →
    now + d.estimateDrainEta w task.workerProfile ≤ task.arrivedAt + d.costs.sla

instance (d : Dispatcher) (now : Instant) (task : InternalTask) (w : WorkerView) : Decidable (d.FitsSla now task w) :=
  inferInstanceAs (Decidable (_ → _))

theorem meetsSla_iff {w : WorkerView} : d.meetsSla now task w = true ↔ d.FitsSla now task w := by
  unfold meetsSla FitsSla instantCheckedAdd
  by_cases hdeadline : task.arrivedAt + d.costs.sla < 2 ^ 63 * 1000000000
  · rw [if_pos hdeadline, Option.all_some]
    by_cases hend : now + d.estimateDrainEta w task.workerProfile < 2 ^ 63 * 1000000000
    · rw [if_pos hend, Option.any_some, decide_eq_true_eq]
      exact ⟨fun h _ => h, fun h => h hdeadline⟩
    · rw [if_neg hend]
      simp only [Option.any_none, Bool.false_eq_true, false_iff]
      intro h
      exact hend ((h hdeadline).trans_lt hdeadline)
  · rw [if_neg hdeadline, Option.all_none]
    exact ⟨fun _ h => absurd h hdeadline, fun _ => rfl⟩

/-- The workers that may be drained for the task, in the order of the view: of accepting nodes, with a short queue, not already
warm for it, and within the SLA. -/
def qualified (d : Dispatcher) (now : Instant) (view : DispatchView) (task : InternalTask) : List (NodeId × WorkerView) :=
  (drainable view).filter fun e => decide (e.2.queueDepth < d.config.drainMaxQueue) &&
    decide (e.2.loadedProfile ≠ some task.workerProfile) && decide (d.FitsSla now task e.2)

/-- The first of the qualified workers by rank, and one at least if there is one. -/
theorem tier3CandidatesView_eq_topK (limit : Nat) :
    d.tier3CandidatesView now view task limit =
      (topK (fun a b => tier3Rank task.workerProfile (clusterCounts view) a ≤ tier3Rank task.workerProfile (clusterCounts view) b)
        (max limit 1) (d.qualified now view task)).map hinted := by
  have hsort : ∀ l : List (NodeId × WorkerView),
      l.insertionSort (fun a b => tier3Compare task.workerProfile (clusterCounts view) a b ≠ .gt) = l.insertionSort
        fun a b => tier3Rank task.workerProfile (clusterCounts view) a ≤ tier3Rank task.workerProfile (clusterCounts view) b := by
    intro l
    have h := List.map_insertionSort (fun a b => tier3Compare task.workerProfile (clusterCounts view) a b ≠ .gt)
      (fun a b => tier3Rank task.workerProfile (clusterCounts view) a ≤ tier3Rank task.workerProfile (clusterCounts view) b) id l
      fun _ _ _ _ => tier3Compare_ne_gt_iff
    rwa [List.map_id, List.map_id] at h
  have : Std.Total fun a b : NodeId × WorkerView => tier3Rank task.workerProfile (clusterCounts view) a ≤
      tier3Rank task.workerProfile (clusterCounts view) b := ⟨fun _ _ => le_total _ _⟩
  have : IsTrans (NodeId × WorkerView) fun a b => tier3Rank task.workerProfile (clusterCounts view) a ≤
      tier3Rank task.workerProfile (clusterCounts view) b := ⟨fun _ _ _ => le_trans⟩
  rw [tier3CandidatesView_eq, hsort, ← insertionSort_filter, List.filter_filter]
  unfold topK qualified hinted
  congr 4
  funext e
  rw [Bool.and_comm, Bool.eq_iff_iff, Bool.and_eq_true, Bool.and_eq_true, meetsSla_iff, decide_eq_true_eq]
  rfl

theorem stateEntries_perm (hlocal : view'.localState = view.localState)
    (hstates : view'.cluster.states.Perm view.cluster.states) :
    view'.stateEntries.Perm view.stateEntries := by
  unfold DispatchView.stateEntries DispatchView.remoteEntries
  rw [hlocal]
  exact (hstates.filter _).append_right _

theorem drainable_perm (hlocal : view'.localState = view.localState) (hstates : view'.cluster.states.Perm view.cluster.states) :
    (drainable view').Perm (drainable view) :=
  ((stateEntries_perm hlocal hstates).filter _).flatMap_right _

theorem clusterCounts_perm (hlocal : view'.localState = view.localState)
    (hstates : view'.cluster.states.Perm view.cluster.states) :
    clusterCounts view' = clusterCounts view := by
  funext profile
  exact (drainable_perm hlocal hstates).countP_eq _

/-- The order in which the states are gone through plays no part. -/
theorem tier3CandidatesView_perm (hlocal : view'.localState = view.localState)
    (hstates : view'.cluster.states.Perm view.cluster.states) (limit : Nat) :
    d.tier3CandidatesView now view' task limit = d.tier3CandidatesView now view task limit := by
  have hread : ∀ view : DispatchView, d.tier3CandidatesView now view task limit =
      (topK (· ≤ ·) (max limit 1) ((d.qualified now view task).map (tier3Rank task.workerProfile (clusterCounts view)))).map
        Tier3Rank.candidate := by
    intro view
    rw [tier3CandidatesView_eq_topK, topK_map _ (· ≤ ·) _ fun _ _ => Iff.rfl, List.map_map]
    exact List.map_congr_left fun e _ => (candidate_tier3Rank e).symm
  have hqualified : (d.qualified now view' task).Perm (d.qualified now view task) := (drainable_perm hlocal hstates).filter _
  rw [hread, hread, clusterCounts_perm hlocal hstates]
  rw [topK_perm _ (hqualified.map _) fun a _ b _ hab hba => le_antisymm hab hba]


end Dispatcher

end Biei
