import Biei.Lemmas.Dispatcher

/-! # The safety of a routing decision -/

namespace Biei

namespace Dispatcher

/-! ## What is made of the candidates -/

section Materialize

variable {d : Dispatcher} {task : InternalTask} {tier : RouteTier} {first : ForwardCandidate} {rest : List ForwardCandidate}

/-- A forwarding decision: the first candidate is another node, the hop is still free, and self is dropped from the rest. -/
theorem materializeCandidates_eq_forward {tier' : RouteTier} {candidates : List ForwardCandidate}
    (h : d.materializeCandidates task tier (first :: rest) = .forward tier' candidates) :
    tier' = tier ∧ task.forwardingHops < 1 ∧ first.nodeId ≠ d.nodeId ∧
      candidates = first :: rest.filter fun c => decide (c.nodeId ≠ d.nodeId) := by
  unfold materializeCandidates at h
  dsimp only at h
  split at h
  · cases h
  · rename_i hself
    split at h
    · cases h
    · rename_i hhops
      cases h
      exact ⟨rfl, UInt8.not_le.mp hhops, hself, by simp [hself]⟩

/-- The fallback of a local decision: nobody once the hop is taken, and never self. -/
theorem materializeCandidates_eq_local {tier' : RouteTier} {hint : Option UInt32} {fallback : List ForwardCandidate}
    (h : d.materializeCandidates task tier (first :: rest) = .local tier' hint fallback) :
    (1 ≤ task.forwardingHops → fallback = []) ∧ ∀ c ∈ fallback, c ∈ rest ∧ c.nodeId ≠ d.nodeId := by
  unfold materializeCandidates at h
  dsimp only at h
  split at h
  · cases h
    split
    · exact ⟨fun _ => rfl, fun c hc => by cases hc⟩
    · rename_i hhops
      exact ⟨fun hle => absurd hle hhops, fun c hc => by simpa using hc⟩
  · split at h
    · cases h
      exact ⟨fun _ => rfl, fun c hc => by cases hc⟩
    · cases h

theorem materializeCandidates_ne_reject {reason : RejectionReason} :
    d.materializeCandidates task tier (first :: rest) ≠ .reject reason := by
  unfold materializeCandidates
  dsimp only
  split
  · exact nofun
  · split
    · exact nofun
    · exact nofun

end Materialize

/-! ## What a decision depends on -/

/-- Two views with the same members and the same entries, in the same order, lead to the same decision. -/
theorem decideView_congr {d : Dispatcher} {rng : RoutingRng} {now : Instant} {task : InternalTask} {v v' : DispatchView}
    (hmembers : v.members = v'.members) (hentries : v.stateEntries = v'.stateEntries) :
    d.decideView rng now task v = d.decideView rng now task v' := by
  have hstate : v.state = v'.state := by
    funext id
    refine Option.ext ?_
    intro s
    rw [← DispatchView.mem_stateEntries, ← DispatchView.mem_stateEntries, hentries]
  have hstates : v.states = v'.states := by
    rw [DispatchView.states_eq, DispatchView.states_eq, hentries]
  have hwarm : d.selectWarmTarget rng task v task.workerProfile = d.selectWarmTarget rng task v' task.workerProfile := by
    unfold selectWarmTarget warmCandidates
    rw [hstates]
  have htier3 : ∀ limit, d.tier3CandidatesView now v task limit = d.tier3CandidatesView now v' task limit := by
    intro limit
    have hdrain : drainable v = drainable v' := by
      unfold drainable
      rw [hentries]
    have hcounts : clusterCounts v = clusterCounts v' := by
      funext profile
      unfold clusterCounts
      rw [hdrain]
    unfold tier3CandidatesView
    rw [hdrain, hcounts]
  have hhrw : hrwWhere v = hrwWhere v' := by
    funext profile eligible
    unfold hrwWhere
    rw [hmembers, hstate]
  unfold decideView
  dsimp only
  rw [hwarm, htier3, hhrw]

end Dispatcher

namespace DispatchView

variable {cluster : ClusterView} {s : NodeStateView}

/-- A member's own state is what the view tells of it. -/
theorem state_new_self (h : s.id ∈ cluster.members) : (new cluster (some s)).state s.id = some s := by
  simp [new, state, Option.filter, h]

/-- The entries of the view of a member: gossip about the others, then its own state. -/
theorem stateEntries_new_self (h : s.id ∈ cluster.members) :
    (new cluster (some s)).stateEntries = cluster.states.filter (fun e => decide (e.1 ≠ s.id)) ++ [(s.id, s)] := by
  simp [new, stateEntries, remoteEntries, Option.filter, h, eq_comm]

/-- A state the view tells of is a gossip entry or the local state. -/
theorem state_new_cases {localState : Option NodeStateView} {id : NodeId} {node : NodeStateView}
    (h : (new cluster localState).state id = some node) : (id, node) ∈ cluster.states ∨ localState = some node := by
  rcases List.mem_append.mp (mem_stateEntries.mpr h) with h | h
  · exact Or.inl (List.mem_filter.mp h).1
  · obtain ⟨s, hs, heq⟩ := List.mem_map.mp h
    cases heq
    exact Or.inr (Option.filter_eq_some_iff.mp (Option.mem_toList.mp hs)).1

end DispatchView

namespace Dispatcher

/-! ## The decision -/

/-- For every view, task and clock: a decision to forward names one or two distinct candidates other than self, each in a state
the view knows that accepts renders and passes the rule of the tier (behind a warm target, that of Tier 2), and only while the
hop is free; a task that has taken its hop gets no forwarding fallback; a member decides from its own state, whatever gossip says
of it; and a task is rejected only when no known node passes the rule of a tier that looks at it. -/
theorem decideView_safe (d : Dispatcher) (rng : RoutingRng) (now : Instant) (task : InternalTask) (cluster : ClusterView)
    (localState : Option NodeStateView) (hmembers : cluster.members.Nodup)
    (hworkers : ∀ e ∈ cluster.states, (e.2.workers.map (·.id)).Nodup)
    (hlocal : ∀ s, localState = some s → (s.workers.map (·.id)).Nodup) :
    (∀ tier candidates, d.decideView rng now task (DispatchView.new cluster localState) = .forward tier candidates →
      task.forwardingHops < 1 ∧ candidates ≠ [] ∧ candidates.length ≤ 2 ∧ candidates.Nodup ∧
      (∀ c ∈ candidates, c.nodeId ≠ d.nodeId ∧
        ∃ node, (DispatchView.new cluster localState).state c.nodeId = some node ∧ node.acceptsNewRenders = true) ∧
      (∀ c ∈ candidates.head?, d.AdmittedBy now task (DispatchView.new cluster localState) tier c) ∧
      ∀ c ∈ candidates.tail, d.AdmittedBy now task (DispatchView.new cluster localState) tier c ∨
        tier = .tier1WarmTracking ∧ d.AdmittedBy now task (DispatchView.new cluster localState) .tier2HrwBl c) ∧
    (∀ tier hint fallback, d.decideView rng now task (DispatchView.new cluster localState) = .local tier hint fallback →
      (1 ≤ task.forwardingHops → fallback = []) ∧ ∀ c ∈ fallback, c.nodeId ≠ d.nodeId) ∧
    (∀ s, localState = some s → s.id ∈ cluster.members →
      (DispatchView.new cluster localState).state s.id = some s ∧
      ∀ cluster' : ClusterView, cluster'.members = cluster.members →
        cluster'.states.filter (fun e => decide (e.1 ≠ s.id)) = cluster.states.filter (fun e => decide (e.1 ≠ s.id)) →
        d.decideView rng now task (DispatchView.new cluster' localState) =
          d.decideView rng now task (DispatchView.new cluster localState)) ∧
    (∀ reason, d.decideView rng now task (DispatchView.new cluster localState) = .reject reason →
      reason = .noCapacity ∧ d.NoneAdmitted now task (DispatchView.new cluster localState)) := by
  have hids : ∀ id node, (DispatchView.new cluster localState).state id = some node → (node.workers.map (·.id)).Nodup := by
    intro id node hnode
    rcases DispatchView.state_new_cases hnode with hmem | hs
    · exact hworkers _ hmem
    · exact hlocal node hs
  have hcases := decideView_cases d rng now task (DispatchView.new cluster localState) hmembers hids
  refine ⟨?_, ?_, ?_, ?_⟩
  · intro tier candidates hdecide
    rcases hcases with ⟨tier', first, rest, hok, heq⟩ | ⟨heq, _⟩
    · rw [heq] at hdecide
      obtain ⟨rfl, hhops, hself, rfl⟩ := materializeCandidates_eq_forward hdecide
      have hsub : (first :: rest.filter fun c => decide (c.nodeId ≠ d.nodeId)).Sublist (first :: rest) :=
        List.filter_sublist.cons_cons first
      have hrest : ∀ c ∈ rest.filter fun c => decide (c.nodeId ≠ d.nodeId), c ∈ rest ∧ c.nodeId ≠ d.nodeId := by
        intro c hc
        simpa using List.mem_filter.mp hc
      refine ⟨hhops, List.cons_ne_nil _ _, hsub.length_le.trans hok.length_le, hok.nodup.sublist hsub, ?_, ?_, ?_⟩
      · intro c hc
        rcases List.mem_cons.mp hc with rfl | hc
        · obtain ⟨node, hnode, hadm⟩ := hok.first_ok
          exact ⟨hself, node, hnode, hadm.acceptsNewRenders⟩
        · refine ⟨(hrest c hc).2, ?_⟩
          rcases hok.rest_ok c (hrest c hc).1 with ⟨node, hnode, hadm⟩ | ⟨_, node, hnode, hadm⟩
          · exact ⟨node, hnode, hadm.acceptsNewRenders⟩
          · exact ⟨node, hnode, hadm.acceptsNewRenders⟩
      · intro c hc
        cases hc
        exact hok.first_ok
      · intro c hc
        exact hok.rest_ok c (hrest c hc).1
    · rw [heq] at hdecide
      cases hdecide
  · intro tier hint fallback hdecide
    rcases hcases with ⟨tier', first, rest, _, heq⟩ | ⟨heq, _⟩
    · rw [heq] at hdecide
      obtain ⟨hnone, hself⟩ := materializeCandidates_eq_local hdecide
      exact ⟨hnone, fun c hc => (hself c hc).2⟩
    · rw [heq] at hdecide
      cases hdecide
  · intro s hs hmem
    subst hs
    refine ⟨DispatchView.state_new_self hmem, ?_⟩
    intro cluster' hmembers' hstates'
    have hmem' : s.id ∈ cluster'.members := hmembers' ▸ hmem
    refine decideView_congr hmembers' ?_
    rw [DispatchView.stateEntries_new_self hmem, DispatchView.stateEntries_new_self hmem', hstates']
  · intro reason hdecide
    rcases hcases with ⟨tier', first, rest, _, heq⟩ | ⟨heq, hnone⟩
    · rw [heq] at hdecide
      exact absurd hdecide materializeCandidates_ne_reject
    · rw [heq] at hdecide
      cases hdecide
      exact ⟨rfl, hnone⟩

/-! ## Two decisions -/

/-- A generator for the fixed inputs below, where no draw is made. -/
def fixedRng : RoutingRng where
  State := Unit
  seedFromU64 := fun _ => ()
  randomRange := fun _ _ h => (⟨0, h⟩, ())

/-- A tile of a style, at scale one. -/
theorem isRequestId_r : isRequestId "r" = true := by decide

def tileTask : InternalTask where
  id := 1
  requestId := ⟨"r", isRequestId_r⟩
  authorization := none
  style := ⟨⟨"style"⟩, 0⟩
  source := none
  request := .tile 1 0 0 512
  pixelRatio := .ofScale .x1
  outputFormat := .png
  arrivedAt := 0
  deadline := 10000000000
  forwardingHops := 0

/-- A node with one worker. -/
def oneWorker (id : String) (loadedProfile : Option WorkerProfile) (queueDepth : Nat) : NodeStateView :=
  ⟨⟨id⟩, true, [⟨0, loadedProfile, queueDepth⟩]⟩

def freeCosts : CostConfig := ⟨⟨0, 0⟩, ⟨0, 0⟩, ⟨0, 0⟩, ⟨0, 0⟩, 0, 10000000000⟩

/-- The dispatcher of node `a`. -/
def dispatcherA : Dispatcher := .new ⟨"a"⟩ ⟨.powerOfTwo, false, 1⟩ freeCosts 1 4 0

/-- Three members: `a` itself is full, `b` is warm, `c` is fresh. Gossip still holds an idle `a`. -/
def warmCluster : ClusterView where
  members := [⟨"a"⟩, ⟨"b"⟩, ⟨"c"⟩]
  states := [(⟨"a"⟩, oneWorker "a" none 0), (⟨"b"⟩, oneWorker "b" (some tileTask.workerProfile) 0), (⟨"c"⟩, oneWorker "c" none 0)]
  keys := by decide
  ids := by decide

theorem decideView_safe_warmCluster :
    dispatcherA.decideView fixedRng 0 tileTask (.new warmCluster (some (oneWorker "a" none 4))) =
        .forward .tier1WarmTracking [⟨⟨"b"⟩, none⟩, ⟨⟨"c"⟩, none⟩] ∧
      dispatcherA.AdmittedBy 0 tileTask (.new warmCluster (some (oneWorker "a" none 4))) .tier1WarmTracking ⟨⟨"b"⟩, none⟩ := by
  have hdecide : dispatcherA.decideView fixedRng 0 tileTask (.new warmCluster (some (oneWorker "a" none 4))) =
      .forward .tier1WarmTracking [⟨⟨"b"⟩, none⟩, ⟨⟨"c"⟩, none⟩] := by decide
  have hsafe := decideView_safe dispatcherA fixedRng 0 tileTask warmCluster (some (oneWorker "a" none 4)) (by decide) (by decide)
    (fun s hs => by cases hs; decide)
  exact ⟨hdecide, (hsafe.1 _ _ hdecide).2.2.2.2.2.1 _ rfl⟩

/-- Gossip has told of `b`, which is not a member yet. -/
def unlistedCluster : ClusterView where
  members := [⟨"a"⟩]
  states := [(⟨"b"⟩, oneWorker "b" none 0)]
  keys := by decide
  ids := by decide

/-- A node that passes the rule of Tier 2 and of Tier 4 is known to the view, and the task is rejected: those tiers ask members
only. -/
theorem unlistedCluster_rejected :
    dispatcherA.decideView fixedRng 0 tileTask (.new unlistedCluster (some (oneWorker "a" none 4))) = .reject .noCapacity ∧
      (DispatchView.new unlistedCluster (some (oneWorker "a" none 4))).state ⟨"b"⟩ = some (oneWorker "b" none 0) ∧
      dispatcherA.Admits 0 tileTask .tier2HrwBl (oneWorker "b" none 0) none ∧
      dispatcherA.Admits 0 tileTask .tier4Overflow (oneWorker "b" none 0) none := by
  refine ⟨by decide, by decide, ⟨rfl, rfl, ?_⟩, ⟨rfl, rfl, ?_⟩⟩
  · exact ⟨⟨0, none, 0⟩, List.mem_singleton_self _, by decide⟩
  · exact ⟨⟨0, none, 0⟩, List.mem_singleton_self _, by decide⟩

end Dispatcher

end Biei

/-! ## Rendezvous placement -/

namespace Biei.Storage

namespace HrwRouter

/-- The peers of a route are the first `candidate_count` of all by descending weight and ascending id, whatever their order is.
Leaving out a peer that was not selected changes nothing; leaving out one that was lets at most one come after the others; and one
more peer takes the place of at most the last. -/
theorem route_group_placement (router : HrwRouter) (xxHash64 : Bytes → UInt64) (peers : List Peer) (key : String) (groupId : Nat)
    (hids : (peers.map Peer.id).Nodup) :
    router.routeGroup xxHash64 peers key groupId =
      ((peers.map fun peer => ⟨xxHash64 (weightInput key groupId peer.id), peer⟩).insertionSort
        fun a b => ScoredPeer.le a b = true).take router.candidateCount ∧
    (∀ peers', peers'.Perm peers → router.routeGroup xxHash64 peers' key groupId = router.routeGroup xxHash64 peers key groupId) ∧
    (∀ id, id ∉ (router.routeGroup xxHash64 peers key groupId).map (fun c => c.peer.id) →
      router.routeGroup xxHash64 (peers.filter fun peer => peer.id != id) key groupId = router.routeGroup xxHash64 peers key
        groupId) ∧
    (∀ id, id ∈ (router.routeGroup xxHash64 peers key groupId).map (fun c => c.peer.id) →
      ∃ added, added.length ≤ 1 ∧ router.routeGroup xxHash64 (peers.filter fun peer => peer.id != id) key groupId =
        (router.routeGroup xxHash64 peers key groupId).filter (fun c => c.peer.id != id) ++ added) ∧
    (∀ peer peers', peer.id ∉ peers.map Peer.id → peers'.Perm (peer :: peers) →
      ∃ displaced, displaced.length ≤ 1 ∧ router.routeGroup xxHash64 peers key groupId =
        (router.routeGroup xxHash64 peers' key groupId).filter (fun c => c.peer.id != peer.id) ++ displaced) := by
  have hperm : ∀ l l' : List Peer, (l.map Peer.id).Nodup → l'.Perm l →
      router.routeGroup xxHash64 l' key groupId = router.routeGroup xxHash64 l key groupId := by
    intro l l' hl hl'
    rw [routeGroup_eq router xxHash64 hl, routeGroup_eq router xxHash64 ((hl'.map Peer.id).nodup_iff.mpr hl)]
    exact topK_perm _ (hl'.map _) fun a ha b hb => scored_inj _ ((hl'.map Peer.id).nodup_iff.mpr hl) ha hb
  -- among those selected an id occurs once
  have hone : ∀ l : List Peer, (l.map Peer.id).Nodup → ∀ id, ∃ added, added.length ≤ 1 ∧
      router.routeGroup xxHash64 (l.filter fun peer => peer.id != id) key groupId =
        (router.routeGroup xxHash64 l key groupId).filter (fun c => c.peer.id != id) ++ added := by
    intro l hl id
    obtain ⟨added, heq, hlength⟩ := router.routeGroup_filter xxHash64 hl key groupId fun other => other != id
    have hcount := List.nodup_iff_count_le_one.mp (router.routeGroup_ids_nodup xxHash64 hl key groupId) id
    rw [List.count, List.countP_map] at hcount
    refine ⟨added, hlength.trans (le_trans (le_of_eq (List.countP_congr ?_)) hcount), heq⟩
    intro c _
    simp
  refine ⟨routeGroup_eq router xxHash64 hids key groupId, fun peers' hpeers => hperm peers peers' hids hpeers, fun id hid => ?_,
    fun id _ => hone peers hids id, fun peer peers' hnew hpeers => ?_⟩
  · obtain ⟨added, heq, hlength⟩ := router.routeGroup_filter xxHash64 hids key groupId fun other => other != id
    have hkept : ∀ c ∈ router.routeGroup xxHash64 peers key groupId, (c.peer.id != id) = true := by
      intro c hc
      have hne : c.peer.id ≠ id := fun heq => hid (heq ▸ List.mem_map_of_mem hc)
      simpa using hne
    rw [List.countP_eq_zero.mpr fun c hc => by simp [hkept c hc], Nat.le_zero, List.length_eq_zero_iff] at hlength
    rw [heq, hlength, List.append_nil, List.filter_eq_self.mpr hkept]
  · have hids' : (peers'.map Peer.id).Nodup := (hpeers.map Peer.id).nodup_iff.mpr (List.nodup_cons.mpr ⟨hnew, hids⟩)
    obtain ⟨displaced, hlength, heq⟩ := hone peers' hids' peer.id
    refine ⟨displaced, hlength, ?_⟩
    rw [← heq]
    refine (hperm peers _ hids ?_).symm
    have hrest : (peer :: peers).filter (fun other => other.id != peer.id) = peers := by
      rw [List.filter_cons_of_neg (by simp)]
      refine List.filter_eq_self.mpr fun other hother => ?_
      have hne : other.id ≠ peer.id := fun heq => hnew (heq ▸ List.mem_map_of_mem hother)
      simpa using hne
    exact hrest ▸ hpeers.filter _

/-- Two peers of three, with the real hashes of the ids for the first group of `demo/streets`. -/
theorem route_group_placement_streets :
    let peers : List Peer := [⟨"node-a", "10.0.0.1:8080"⟩, ⟨"node-b", "10.0.0.2:8080"⟩, ⟨"node-c", "10.0.0.3:8080"⟩]
    let xxHash64 : Bytes → UInt64 := fun input =>
      if input = weightInput "demo/streets" 0 "node-a" then 0x3aa32deb200a7097
      else if input = weightInput "demo/streets" 0 "node-b" then 0x473005f3e4d38e6e
      else if input = weightInput "demo/streets" 0 "node-c" then 0xb3b48cde41930432
      else 0
    ((new 2 1).routeGroup xxHash64 peers "demo/streets" 0).map (fun c => c.peer.id) = ["node-c", "node-b"] ∧
      (new 2 1).routeGroup xxHash64 peers.reverse "demo/streets" 0 = (new 2 1).routeGroup xxHash64 peers "demo/streets" 0 := by
  intro peers xxHash64
  have hids : (peers.map Peer.id).Nodup := by decide
  exact ⟨by decide +kernel, (route_group_placement (new 2 1) xxHash64 peers "demo/streets" 0 hids).2.1 _
    (List.reverse_perm peers)⟩

end HrwRouter

end Biei.Storage

namespace Biei

/-- The candidates are the first `limit` of the eligible members by descending weight, with ties in the order of the members; the
version of the style plays no part. Without a member that was not selected they are the same; without one that was, the others
stay in order, and at most as many come after them as the member had places among them. -/
theorem top_hrw_candidates_placement (members : List NodeId) (profile : WorkerProfile) (limit : Nat) (eligible : NodeId → Bool) :
    topHrwCandidates members profile limit eligible =
      (((members.filter eligible).insertionSort fun a b => hrwWeight profile b ≤ hrwWeight profile a).take limit).map
        (fun node => ⟨node, none⟩) ∧
    (∀ version, topHrwCandidates members { profile with style := { profile.style with version := version } } limit eligible =
      topHrwCandidates members profile limit eligible) ∧
    (∀ node, node ∉ (topHrwCandidates members profile limit eligible).map (·.nodeId) →
      topHrwCandidates members profile limit (fun other => eligible other && other != node) =
        topHrwCandidates members profile limit eligible) ∧
    (∀ node, node ∈ (topHrwCandidates members profile limit eligible).map (·.nodeId) →
      ∃ added, topHrwCandidates members profile limit (fun other => eligible other && other != node) =
          (topHrwCandidates members profile limit eligible).filter (fun c => c.nodeId != node) ++ added ∧
        added.length ≤ ((topHrwCandidates members profile limit eligible).map (·.nodeId)).count node ∧
        (members.Nodup → added.length ≤ 1)) := by
  refine ⟨topHrwCandidates_eq_topK profile members limit eligible, fun _ => rfl, fun node hnode => ?_, fun node _ => ?_⟩
  · obtain ⟨added, heq, hlength⟩ := topHrwCandidates_filter profile members limit eligible fun other => other != node
    have hkept : ∀ c ∈ topHrwCandidates members profile limit eligible, (c.nodeId != node) = true := by
      intro c hc
      have hne : c.nodeId ≠ node := fun heq => hnode (heq ▸ List.mem_map_of_mem hc)
      simpa using hne
    rw [List.countP_eq_zero.mpr fun c hc => by simp [hkept c hc], Nat.le_zero, List.length_eq_zero_iff] at hlength
    rw [heq, hlength, List.append_nil, List.filter_eq_self.mpr hkept]
  · obtain ⟨added, heq, hlength⟩ := topHrwCandidates_filter profile members limit eligible fun other => other != node
    have hcount : (topHrwCandidates members profile limit eligible).countP (fun c => !(c.nodeId != node)) =
        ((topHrwCandidates members profile limit eligible).map (·.nodeId)).count node := by
      rw [List.count, List.countP_map]
      refine List.countP_congr fun c _ => ?_
      simp
    rw [hcount] at hlength
    refine ⟨added, heq, hlength, fun hnodup => hlength.trans ?_⟩
    exact List.nodup_iff_count_le_one.mp (nodup_topHrwCandidates hnodup) node

/-- A tile profile that `node-a` is the first for, before `node-b`. -/
def streetTiles : WorkerProfile := ⟨⟨⟨"streets"⟩, 1⟩, .tile, .x1⟩

/-- A node that is named twice among the members has two places, and two others take them. -/
theorem node_named_twice_replaced_by_two :
    let members : List NodeId := [⟨"node-a"⟩, ⟨"node-a"⟩, ⟨"node-b"⟩, ⟨"node-c"⟩]
    ⟨"node-a"⟩ ∈ (topHrwCandidates members streetTiles 2 fun _ => true).map (·.nodeId) ∧
      ∀ added, topHrwCandidates members streetTiles 2 (fun other => true && other != ⟨"node-a"⟩) =
        (topHrwCandidates members streetTiles 2 fun _ => true).filter (fun c => c.nodeId != ⟨"node-a"⟩) ++ added →
          ¬added.length ≤ 1 := by
  intro members
  have hboth : (topHrwCandidates members streetTiles 2 fun _ => true) = [⟨⟨"node-a"⟩, none⟩, ⟨⟨"node-a"⟩, none⟩] := by
    decide +kernel
  have hothers : (topHrwCandidates members streetTiles 2 fun other => true && other != ⟨"node-a"⟩) =
      [⟨⟨"node-b"⟩, none⟩, ⟨⟨"node-c"⟩, none⟩] := by decide +kernel
  refine ⟨by rw [hboth]; decide, fun added heq hlength => ?_⟩
  rw [hboth, hothers] at heq
  have htwo : added = [⟨⟨"node-b"⟩, none⟩, ⟨⟨"node-c"⟩, none⟩] := by simpa using heq.symm
  rw [htwo] at hlength
  exact absurd hlength (by decide)

end Biei
