import Biei.Lib.Selection
import Biei.Routing.Dispatcher
import Biei.Storage.Peer

/-!
# Both rendezvous selections

Both loops keep the first of a sorted list, the one with ties put before each other as they come, the other stably.
-/

namespace Biei.Storage

namespace ScoredPeer

theorem le_iff {a b : ScoredPeer} :
    a.le b = true ↔ b.score.toNat < a.score.toNat ∨ (a.score.toNat = b.score.toNat ∧ a.peer.id ≤ b.peer.id) := by
  simp [ScoredPeer.le, UInt64.lt_iff_toNat_lt, UInt64.toNat_inj]

instance le_total : Std.Total fun a b : ScoredPeer => a.le b = true := by
  refine ⟨fun a b => ?_⟩
  rw [le_iff, le_iff]
  rcases Nat.lt_trichotomy a.score.toNat b.score.toNat with hlt | heq | hgt
  · exact Or.inr (Or.inl hlt)
  · rcases String.le_total a.peer.id b.peer.id with hid | hid
    · exact Or.inl (Or.inr ⟨heq, hid⟩)
    · exact Or.inr (Or.inr ⟨heq.symm, hid⟩)
  · exact Or.inl (Or.inl hgt)

instance le_trans : IsTrans ScoredPeer fun a b => a.le b = true := by
  refine ⟨fun a b c hab hbc => ?_⟩
  rw [le_iff] at hab hbc ⊢
  rcases hab with hab | ⟨hab, hid⟩
  · rcases hbc with hbc | ⟨hbc, -⟩
    · exact Or.inl (hbc.trans hab)
    · exact Or.inl (hbc ▸ hab)
  · rcases hbc with hbc | ⟨hbc, hid'⟩
    · exact Or.inl (hab ▸ hbc)
    · exact Or.inr ⟨hab.trans hbc, String.le_trans hid hid'⟩

/-- Peers that are tied have the same id and the same score. -/
theorem eq_of_le_of_le {a b : ScoredPeer} (hab : a.le b = true) (hba : b.le a = true) : a.score = b.score ∧
    a.peer.id = b.peer.id := by
  rw [le_iff] at hab hba
  rcases hab with hab | ⟨hab, hid⟩
  · rcases hba with hba | ⟨hba, -⟩
    · omega
    · omega
  · rcases hba with hba | ⟨-, hid'⟩
    · omega
    · exact ⟨UInt64.toNat_inj.mp hab, String.le_antisymm hid hid'⟩

end ScoredPeer

namespace HrwRouter

variable (router : HrwRouter) (weight : String → UInt64)

def scored (weight : String → UInt64) (peer : Peer) : ScoredPeer := ⟨weight peer.id, peer⟩

theorem push_eq {top : List ScoredPeer} (htop : top.length ≤ router.candidateCount) (peer : Peer) :
    router.push weight top peer = (top.orderedInsert (fun a b => a.le b) (scored weight peer)).take router.candidateCount := by
  have hlength : (top.orderedInsert (fun a b => a.le b) (scored weight peer)).length = top.length + 1 :=
    List.orderedInsert_length _ _ _
  unfold HrwRouter.push
  rw [show (⟨weight peer.id, peer⟩ : ScoredPeer) = scored weight peer from rfl]
  dsimp only
  split
  · rw [List.dropLast_eq_take]
    congr 1
    omega
  · rw [List.take_of_length_le]
    omega

theorem foldl_push (peers : List Peer) (top : List ScoredPeer) :
    peers.foldl (router.push weight) (top.take router.candidateCount) =
      ((peers.map (scored weight)).foldl (fun top c => top.orderedInsert (fun a b => a.le b) c) top).take
        router.candidateCount := by
  rw [← foldl_orderedInsert_take]
  induction peers generalizing top with
  | nil => rfl
  | cons peer peers ih =>
    rw [List.map_cons, List.foldl_cons, List.foldl_cons, push_eq router weight (List.length_take_le _ _), ← ih]

/-- The loop keeps the first of the scored peers, with ties before each other as they come. -/
theorem routeGroup_eq_reverse (xxHash64 : Bytes → UInt64) (peers : List Peer) (key : String) (groupId : Nat) :
    router.routeGroup xxHash64 peers key groupId = topK (fun a b => ScoredPeer.le a b = true) router.candidateCount
      (peers.map (scored fun id => xxHash64 (weightInput key groupId id))).reverse := by
  have h := router.foldl_push (fun id => xxHash64 (weightInput key groupId id)) peers []
  rw [foldl_orderedInsert, List.take_nil] at h
  exact h

variable {peers : List Peer}

/-- Of peers with distinct ids no two are tied. -/
theorem scored_inj (hids : (peers.map Peer.id).Nodup) {a b : ScoredPeer} (ha : a ∈ peers.map (scored weight))
    (hb : b ∈ peers.map (scored weight)) (hab : a.le b = true) (hba : b.le a = true) : a = b := by
  obtain ⟨p, hp, rfl⟩ := List.mem_map.mp ha
  obtain ⟨q, hq, rfl⟩ := List.mem_map.mp hb
  have hid := (ScoredPeer.eq_of_le_of_le hab hba).2
  rw [List.inj_on_of_nodup_map hids hp hq hid]

theorem routeGroup_eq (xxHash64 : Bytes → UInt64) (hids : (peers.map Peer.id).Nodup) (key : String) (groupId : Nat) :
    router.routeGroup xxHash64 peers key groupId = topK (fun a b => ScoredPeer.le a b = true) router.candidateCount
      (peers.map (scored fun id => xxHash64 (weightInput key groupId id))) := by
  rw [routeGroup_eq_reverse, topK_perm _ (List.reverse_perm _)]
  intro a ha b hb
  exact scored_inj _ hids (List.mem_reverse.mp ha) (List.mem_reverse.mp hb)

theorem map_scored_filter (p : String → Bool) (peers : List Peer) :
    (peers.filter fun peer => p peer.id).map (scored weight) = (peers.map (scored weight)).filter fun c => p c.peer.id := by
  rw [List.filter_map]
  rfl

/-- What is left of the selected ones when peers are left out, and how many come after them. -/
theorem routeGroup_filter (xxHash64 : Bytes → UInt64) (hids : (peers.map Peer.id).Nodup) (key : String)
    (groupId : Nat) (p : String → Bool) :
    ∃ added, router.routeGroup xxHash64 (peers.filter fun peer => p peer.id) key groupId =
        (router.routeGroup xxHash64 peers key groupId).filter (fun c => p c.peer.id) ++ added ∧
      added.length ≤ (router.routeGroup xxHash64 peers key groupId).countP fun c => !p c.peer.id := by
  have hids' : ((peers.filter fun peer => p peer.id).map Peer.id).Nodup := (List.filter_sublist.map Peer.id).nodup hids
  rw [routeGroup_eq router xxHash64 hids, routeGroup_eq router xxHash64 hids', map_scored_filter]
  exact topK_filter _ _ _ _

theorem routeGroup_ids_nodup (xxHash64 : Bytes → UInt64) (hids : (peers.map Peer.id).Nodup) (key : String)
    (groupId : Nat) : ((router.routeGroup xxHash64 peers key groupId).map fun c => c.peer.id).Nodup := by
  rw [routeGroup_eq router xxHash64 hids]
  have hperm : ((((peers.map (scored fun id => xxHash64 (weightInput key groupId id))).insertionSort
      fun a b => ScoredPeer.le a b = true)).map fun c => c.peer.id).Perm (peers.map Peer.id) := by
    have h := (List.perm_insertionSort (fun a b => ScoredPeer.le a b = true)
      (peers.map (scored fun id => xxHash64 (weightInput key groupId id)))).map fun c => c.peer.id
    rwa [List.map_map] at h
  exact ((List.take_sublist _ _).map _).nodup (hperm.nodup_iff.mpr hids)

end HrwRouter

end Biei.Storage

namespace Biei

section

variable (profile : WorkerProfile)

/-- The order of the list that `top_hrw_candidates` keeps. -/
def heavier (a b : UInt64 × NodeId) : Prop := b.1 ≤ a.1

instance : DecidableRel heavier := fun a b => inferInstanceAs (Decidable (b.1 ≤ a.1))

instance : Std.Total heavier := ⟨fun a b => UInt64.le_total b.1 a.1⟩

instance : IsTrans (UInt64 × NodeId) heavier := ⟨fun _ _ _ hab hbc => UInt64.le_trans hbc hab⟩

def weighed (node : NodeId) : UInt64 × NodeId := (hrwWeight profile node, node)

/-- The place before the first of less weight is the one after all of at least the same weight. -/
theorem insertIdx_findIdx (weight : UInt64) (node : NodeId) (top : List (UInt64 × NodeId)) :
    top.insertIdx (top.findIdx fun e => decide (weight > e.1)) (weight, node) = insertAfter heavier (weight, node) top := by
  induction top with
  | nil => rfl
  | cons b top ih =>
    unfold insertAfter
    rw [List.findIdx_cons]
    by_cases hlt : b.1 < weight
    · rw [if_neg (show ¬heavier b (weight, node) from UInt64.not_le.mpr hlt)]
      simp [hlt]
    · rw [if_pos (show heavier b (weight, node) from UInt64.not_lt.mp hlt), ← ih]
      simp [hlt]

theorem insertHrw_eq {limit : Nat} {top : List (UInt64 × NodeId)} (htop : top.length ≤ limit) (node : NodeId) :
    insertHrw profile limit top node = (insertAfter heavier (weighed profile node) top).take limit := by
  unfold insertHrw weighed
  rw [← insertIdx_findIdx]
  dsimp only
  split
  · rfl
  · -- every place that is kept is taken by one of at least the same weight
    rename_i hfull
    have hle : (top.findIdx fun e => decide (hrwWeight profile node > e.1)) ≤ top.length := List.findIdx_le_length
    have hend : (top.findIdx fun e => decide (hrwWeight profile node > e.1)) = top.length := by omega
    rw [hend, List.insertIdx_length_self, List.take_append_of_le_length (by omega), List.take_of_length_le htop]

theorem foldl_insertHrw (limit : Nat) (members : List NodeId) (top : List (UInt64 × NodeId)) :
    members.foldl (insertHrw profile limit) (top.take limit) =
      ((members.map (weighed profile)).foldl (fun top a => insertAfter heavier a top) top).take limit := by
  rw [← foldl_insertAfter_take]
  induction members generalizing top with
  | nil => rfl
  | cons node members ih =>
    rw [List.map_cons, List.foldl_cons, List.foldl_cons, insertHrw_eq profile (List.length_take_le _ _), ← ih]

/-- The loop keeps the first of the eligible members, stably sorted by descending weight. -/
theorem topHrwCandidates_eq_topK (members : List NodeId) (limit : Nat) (eligible : NodeId → Bool) :
    topHrwCandidates members profile limit eligible =
      (topK (fun a b => hrwWeight profile b ≤ hrwWeight profile a) limit (members.filter eligible)).map fun node =>
        ⟨node, none⟩ := by
  have h := foldl_insertHrw profile limit (members.filter eligible) []
  rw [foldl_insertAfter, List.take_nil] at h
  unfold topHrwCandidates
  rw [h]
  have hmap := topK_map (fun a b => hrwWeight profile b ≤ hrwWeight profile a) heavier (weighed profile)
    (fun _ _ => Iff.rfl) limit
    (members.filter eligible)
  unfold topK at hmap ⊢
  rw [hmap, List.map_map]
  rfl

instance lighter_total : Std.Total fun a b : NodeId => hrwWeight profile b ≤ hrwWeight profile a :=
    ⟨fun _ _ => UInt64.le_total _ _⟩

instance lighter_trans : IsTrans NodeId fun a b : NodeId => hrwWeight profile b ≤ hrwWeight profile a :=
  ⟨fun _ _ _ hab hbc => UInt64.le_trans hbc hab⟩

/-- What is left of the selected ones when fewer nodes are eligible, and how many come after them. -/
theorem topHrwCandidates_filter (members : List NodeId) (limit : Nat) (eligible p : NodeId → Bool) :
    ∃ added, topHrwCandidates members profile limit (fun node => eligible node && p node) =
        (topHrwCandidates members profile limit eligible).filter (fun c => p c.nodeId) ++ added ∧
      added.length ≤ (topHrwCandidates members profile limit eligible).countP fun c => !p c.nodeId := by
  obtain ⟨added, heq, hlength⟩ := topK_filter (fun a b => hrwWeight profile b ≤ hrwWeight profile a) p limit
    (members.filter eligible)
  rw [List.filter_filter, List.filter_congr fun node _ => Bool.and_comm (p node) (eligible node)] at heq
  refine ⟨added.map fun node => ⟨node, none⟩, ?_, ?_⟩
  · rw [topHrwCandidates_eq_topK, topHrwCandidates_eq_topK, heq, List.map_append, List.filter_map]
    rfl
  · rw [topHrwCandidates_eq_topK, List.length_map, List.countP_map]
    exact hlength

end

section Hrw

variable {members : List NodeId} {profile : WorkerProfile} {limit : Nat} {eligible : NodeId → Bool}

theorem mem_topHrwCandidates {c : ForwardCandidate} (h : c ∈ topHrwCandidates members profile limit eligible) :
    c.drainWorker = none ∧ c.nodeId ∈ members ∧ eligible c.nodeId = true := by
  rw [topHrwCandidates_eq_topK] at h
  obtain ⟨node, hnode, rfl⟩ := List.mem_map.mp h
  exact ⟨rfl, List.mem_filter.mp (mem_of_mem_topK _ hnode)⟩

/-- The members that are selected are some of the list. -/
theorem topHrwCandidates_subperm : ((topHrwCandidates members profile limit eligible).map (·.nodeId)).Subperm members := by
  rw [topHrwCandidates_eq_topK, List.map_map]
  have hid : ((·.nodeId) ∘ fun node => (⟨node, none⟩ : ForwardCandidate)) = id := rfl
  rw [hid, List.map_id]
  exact (topK_subperm _ limit _).trans List.filter_sublist.subperm

theorem nodup_topHrwCandidates (h : members.Nodup) :
    ((topHrwCandidates members profile limit eligible).map (·.nodeId)).Nodup := by
  have hsub : ((topHrwCandidates members profile limit eligible).map (·.nodeId)).Subperm members := topHrwCandidates_subperm
  obtain ⟨l, hperm, hsub⟩ := hsub
  exact hperm.nodup_iff.mp (hsub.nodup h)

theorem length_topHrwCandidates_le : (topHrwCandidates members profile limit eligible).length ≤ limit := by
  rw [topHrwCandidates_eq_topK, List.length_map, length_topK]
  exact Nat.min_le_left _ _

theorem topHrwCandidates_eq_nil (hl : 0 < limit) (h : topHrwCandidates members profile limit eligible = []) {id : NodeId}
    (hid : id ∈ members) : eligible id = false := by
  have hlength := congrArg List.length h
  rw [topHrwCandidates_eq_topK, List.length_map, length_topK, List.length_nil] at hlength
  have hnone : members.filter eligible = [] := List.length_eq_zero_iff.mp (by omega)
  by_contra he
  have hmem : id ∈ members.filter eligible := List.mem_filter.mpr ⟨hid, Bool.eq_true_of_not_eq_false he⟩
  rw [hnone] at hmem
  cases hmem

end Hrw

/-! ## Lemmas about the dispatcher -/

/-! ## The view -/

variable {id : NodeId}

theorem lookup_eq_some_iff {l : List (NodeId × NodeStateView)} (h : (l.map Prod.fst).Nodup) {s : NodeStateView} :
    l.lookup id = some s ↔ (id, s) ∈ l := by
  induction l with
  | nil => simp
  | cons e l ih =>
    obtain ⟨k, v⟩ := e
    rw [List.map_cons, List.nodup_cons] at h
    by_cases hk : id = k
    · subst hk
      rw [List.lookup_cons_self, List.mem_cons]
      constructor
      · intro hs
        exact Or.inl (by rw [Option.some.inj hs])
      · rintro (hs | hs)
        · rw [(Prod.mk.inj hs).2]
        · exact absurd (List.mem_map_of_mem hs) h.1
    · have hb : (id == k) = false := beq_eq_false_iff_ne.mpr hk
      rw [List.lookup_cons, hb, List.mem_cons, ih h.2]
      constructor
      · exact Or.inr
      · rintro (hs | hs)
        · exact absurd (Prod.mk.inj hs).1 hk
        · exact hs

namespace DispatchView

variable {v : DispatchView}

theorem mem_stateEntries {id : NodeId} {s : NodeStateView} : (id, s) ∈ v.stateEntries ↔ v.state id = some s := by
  obtain ⟨cluster, localState⟩ := v
  unfold stateEntries state remoteEntries
  rw [List.mem_append, List.mem_filter, ← lookup_eq_some_iff cluster.keys]
  cases localState with
  | none => simp
  | some l =>
    by_cases hl : l.id = id
    · subst hl
      simp [Option.filter, eq_comm]
    · have hl' : id ≠ l.id := fun h => hl h.symm
      simp [Option.filter, hl, hl']

theorem id_of_mem_stateEntries {e : NodeId × NodeStateView} (h : e ∈ v.stateEntries) : e.2.id = e.1 := by
  unfold stateEntries remoteEntries at h
  rcases List.mem_append.mp h with h | h
  · exact v.cluster.ids e (List.mem_filter.mp h).1
  · obtain ⟨s, _, rfl⟩ := List.mem_map.mp h
    rfl

/-- The states are those of the entries, in the same order. -/
theorem states_eq (v : DispatchView) : v.states = v.stateEntries.map Prod.snd := by
  simp [states, stateEntries, Function.comp_def]

theorem mem_states {s : NodeStateView} : s ∈ v.states ↔ v.state s.id = some s := by
  rw [states_eq, List.mem_map]
  constructor
  · rintro ⟨e, he, rfl⟩
    have hid := id_of_mem_stateEntries he
    rw [hid]
    exact mem_stateEntries.mp he
  · intro h
    exact ⟨(s.id, s), mem_stateEntries.mpr h, rfl⟩

theorem nodup_keys_stateEntries (v : DispatchView) : (v.stateEntries.map Prod.fst).Nodup := by
  obtain ⟨cluster, localState⟩ := v
  unfold stateEntries remoteEntries
  cases localState with
  | none => simpa using cluster.keys
  | some l =>
    rw [List.map_append, List.nodup_append]
    refine ⟨cluster.keys.sublist (List.filter_sublist.map Prod.fst), by simp, ?_⟩
    intro a ha b hb
    obtain ⟨e, he, rfl⟩ := List.mem_map.mp ha
    have hne := (List.mem_filter.mp he).2
    simp only [Option.toList_some, List.map_cons, List.map_nil, List.mem_singleton] at hb
    simp only [Option.all_some, decide_eq_true_eq] at hne
    rw [hb]
    exact fun h => hne h.symm

end DispatchView

/-! ## Admission rules -/

namespace Dispatcher

/-- What a tier asks of the node it chooses, and of the worker it names there. -/
def Admits (d : Dispatcher) (now : Instant) (task : InternalTask) (tier : RouteTier) (node : NodeStateView)
    (drainWorker : Option UInt32) : Prop :=
  match tier with
  | .renderCacheHit => False
  | .tier1WarmTracking => drainWorker = none ∧ node.acceptsNewRenders = true ∧
      (∃ w ∈ node.workers, w.loadedProfile = some task.workerProfile) ∧
      ∃ w ∈ node.workers, w.loadedProfile = some task.workerProfile ∧ w.queueDepth < d.blCapacity ∨ w.loadedProfile = none
  | .tier2HrwBl => drainWorker = none ∧ node.acceptsNewRenders = true ∧ ∃ w ∈ node.workers, w.queueDepth < d.blCapacity
  | .tier3DrainSwap => node.acceptsNewRenders = true ∧
      ∃ w ∈ node.workers, drainWorker = some w.id ∧ w.queueDepth < d.config.drainMaxQueue ∧
        w.loadedProfile ≠ some task.workerProfile ∧ d.meetsSla now task w = true
  | .tier4Overflow => drainWorker = none ∧ node.acceptsNewRenders = true ∧ ∃ w ∈ node.workers, w.queueDepth < d.queueCapacity

theorem Admits.acceptsNewRenders {d : Dispatcher} {now : Instant} {task : InternalTask} {tier : RouteTier} {node : NodeStateView}
    {drainWorker : Option UInt32} (h : d.Admits now task tier node drainWorker) : node.acceptsNewRenders = true := by
  cases tier with
  | renderCacheHit => exact h.elim
  | tier1WarmTracking => exact h.2.1
  | tier2HrwBl => exact h.2.1
  | tier3DrainSwap => exact h.1
  | tier4Overflow => exact h.2.1

end Dispatcher

variable {node : NodeStateView}

theorem hasCapacity_iff {bl : Nat} :
    node.hasCapacity bl = true ↔ node.acceptsNewRenders = true ∧ ∃ w ∈ node.workers, w.queueDepth < bl := by
  simp [NodeStateView.hasCapacity]

theorem hasAdmissionCapacity_iff {queue : Nat} :
    node.hasAdmissionCapacity queue = true ↔ node.acceptsNewRenders = true ∧ ∃ w ∈ node.workers, w.queueDepth < queue := by
  simp [NodeStateView.hasAdmissionCapacity]

/-! ## The warm target -/

/-- What the loop of `warm_candidate` has gathered after the workers `ws`. -/
theorem foldl_warmWorker (profile : WorkerProfile) (bl : Nat) (ws : List WorkerView) (t : WarmTally) :
    (ws.foldl (warmWorker profile bl) t).warmCount =
        t.warmCount + ws.countP (fun w => decide (w.loadedProfile = some profile)) ∧
      (ws.foldl (warmWorker profile bl) t).hasUsableCapacity =
        (t.hasUsableCapacity ||
          ws.any fun w => decide (w.loadedProfile = some profile ∧ w.queueDepth < bl ∨ w.loadedProfile = none)) := by
  induction ws generalizing t with
  | nil => simp
  | cons w ws ih =>
    have ih := ih (warmWorker profile bl t w)
    rw [List.foldl_cons, ih.1, ih.2]
    by_cases hw : w.loadedProfile = some profile
    · simp only [warmWorker, hw, ↓reduceIte, List.countP_cons, List.any_cons]
      constructor
      · simp
        omega
      · simp [Bool.or_assoc]
    · by_cases hn : w.loadedProfile = none
      · simp [warmWorker, hn]
      · simp [warmWorker, hw, hn]

theorem warmCandidate_eq_some {profile : WorkerProfile} {bl : Nat} {c : WarmCandidate}
    (h : warmCandidate node profile bl = some c) : c.node = node ∧ 0 < c.warmCount := by
  unfold warmCandidate at h
  dsimp only at h
  split at h
  · split at h
    · rename_i hc
      cases h
      exact ⟨rfl, hc.1⟩
    · cases h
  · cases h

/-- A node is a warm candidate exactly when it passes the rule of Tier 1. -/
theorem warmCandidate_isSome {d : Dispatcher} {now : Instant} {task : InternalTask} :
    (warmCandidate node task.workerProfile d.blCapacity).isSome = true ↔ d.Admits now task .tier1WarmTracking node none := by
  obtain ⟨hcount, husable⟩ := foldl_warmWorker task.workerProfile d.blCapacity node.workers ⟨0, 0, false⟩
  have hpos : 0 < (node.workers.foldl (warmWorker task.workerProfile d.blCapacity) ⟨0, 0, false⟩).warmCount ↔
      ∃ w ∈ node.workers, w.loadedProfile = some task.workerProfile := by
    rw [hcount]
    simp [List.countP_pos_iff]
  have hcap : (node.workers.foldl (warmWorker task.workerProfile d.blCapacity) ⟨0, 0, false⟩).hasUsableCapacity = true ↔
      ∃ w ∈ node.workers,
        w.loadedProfile = some task.workerProfile ∧ w.queueDepth < d.blCapacity ∨ w.loadedProfile = none := by
    rw [husable]
    simp
  unfold warmCandidate Dispatcher.Admits
  dsimp only
  rw [← hpos, ← hcap]
  split
  · rename_i ha
    split
    · rename_i hc
      exact ⟨fun _ => ⟨rfl, ha, hc⟩, fun _ => rfl⟩
    · rename_i hc
      exact ⟨fun h => (by cases h), fun h => absurd h.2.2 hc⟩
  · rename_i ha
    exact ⟨fun h => (by cases h), fun h => absurd h.2.1 ha⟩

variable {cs : List WarmCandidate}

theorem pickWeighted_mem {ticket : Nat} (h : pickWeighted cs ticket = some id) :
    ∃ c ∈ cs, c.node.id = id := by
  induction cs generalizing ticket with
  | nil => cases h
  | cons c cs ih =>
    unfold pickWeighted at h
    split at h
    · exact ⟨c, List.mem_cons_self, Option.some.inj h⟩
    · obtain ⟨c', hc', hid⟩ := ih h
      exact ⟨c', List.mem_cons_of_mem c hc', hid⟩

/-- The `unreachable!` of the weighted draw is not reached: the ticket is below the total weight. -/
theorem pickWeighted_isSome {ticket : Nat} (h : ticket < (cs.map (·.warmCount)).sum) :
    (pickWeighted cs ticket).isSome = true := by
  induction cs generalizing ticket with
  | nil => simp at h
  | cons c cs ih =>
    unfold pickWeighted
    split
    · rfl
    · rw [List.map_cons, List.sum_cons] at h
      exact ih (by omega)

theorem pickOfTwo_mem {i j : Nat} (h : pickOfTwo cs i j = some id) :
    ∃ c ∈ cs, c.node.id = id := by
  unfold pickOfTwo at h
  dsimp only at h
  split at h
  · rename_i first second hfirst hsecond
    split at h
    · exact ⟨first, List.mem_of_getElem? hfirst, Option.some.inj h⟩
    · exact ⟨second, List.mem_of_getElem? hsecond, Option.some.inj h⟩
  · cases h

/-- Both samples of the power-of-two draw exist. -/
theorem pickOfTwo_isSome {i j : Nat} (hi : i < cs.length) (hj : j < cs.length - 1) :
    (pickOfTwo cs i j).isSome = true := by
  unfold pickOfTwo
  have hsecond : (if j ≥ i then j + 1 else j) < cs.length := by
    split
    · omega
    · omega
  dsimp only
  rw [List.getElem?_eq_getElem hi, List.getElem?_eq_getElem hsecond]
  rfl

theorem pickWarm_mem {rng : RoutingRng} {strategy : Tier1Strategy} {gen : rng.State}
    (h : pickWarm rng strategy gen cs = some id) : ∃ c ∈ cs, c.node.id = id := by
  unfold pickWarm at h
  split at h
  · dsimp only at h
    split at h
    · exact pickWeighted_mem h
    · cases h
  · split at h
    · exact pickOfTwo_mem h
    · obtain ⟨c, hc, hid⟩ := Option.map_eq_some_iff.mp h
      exact ⟨c, List.mem_of_mem_head? hc, hid⟩

/-- Neither draw comes out empty over a candidate with a warm worker. -/
theorem pickWarm_isSome {rng : RoutingRng} {strategy : Tier1Strategy} {gen : rng.State}
    {c : WarmCandidate} (hc : c ∈ cs) (hpos : 0 < c.warmCount) : (pickWarm rng strategy gen cs).isSome = true := by
  unfold pickWarm
  split
  · have htotal : 0 < (cs.map (·.warmCount)).sum :=
      List.sum_pos_iff_exists_pos_nat.mpr ⟨c.warmCount, List.mem_map_of_mem hc, hpos⟩
    dsimp only
    rw [dif_pos htotal]
    exact pickWeighted_isSome (Fin.isLt _)
  · split
    · exact pickOfTwo_isSome (Fin.isLt _) (Fin.isLt _)
    · rw [Option.isSome_map, List.isSome_head?]
      exact List.ne_nil_of_mem hc

namespace Dispatcher

section Decide

variable {d : Dispatcher} {rng : RoutingRng} {now : Instant} {task : InternalTask} {view : DispatchView}

theorem mem_warmCandidates (now : Instant) {c : WarmCandidate} (h : c ∈ d.warmCandidates view task.workerProfile) :
    0 < c.warmCount ∧ view.state c.node.id = some c.node ∧ d.Admits now task .tier1WarmTracking c.node none := by
  unfold warmCandidates at h
  obtain ⟨node, hnode, hc⟩ := List.mem_filterMap.mp h
  obtain ⟨rfl, hpos⟩ := warmCandidate_eq_some hc
  exact ⟨hpos, DispatchView.mem_states.mp hnode, warmCandidate_isSome.mp (by rw [hc]; rfl)⟩

variable {id : NodeId}

/-- The target of Tier 1 is a node the view knows, and passes the rule. -/
theorem selectWarmTarget_eq_some (h : d.selectWarmTarget rng task view task.workerProfile = some id) :
    ∃ node, view.state id = some node ∧ d.Admits now task .tier1WarmTracking node none := by
  obtain ⟨c, hc, rfl⟩ := pickWarm_mem h
  exact ⟨c.node, (mem_warmCandidates now hc).2⟩

variable {node : NodeStateView}

/-- Without a target no node the view knows is warm. -/
theorem selectWarmTarget_eq_none (h : d.selectWarmTarget rng task view task.workerProfile = none)
    (hnode : view.state id = some node) : ¬d.Admits now task .tier1WarmTracking node none := by
  intro hadm
  have hid := DispatchView.id_of_mem_stateEntries (DispatchView.mem_stateEntries.mpr hnode)
  dsimp only at hid
  subst hid
  obtain ⟨c, hc⟩ := Option.isSome_iff_exists.mp (warmCandidate_isSome.mpr hadm)
  have hmem : c ∈ d.warmCandidates view task.workerProfile :=
    List.mem_filterMap.mpr ⟨node, DispatchView.mem_states.mpr hnode, hc⟩
  have hsome : (d.selectWarmTarget rng task view task.workerProfile).isSome = true :=
    pickWarm_isSome hmem (mem_warmCandidates now hmem).1
  rw [h] at hsome
  cases hsome

/-! ## Eviction candidates -/

theorem mem_drainable {w : WorkerView} :
    (id, w) ∈ drainable view ↔ ∃ node, view.state id = some node ∧ node.acceptsNewRenders = true ∧ w ∈ node.workers := by
  unfold drainable
  constructor
  · intro h
    obtain ⟨e, he, hw⟩ := List.mem_flatMap.mp h
    obtain ⟨w', hw', heq⟩ := List.mem_map.mp hw
    cases heq
    obtain ⟨hentry, hacc⟩ := List.mem_filter.mp he
    exact ⟨e.2, DispatchView.mem_stateEntries.mp hentry, hacc, hw'⟩
  · rintro ⟨node, hnode, hacc, hw⟩
    exact List.mem_flatMap.mpr ⟨(id, node), List.mem_filter.mpr ⟨DispatchView.mem_stateEntries.mpr hnode, hacc⟩,
      List.mem_map_of_mem hw⟩

/-- A worker is drained for the task exactly by the rule of Tier 3. -/
theorem admits_tier3_iff {drainWorker : Option UInt32} :
    d.Admits now task .tier3DrainSwap node drainWorker ↔ node.acceptsNewRenders = true ∧
      ∃ w ∈ node.workers, drainWorker = some w.id ∧ d.isDrainCandidate task.workerProfile w = true ∧
        d.meetsSla now task w = true := by
  unfold Admits isDrainCandidate
  simp [and_assoc]

variable {limit : Nat}

theorem selectWithinSla_eq {selected : List ForwardCandidate} (h : selected.length < max limit 1)
    (l : List (NodeId × WorkerView)) :
    d.selectWithinSla now task limit selected l =
      selected ++ ((l.filter fun e => d.meetsSla now task e.2).take (max limit 1 - selected.length)).map
        fun e => ⟨e.1, some e.2.id⟩ := by
  induction l generalizing selected with
  | nil => simp [selectWithinSla]
  | cons e l ih =>
    unfold selectWithinSla
    by_cases hfits : d.meetsSla now task e.2 = true
    · rw [if_pos hfits, List.filter_cons_of_pos (by exact hfits)]
      have hlength : (selected ++ [(⟨e.1, some e.2.id⟩ : ForwardCandidate)]).length = selected.length + 1 := by simp
      obtain ⟨room, hroom⟩ : ∃ room, max limit 1 - selected.length = room + 1 := ⟨max limit 1 - selected.length - 1, by omega⟩
      rw [hroom, List.take_succ_cons, List.map_cons]
      dsimp only
      split
      · -- the last place is taken
        have hnone : room = 0 := by omega
        rw [hnone, List.take_zero, List.map_nil]
      · have hmore : (selected ++ [(⟨e.1, some e.2.id⟩ : ForwardCandidate)]).length < max limit 1 := by omega
        rw [ih hmore, hlength, List.append_assoc, show max limit 1 - (selected.length + 1) = room by omega]
        rfl
    · rw [if_neg hfits, List.filter_cons_of_neg (by exact hfits)]
      exact ih h

/-- The first of those that meet the SLA, and one at least if there is one. -/
theorem tier3CandidatesView_eq (limit : Nat) :
    d.tier3CandidatesView now view task limit =
      (((((drainable view).filter fun e => d.isDrainCandidate task.workerProfile e.2).insertionSort
        fun a b => tier3Compare task.workerProfile (clusterCounts view) a b ≠ .gt).filter fun e => d.meetsSla now task e.2).take
          (max limit 1)).map fun e => ⟨e.1, some e.2.id⟩ := by
  unfold tier3CandidatesView
  dsimp only
  rw [selectWithinSla_eq (by simp), List.nil_append, List.length_nil, Nat.sub_zero]

theorem mem_tier3CandidatesView {c : ForwardCandidate} (h : c ∈ d.tier3CandidatesView now view task limit) :
    ∃ node, view.state c.nodeId = some node ∧ d.Admits now task .tier3DrainSwap node c.drainWorker := by
  rw [tier3CandidatesView_eq] at h
  obtain ⟨e, he, rfl⟩ := List.mem_map.mp h
  obtain ⟨hsorted, hsla⟩ := List.mem_filter.mp (List.mem_of_mem_take he)
  obtain ⟨hmem, hdrain⟩ := List.mem_filter.mp ((List.mem_insertionSort _).mp hsorted)
  obtain ⟨node, hnode, hacc, hw⟩ := mem_drainable.mp hmem
  exact ⟨node, hnode, admits_tier3_iff.mpr ⟨hacc, e.2, hw, rfl, hdrain, hsla⟩⟩

theorem tier3CandidatesView_eq_nil (h : d.tier3CandidatesView now view task limit = []) (hnode : view.state id = some node)
    (drainWorker : Option UInt32) :
    ¬d.Admits now task .tier3DrainSwap node drainWorker := by
  intro hadm
  obtain ⟨hacc, w, hw, _, hdrain, hsla⟩ := admits_tier3_iff.mp hadm
  rw [tier3CandidatesView_eq] at h
  rcases List.take_eq_nil_iff.mp (List.map_eq_nil_iff.mp h) with hl' | hnil
  · omega
  · have hmem : (id, w) ∈ (drainable view).filter fun e => d.isDrainCandidate task.workerProfile e.2 :=
      List.mem_filter.mpr ⟨mem_drainable.mpr ⟨node, hnode, hacc, hw⟩, hdrain⟩
    exact List.filter_eq_nil_iff.mp hnil _ ((List.mem_insertionSort _).mpr hmem) hsla

/-- With distinct worker ids in every node, a drainable worker is told by its node and its id. -/
theorem nodup_drainable (h : ∀ id node, view.state id = some node → (node.workers.map (·.id)).Nodup) :
    ((drainable view).map fun e => (⟨e.1, some e.2.id⟩ : ForwardCandidate)).Nodup := by
  unfold drainable
  rw [List.map_flatMap, List.nodup_flatMap]
  constructor
  · intro e he
    have hnode := DispatchView.mem_stateEntries.mp (List.mem_filter.mp he).1
    rw [List.map_map]
    refine List.Nodup.of_map ForwardCandidate.drainWorker ?_
    rw [List.map_map]
    have hids := (h e.1 e.2 hnode).map (Option.some_injective UInt32)
    rwa [List.map_map] at hids
  · refine ((List.pairwise_map.mp view.nodup_keys_stateEntries).filter _).imp ?_
    intro a b hab c hca hcb
    obtain ⟨_, hwa, rfl⟩ := List.mem_map.mp hca
    obtain ⟨_, hwb, heq⟩ := List.mem_map.mp hcb
    obtain ⟨_, _, rfl⟩ := List.mem_map.mp hwa
    obtain ⟨_, _, rfl⟩ := List.mem_map.mp hwb
    exact hab (congrArg ForwardCandidate.nodeId heq).symm

theorem nodup_tier3CandidatesView (h : ∀ id node, view.state id = some node → (node.workers.map (·.id)).Nodup) :
    (d.tier3CandidatesView now view task limit).Nodup := by
  rw [tier3CandidatesView_eq]
  refine List.Nodup.sublist ((List.take_sublist _ _).map _) ?_
  refine List.Nodup.sublist (List.filter_sublist.map _) ?_
  refine ((List.perm_insertionSort _ _).map _).nodup_iff.mpr ?_
  exact List.Nodup.sublist (List.filter_sublist.map _) (nodup_drainable h)

theorem length_tier3CandidatesView_le : (d.tier3CandidatesView now view task limit).length ≤ max limit 1 := by
  rw [tier3CandidatesView_eq, List.length_map]
  exact List.length_take_le _ _

/-! ## What a tier hands over -/

/-- A candidate is a node the view knows, in a state that passes the rule of the tier. -/
def AdmittedBy (d : Dispatcher) (now : Instant) (task : InternalTask) (view : DispatchView) (tier : RouteTier)
    (c : ForwardCandidate) : Prop :=
  ∃ node, view.state c.nodeId = some node ∧ d.Admits now task tier node c.drainWorker

/-- The candidates of a tier, before self is told from the others. Behind a warm target stands a candidate of Tier 2. -/
structure TierCandidates (d : Dispatcher) (now : Instant) (task : InternalTask) (view : DispatchView) (tier : RouteTier)
    (first : ForwardCandidate) (rest : List ForwardCandidate) : Prop where
  length_le : (first :: rest).length ≤ defaultForwardCandidates
  nodup : (first :: rest).Nodup
  first_ok : d.AdmittedBy now task view tier first
  rest_ok : ∀ c ∈ rest, d.AdmittedBy now task view tier c ∨
    tier = .tier1WarmTracking ∧ d.AdmittedBy now task view .tier2HrwBl c

/-- No node the view knows passes the rule of a tier that looks at it. -/
structure NoneAdmitted (d : Dispatcher) (now : Instant) (task : InternalTask) (view : DispatchView) : Prop where
  tier1 : ∀ id node, view.state id = some node → ¬d.Admits now task .tier1WarmTracking node none
  tier2 : ∀ id node, id ∈ view.members → view.state id = some node → ¬d.Admits now task .tier2HrwBl node none
  tier3 : d.config.tier3Enabled = true →
    ∀ id node worker, view.state id = some node → ¬d.Admits now task .tier3DrainSwap node worker
  tier4 : ∀ id node, id ∈ view.members → view.state id = some node → ¬d.Admits now task .tier4Overflow node none

variable {eligible : NodeId → NodeStateView → Bool}

theorem mem_hrwWhere {profile : WorkerProfile} {c : ForwardCandidate} (h : c ∈ hrwWhere view profile eligible) :
    c.drainWorker = none ∧ ∃ node, view.state c.nodeId = some node ∧ eligible c.nodeId node = true := by
  obtain ⟨hw, _, he⟩ := mem_topHrwCandidates h
  refine ⟨hw, ?_⟩
  cases hnode : view.state c.nodeId with
  | none =>
    rw [hnode] at he
    cases he
  | some node =>
    rw [hnode] at he
    exact ⟨node, rfl, he⟩

theorem hrwWhere_eq_nil {profile : WorkerProfile} (h : hrwWhere view profile eligible = []) (hid : id ∈ view.members)
    (hnode : view.state id = some node) : eligible id node = false := by
  have he := topHrwCandidates_eq_nil (by decide) h hid
  rw [hnode] at he
  exact he

/-- The candidates of a tier that ranks members by weight. -/
theorem tierCandidates_of_hrwWhere (tier : RouteTier) (hmembers : view.members.Nodup)
    (hrule : ∀ id node, eligible id node = true → d.Admits now task tier node none)
    (hne : hrwWhere view task.workerProfile eligible ≠ []) :
    ∃ first rest, hrwWhere view task.workerProfile eligible = first :: rest ∧ d.TierCandidates now task view tier first rest := by
  obtain ⟨first, rest, heq⟩ := List.exists_cons_of_ne_nil hne
  have hok : ∀ c ∈ first :: rest, d.AdmittedBy now task view tier c := by
    intro c hc
    obtain ⟨hw, node, hnode, he⟩ := mem_hrwWhere (heq ▸ hc)
    refine ⟨node, hnode, ?_⟩
    rw [hw]
    exact hrule c.nodeId node he
  refine ⟨first, rest, heq, ?_, ?_, hok first List.mem_cons_self, fun c hc => Or.inl (hok c (List.mem_cons_of_mem _ hc))⟩
  · rw [← heq]
    exact length_topHrwCandidates_le
  · rw [← heq]
    exact (nodup_topHrwCandidates hmembers).of_map _

theorem tierCandidates_of_tier3 (hworkers : ∀ id node, view.state id = some node → (node.workers.map (·.id)).Nodup)
    (hne : d.tier3CandidatesView now view task defaultForwardCandidates ≠ []) :
    ∃ first rest, d.tier3CandidatesView now view task defaultForwardCandidates = first :: rest ∧
      d.TierCandidates now task view .tier3DrainSwap first rest := by
  obtain ⟨first, rest, heq⟩ := List.exists_cons_of_ne_nil hne
  have hok : ∀ c ∈ first :: rest, d.AdmittedBy now task view .tier3DrainSwap c := fun c hc =>
    mem_tier3CandidatesView (heq ▸ hc)
  refine ⟨first, rest, heq, ?_, ?_, hok first List.mem_cons_self, fun c hc => Or.inl (hok c (List.mem_cons_of_mem _ hc))⟩
  · rw [← heq]
    exact length_tier3CandidatesView_le
  · rw [← heq]
    exact nodup_tier3CandidatesView hworkers

/-- The warm target with the rendezvous fallback behind it. -/
theorem tierCandidates_of_tier1 (hmembers : view.members.Nodup) {target : NodeId}
    (h : d.selectWarmTarget rng task view task.workerProfile = some target) :
    d.TierCandidates now task view .tier1WarmTracking ⟨target, none⟩
      ((hrwWhere view task.workerProfile fun id node => decide (id ≠ target) && node.hasCapacity d.blCapacity).take
        (defaultForwardCandidates - 1)) := by
  have hrest : ∀ c ∈ hrwWhere view task.workerProfile fun id node => decide (id ≠ target) && node.hasCapacity d.blCapacity,
      c.nodeId ≠ target ∧ d.AdmittedBy now task view .tier2HrwBl c := by
    intro c hc
    obtain ⟨hw, node, hnode, he⟩ := mem_hrwWhere hc
    rw [Bool.and_eq_true, decide_eq_true_eq] at he
    exact ⟨he.1, node, hnode, hw, hasCapacity_iff.mp he.2⟩
  refine ⟨?_, ?_, selectWarmTarget_eq_some h, ?_⟩
  · rw [List.length_cons, List.length_take]
    unfold defaultForwardCandidates
    omega
  · rw [List.nodup_cons]
    refine ⟨fun hmem => (hrest _ (List.mem_of_mem_take hmem)).1 rfl, ?_⟩
    exact ((nodup_topHrwCandidates hmembers).of_map _).sublist (List.take_sublist _ _)
  · intro c hc
    exact Or.inr ⟨rfl, (hrest c (List.mem_of_mem_take hc)).2⟩

/-- A decision is made from the candidates of one tier, or none is admitted anywhere. -/
theorem decideView_cases (d : Dispatcher) (rng : RoutingRng) (now : Instant) (task : InternalTask) (view : DispatchView)
    (hmembers : view.members.Nodup)
    (hworkers : ∀ id node, view.state id = some node → (node.workers.map (·.id)).Nodup) :
    (∃ tier first rest, d.TierCandidates now task view tier first rest ∧
      d.decideView rng now task view = d.materializeCandidates task tier (first :: rest)) ∨
    (d.decideView rng now task view = .reject .noCapacity ∧ d.NoneAdmitted now task view) := by
  unfold decideView
  dsimp only
  split
  · rename_i target htarget
    exact Or.inl ⟨_, _, _, tierCandidates_of_tier1 hmembers htarget, rfl⟩
  · rename_i hcold
    split
    · rename_i htier2
      obtain ⟨first, rest, heq, hok⟩ := tierCandidates_of_hrwWhere .tier2HrwBl hmembers
        (fun _ _ he => ⟨rfl, hasCapacity_iff.mp he⟩) htier2
      exact Or.inl ⟨_, first, rest, hok, by rw [heq]⟩
    · rename_i htier2
      -- a disabled Tier 3 is a tier without candidates
      generalize htier3 : (if d.config.tier3Enabled = true then
        d.tier3CandidatesView now view task defaultForwardCandidates else []) = tier3
      split
      · rename_i hne
        split at htier3
        · rw [← htier3] at hne ⊢
          obtain ⟨first, rest, heq, hok⟩ := tierCandidates_of_tier3 hworkers hne
          exact Or.inl ⟨_, first, rest, hok, by rw [heq]⟩
        · exact absurd htier3.symm hne
      · rename_i hnil
        rw [not_not.mp hnil] at htier3
        split
        · rename_i htier4
          obtain ⟨first, rest, heq, hok⟩ := tierCandidates_of_hrwWhere .tier4Overflow hmembers
            (fun _ _ he => ⟨rfl, hasAdmissionCapacity_iff.mp he⟩) htier4
          exact Or.inl ⟨_, first, rest, hok, by rw [heq]⟩
        · rename_i htier4
          refine Or.inr ⟨rfl, fun _ _ hnode => selectWarmTarget_eq_none hcold hnode, ?_, ?_, ?_⟩
          · intro id node hid hnode hadm
            have hno := hrwWhere_eq_nil (not_not.mp htier2) hid hnode
            rw [hasCapacity_iff.mpr hadm.2] at hno
            cases hno
          · intro henabled id node worker hnode
            rw [if_pos henabled] at htier3
            exact tier3CandidatesView_eq_nil htier3 hnode worker
          · intro id node hid hnode hadm
            have hno := hrwWhere_eq_nil (not_not.mp htier4) hid hnode
            rw [hasAdmissionCapacity_iff.mpr hadm.2] at hno
            cases hno

end Decide

end Dispatcher

end Biei
