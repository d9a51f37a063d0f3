import Biei.Lemmas.Gossip

/-! # What a node publishes its peers see -/

namespace Biei

/-- Everything the receiver knows of the worker was told it. -/
structure WorkerView.Known (pairs : List (String × String)) (w : WorkerView) : Prop where
  style : Told pairs w.id.toNat "style" readRevision (w.loadedProfile.map WorkerProfile.style)
  mode : ∀ profile ∈ w.loadedProfile, Told pairs w.id.toNat "mode" RenderMode.parseGossipValue profile.renderMode
  scale : ∀ profile ∈ w.loadedProfile, Told pairs w.id.toNat "scale" Scale.parseGossipValue profile.scale
  queue : Told pairs w.id.toNat "queue" readQueueDepth w.queueDepth

namespace NodeStateView

variable (id : NodeId) (pairs : List (String × String)) {w : WorkerView}

theorem mem_fromKvs :
    w ∈ (fromKvs id pairs).workers ↔ ∃ wid ∈ (Decoding.run pairs).ids, ((Decoding.run pairs).builders wid).worker? wid = some w :=
  List.mem_filterMap

/-- The number of a worker is the one its keys have. -/
theorem toNat_id {wid : Nat} (hwid : wid ∈ (Decoding.run pairs).ids)
    (h : ((Decoding.run pairs).builders wid).worker? wid = some w) : w.id.toNat = wid := by
  obtain ⟨pair, -, field, habout⟩ := Decoding.mem_ids_run.mp hwid
  rw [(Builder.worker?_eq_some.mp h).1]
  exact UInt32.toNat_ofNat_of_lt' (workerKey?_lt habout)

theorem workers_ascending : (fromKvs id pairs).workers.Pairwise fun w w' => w.id < w'.id := by
  refine List.pairwise_filterMap.mpr ((Decoding.run pairs).ids.sorted.imp_of_mem ?_)
  intro wid wid' hwid hwid' hlt w hw w' hw'
  rw [UInt32.lt_iff_toNat_lt, toNat_id pairs hwid hw, toNat_id pairs hwid' hw']
  exact hlt

theorem known_of_mem_fromKvs (h : w ∈ (fromKvs id pairs).workers) : w.Known pairs := by
  obtain ⟨wid, hwid, hworker⟩ := (mem_fromKvs id pairs).mp h
  have hid := toNat_id pairs hwid hworker
  obtain ⟨-, hstyle, hprofile, hqueue⟩ := Builder.worker?_eq_some.mp hworker
  subst hid
  exact
    { style := Builder.field_loadedRevision.told hstyle
      mode := fun profile hmem => Builder.field_renderMode.told (hprofile profile hmem).1
      scale := fun profile hmem => Builder.field_scale.told (hprofile profile hmem).2
      queue := Builder.field_queueDepth.told hqueue }

theorem accepting_of_fromKvs (h : (fromKvs id pairs).acceptsNewRenders = true) : (renderAdmissionGossipKey, "true") ∈ pairs := by
  rcases Decoding.acceptsNewRenders_run pairs with ⟨-, hno⟩ | ⟨⟨key, value⟩, hpair, rfl, hread⟩
  · exact absurd (h.symm.trans hno) (by decide)
  · obtain rfl : value = "true" := of_decide_eq_true (hread.symm.trans h)
    exact hpair

end NodeStateView

section

variable {s : Snapshot} (hids : (s.workers.map WorkerStatus.id).Nodup) {pairs : List (String × String)}
  (hpairs : ∀ key value, (key, value) ∈ pairs ↔ s.kvs key = some value)

include hids hpairs

/-- The pairs about workers are those of the snapshot. -/
theorem Snapshot.about_iff {value field : String} {wid : Nat} :
    (∃ key, (key, value) ∈ pairs ∧ AboutField (key, value) wid field) ↔
      ∃ w ∈ s.workers, w.id.toNat = wid ∧ (field, value) ∈ w.fields := by
  constructor
  · rintro ⟨key, hpair, habout⟩
    rcases (Snapshot.kvs_eq_some hids).mp ((hpairs key value).mp hpair) with ⟨hkey, -⟩ | hmem
    · exact absurd hkey (Decoding.ne_renderAdmissionGossipKey habout)
    · obtain ⟨w, hw, field', hfield, rfl⟩ := Snapshot.mem_pairs.mp hmem
      obtain ⟨hwid, rfl⟩ := Prod.mk.inj (Option.some.inj ((workerKey?_workerKey w.id field').symm.trans habout))
      exact ⟨w, hw, hwid, hfield⟩
  · rintro ⟨w, hw, rfl, hfield⟩
    exact ⟨workerKey w.id field,
      (hpairs _ _).mpr ((Snapshot.kvs_eq_some hids).mpr (Or.inr (Snapshot.mem_pairs.mpr ⟨w, hw, field, hfield, rfl⟩))),
      workerKey?_workerKey w.id field⟩

/-- A field of a worker of the snapshot is known to the receiver as it is read. -/
theorem Snapshot.field_known {α : Type} {part : Builder → Option α} {name : String} {taken : String → Prop}
    {read : String → Option α} (hfield : Builder.Field part name taken read) {w : WorkerStatus} (hw : w ∈ s.workers)
      {value : String}
    (hvalue : (name, value) ∈ w.fields) {x : α} (hread : read value = some x) :
    part ((Decoding.run pairs).builders w.id.toNat) = some x := by
  obtain ⟨key, hpair, habout⟩ := (Snapshot.about_iff hids hpairs).mpr ⟨w, hw, rfl, hvalue⟩
  refine hfield.known ⟨(key, value), hpair, habout, hread⟩ fun pair' hpair' habout' => ?_
  obtain ⟨w', hw', hid, hvalue'⟩ := (Snapshot.about_iff hids hpairs).mp ⟨pair'.1, hpair', habout'⟩
  obtain rfl := Snapshot.worker_unique hids hw' hw (UInt32.toNat_inj.mp hid)
  rw [← WorkerStatus.fields_functional hvalue hvalue']
  exact hread

theorem Snapshot.builder_worker {w : WorkerStatus} (hw : w ∈ s.workers)
    (hnamed : ∀ profile ∈ w.loadedProfile, profile.style.id.id ≠ "") :
    ((Decoding.run pairs).builders w.id.toNat).worker? w.id.toNat = some w.view := by
  rw [Builder.worker?_eq_some]
  refine ⟨(UInt32.ofNat_toNat).symm, ?_, fun profile hprofile => ⟨?_, ?_⟩, ?_⟩
  · refine Snapshot.field_known hids hpairs Builder.field_loadedRevision hw List.mem_cons_self ?_
    cases hprofile : w.loadedProfile with
    | none => simp [readRevision, WorkerStatus.view, hprofile]
    | some profile =>
      have hparse := StyleRevision.parse_toGossipValue (hnamed profile hprofile)
      simp [readRevision, WorkerStatus.view, hprofile, StyleRevision.toGossipValue_ne_empty, hparse]
  · refine Snapshot.field_known hids hpairs Builder.field_renderMode hw (List.mem_cons_of_mem _ List.mem_cons_self) ?_
    have hloaded : w.loadedProfile = some profile := hprofile
    rw [hloaded]
    exact RenderMode.parse_asGossipValue profile.renderMode
  · refine Snapshot.field_known hids hpairs Builder.field_scale hw
      (List.mem_cons_of_mem _ (List.mem_cons_of_mem _ List.mem_cons_self)) ?_
    have hloaded : w.loadedProfile = some profile := hprofile
    rw [hloaded]
    exact Scale.parse_asGossipValue profile.scale
  · refine Snapshot.field_known hids hpairs Builder.field_queueDepth hw
      (List.mem_cons_of_mem _ (List.mem_cons_of_mem _ (List.mem_cons_of_mem _ List.mem_cons_self))) ?_
    exact parseUnsigned_repr w.queueDepth.toNat_lt

theorem Snapshot.fromKvs_workers (id : NodeId)
    (hnamed : ∀ w ∈ s.workers, ∀ profile ∈ w.loadedProfile, profile.style.id.id ≠ "") :
    (NodeStateView.fromKvs id pairs).workers.Perm (s.workers.map WorkerStatus.view) := by
  have hnodup : (NodeStateView.fromKvs id pairs).workers.Nodup := by
    refine (NodeStateView.workers_ascending id pairs).imp fun {w w'} hlt heq => ?_
    subst heq
    exact absurd hlt (UInt32.lt_irrefl w.id)
  have hnodup' : (s.workers.map WorkerStatus.view).Nodup := by
    refine List.Nodup.of_map WorkerView.id ?_
    rw [List.map_map]
    exact hids
  rw [List.perm_ext_iff_of_nodup hnodup hnodup']
  intro w
  rw [NodeStateView.mem_fromKvs, List.mem_map]
  constructor
  · rintro ⟨wid, hwid, hworker⟩
    obtain ⟨⟨key, value⟩, hpair, field, habout⟩ := Decoding.mem_ids_run.mp hwid
    obtain ⟨status, hstatus, rfl, -⟩ := (Snapshot.about_iff hids hpairs).mp ⟨key, hpair, habout⟩
    have hview := Snapshot.builder_worker hids hpairs hstatus (hnamed status hstatus)
    exact ⟨status, hstatus, Option.some.inj (hview.symm.trans hworker)⟩
  · rintro ⟨status, hstatus, rfl⟩
    obtain ⟨key, hpair, habout⟩ :=
      (Snapshot.about_iff hids hpairs).mpr ⟨status, hstatus, rfl, List.mem_cons_self⟩
    exact ⟨status.id.toNat, Decoding.mem_ids_run.mpr ⟨_, hpair, _, habout⟩,
      Snapshot.builder_worker hids hpairs hstatus (hnamed status hstatus)⟩

omit hids in
theorem Snapshot.fromKvs_acceptsNewRenders (id : NodeId) :
    (NodeStateView.fromKvs id pairs).acceptsNewRenders = s.acceptsNewRenders := by
  have hadmission : ∀ value, (renderAdmissionGossipKey, value) ∈ pairs ↔
    value = if s.acceptsNewRenders then "true" else "false" := by
    intro value
    rw [hpairs, Snapshot.kvs, Function.update_self, Option.some.injEq, eq_comm]
  rcases Decoding.acceptsNewRenders_run pairs with ⟨hnone, -⟩ | ⟨⟨key, value⟩, hpair, rfl, hread⟩
  · exact absurd rfl (hnone _ ((hadmission _).mpr rfl))
  · refine hread.trans ?_
    rw [(hadmission value).mp hpair]
    cases s.acceptsNewRenders <;> decide

end

/-- Whatever was published before, and in whatever order the values arrive, a peer sees the workers of the last snapshot, in the
order of their numbers, and the last admission state. From any values it gets it sees only workers each of whose values it was
told, and it takes a node to accept renders only when it was told so. -/
theorem gossip_state_received (id : NodeId) :
    (∀ (earlier : List Snapshot) (last : Snapshot) (pairs : List (String × String)),
        (last.workers.map WorkerStatus.id).Nodup →
        (∀ w ∈ last.workers, ∀ profile ∈ w.loadedProfile, profile.style.id.id ≠ "") →
        (∀ s ∈ earlier, ∀ w ∈ s.workers, w.id ∈ last.workers.map WorkerStatus.id) →
        (∀ key value, (key, value) ∈ pairs ↔ ((earlier ++ [last]).foldl Publisher.publish .new).store key = some value) →
        (NodeStateView.fromKvs id pairs).workers.Perm (last.workers.map WorkerStatus.view) ∧
          (NodeStateView.fromKvs id pairs).acceptsNewRenders = last.acceptsNewRenders) ∧
      ∀ pairs : List (String × String),
        ((NodeStateView.fromKvs id pairs).workers.Pairwise fun w w' => w.id < w'.id) ∧
          (∀ w ∈ (NodeStateView.fromKvs id pairs).workers, w.Known pairs) ∧
          ((NodeStateView.fromKvs id pairs).acceptsNewRenders = true → (renderAdmissionGossipKey, "true") ∈ pairs) := by
  refine ⟨fun earlier last pairs hids hnamed hworkers hpairs => ?_, fun pairs => ?_⟩
  · rw [Publisher.store_eq earlier hworkers] at hpairs
    exact ⟨Snapshot.fromKvs_workers hids hpairs id hnamed, Snapshot.fromKvs_acceptsNewRenders hpairs id⟩
  · exact ⟨NodeStateView.workers_ascending id pairs, fun w => NodeStateView.known_of_mem_fromKvs id pairs,
      NodeStateView.accepting_of_fromKvs id pairs⟩

/-- What the node of a pool is about to publish. -/
def WorkerPool.snapshot {spec : PoolSpec} (s : WorkerPool spec) (acceptsNewRenders : Bool) : Snapshot :=
    ⟨s.statuses, acceptsNewRenders⟩

variable {spec : PoolSpec}

/-- The workers of a pool are numbered once and for all. -/
theorem WorkerPool.statuses_ids (s : WorkerPool spec) :
    s.statuses.map WorkerStatus.id = (List.finRange spec.workers).map fun i => UInt32.ofNat i.val := by
  rw [WorkerPool.statuses, List.map_map]
  rfl

theorem WorkerPool.statuses_ids_nodup (hworkers : spec.workers ≤ 2 ^ 32) (s : WorkerPool spec) :
    (s.statuses.map WorkerStatus.id).Nodup := by
  rw [WorkerPool.statuses_ids]
  refine (List.nodup_finRange spec.workers).map_on fun i _ j _ h => Fin.ext ?_
  have hnat := congrArg UInt32.toNat h
  rw [UInt32.toNat_ofNat_of_lt' (Nat.lt_of_lt_of_le i.isLt hworkers),
    UInt32.toNat_ofNat_of_lt' (Nat.lt_of_lt_of_le j.isLt hworkers)] at hnat
  exact hnat

/-- Whatever a pool went through, its peers see it as it was last published. -/
theorem WorkerPool.snapshots_received (hworkers : spec.workers ≤ 2 ^ 32) (id : NodeId)
    (earlier : List (WorkerPool spec × Bool)) (last : WorkerPool spec) (accepts : Bool)
    (hnamed : ∀ w ∈ last.statuses, ∀ profile ∈ w.loadedProfile, profile.style.id.id ≠ "") {pairs : List (String × String)}
    (hpairs : ∀ key value, (key, value) ∈ pairs ↔
      ((earlier.map (fun pool => pool.1.snapshot pool.2) ++ [last.snapshot accepts]).foldl Publisher.publish .new).store key =
        some value) :
    (NodeStateView.fromKvs id pairs).workers.Perm (last.statuses.map WorkerStatus.view) ∧
      (NodeStateView.fromKvs id pairs).acceptsNewRenders = accepts := by
  have hsame : ∀ s ∈ earlier.map (fun pool => pool.1.snapshot pool.2), ∀ w ∈ s.workers,
      w.id ∈ (last.snapshot accepts).workers.map WorkerStatus.id := by
    intro s hs w hw
    obtain ⟨⟨pool, accepts'⟩, -, rfl⟩ := List.mem_map.mp hs
    have hid : w.id ∈ pool.statuses.map WorkerStatus.id := List.mem_map_of_mem hw
    rw [WorkerPool.statuses_ids] at hid
    rw [WorkerPool.snapshot, WorkerPool.statuses_ids]
    exact hid
  rw [Publisher.store_eq _ hsame] at hpairs
  exact ⟨Snapshot.fromKvs_workers (s := last.snapshot accepts) (WorkerPool.statuses_ids_nodup hworkers last) hpairs id hnamed,
    Snapshot.fromKvs_acceptsNewRenders hpairs id⟩

/-- All the pairs of a snapshot, the admission state first. -/
def Snapshot.allPairs (s : Snapshot) : List (String × String) :=
  (renderAdmissionGossipKey, if s.acceptsNewRenders then "true" else "false") :: s.pairs

theorem Snapshot.mem_allPairs {s : Snapshot} (hids : (s.workers.map WorkerStatus.id).Nodup) {key value : String} :
    (key, value) ∈ s.allPairs ↔ s.kvs key = some value := by
  rw [Snapshot.kvs_eq_some hids, Snapshot.allPairs, List.mem_cons, Prod.mk.injEq]

/-- A worker that has a tile style loaded, at its first version. -/
def tileWorker (id : UInt32) (style : String) (queueDepth : UInt64) : WorkerStatus :=
  ⟨id, some ⟨⟨⟨style⟩, 1⟩, .tile, .x2⟩, queueDepth⟩

/-- A worker that has nothing loaded. -/
def freshWorker (id : UInt32) : WorkerStatus := ⟨id, none, 0⟩

theorem gossip_state_received_two_workers :
    (NodeStateView.fromKvs ⟨"node"⟩ (Snapshot.allPairs ⟨[tileWorker 7 "a@b" 3, freshWorker 2], false⟩).reverse).workers.Perm
        [(tileWorker 7 "a@b" 3).view, (freshWorker 2).view] ∧
      (NodeStateView.fromKvs ⟨"node"⟩
        (Snapshot.allPairs ⟨[tileWorker 7 "a@b" 3, freshWorker 2], false⟩).reverse).acceptsNewRenders = false := by
  refine (gossip_state_received ⟨"node"⟩).1 [⟨[freshWorker 7, tileWorker 2 "c" 1], true⟩]
    ⟨[tileWorker 7 "a@b" 3, freshWorker 2], false⟩ _ (by decide) ?_ (by decide) fun key value => ?_
  · decide
  · rw [List.mem_reverse, Snapshot.mem_allPairs (by decide), Publisher.store_eq [_] (by decide)]

/-- A pool of two workers that have nothing loaded, and of one. -/
def twoFresh : Snapshot := ⟨[freshWorker 0, freshWorker 1], true⟩

def oneFresh : Snapshot := ⟨[freshWorker 0], true⟩

/-- A style without a name is not read back, a worker that is no longer published is still seen, and a worker with nothing loaded
is seen without its mode and scale. -/
theorem gossip_state_not_received :
    (∃ (last : Snapshot) (pairs : List (String × String)), (last.workers.map WorkerStatus.id).Nodup ∧
        (∀ key value, (key, value) ∈ pairs ↔ ([last].foldl Publisher.publish .new).store key = some value) ∧
        last.workers ≠ [] ∧ (NodeStateView.fromKvs ⟨"node"⟩ pairs).workers = []) ∧
      (∃ (first last : Snapshot) (pairs : List (String × String)), (last.workers.map WorkerStatus.id).Nodup ∧
        (∀ key value, (key, value) ∈ pairs ↔ ([first, last].foldl Publisher.publish .new).store key = some value) ∧
        last.workers = [freshWorker 0] ∧
        (NodeStateView.fromKvs ⟨"node"⟩ pairs).workers = [(freshWorker 0).view, (freshWorker 1).view]) ∧
      (NodeStateView.fromKvs ⟨"node"⟩ [("worker.0.style", ""), ("worker.0.queue", "0")]).workers = [(freshWorker 0).view] := by
  refine ⟨⟨⟨[tileWorker 0 "" 0], true⟩, Snapshot.allPairs ⟨[tileWorker 0 "" 0], true⟩, by decide, fun key value => ?_, by decide,
    by decide +kernel⟩, ⟨twoFresh, oneFresh, twoFresh.allPairs, by decide, fun key value => ?_, rfl, by decide +kernel⟩, by
      decide +kernel⟩
  · rw [Snapshot.mem_allPairs (by decide), ← Publisher.store_eq [] (by decide)]
    rfl
  · have hstore : ([twoFresh, oneFresh].foldl Publisher.publish .new).store = twoFresh.kvs := by
      have hfirst : (Publisher.new.publish twoFresh).store = twoFresh.kvs := Publisher.store_eq [] (by decide)
      rw [List.foldl_cons, List.foldl_cons, List.foldl_nil, Publisher.publish_store_same, hfirst]
      intro key value hvalue
      rw [hfirst, ← Snapshot.mem_allPairs (by decide)]
      exact (by decide : oneFresh.allPairs ⊆ twoFresh.allPairs) ((Snapshot.mem_allPairs (by decide)).mpr hvalue)
    rw [Snapshot.mem_allPairs (by decide), hstore]

end Biei
