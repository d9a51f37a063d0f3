import Biei.Lemmas.Bootstrap
import Biei.Theorems.Store

/-! # What a node serves its peers decode -/

namespace Biei

/-- A read of the chunked store that has come to an end may be what its caller gets. -/
theorem ChunkedStore.mayAnswer_of_read {T : Type} [DecidableEq T] {config : ChunkedStoreConfig} {archive : T → Bytes}
    {s : ChunkedStore T} (h : (machine config archive).Reachable s) {r : Reader T} (hr : r ∈ s.readers) {read : ChunkRead}
    (hdone : r.phase = .done (.ok read)) : MayAnswer (archive r.tilesetId) r.start r.length r.archiveLen (.ok read.bytes) := by
  have hinv : StoreInv config archive s := h.invariant StoreInv.new fun _ _ _ hi hs => hi.step hs
  have hphase := hinv.readers r hr
  rw [hdone] at hphase
  exact hphase

section

variable {T M : Type} [DecidableEq T]

/-- The answers to the reads of a transfer are answers the object store may give. -/
structure TransferReads.Possible (object : Bytes) (archive : ArchiveBootstrap M) (reads : TransferReads) : Prop where
  bootstrap : MayAnswer object 0 (min archive.archiveLen minBootstrapBytes) (some archive.archiveLen) reads.bootstrap
  metadata :
    MayAnswer object archive.header.metadata.offset archive.header.metadata.length (some archive.archiveLen) reads.metadata

/-- How much of the archive is sent as its bootstrap: what the cache has, or what is read otherwise. -/
def bootstrapLength (archive : ArchiveBootstrap M) (cached : Option Bytes) : Nat :=
  match cached with
  | some bytes => bytes.length
  | none => min archive.archiveLen minBootstrapBytes

/-- There is metadata, and it is not more than a peer accepts. -/
def HasAcceptedMetadata (archive : ArchiveBootstrap M) (cached : Option Bytes) : Prop :=
  0 < archive.header.metadata.length ∧
    bootstrapLength archive cached + archive.header.metadata.length ≤ minBootstrapBytes + defaultMaxDecompressedBytes

/-- What a transfer has in it. -/
theorem loadBootstrapBytesLocal_ok {chunkSize : Nat} {archive : ArchiveBootstrap M} {cached : Option Bytes}
    {includeMetadata : Bool}
    {reads : TransferReads} {object : Bytes} (hreads : reads.Possible object archive) {transfer : BootstrapTransfer}
    (h : loadBootstrapBytesLocal chunkSize archive cached includeMetadata reads = .ok transfer) :
    transfer.bootstrap.length = bootstrapLength archive cached ∧
      ((includeMetadata = true ∧ 0 < archive.header.metadata.length ∧
          ∃ metadata, transfer.metadata = some metadata ∧ metadata.length = archive.header.metadata.length) ∨
        (¬(includeMetadata = true ∧ 0 < archive.header.metadata.length) ∧ transfer.metadata = none)) := by
  obtain ⟨bootstrap, hbootstrap, h⟩ := Except.bind_eq_ok_iff.mp h
  obtain ⟨metadata, hmetadata, h⟩ := Except.bind_eq_ok_iff.mp h
  cases h
  refine ⟨?_, ?_⟩
  · unfold transferBootstrap at hbootstrap
    unfold bootstrapLength
    split at hbootstrap
    · rw [Except.ok.inj hbootstrap]
    · exact (ArchiveCache.length_readRange hreads.bootstrap hbootstrap).2 (by simp)
  · unfold transferMetadata at hmetadata
    split at hmetadata
    · rename_i hasked
      split at hmetadata
      · cases hmetadata
      · rename_i bytes hread
        exact Or.inl ⟨hasked.1, hasked.2, bytes, (Except.ok.inj hmetadata).symm,
          (ArchiveCache.length_readRange hreads.metadata hread).2 (by simp)⟩
    · rename_i hasked
      exact Or.inr ⟨hasked, (Except.ok.inj hmetadata).symm⟩

/-- A node never sends a bootstrap that a peer does not accept. -/
theorem bootstrapLength_le {env : PmtilesEnv M} {chunkSize : Nat} {object : T → Bytes} {s : ArchiveCache T M}
    (hs : (ArchiveCache.machine env chunkSize object).Reachable s) (t : T) (archive : ArchiveBootstrap M) :
    bootstrapLength archive ((s.archives t).map CachedArchive.bootstrap) ≤ minBootstrapBytes := by
  unfold bootstrapLength
  split
  · rename_i bytes hcached
    obtain ⟨cached, hentry, rfl⟩ := Option.map_eq_some_iff.mp hcached
    exact ArchiveCache.bounded_of_reachable hs t cached hentry
  · exact Nat.min_le_right _ _

/-- In every state of a serving node's cache: the body of a transfer is decoded to the transfer exactly when no metadata was asked
for, or the archive has metadata and not more than a peer accepts. No body makes the decoder panic. -/
theorem bootstrap_received_iff (env : PmtilesEnv M) (chunkSize : Nat) (object : T → Bytes) {s : ArchiveCache T M}
    (hs : (ArchiveCache.machine env chunkSize object).Reachable s) (t : T) (archive : ArchiveBootstrap M) (includeMetadata : Bool)
    {reads : TransferReads} (hreads : reads.Possible (object t) archive) {transfer : BootstrapTransfer}
    (hload : loadBootstrapBytesLocal chunkSize archive ((s.archives t).map CachedArchive.bootstrap) includeMetadata reads =
      .ok transfer) :
    (decodeBootstrapWire (bootstrapBody transfer) includeMetadata = some (.ok transfer) ↔
        (includeMetadata = true → HasAcceptedMetadata archive ((s.archives t).map CachedArchive.bootstrap))) ∧
      ∀ body flag, ∃ r, decodeBootstrapWire body flag = some r := by
  refine ⟨?_, decodeBootstrapWire_total⟩
  obtain ⟨bootstrap, metadata⟩ := transfer
  obtain ⟨hlen, hmetadata⟩ := loadBootstrapBytesLocal_ok hreads hload
  simp only at hlen hmetadata
  have hle := bootstrapLength_le hs t archive
  rw [← hlen] at hle
  unfold HasAcceptedMetadata
  rw [← hlen]
  rcases hmetadata with ⟨hasked, hpos, bytes, rfl, hbytes⟩ | ⟨hnot, rfl⟩
  · -- framed by the one, unframed by the other
    subst hasked
    rw [← hbytes] at hpos ⊢
    constructor
    · intro hdecode _
      have hmax := (length_of_decodeBootstrapWire hdecode).2.2
      simp only [bootstrapBody, List.length_append, length_leBytes, maxTransferBytes, prefixBytes] at hmax
      exact ⟨hpos, by omega⟩
    · intro haccepted
      refine decodeBootstrapWire_frame hle ?_ (List.ne_nil_of_length_pos hpos)
      have hmax := (haccepted rfl).2
      simp only [maxTransferBytes]
      omega
  · cases includeMetadata with
    | false =>
      rw [bootstrapBody, decodeBootstrapWire_raw, if_neg (Nat.not_lt_of_le hle)]
      exact ⟨fun _ h => absurd h Bool.false_ne_true, fun _ => rfl⟩
    | true =>
      -- not framed, yet unframed: what is decoded is shorter than what was sent
      constructor
      · intro hdecode
        have hshort := (length_of_decodeBootstrapWire hdecode).1
        simp only [bootstrapBody, prefixBytes] at hshort
        omega
      · exact fun haccepted => absurd ⟨rfl, (haccepted rfl).1⟩ hnot

end

/-- An archive without tiles: a header, a root directory of no entries, and metadata. -/
def emptyArchive (metadata : Bytes) : Bytes :=
  magic ++ [3] ++ leBytes 8 headerSize ++ leBytes 8 1 ++ leBytes 8 (headerSize + 1) ++ leBytes 8 metadata.length ++
    (List.replicate 57 0 ++ [1, 1, 1] ++ List.replicate 27 0) ++ [0] ++ metadata

/-- Nothing in the archive is compressed. -/
def plainEnv : PmtilesEnv Unit where
  decoders := ⟨fun _ _ _ => .error "compressed", fun _ _ _ _ h => by cases h⟩
  metadataFromSlice := fun _ => .ok ()

/-- The cache of a node that has read the archive. -/
def afterRead (metadata : Bytes) : Option (ArchiveCache Unit Unit) :=
  (ArchiveCache.machine plainEnv 1048576 fun _ => emptyArchive metadata).run .new [.loadLocal () (.ok (emptyArchive metadata))]

/-- What the object store answers when the metadata of the archive is read. -/
def metadataRead (metadata : Bytes) : TransferReads := ⟨.error .notFound, .ok metadata⟩

/-- The cached entry and the transfer that is made of it for a peer that asks for metadata. -/
def servedWithMetadata (metadata : Bytes) (s : ArchiveCache Unit Unit) : Option (CachedArchive Unit × BootstrapTransfer) :=
  (s.archives ()).bind fun cached =>
    match loadBootstrapBytesLocal 1048576 cached.archive (some cached.bootstrap) true (metadataRead metadata) with
    | .error _ => none
    | .ok transfer => some (cached, transfer)

/-- What is served is loaded in a reachable state. -/
theorem exists_of_served {metadata : Bytes} {α : Type} {f : CachedArchive Unit × BootstrapTransfer → α} {x : α}
    (h : ((afterRead metadata).bind (servedWithMetadata metadata)).map f = some x) :
    ∃ s cached transfer, (ArchiveCache.machine plainEnv 1048576 fun _ => emptyArchive metadata).Reachable s ∧
      s.archives () = some cached ∧
      loadBootstrapBytesLocal 1048576 cached.archive (some cached.bootstrap) true (metadataRead metadata) = .ok transfer ∧
      f (cached, transfer) = x := by
  obtain ⟨⟨cached, transfer⟩, hserved, hf⟩ := Option.map_eq_some_iff.mp h
  obtain ⟨s, hrun, hserved⟩ := Option.bind_eq_some_iff.mp hserved
  obtain ⟨cached', hcached, hload⟩ := Option.bind_eq_some_iff.mp hserved
  split at hload
  · cases hload
  · rename_i transfer' hok
    obtain ⟨rfl, rfl⟩ := Prod.mk.inj (Option.some.inj hload)
    exact ⟨s, cached', transfer', Machine.reachable_of_run hrun, hcached, hok, hf⟩

theorem bootstrap_received_iff_with_metadata :
    decodeBootstrapWire (bootstrapBody ⟨emptyArchive [123, 125], some [123, 125]⟩) true =
      some (.ok ⟨emptyArchive [123, 125], some [123, 125]⟩) := by
  have hserved : ((afterRead [123, 125]).bind (servedWithMetadata [123, 125])).map
      (fun r => (r.1.archive.header.metadata.offset, r.1.archive.header.metadata.length, r.1.bootstrap, r.2)) =
        some (128, 2, emptyArchive [123, 125], ⟨emptyArchive [123, 125], some [123, 125]⟩) := by
    decide +kernel
  obtain ⟨s, cached, transfer, hs, hcached, hload, hshape⟩ := exists_of_served hserved
  simp only [Prod.mk.injEq] at hshape
  obtain ⟨hoffset, hlength, hbootstrap, rfl⟩ := hshape
  have hreads : (metadataRead [123, 125]).Possible (emptyArchive [123, 125]) cached.archive := by
    refine ⟨trivial, ?_⟩
    rw [hoffset, hlength]
    exact ⟨by decide +kernel, fun _ => by decide +kernel⟩
  have hentry : (s.archives ()).map CachedArchive.bootstrap = some cached.bootstrap := by rw [hcached]; rfl
  refine ((bootstrap_received_iff plainEnv 1048576 (fun _ => emptyArchive [123, 125]) hs () cached.archive true hreads
    (by rw [hentry]; exact hload)).1).mpr fun _ => ⟨?_, ?_⟩
  · rw [hlength]
    decide
  · rw [hentry, bootstrapLength, hbootstrap, hlength]
    decide +kernel

/-- An archive without metadata is served as it is, and the peer that has asked for metadata reads its first bytes as a length. -/
theorem emptyArchive_not_received :
    ∃ (s : ArchiveCache Unit Unit) (cached : CachedArchive Unit) (transfer : BootstrapTransfer),
      (ArchiveCache.machine plainEnv 1048576 fun _ => emptyArchive []).Reachable s ∧ s.archives () = some cached ∧
      (metadataRead []).Possible (emptyArchive []) cached.archive ∧
      loadBootstrapBytesLocal 1048576 cached.archive (some cached.bootstrap) true (metadataRead []) = .ok transfer ∧
      decodeBootstrapWire (bootstrapBody transfer) true =
        some (.error "bootstrap length exceeds the accepted bootstrap size") := by
  have hserved : ((afterRead []).bind (servedWithMetadata [])).map
      (fun r => (r.1.archive.header.metadata.offset, r.1.archive.header.metadata.length, r.2)) =
        some (128, 0, ⟨emptyArchive [], none⟩) := by
    decide +kernel
  obtain ⟨s, cached, transfer, hs, hcached, hload, hshape⟩ := exists_of_served hserved
  simp only [Prod.mk.injEq] at hshape
  obtain ⟨hoffset, hlength, rfl⟩ := hshape
  refine ⟨s, cached, _, hs, hcached, ⟨trivial, ?_⟩, hload, by decide +kernel⟩
  rw [hoffset, hlength]
  exact ⟨by decide +kernel, fun _ => by decide +kernel⟩

end Biei

/-! ## Bootstrap loads that wait for each other -/

namespace Biei.Storage

namespace BootstrapCluster

variable (routing : Routing)

/-- In every state reached while the routed loads ask upwards, the flights wait for each other without a cycle; and a load that
routes over peers among which its node is asks upwards. -/
theorem acyclic_of_upwards (s : BootstrapCluster) (hs : (machine routing).ReachedBy (RoutesUpwards routing) s) :
    Acyclic s.Waits ∧
    ∀ node tileset peers, (∃ peer ∈ peers, peer.id = node) →
      Upwards routing tileset node (routing.candidates node tileset peers) :=
  ⟨(AskingUpwards.of_reachedBy hs).acyclic, fun _ _ _ hself => upwards_of_mem hself⟩

/-- Three nodes, with the hashes of their weights for the first group of `demo/streets`. -/
def threeNodes : Routing where
  router _ := HrwRouter.new 3 1
  xxHash64 input :=
    if input = HrwRouter.weightInput "demo/streets" 0 "node-a" then 0x3aa32deb200a7097
    else if input = HrwRouter.weightInput "demo/streets" 0 "node-b" then 0x473005f3e4d38e6e
    else if input = HrwRouter.weightInput "demo/streets" 0 "node-c" then 0xb3b48cde41930432
    else 0

def nodeB : Peer := ⟨"node-b", "10.0.0.2:8080"⟩

def nodeC : Peer := ⟨"node-c", "10.0.0.3:8080"⟩

/-- A load of `node-c` reads from the backend; one of `node-b` asks `node-c`, where its handler follows the first. -/
def followingRun : List BootstrapEvent :=
  [.request "node-c" "demo/streets", .move 0 .begin, .move 0 (.route [nodeB, nodeC]),
    .request "node-b" "demo/streets", .move 1 .begin, .move 1 (.route [nodeB, nodeC]), .move 1 .ask, .move 1 .arrive,
      .move 2 .begin]

instance (s : BootstrapCluster) (event : BootstrapEvent) : Decidable (RoutesUpwards threeNodes s event) :=
  match event with
  | .move i (.route peers) =>
    decidable_of_iff (∀ load ∈ s.loads[i]?, Upwards threeNodes load.tileset load.node
      (threeNodes.candidates load.node load.tileset peers)) (by simp [RoutesUpwards])
  | .move _ .cached | .move _ .begin | .move _ .ask | .move _ .arrive | .move _ (.answer _) | .move _ .finish | .move _ (.wake _)
  | .move _ .cancel | .request _ _ | .drain _ => isTrue trivial

/-- The fetch of load `i`, and the handler that serves it and follows load `j`. -/
def waiting (s : BootstrapCluster) (i j handler : Nat) : Bool :=
  match s.loads[i]?, s.loads[handler]? with
  | some load, some served =>
    match load.phase with
    | .fetching peer _ =>
      s.flights (load.node, load.tileset) == some i && served.asker == some i && served.node == peer.id &&
        decide (served.phase = .following j) && s.flights (served.node, served.tileset) == some j
    | _ => false
  | _, _ => false

theorem waits_of_waiting {s : BootstrapCluster} {i j handler : Nat} (h : s.waiting i j handler = true) : s.Waits i j := by
  unfold waiting at h
  split at h
  · rename_i load served hload hserved
    split at h
    · rename_i peer rest hphase
      simp only [Bool.and_eq_true, beq_iff_eq, decide_eq_true_eq] at h
      obtain ⟨⟨⟨⟨hflight, hasker⟩, hnode⟩, hfollows⟩, hled⟩ := h
      exact ⟨load, peer, rest, hload, hphase, hflight, served, List.mem_of_getElem? hserved, hasker, hnode, hfollows, hled⟩
    · cases h
  · cases h

theorem acyclic_of_upwards_followingRun : ∃ s : BootstrapCluster, s.Waits 1 0 ∧ Acyclic s.Waits := by
  obtain ⟨s, hs, hw⟩ := (machine threeNodes).exists_of_guardedRun (fun s event => decide (RoutesUpwards threeNodes s event))
    followingRun
    (fun s => s.waiting 1 0 2) (by decide +kernel)
  have hreached : (machine threeNodes).ReachedBy (RoutesUpwards threeNodes) s := hs.mono fun s event => of_decide_eq_true
  exact ⟨s, waits_of_waiting hw, (acyclic_of_upwards threeNodes s hreached).1⟩

/-- Then `node-c` drains, the first load is dropped, and another asks `node-b`, where its handler follows the load that asked
`node-c`; the first handler has woken, and follows the new load. -/
def circularRun : List BootstrapEvent :=
  followingRun ++ [.drain "node-c", .move 0 .cancel, .request "node-c" "demo/streets", .move 3 .begin, .move 3 (.route [nodeB]),
    .move 3 .ask, .move 3 .arrive, .move 4 .begin, .move 2 (.wake false), .move 2 .begin]

theorem flights_wait_in_circle : ∃ s, (machine threeNodes).Reachable s ∧ ¬Acyclic s.Waits := by
  obtain ⟨s, hs, hw⟩ := (machine threeNodes).exists_of_guardedRun (fun _ _ => true) circularRun
    (fun s => s.waiting 1 3 2 && s.waiting 3 1 4) (by decide +kernel)
  obtain ⟨h13, h31⟩ := Bool.and_eq_true_iff.mp hw
  exact ⟨s, hs.mono fun _ _ _ => trivial, fun h => h 1 (.tail (.single (waits_of_waiting h13)) (waits_of_waiting h31))⟩

end BootstrapCluster

end Biei.Storage
