import Biei.Lemmas.Directory
import Biei.Lemmas.Eviction

/-! # Directories are parsed as they are laid out -/

namespace Biei

namespace Directory

variable (decoders : Decoders) (compression : Compression) (bytes : Bytes) (maxDecompressedBytes : Nat)

/-- With a limit that is a `usize`: the parser gives a directory exactly when what is decompressed begins with its entries; it
reserves no more entries than a quarter of the bytes that remain; and entries that were laid out, with or without the zeroes for
adjacent ones, are given back. -/
theorem parse_with_limit_exact (hmax : maxDecompressedBytes < u64Bound) :
    (∀ entries, parseWithLimit decoders compression bytes maxDecompressedBytes = .ok ⟨entries⟩ ↔
      ∃ decompressed, decoders.decompressBytesWithLimit compression bytes maxDecompressedBytes = .ok decompressed ∧
        LaidOut decompressed entries) ∧
    (parseWithLimit decoders compression bytes maxDecompressedBytes =
        decoders.decompressBytesWithLimit compression bytes maxDecompressedBytes >>= fun decompressed =>
          reserve decompressed >>= fun reserved => readColumns reserved.1 reserved.2) ∧
    (∀ decompressed n rest, decoders.decompressBytesWithLimit compression bytes maxDecompressedBytes = .ok decompressed →
      reserve decompressed = .ok (n, rest) → n ≤ rest.length / 4) ∧
    ∀ shorthand entries rest, Encodable entries →
      decoders.decompressBytesWithLimit compression bytes maxDecompressedBytes = .ok (encode shorthand entries ++ rest) →
      parseWithLimit decoders compression bytes maxDecompressedBytes = .ok ⟨entries⟩ := by
  have hshort : ∀ {decompressed}, decoders.decompressBytesWithLimit compression bytes maxDecompressedBytes = .ok decompressed →
      decompressed.length < u64Bound := fun h => (Decoders.length_decompressBytesWithLimit h).trans_lt hmax
  have hparse : ∀ entries, parseWithLimit decoders compression bytes maxDecompressedBytes = .ok ⟨entries⟩ ↔
      ∃ decompressed, decoders.decompressBytesWithLimit compression bytes maxDecompressedBytes = .ok decompressed ∧
        LaidOut decompressed entries := by
    intro entries
    rw [parseWithLimit_eq, Except.bind_eq_ok_iff]
    refine exists_congr fun decompressed => and_congr_right fun hdecompressed => ?_
    rw [Except.bind_eq_ok_iff]
    constructor
    · rintro ⟨⟨n, buffer⟩, hreserve, hcolumns⟩
      obtain ⟨count, hcount, rfl, -⟩ := (reserve_iff (hshort hdecompressed)).mp hreserve
      obtain ⟨rfl, deltas, offsets, deltaBytes, runLengthBytes, lengthBytes, offsetBytes, rest, rfl, hall⟩ :=
        readColumns_iff.mp hcolumns
      obtain ⟨hcolumn1, hcolumn2, hcolumn3, hcolumn4, hrest⟩ := hall
      exact ⟨deltas, offsets, count, deltaBytes, runLengthBytes, lengthBytes, offsetBytes, rest, rfl, hcount, hcolumn1, hcolumn2,
        hcolumn3, hcolumn4, hrest⟩
    · rintro ⟨deltas, offsets, count, deltaBytes, runLengthBytes, lengthBytes, offsetBytes, rest, rfl, hcount, hcolumn1, hcolumn2,
        hcolumn3, hcolumn4, hsums, hoffsetsOf, hlt⟩
      -- each of the four columns has a byte at least for each entry
      have hlength1 : deltas.length = entries.length := by
        have heq := congrArg List.length hsums
        rw [length_sumsFrom, List.length_map] at heq
        exact heq.symm
      have hlength4 : offsets.length = entries.length := by simpa using hoffsetsOf.length_eq
      have hbytes1 := hcolumn1.length_le
      have hbytes2 := hcolumn2.length_le
      have hbytes3 := hcolumn3.length_le
      have hbytes4 := hcolumn4.length_le
      rw [List.length_map] at hbytes2 hbytes3
      refine ⟨(entries.length, _), (reserve_iff (hshort hdecompressed)).mpr ⟨count, hcount, rfl, ?_⟩, readColumns_iff.mpr
        ⟨rfl, deltas, offsets, deltaBytes, runLengthBytes, lengthBytes, offsetBytes, rest, rfl, hcolumn1, hcolumn2, hcolumn3,
          hcolumn4,
          hsums, hoffsetsOf, hlt⟩⟩
      simp only [List.length_append]
      omega
  refine ⟨hparse, parseWithLimit_eq .., fun decompressed n rest hdecompressed hreserve => ?_,
    fun shorthand entries rest h hdecompressed => ?_⟩
  · obtain ⟨count, -, -, hfits⟩ := (reserve_iff (hshort hdecompressed)).mp hreserve
    omega
  · refine (hparse entries).mpr ⟨_, hdecompressed, laidOut_encode shorthand h ?_ rest⟩
    have hlt := hshort hdecompressed
    rw [List.length_append] at hlt
    exact (length_le_encode shorthand entries).trans_lt ((Nat.le_add_right ..).trans_lt hlt)

/-- Two adjacent entries of a directory that is not compressed, the second with a zero for its offset. -/
theorem parse_with_limit_exact_adjacent :
    parseWithLimit ⟨fun _ _ _ => .error "", nofun⟩ .none [2, 5, 1, 1, 1, 9, 3, 1, 0, 77] 1024 = .ok
      ⟨[⟨5, 0, 9, 1⟩, ⟨6, 9, 3, 1⟩]⟩ := by
  refine (parse_with_limit_exact ⟨fun _ _ _ => .error "", nofun⟩ .none [2, 5, 1, 1, 1, 9, 3, 1, 0, 77] 1024 (by decide)).2.2.2
    (fun _ => true) [⟨5, 0, 9, 1⟩, ⟨6, 9, 3, 1⟩] [77] ⟨by decide, by decide, by decide, by decide, by decide⟩ ?_
  simp [Decoders.decompressBytesWithLimit, encode, offsetsOf, deltasFrom, Varint.encode_of_lt]

end Directory

/-! ## The eviction choice -/

namespace Dispatcher

/-- For every view, task, clock and limit: the candidates are the first `limit` of the qualified workers by rank, whatever the
order of the states is, and the only copy of a profile is never before a qualified worker that is fresh or has one of several
copies, exactly when the limit is not zero or nobody qualifies. -/
theorem tier3_candidates_exact (d : Dispatcher) (now : Instant) (view : DispatchView) (task : InternalTask) (limit : Nat) :
    ((∃ entries, entries = ((d.qualified now view task).insertionSort fun a b =>
          tier3Rank task.workerProfile (clusterCounts view) a ≤ tier3Rank task.workerProfile (clusterCounts view) b).take limit ∧
        d.tier3CandidatesView now view task limit = entries.map hinted ∧
        ∀ (i : Nat) e profile, entries[i]? = some e → e.2.loadedProfile = some profile → clusterCounts view profile = 1 →
          ∀ e' ∈ d.qualified now view task,
            (e'.2.loadedProfile = none ∨ ∃ profile', e'.2.loadedProfile = some profile' ∧ 2 ≤ clusterCounts view profile') →
              ∃ j < i, entries[j]? = some e') ∧
      ∀ view' : DispatchView, view'.localState = view.localState → view'.cluster.states.Perm view.cluster.states →
        d.tier3CandidatesView now view' task limit = d.tier3CandidatesView now view task limit) ↔
    (0 < limit ∨ d.qualified now view task = []) := by
  have : Std.Total fun a b : NodeId × WorkerView => tier3Rank task.workerProfile (clusterCounts view) a ≤
      tier3Rank task.workerProfile (clusterCounts view) b := ⟨fun _ _ => le_total _ _⟩
  constructor
  · rintro ⟨⟨entries, rfl, heq, -⟩, -⟩
    rcases Nat.eq_zero_or_pos limit with rfl | hpos
    · right
      rw [tier3CandidatesView_eq_topK, topK, List.take_zero, List.map_nil, List.map_eq_nil_iff] at heq
      have hlength := congrArg List.length heq
      rw [List.length_take, List.length_insertionSort, List.length_nil] at hlength
      exact List.length_eq_zero_iff.mp (by omega)
    · exact Or.inl hpos
  · intro h
    have htake : ((d.qualified now view task).insertionSort fun a b =>
        tier3Rank task.workerProfile (clusterCounts view) a ≤ tier3Rank task.workerProfile (clusterCounts view) b).take limit =
        topK (fun a b => tier3Rank task.workerProfile (clusterCounts view) a ≤ tier3Rank task.workerProfile
          (clusterCounts view) b)
          (max limit 1) (d.qualified now view task) := by
      rcases h with hpos | hnone
      · rw [topK, Nat.max_eq_left hpos]
      · rw [topK, hnone]
        simp
    refine ⟨⟨_, rfl, htake ▸ tier3CandidatesView_eq_topK limit, fun i e profile hi hloaded hone e' he' hother => ?_⟩,
      fun view' hlocal hstates => tier3CandidatesView_perm hlocal hstates limit⟩
    rw [htake] at hi ⊢
    refine topK_getElem?_of_not _ hi he' fun hle => ?_
    -- a protected worker is after every other
    have hprotect : (tier3SortKey e.2.loadedProfile task.workerProfile (clusterCounts view)).protect ≤
        (tier3SortKey e'.2.loadedProfile task.workerProfile (clusterCounts view)).protect := Prod.Lex.monotone_fst _ _ hle
    have htrue : (tier3SortKey e.2.loadedProfile task.workerProfile (clusterCounts view)).protect = true := by
      rw [hloaded]
      exact decide_eq_true (le_of_eq hone)
    have hfalse : (tier3SortKey e'.2.loadedProfile task.workerProfile (clusterCounts view)).protect = false := by
      rcases hother with hfresh | ⟨profile', hloaded', htwo⟩
      · rw [hfresh]
        rfl
      · rw [hloaded']
        exact decide_eq_false (by omega)
    rw [htrue, hfalse] at hprotect
    exact absurd hprotect (by decide)

/-- A worker of a node, fresh and idle. -/
def freshCluster : ClusterView where
  members := [⟨"node-0"⟩]
  states := [(⟨"node-0"⟩, ⟨⟨"node-0"⟩, true, [⟨0, none, 0⟩]⟩)]
  keys := by decide
  ids := by decide

/-- A dispatcher whose renders are free. -/
def freeDispatcher : Dispatcher := .new ⟨"node-0"⟩ ⟨.powerOfTwo, true, 1⟩ ⟨⟨0, 0⟩, ⟨0, 0⟩, ⟨0, 0⟩, ⟨0, 0⟩, 0, 10000000000⟩ 1 4 0

/-- A tile of a style, at scale one. -/
def styleTile : InternalTask where
  id := 1
  requestId := ⟨"r", by decide⟩
  authorization := none
  style := ⟨⟨"style"⟩, 0⟩
  source := none
  request := .tile 1 0 0 512
  pixelRatio := .ofScale .x1
  outputFormat := .png
  arrivedAt := 0
  deadline := 10000000000
  forwardingHops := 0

/-- Asked for no worker, it selects one. -/
theorem one_selected_of_none :
    freeDispatcher.tier3CandidatesView 0 (.new freshCluster none) styleTile 0 = [⟨⟨"node-0"⟩, some 0⟩] ∧
      freeDispatcher.tier3CandidatesView 0 (.new freshCluster none) styleTile 0 ≠
        (((freeDispatcher.qualified 0 (.new freshCluster none) styleTile).insertionSort fun a b =>
          tier3Rank styleTile.workerProfile (clusterCounts (.new freshCluster none)) a ≤
            tier3Rank styleTile.workerProfile (clusterCounts (.new freshCluster none)) b).take 0).map hinted := by
  have hone : freeDispatcher.tier3CandidatesView 0 (.new freshCluster none) styleTile 0 = [⟨⟨"node-0"⟩, some 0⟩] := by
    decide +kernel
  refine ⟨hone, ?_⟩
  rw [hone, List.take_zero]
  exact List.cons_ne_nil _ _

end Dispatcher

end Biei
