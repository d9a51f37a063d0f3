import Biei.Lemmas.Planning
import Biei.Lemmas.Walker

/-! # Chunks are fetched in as few ranges as the limits allow -/

namespace Biei

/-- For chunks below `u64::MAX - 1` and a gap that does not overflow: the ranges ascend and share no chunk, obey the limits and
hold all that is requested; none could take the next requested chunk; and the requested chunks cannot be cut into fewer runs. -/
theorem contiguous_chunk_ranges_greedy (chunks : OrderedSet Nat) (maxFetchChunks gap : Nat)
    (hchunks : ∀ c ∈ chunks, c < u64Bound - 2)
    (hgap : ∀ c ∈ chunks, ∀ d ∈ chunks, c < d → c + 1 + gap < u64Bound) :
    ∃ ranges, contiguousChunkRangesU64 chunks maxFetchChunks gap = some ranges ∧
      (ranges.Pairwise fun a b => a.stop ≤ b.start) ∧ ranges.Pairwise ChunkRange.Disjoint ∧
      (∀ r ∈ ranges, r.Obeys chunks maxFetchChunks gap) ∧ (∀ c ∈ chunks, ∃ r ∈ ranges, r.Covers c) ∧
      (∀ r ∈ ranges, ∀ c ∈ chunks, r.stop ≤ c → (∀ d ∈ chunks, r.stop ≤ d → c ≤ d) →
        ¬ChunkRange.Obeys ⟨r.start, c + 1⟩ chunks maxFetchChunks gap) ∧
      (∃ runs, Runs chunks maxFetchChunks gap runs ∧ ranges = runs.map rangeOf) ∧
      ∀ runs, Runs chunks maxFetchChunks gap runs → ranges.length ≤ runs.length := by
  classical
  have hm : 1 ≤ max maxFetchChunks 1 := Nat.le_max_right ..
  obtain ⟨hcuts, hne⟩ := Segmentation.greedy_cuts (fits_single gap hm) chunks.toList
  have hruns := runs_of_cuts hcuts hne
  have heq := contiguousChunkRanges_eq_greedy chunks maxFetchChunks gap
  have hascending := (contiguousChunkRanges_ascending chunks maxFetchChunks gap).2
  refine ⟨_, contiguousChunkRangesU64_eq (fun c hc => ?_) hgap, hascending, hascending.imp fun h => ChunkRange.disjoint_of_le h,
    fun r hr => ?_, fun c hc => ?_, fun r hr c hc hstop hleast hobeys => ?_, ⟨_, hruns, heq⟩, fun runs h => ?_⟩
  · have hlt := hchunks c hc
    omega
  · rw [heq] at hr
    obtain ⟨run, hrun, rfl⟩ := List.mem_map.mp hr
    exact (hruns.each run hrun).2
  · obtain ⟨run, hrun, hcovers⟩ := hruns.covers hc
    exact ⟨rangeOf run, heq ▸ List.mem_map_of_mem hrun, hcovers⟩
  · rw [heq] at hr
    obtain ⟨run, hrun, rfl⟩ := List.mem_map.mp hr
    obtain ⟨before, after, hsplit⟩ := List.append_of_mem hrun
    obtain ⟨rest, after, rfl⟩ := (hsplit ▸ hruns).next hc hstop hleast
    -- the run with the chunk would have fit
    refine Segmentation.greedy_maximal hsplit ((fits_iff_obeys ?_ ?_).mpr (rangeOf_concat (hne run hrun) c ▸ hobeys))
    · exact List.append_ne_nil_of_right_ne_nil _ (List.cons_ne_nil c [])
    · rw [← hruns.flatten_eq, hsplit]
      exact ⟨before.flatten, rest ++ after.flatten, by simp⟩
  · rw [heq, List.length_map]
    exact Segmentation.length_greedy_le (fun hpart h => h.of_part hpart) h.cuts

/-- Three chunks with a gap of one between them, of which a range of four holds two. -/
theorem contiguous_chunk_ranges_greedy_gaps :
    contiguousChunkRangesU64 ⟨[2, 4, 6], by decide⟩ 4 1 = some [⟨2, 5⟩, ⟨6, 7⟩] ∧
      ¬∃ runs, Runs ⟨[2, 4, 6], by decide⟩ 4 1 runs ∧ runs.length < 2 := by
  have heq : contiguousChunkRangesU64 ⟨[2, 4, 6], by decide⟩ 4 1 = some [⟨2, 5⟩, ⟨6, 7⟩] := by decide
  obtain ⟨ranges, hranges, -, -, -, -, -, -, hmin⟩ := contiguous_chunk_ranges_greedy ⟨[2, 4, 6], by decide⟩ 4 1 (by decide)
    (by decide)
  cases heq.symm.trans hranges
  exact ⟨heq, fun ⟨runs, hruns, hlt⟩ => absurd (hmin runs hruns) (Nat.not_le_of_lt hlt)⟩

/-- The last byte of an archive of `u64::MAX` bytes, in chunks of the default size. The end of its chunk, before it is cut at the
end of the archive, is one more than a `u64` holds. -/
theorem last_byte_not_planned :
    (List.replicate (2 ^ 64 - 1) (0 : UInt8)).length < u64Bound ∧
      (2 ^ 64 - 2) + 1 ≤ (List.replicate (2 ^ 64 - 1) (0 : UInt8)).length ∧
      ¬∃ groups, planRead 1048576 4 (List.replicate (2 ^ 64 - 1) 0) (2 ^ 64 - 2) 1 (fun _ => false) .empty =
        some (.ok groups) := by
  have hlen : (List.replicate (2 ^ 64 - 1) (0 : UInt8)).length = 2 ^ 64 - 1 := List.length_replicate
  have hmissing : missingChunks 1048576 (2 ^ 64 - 2) 1 (fun _ => false) = [17592186044415] := by decide +kernel
  generalize List.replicate (2 ^ 64 - 1) (0 : UInt8) = archive at hlen ⊢
  rw [hlen]
  refine ⟨by decide, by decide, fun h => ?_⟩
  have hread : (2 ^ 64 - 2) + 1 ≤ archive.length := by rw [hlen]; decide
  have hlt := (planRead_ok_iff (by decide) (by rw [hlen]; decide) hread (fun c hc => absurd hc (OrderedSet.not_mem_empty c))).2.mp
    h
    (hmissing ▸ List.cons_ne_nil _ _) 17592186044415 (Or.inl (hmissing ▸ List.mem_cons_self))
  exact absurd hlt (by decide)

/-- Planning a read within an archive overflows nowhere, whatever is cached and whichever chunks of the archive are pending for
other reads. It fails exactly when it fetches a chunk whose end, were the archive longer, is no `u64`. -/
theorem in_range_read_planned_iff (chunkSize maxFetchChunks : Nat) (archive : Bytes) (start length : Nat) (cached : Nat → Bool)
    (pending : OrderedSet Nat) (hpos : 1 ≤ chunkSize) (hlen : archive.length < u64Bound) (hread : start + length ≤ archive.length)
    (hpending : ∀ c ∈ pending, c * chunkSize < archive.length) :
    planRead chunkSize maxFetchChunks archive start length cached pending ≠ none ∧
      ((∃ groups, planRead chunkSize maxFetchChunks archive start length cached pending = some (.ok groups)) ↔
        (missingChunks chunkSize start length cached ≠ [] →
          ∀ c, c ∈ missingChunks chunkSize start length cached ∨ c ∈ pending → (c + 1) * chunkSize < u64Bound)) :=
  planRead_ok_iff hpos hlen hread hpending

theorem in_range_read_planned_iff_partial :
    ∃ groups, planRead 2 4 [10, 11, 12, 13, 14] 3 2 (fun _ => false) .empty = some (.ok groups) := by
  refine (in_range_read_planned_iff 2 4 [10, 11, 12, 13, 14] 3 2 (fun _ => false) .empty (by decide) (by decide) (by decide)
    fun c hc => absurd hc (OrderedSet.not_mem_empty c)).2.mpr fun _ c hc => ?_
  rcases hc with hc | hc
  · have hlt := missingChunks_lt (show 1 ≤ 2 by decide) hc
    unfold u64Bound
    omega
  · exact absurd hc (OrderedSet.not_mem_empty c)

/-! ## Where a tile is -/

section

variable {E M : Type} (backend : ArchiveBackend E M) (limits : ReaderLimits) {fuel : Nat} (tileId : Nat)

/-- More turns than the depth are enough. The leaves that are asked for, at most as many as the depth, are in the section of leaf
directories, and the tile in that of tile data and in the archive, all of which end within a `u64`; what a search subtracts from a
tile id is less. When the backend serves a well-formed tree, the tile is that of the one entry that covers its id, and there is
none when no entry does, unless the tree has more levels or longer leaves than the reader's limits allow. -/
theorem resolve_tile_location_in_range (hfuel : limits.maxDirectoryDepth < fuel) :
    ∃ asked r, resolveTileLocation backend limits fuel tileId = some (asked, r) ∧
      asked.length ≤ limits.maxDirectoryDepth ∧
      (∀ request ∈ asked, ∃ bootstrap, backend.loadBootstrap = .ok bootstrap ∧
        bootstrap.header.leaf.Holds request.offset request.length ∧ request.offset + request.length < u64Bound) ∧
      (∀ location header archiveLen, r = .ok (some location, header, archiveLen) →
        header.data.Holds location.offset location.length ∧ location.offset + location.length ≤ header.archiveLen ∧
        location.archiveLen = header.archiveLen ∧ archiveLen = header.archiveLen ∧ header.archiveLen < u64Bound) ∧
      (∀ (directory : Directory) before entry, directory.searchTileId tileId = .error (before + 1) →
        directory.entries[before]? = some entry → entry.tileId < tileId) ∧
      (∀ reads result, getTile backend limits fuel tileId = some (reads, result) → ∀ request ∈ reads, ∃ bootstrap,
        backend.loadBootstrap = .ok bootstrap ∧ bootstrap.header.data.Holds request.offset request.length) ∧
      ∀ bootstrap leafAt longest levels start stop, backend.loadBootstrap = .ok bootstrap → tileId ≤ maxTileId →
        0 < limits.maxDirectoryDepth → backend.Serves bootstrap.header leafAt →
        bootstrap.root.WellFormed bootstrap.header leafAt longest levels start stop →
        ∃ tile, r = tile.map (fun location => (location, bootstrap.header, bootstrap.header.archiveLen)) ∧
          Resolved backend limits bootstrap.header leafAt longest levels 0 tileId bootstrap.root tile := by
  have hsearch : ∀ (directory : Directory) before entry, directory.searchTileId tileId = .error (before + 1) →
      directory.entries[before]? = some entry → entry.tileId < tileId :=
    fun _ _ _ hsearched hentry => Directory.tileId_lt_of_searched hsearched hentry
  rcases resolveTileLocation_cases backend limits fuel tileId with ⟨e, heq, hnone⟩ | ⟨bootstrap, hload, heq⟩
  · refine ⟨[], .error e, heq, Nat.zero_le _, ?_, ?_, hsearch, ?_, ?_⟩
    · exact fun _ h => absurd h List.not_mem_nil
    · exact fun _ _ _ h => by cases h
    · intro reads result hget request hmem
      obtain ⟨asked, location, header, archiveLen, hresolved, -⟩ := read_of_getTile hget hmem
      rw [heq] at hresolved
      cases hresolved
    intro bootstrap leafAt longest levels start stop hload hle hpos
    exact absurd (hnone bootstrap hload hle) hpos.ne'
  · obtain ⟨asked, tile, hloop, hlength, hasked, htile⟩ := resolveLoop_spec backend limits
      (w := ⟨bootstrap.header, bootstrap.header.archiveLen, tileId, 0, limits.maxDirectoryDepth⟩) (d := bootstrap.root)
      [] rfl rfl (Nat.zero_le _) hfuel
    rw [hloop, List.nil_append] at heq
    refine ⟨asked, _, heq, hlength, fun request hmem => ⟨bootstrap, hload, hasked request hmem, (hasked request hmem).lt⟩,
      ?_, hsearch, ?_, ?_⟩
    · intro location header archiveLen h
      obtain ⟨rfl, rfl, rfl⟩ := located_of_map h
      obtain ⟨hholds, hlen⟩ := htile location rfl
      exact ⟨hholds, hholds.stop_le.trans bootstrap.header.stop_le_archiveLen.2, hlen, rfl, bootstrap.header.archiveLen_lt⟩
    · intro reads result hget request hmem
      obtain ⟨asked, location, header, archiveLen, hresolved, rfl⟩ := read_of_getTile hget hmem
      rw [heq] at hresolved
      obtain ⟨rfl, -⟩ := located_of_map (Prod.mk.inj (Option.some.inj hresolved)).2
      exact ⟨bootstrap, hload, (htile location rfl).1⟩
    · intro bootstrap' leafAt longest levels start stop hload' _ _ hserves hwell
      cases hload.symm.trans hload'
      exact ⟨tile, rfl, resolveLoop_wellFormed rfl rfl rfl hserves hwell hloop⟩

/-- A root that points to one leaf directory with one tile, of an archive of four parts one behind the other. -/
def singleLeafBootstrap : ArchiveBootstrap Unit where
  header := ⟨⟨127, 5, by decide⟩, ⟨132, 0, by decide⟩, ⟨132, 5, by decide⟩, ⟨137, 4, by decide⟩, .none, .none, .png, 0, 0⟩
  root := ⟨[⟨0, 0, 5, 0⟩]⟩
  metadata := none

def singleLeafBackend : ArchiveBackend String Unit where
  loadBootstrap := .ok singleLeafBootstrap
  loadLeaf _ _ := .ok ⟨[⟨0, 0, 4, 1⟩]⟩
  readRange _ := .ok [116, 105, 108, 101]
  invalidTileId e := e
  invalidArchive e := e

theorem resolve_tile_location_in_range_single :
    ∃ asked tile, asked.length ≤ 1 ∧
      resolveTileLocation singleLeafBackend ⟨16384, 1⟩ 2 0 =
        some (asked, tile.map fun location => (location, singleLeafBootstrap.header, singleLeafBootstrap.header.archiveLen)) ∧
      Resolved singleLeafBackend ⟨16384, 1⟩ singleLeafBootstrap.header (fun _ _ => some ⟨[⟨0, 0, 4, 1⟩]⟩) 5 1 0 0
        singleLeafBootstrap.root
        tile := by
  obtain ⟨asked, r, heq, hlength, -, -, -, -, htree⟩ :=
    resolve_tile_location_in_range singleLeafBackend ⟨16384, 1⟩ 0 (show 1 < 2 by decide)
  have hleaf : Directory.WellFormed singleLeafBootstrap.header (fun _ _ => some ⟨[⟨0, 0, 4, 1⟩]⟩) 5 0 0 1 ⟨[⟨0, 0, 4, 1⟩]⟩ := by
    refine ⟨List.pairwise_singleton .., by decide, ?_, ?_⟩ <;> rintro (_ | i) x hx hx'
    · cases hx
      decide
    · cases hx
    · cases hx
      cases hx'
    · cases hx
  have hroot : Directory.WellFormed singleLeafBootstrap.header (fun _ _ => some ⟨[⟨0, 0, 4, 1⟩]⟩) 5 1 0 1
    singleLeafBootstrap.root := by
    refine ⟨List.pairwise_singleton .., by decide, ?_, ?_⟩ <;> rintro (_ | i) x hx hx'
    · cases hx
      cases hx'
    · cases hx
    · cases hx
      exact ⟨by decide, by decide, _, rfl, hleaf⟩
    · cases hx
  obtain ⟨tile, rfl, hresolved⟩ := htree singleLeafBootstrap _ 5 1 0 1 rfl (by decide) (by decide)
    (fun _ _ _ _ h => congrArg Except.ok (Option.some.inj h)) hroot
  exact ⟨asked, tile, hlength, heq, hresolved⟩

end

end Biei
