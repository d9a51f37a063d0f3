import Biei.Lib.Fallible
import Biei.Storage.Store
import Biei.Lemmas.Waiters

/-!
# Chunks, slices and the results that carry them

Every path of the store that produces or joins chunks agrees with the bytes that a chunk of an archive stands for.
-/

namespace Biei

/-- The bytes of chunk `c` of an archive: the last chunk ends where the archive does. -/
def chunkBytes (archive : Bytes) (chunkSize c : Nat) : Bytes :=
  slice archive (c * chunkSize) (min ((c + 1) * chunkSize) archive.length)

/-- Every chunk of the list has the bytes the archive has there. -/
def ChunksOk (archive : Bytes) (chunkSize : Nat) (chunks : List (Nat × Bytes)) : Prop :=
  ∀ e ∈ chunks, e.2 = chunkBytes archive chunkSize e.1

variable {archive : Bytes} {chunkSize : Nat} {chunks : List (Nat × Bytes)} {b : Bytes}

theorem ChunksOk.lookup (h : ChunksOk archive chunkSize chunks)
    {c : Nat} (hl : chunks.lookup c = some b) : b = chunkBytes archive chunkSize c := by
  induction chunks with
  | nil => cases hl
  | cons e chunks ih =>
    rw [List.lookup_cons] at hl
    split at hl
    · rename_i hce
      have hb := h e List.mem_cons_self
      rw [← beq_iff_eq.mp hce, Option.some.inj hl] at hb
      exact hb
    · exact ih (fun x hx => h x (List.mem_cons_of_mem _ hx)) hl

theorem ChunksOk.cons (h : ChunksOk archive chunkSize chunks)
    {c : Nat} (hb : b = chunkBytes archive chunkSize c) : ChunksOk archive chunkSize ((c, b) :: chunks) := by
  intro e he
  rcases List.mem_cons.mp he with rfl | he
  · exact hb
  · exact h e he

theorem ChunksOk.append {l l' : List (Nat × Bytes)} (h : ChunksOk archive chunkSize l)
    (h' : ChunksOk archive chunkSize l') : ChunksOk archive chunkSize (l ++ l') := by
  intro e he
  rcases List.mem_append.mp he with he | he
  · exact h e he
  · exact h' e he

/-! ## Cutting a fetched group into chunks -/

/-- A slice the loop accepts lies inside the fetched bytes and between the chunk's own bounds. -/
theorem chunkSlice_ok {chunkSize archiveLen rangeStart bytesLen c : Nat} {s : Nat × Nat × Nat}
    (h : chunkSlice chunkSize archiveLen rangeStart bytesLen c = .ok s) :
    s.1 = c ∧ s.2.1 = c * chunkSize - rangeStart ∧ s.2.2 = min ((c + 1) * chunkSize) archiveLen - rangeStart ∧
      c * chunkSize < min ((c + 1) * chunkSize) archiveLen ∧ s.2.2 ≤ bytesLen := by
  unfold chunkSlice at h
  split at h
  · cases h
  · rename_i absoluteStart h1
    obtain rfl := checkedMul_eq_some h1
    split at h
    · cases h
    · rename_i nextChunk h2
      obtain rfl := checkedAdd_eq_some h2
      split at h
      · cases h
      · rename_i nextStart h3
        obtain rfl := checkedMul_eq_some h3
        simp only at h
        split at h
        · cases h
        · rename_i hlt
          split at h
          · cases h
          · rename_i hrel
            cases h
            refine ⟨rfl, rfl, rfl, by omega, ?_⟩
            show min ((c + 1) * chunkSize) archiveLen - rangeStart ≤ bytesLen
            omega

/-- The bytes a group request returns are the archive between the group's bounds. -/
theorem fetchChunkGroup_ok {r : ChunkRange} {failure : Option ChunkFetchError} {bytes : Bytes}
    (hr : r.start < r.stop) (h : fetchChunkGroup chunkSize archive r archive.length failure = .ok bytes) :
    bytes = slice archive (r.start * chunkSize) (min (r.stop * chunkSize) archive.length) := by
  unfold fetchChunkGroup at h
  rw [if_neg (by omega)] at h
  split at h
  · rename_i rangeStart groupEnd h1 h2
    obtain rfl := checkedMul_eq_some h1
    obtain rfl := checkedMul_eq_some h2
    simp only at h
    split at h
    · cases h
    · unfold fetchRange at h
      split at h
      · cases h
      · simp only at h
        split at h
        · cases h
        · exact (Except.ok.inj h).symm
  · cases h

/-- The chunks of a fetched group are the chunks of the archive. -/
theorem fetchedGroup_ok {r : ChunkRange} {failure : Option ChunkFetchError}
    (h : fetchedGroup chunkSize archive r archive.length failure = .ok chunks) :
    ChunksOk archive chunkSize chunks := by
  unfold fetchedGroup at h
  split at h
  · cases h
  · rename_i bytes hbytes
    split at h
    · cases h
    · rename_i chunks' hchunks
      cases h
      unfold cacheChunkGroup at hchunks
      split at hchunks
      · cases hchunks
      · rename_i slices hslices
        cases hchunks
        unfold chunkSlices at hslices
        split at hslices
        · cases hslices
        · rename_i hr
          have hbytes' := fetchChunkGroup_ok (by omega) hbytes
          split at hslices
          · cases hslices
          · rename_i rangeStart hstart
            obtain rfl := checkedMul_eq_some hstart
            intro e he
            obtain ⟨s, hs, rfl⟩ := List.mem_map.mp he
            obtain ⟨c, hc, hcs⟩ := Except.mem_of_mapM_ok hslices s hs
            obtain ⟨h1, h2, h3, h4, h5⟩ := chunkSlice_ok hcs
            have hle : r.start * chunkSize ≤ c * chunkSize := Nat.mul_le_mul_right _ (ChunkRange.mem_chunks.mp hc).1
            rw [hbytes', length_slice] at h5
            show slice bytes s.2.1 s.2.2 = chunkBytes archive chunkSize s.1
            rw [h1, h2, h3, hbytes', chunkBytes, slice_slice _ _ _ _ _ (by omega)]
            congr 1 <;> omega

/-! ## Joining chunks -/

/-- A range that stays inside one chunk. -/
theorem sliceSingleChunk_ok {chunkSize c start length : Nat} (hc : c = start / chunkSize)
    (h : sliceSingleChunk chunkSize c start length (chunkBytes archive chunkSize c) = .ok b) :
    b = slice archive start (start + length) := by
  unfold sliceSingleChunk at h
  simp only at h
  split at h
  · cases h
  · rename_i chunkEnd hend
    obtain rfl := checkedAdd_eq_some hend
    split at h
    · cases h
    · rename_i hlen
      cases h
      have hdiv : c * chunkSize + start % chunkSize = start := by
        rw [hc]
        exact Nat.div_add_mod' start chunkSize
      rw [chunkBytes, length_slice] at hlen
      by_cases hzero : start % chunkSize + length = 0
      · obtain rfl : length = 0 := by omega
        rw [show start % chunkSize = 0 by omega]
        simp
      · rw [chunkBytes, slice_slice _ _ _ _ _ (by omega), hdiv,
          show c * chunkSize + (start % chunkSize + length) = start + length by omega]

/-- The loop over chunks `k, …, k + n - 1` from offset `o` of the first: whatever it has gathered, it adds the archive from there
to the end of the request. The induction is on the number of chunks; after the first chunk the offset is zero. -/
theorem readResolvedLoop_ok (hchunks : ChunksOk archive chunkSize chunks) {stop : Nat} (hstop : stop ≤ archive.length) (n : Nat) :
    ∀ (k o remaining : Nat) (acc bytes : Bytes) (rest : Nat), o ≤ chunkSize → remaining = stop - (k * chunkSize + o) →
      stop ≤ (k + n) * chunkSize → readResolvedLoop chunks (List.range' k n) remaining o acc = .ok (bytes, rest) →
      bytes = acc ++ slice archive (k * chunkSize + o) stop := by
  induction n with
  | zero =>
    intro k o remaining acc bytes rest _ _ hle h
    rw [Nat.add_zero] at hle
    simp only [List.range'_zero, readResolvedLoop] at h
    cases h
    have hnil : slice archive (k * chunkSize + o) stop = [] := by
      apply List.eq_nil_of_length_eq_zero
      rw [length_slice]
      omega
    rw [hnil, List.append_nil]
  | succ n ih =>
    intro k o remaining acc bytes rest ho hrem hle h
    have hsucc : (k + 1) * chunkSize = k * chunkSize + chunkSize := Nat.succ_mul k chunkSize
    rw [List.range'_succ] at h
    unfold readResolvedLoop at h
    split at h
    · cases h
    · rename_i chunk hlook
      have hchunk := hchunks.lookup hlook
      have hlen : chunk.length = min ((k + 1) * chunkSize) archive.length - k * chunkSize := by
        rw [hchunk, chunkBytes, length_slice, Nat.min_eq_left (Nat.min_le_right _ _)]
      split at h
      · cases h
      · rename_i hoff
        simp only at h
        split at h
        · cases h
        · rename_i currentEnd hend
          obtain rfl := checkedAdd_eq_some hend
          rw [show k + (n + 1) = (k + 1) + n by omega] at hle
          generalize ht : min remaining (chunk.length - o) = t at h
          have hnext := ih (k + 1) 0 _ _ bytes rest (Nat.zero_le _) (by omega) hle h
          rw [hnext, List.append_assoc, Nat.add_zero]
          congr 1
          have hempty : ∀ a, stop ≤ a → slice archive a stop = [] := by
            intro a ha
            apply List.eq_nil_of_length_eq_zero
            rw [length_slice]
            omega
          have hpart : t = 0 ∨ slice chunk o (o + t) = slice archive (k * chunkSize + o) (k * chunkSize + (o + t)) := by
            by_cases h0 : t = 0
            · exact Or.inl h0
            · rw [hchunk, chunkBytes, slice_slice _ _ _ _ _ (by omega)]
              exact Or.inr rfl
          rcases hpart with h0 | hpart
          · -- Nothing of this chunk is wanted: the request ends before it, or the offset is at its end.
            rw [h0, Nat.add_zero, slice_self, List.nil_append]
            by_cases hpast : stop ≤ k * chunkSize + o
            · rw [hempty _ hpast, hempty _ (by omega)]
            · rw [show k * chunkSize + o = (k + 1) * chunkSize by omega]
          · rw [hpart]
            by_cases hlast : stop ≤ (k + 1) * chunkSize
            · rw [hempty _ hlast, List.append_nil]
              by_cases hpast : stop ≤ k * chunkSize + o
              · rw [hempty _ hpast, show k * chunkSize + (o + t) = k * chunkSize + o by omega, slice_self]
              · rw [show k * chunkSize + (o + t) = stop by omega]
            · rw [show k * chunkSize + (o + t) = (k + 1) * chunkSize by omega]
              exact slice_append_slice archive (by omega) (by omega)

/-- Whichever way `read_resolved_bytes` takes, it returns the requested slice of the archive. -/
theorem readResolvedBytes_ok {chunkSize start length : Nat} {bytes : Bytes}
    (hpos : 1 ≤ chunkSize) (hchunks : ChunksOk archive chunkSize chunks) (hlen : 0 < length)
    (hstop : start + length ≤ archive.length) (h : readResolvedBytes chunkSize start length chunks = .ok bytes) :
    bytes = slice archive start (start + length) := by
  unfold readResolvedBytes at h
  split at h
  · cases h
  · rename_i stop hadd
    obtain rfl := checkedAdd_eq_some hadd
    generalize hr : byteRangeToChunkRange start (start + length) chunkSize = fl at h
    obtain ⟨first, last⟩ := fl
    obtain ⟨hfirst, hlast⟩ : start / chunkSize = first ∧ (start + length - 1) / chunkSize = last := Prod.mk.inj hr
    simp only at h
    split at h
    · split at h
      · cases h
      · rename_i chunk hlook
        rw [hchunks.lookup hlook] at h
        exact sliceSingleChunk_ok hfirst.symm h
    · split at h
      · cases h
      · rename_i bytes' remaining hloop
        split at h
        · cases h
        · cases h
          have hdiv := Nat.div_add_mod' start chunkSize
          have hmod := Nat.mod_lt start (show 0 < chunkSize by omega)
          have hle : first ≤ last := by
            rw [← hfirst, ← hlast]
            exact Nat.div_le_div_right (by omega)
          have hend : start + length ≤ (first + (last + 1 - first)) * chunkSize := by
            rw [show first + (last + 1 - first) = last + 1 by omega, ← hlast, Nat.succ_mul]
            have := Nat.lt_div_mul_add (a := start + length - 1) (b := chunkSize) (by omega)
            omega
          rw [hfirst] at hdiv
          have hbytes := readResolvedLoop_ok hchunks hstop _ _ _ _ _ _ _ (by omega) (by omega) hend hloop
          rw [hdiv] at hbytes
          exact hbytes

/-! ## Chunk bytes in the coordinator -/

namespace Coordinator

variable {T : Type} [DecidableEq T]

/-- Everything the coordinator holds for a tileset is about that tileset's archive: the length it dispatches with, the chunks its
groups bring, and the bytes its waiters were sent. -/
structure ResultsOk (archive : T → Bytes) (chunkSize : Nat) (s : Coordinator T) : Prop where
  lens : ∀ t st, s.tilesetStates t = some st → st.archiveLen = (archive t).length
  groups : ∀ g ∈ s.groups, g.archiveLen = (archive g.tilesetId).length ∧
    ∀ chunks, g.phase.result = some (.ok chunks) → ChunksOk (archive g.tilesetId) chunkSize chunks
  sends : ∀ x ∈ s.sends, ∀ t c b, s.registered x.waiter = some (t, c) → x.result = .ok b → b = chunkBytes (archive t) chunkSize c

variable {archive : T → Bytes} {chunkSize m : Nat} {s s' : Coordinator T} {a : CoordinatorAction T}

omit [DecidableEq T] in
theorem ResultsOk.new : ResultsOk archive chunkSize (Coordinator.new : Coordinator T) where
  lens := by simp [Coordinator.new]
  groups := by simp [Coordinator.new]
  sends := by simp [Coordinator.new]

/-- What a waiter is told of its chunk is the chunk's bytes, when its group's chunks are right. -/
theorem chunkResult_ok {result : GroupResult} {A : Bytes} {c : Nat} {b : Bytes}
    (h : ∀ chunks, result = .ok chunks → ChunksOk A chunkSize chunks)
    (hb : TilesetFetchState.chunkResult result c = .ok b) : b = chunkBytes A chunkSize c := by
  unfold TilesetFetchState.chunkResult at hb
  split at hb
  · rename_i chunks
    split at hb
    · rename_i bytes hlook
      cases hb
      exact (h chunks rfl).lookup hlook
    · cases hb
  · cases hb

/-- A channel keeps what it was opened for. -/
theorem registered_step (hs : Stepped m s a s') {w : Nat} (hw : w < s.nextWaiter) :
    s'.registered w = s.registered w ∧ w < s'.nextWaiter := by
  cases hs with
  | fetchChunks t cs len now =>
    refine ⟨?_, ?_⟩
    · show (if s.nextWaiter ≤ w then _ else s.registered w) = s.registered w
      rw [if_neg (by omega)]
    · show w < s.nextWaiter + cs.length
      omega
  | prune t st hst => exact ⟨rfl, hw⟩
  | select t now st hst => exact ⟨rfl, hw⟩
  | phase _ i g p hg _ _ => exact ⟨rfl, hw⟩
  | complete i g result hg _ =>
    unfold completeDispatched
    cases hst : s.tilesetStates g.tilesetId <;> simp [hst, setState, hw]
  | remove t =>
    unfold removeDrainableState
    split
    · split
      · exact ⟨rfl, hw⟩
      · exact ⟨rfl, hw⟩
    · exact ⟨rfl, hw⟩
  | cancel w' => exact ⟨rfl, hw⟩

omit [DecidableEq T] in
/-- The groups and the sends a step leaves alone stay right. -/
theorem ResultsOk.congr (h : ResultsOk archive chunkSize s)
    (hlens : ∀ t st, s'.tilesetStates t = some st → st.archiveLen = (archive t).length) (hg : s'.groups = s.groups)
    (hr : s'.registered = s.registered) (hs : s'.sends = s.sends) : ResultsOk archive chunkSize s' where
  lens := hlens
  groups := by rw [hg]; exact h.groups
  sends := by rw [hs, hr]; exact h.sends

/-- Every step keeps the results right, as long as a fetch joins with its archive's length and a finished group brings chunks of
its archive. -/
theorem ResultsOk.step (h : ResultsOk archive chunkSize s) (hw : WaitersInv s) (hs : Stepped m s a s')
    (hlen : ∀ t cs len now, a = .fetchChunks t cs len now → len = (archive t).length)
    (hfin : ∀ i g chunks, a = .finishFetch i (.ok chunks) → s.groups[i]? = some g →
      ChunksOk (archive g.tilesetId) chunkSize chunks) : ResultsOk archive chunkSize s' := by
  cases hs with
  | fetchChunks t cs len now =>
    have hreg : ∀ w, w < s.nextWaiter → (s.fetchChunks t cs len now).1.registered w = s.registered w := fun w hlt =>
      (registered_step (m := m) (.fetchChunks t cs len now) hlt).1
    refine ⟨fun t' st hget => ?_, h.groups, fun x hx t' c b hr => ?_⟩
    · rcases update_eq_some hget with ⟨rfl, hsome⟩ | ⟨-, hget⟩
      · have harch := TilesetFetchState.enqueueChunks_archiveLen cs now { (s.tilesetStates t').getD .default with
          archiveLen := max ((s.tilesetStates t').getD .default).archiveLen len } s.nextWaiter
        have hmax : max ((s.tilesetStates t').getD .default).archiveLen len = (archive t').length := by
          rw [hlen t' cs len now rfl]
          cases hst : s.tilesetStates t' with
          | none => exact Nat.max_eq_right (Nat.zero_le _)
          | some st =>
            rw [Option.getD_some, h.lens t' st hst]
            exact Nat.max_self _
        cases hsome
        split <;> exact harch.trans hmax
      · exact h.lens t' st hget
    · rw [hreg _ (hw.sentOpened _ (List.mem_map_of_mem hx))] at hr
      exact h.sends x hx t' c b hr
  | prune t st hst =>
    refine h.congr (fun t' u hget => ?_) rfl rfl rfl
    rcases update_eq_some hget with ⟨rfl, hsome⟩ | ⟨-, hget⟩
    · cases hsome
      exact h.lens t' st hst
    · exact h.lens t' u hget
  | select t now st hst =>
    have hsel := st.selectDispatchGroups_spec m now
    refine ⟨fun t' u hget => ?_, fun g hg => ?_, h.sends⟩
    · rcases update_eq_some hget with ⟨rfl, hsome⟩ | ⟨-, hget⟩
      · rw [← Option.some.inj hsome, hsel.archiveLen_eq]
        exact h.lens t' st hst
      · exact h.lens t' u hget
    · rcases List.mem_append.mp hg with hg | hg
      · exact h.groups g hg
      · generalize (st.selectDispatchGroups m now).2 = d at hsel hg
        cases hsel with
        | idle => cases hg
        | throttled => cases hg
        | dispatch queueDelay pendingAtDispatch =>
          obtain ⟨r, -, rfl⟩ := List.mem_map.mp hg
          refine ⟨h.lens t st hst, fun chunks hc => ?_⟩
          cases hc
  | phase _ i g p hg _ hp =>
    have hold := h.groups g (List.mem_of_getElem? hg)
    refine ⟨h.lens, fun g' hg' => ?_, h.sends⟩
    rcases List.mem_or_eq_of_mem_set hg' with hg' | rfl
    · exact h.groups g' hg'
    · refine ⟨hold.1, fun chunks hc => ?_⟩
      rcases hp chunks hc with hc | ha
      · exact hold.2 chunks hc
      · exact hfin i g chunks ha hg
  | complete i g result hg hres =>
    have hown := (h.groups g (List.mem_of_getElem? hg)).2
    have hgroups : (s.completeDispatched i g result).groups = s.groups.eraseIdx i := by
      unfold completeDispatched
      cases hst : s.tilesetStates g.tilesetId <;> simp [hst, setState]
    refine ⟨fun t u hget => ?_, fun g' hg' => ?_, fun x hx t c b hr hb => ?_⟩
    · rcases completeDispatched_get hget with ⟨rfl, st, hst, rfl⟩ | ⟨-, hget⟩
      · rw [TilesetFetchState.completeGroup_archiveLen]
        exact h.lens _ st hst
      · exact h.lens t u hget
    · rw [hgroups] at hg'
      exact h.groups g' (List.mem_of_mem_eraseIdx hg')
    · cases hst : s.tilesetStates g.tilesetId with
      | none =>
        simp only [completeDispatched, hst] at hx hr
        exact h.sends x hx t c b hr hb
      | some st =>
        simp only [completeDispatched, hst, setState] at hx hr
        rcases List.mem_append.mp hx with hx | hx
        · exact h.sends x hx t c b hr hb
        · -- The waiter was held for a chunk of this group's own tileset.
          rw [(st.completeGroup_spec s.closed g.chunkRange result).2.2.2.2.2, TilesetFetchState.mem_answers] at hx
          obtain ⟨c', -, he, hxr, -⟩ := hx
          have hreg := (hw.held _ st hst _ he).1
          rw [hr] at hreg
          cases hreg
          rw [hxr] at hb
          exact chunkResult_ok (fun chunks hc => hown chunks (by rw [hres, hc])) hb
  | remove t =>
    unfold removeDrainableState
    split
    · split
      · refine h.congr (fun t' u hget => ?_) rfl rfl rfl
        rcases update_eq_some hget with ⟨-, hsome⟩ | ⟨-, hget⟩
        · cases hsome
        · exact h.lens t' u hget
      · exact h
    · exact h
  | cancel w => exact h.congr h.lens rfl rfl rfl

end Coordinator

end Biei
