import Biei.Lemmas.Store
import Biei.Lib.Segmentation

/-! # Planned ranges are a greedy segmentation -/

namespace Biei

/-- Consecutive chunks with small gaps between them that span no more than the limit. -/
def Fits (m gap : Nat) (run : List Nat) : Prop :=
  run.IsChain (fun a b => b ≤ a + 1 + gap) ∧ ∀ a ∈ run, ∀ b ∈ run, b + 1 ≤ a + m

variable {m gap : Nat}

theorem Fits.of_part {run whole : List Nat} (hpart : run <:+: whole) (h : Fits m gap whole) : Fits m gap run := by
  obtain ⟨hchain, hspan⟩ := h
  refine ⟨?_, fun a ha b hb => hspan a (hpart.subset ha) b (hpart.subset hb)⟩
  exact List.IsChain.infix hchain hpart

theorem fits_single (gap : Nat) (hm : 1 ≤ m) (c : Nat) : Fits m gap [c] := by
  refine ⟨List.isChain_singleton c, fun a ha b hb => ?_⟩
  rw [List.mem_singleton.mp ha, List.mem_singleton.mp hb]
  omega

/-- The range of chunks that a run is fetched in. -/
def rangeOf (run : List Nat) : ChunkRange := ⟨run.head?.getD 0, run.getLast?.getD 0 + 1⟩

variable {run : List Nat}

theorem rangeOf_concat (hne : run ≠ []) (c : Nat) : rangeOf (run ++ [c]) = ⟨(rangeOf run).start, c + 1⟩ := by
  unfold rangeOf
  rw [List.head?_append_of_ne_nil run hne, List.getLast?_concat, Option.getD_some]

/-- The first chunk of a run and its last one, which are below and above all others. -/
theorem rangeOf_spec (hne : run ≠ []) (hsorted : run.Pairwise (· < ·)) :
    (rangeOf run).start ∈ run ∧ (rangeOf run).stop - 1 ∈ run ∧ ∀ c ∈ run, (rangeOf run).Covers c := by
  obtain ⟨a, rest, rfl⟩ := List.exists_cons_of_ne_nil hne
  have hlast : (a :: rest).getLast?.getD 0 = (a :: rest).getLast hne := by
    rw [List.getLast?_eq_some_getLast hne, Option.getD_some]
  refine ⟨List.mem_cons_self, ?_, fun c hc => ⟨?_, ?_⟩⟩
  · show (a :: rest).getLast?.getD 0 + 1 - 1 ∈ a :: rest
    rw [hlast, Nat.add_sub_cancel]
    exact List.getLast_mem hne
  · rcases List.mem_cons.mp hc with rfl | hc
    · exact Nat.le_refl _
    · exact ((List.pairwise_cons.mp hsorted).1 c hc).le
  · show c < (a :: rest).getLast?.getD 0 + 1
    rw [hlast]
    rw [← List.dropLast_append_getLast hne] at hsorted hc
    rcases List.mem_append.mp hc with hc | hc
    · exact ((List.pairwise_append.mp hsorted).2.2 c hc _ List.mem_cons_self).trans (Nat.lt_succ_self _)
    · rw [List.mem_singleton.mp hc]
      exact Nat.lt_succ_self _

variable {c : Nat}

/-- When the run can take a chunk above it. -/
theorem fits_concat_iff (hne : run ≠ []) (hsorted : (run ++ [c]).Pairwise (· < ·)) (h : Fits m gap run) :
    Fits m gap (run ++ [c]) ↔ c ≤ (rangeOf run).stop + gap ∧ c + 1 ≤ (rangeOf run).start + m := by
  obtain ⟨hrun, -, hbelow⟩ := List.pairwise_append.mp hsorted
  obtain ⟨hstart, hstop, hcovers⟩ := rangeOf_spec hne hrun
  have hlast : run.getLast? = some ((rangeOf run).stop - 1) := by
    rw [List.getLast?_eq_some_getLast hne]
    simp [rangeOf, List.getLast?_eq_some_getLast hne]
  have hpos : 0 < (rangeOf run).stop := Nat.succ_pos _
  constructor
  · rintro ⟨hchain, hspan⟩
    have hgap := (List.isChain_append.mp hchain).2.2 _ hlast c rfl
    have hspan := hspan _ (List.mem_append_left _ hstart) c (List.mem_append_right _ List.mem_cons_self)
    omega
  · rintro ⟨hgap, hspan⟩
    refine ⟨List.isChain_append.mpr ⟨h.1, List.isChain_singleton c, ?_⟩, fun a ha b hb => ?_⟩
    · intro x hx y hy
      cases hlast.symm.trans hx
      cases hy
      omega
    · have hle : (rangeOf run).start ≤ a := by
        rcases List.mem_append.mp ha with ha | ha
        · exact (hcovers a ha).1
        · rw [List.mem_singleton.mp ha]
          exact (hbelow _ hstart c List.mem_cons_self).le
      have hge : b ≤ c := by
        rcases List.mem_append.mp hb with hb | hb
        · exact (hbelow b hb c List.mem_cons_self).le
        · exact (List.mem_singleton.mp hb).le
      omega

open Classical in
/-- The loop closes a range where the greedy cut closes a segment. -/
theorem contiguousLoop_eq_greedyFrom {run cs : List Nat} (hne : run ≠ []) (hsorted : (run ++ cs).Pairwise (· < ·)) (hm : 1 ≤ m)
    (h : Fits m gap run) :
    contiguousLoop m gap (rangeOf run).start (rangeOf run).stop cs = (Segmentation.greedyFrom (Fits m gap) run cs).map
      rangeOf := by
  induction cs generalizing run with
  | nil => rfl
  | cons c cs ih =>
    have hassoc : run ++ c :: cs = run ++ [c] ++ cs := by rw [List.append_assoc]; rfl
    rw [hassoc] at hsorted
    have hfits := fits_concat_iff hne (List.pairwise_append.mp hsorted).1 h
    have hbelow : (rangeOf run).start < c := by
      obtain ⟨hrun, -, hbelow⟩ := List.pairwise_append.mp (List.pairwise_append.mp hsorted).1
      exact hbelow _ (rangeOf_spec hne hrun).1 c List.mem_cons_self
    rw [contiguousLoop, Segmentation.greedyFrom]
    by_cases htakes : Fits m gap (run ++ [c])
    · obtain ⟨hgap, hspan⟩ := hfits.mp htakes
      rw [if_pos htakes, if_pos ⟨hgap, by omega⟩, ← ih (List.append_ne_nil_of_right_ne_nil _ (List.cons_ne_nil c [])) hsorted
        htakes,
        rangeOf_concat hne]
    · rw [if_neg htakes, if_neg fun hboth => htakes (hfits.mpr ⟨hboth.1, by omega⟩), List.map_cons,
        ← ih (List.cons_ne_nil c []) ?_ (fits_single gap hm c)]
      · rfl
      · rw [← hassoc] at hsorted
        exact (List.pairwise_append.mp hsorted).2.1

open Classical in
/-- The planned ranges are those of a greedy cut of the chunks. -/
theorem contiguousChunkRanges_eq_greedy (chunks : OrderedSet Nat) (maxFetchChunks gap : Nat) :
    contiguousChunkRanges chunks maxFetchChunks gap =
      (Segmentation.greedy (Fits (max maxFetchChunks 1) gap) chunks.toList).map rangeOf := by
  have hm : 1 ≤ max maxFetchChunks 1 := Nat.le_max_right ..
  have hsorted := chunks.sorted
  unfold contiguousChunkRanges
  cases hlist : chunks.toList with
  | nil => rfl
  | cons c cs =>
    rw [hlist] at hsorted
    exact @contiguousLoop_eq_greedyFrom _ _ [c] cs (List.cons_ne_nil c []) hsorted hm (fits_single gap hm c)

/-! ## The limits of a range -/

/-- The range starts and ends at requested chunks, is not too long, and has no long stretch that was not requested. -/
structure ChunkRange.Obeys (r : ChunkRange) (chunks : OrderedSet Nat) (maxFetchChunks maxGap : Nat) : Prop where
  start_mem : r.start ∈ chunks
  last_mem : r.stop - 1 ∈ chunks
  lt : r.start < r.stop
  span_le : r.stop - r.start ≤ max maxFetchChunks 1
  gap_le : ∀ lo n, (∀ i < n, r.Covers (lo + i) ∧ lo + i ∉ chunks) → n ≤ maxGap

/-- Nothing long is left out between the chunks of a run. -/
theorem unrequested_le (hne : run ≠ []) (hsorted : run.Pairwise (· < ·))
    (hchain : run.IsChain fun a b => b ≤ a + 1 + gap) {lo n : Nat} (h : ∀ i < n, (rangeOf run).Covers (lo + i) ∧ lo + i ∉ run) :
      n ≤ gap := by
  rcases Nat.eq_zero_or_pos n with rfl | hpos
  · exact Nat.zero_le _
  induction run with
  | nil => exact absurd rfl hne
  | cons a rest ih =>
    obtain ⟨⟨hstart, hstop⟩, hnot⟩ := h 0 hpos
    have hstart : a ≤ lo := hstart
    have hlo : lo ≠ a := fun heq => hnot (by rw [Nat.add_zero, heq]; exact List.mem_cons_self)
    cases rest with
    | nil =>
      have hstop : lo < a + 1 := hstop
      omega
    | cons b rest =>
      obtain ⟨hgap, hchain⟩ := List.isChain_cons_cons.mp hchain
      rcases Nat.lt_or_ge lo b with hlt | hge
      · by_contra hlong
        refine (h (b - lo) (by omega)).2 ?_
        rw [Nat.add_sub_cancel' hlt.le]
        exact List.mem_cons_of_mem _ List.mem_cons_self
      · refine ih (List.cons_ne_nil b rest) (List.pairwise_cons.mp hsorted).2 hchain fun i hi => ?_
        obtain ⟨⟨-, hstop⟩, hnot⟩ := h i hi
        exact ⟨⟨hge.trans (Nat.le_add_right ..), hstop⟩, fun hmem => hnot (List.mem_cons_of_mem _ hmem)⟩

variable {chunks : OrderedSet Nat} {maxFetchChunks : Nat}

/-- A run of requested chunks is one that fits if its range obeys the limits. -/
theorem fits_iff_obeys (hne : run ≠ []) (hpart : run <:+: chunks.toList) :
    Fits (max maxFetchChunks 1) gap run ↔ (rangeOf run).Obeys chunks maxFetchChunks gap := by
  have hsorted := chunks.sorted.sublist hpart.sublist
  obtain ⟨hstart, hlast, hcovers⟩ := rangeOf_spec hne hsorted
  have hpos : 0 < (rangeOf run).stop := Nat.succ_pos _
  constructor
  · rintro ⟨hchain, hspan⟩
    have hlong := hspan _ hstart _ hlast
    refine ⟨hpart.subset hstart, hpart.subset hlast, ?_, by omega, fun lo n h => ?_⟩
    · have hle := (hcovers _ hlast).1
      omega
    · exact unrequested_le hne hsorted hchain fun i hi => ⟨(h i hi).1, fun hmem => (h i hi).2 (hpart.subset hmem)⟩
  · intro h
    refine ⟨List.isChain_iff_forall_rel_of_append_cons_cons.mpr fun a b before after heq => ?_, fun a ha b hb => ?_⟩
    · have ha : a ∈ run := heq ▸ by simp
      have hb : b ∈ run := heq ▸ by simp
      have hbetween : ∀ x ∈ chunks, x ≤ a ∨ b ≤ x := by
        obtain ⟨s, t, hlist⟩ := hpart
        have hall : chunks.toList = (s ++ before) ++ a :: b :: (after ++ t) := by
          rw [← hlist, heq]
          simp only [List.append_assoc, List.cons_append]
        intro x hx
        rw [OrderedSet.mem_def, hall] at hx
        have hparts := chunks.sorted
        rw [hall] at hparts
        obtain ⟨-, hright, hleft⟩ := List.pairwise_append.mp hparts
        rcases List.mem_append.mp hx with hx | hx
        · exact Or.inl (hleft x hx a List.mem_cons_self).le
        · rcases List.mem_cons.mp hx with rfl | hx
          · exact Or.inl le_rfl
          · rcases List.mem_cons.mp hx with rfl | hx
            · exact Or.inr le_rfl
            · exact Or.inr ((List.pairwise_cons.mp (List.pairwise_cons.mp hright).2).1 x hx).le
      have hgap := h.gap_le (a + 1) (b - a - 1) fun i hi => by
        have hstart := (hcovers a ha).1
        have hstop := (hcovers b hb).2
        exact ⟨⟨by omega, by omega⟩, fun hmem => by have hor := hbetween _ hmem; omega⟩
      omega
    have hle := (hcovers a ha).1
    have hlt := (hcovers b hb).2
    have hspan := h.span_le
    omega

/-- The requested chunks are cut into runs whose ranges obey the limits. -/
structure Runs (chunks : OrderedSet Nat) (maxFetchChunks maxGap : Nat) (runs : List (List Nat)) : Prop where
  flatten_eq : runs.flatten = chunks.toList
  each : ∀ run ∈ runs, run ≠ [] ∧ (rangeOf run).Obeys chunks maxFetchChunks maxGap

variable {runs : List (List Nat)}

theorem part_of_flatten (h : run ∈ runs) : run <:+: runs.flatten := by
  obtain ⟨before, after, rfl⟩ := List.append_of_mem h
  exact ⟨before.flatten, after.flatten, by simp⟩

theorem runs_of_cuts (h : Segmentation.Cuts (Fits (max maxFetchChunks 1) gap) chunks.toList runs) (hne : ∀ run ∈ runs, run ≠ []) :
    Runs chunks maxFetchChunks gap runs :=
  ⟨h.flatten_eq, fun run hrun =>
    ⟨hne run hrun, (fits_iff_obeys (hne run hrun) (h.flatten_eq ▸ part_of_flatten hrun)).mp (h.each run hrun)⟩⟩

theorem Runs.cuts (h : Runs chunks maxFetchChunks gap runs) :
    Segmentation.Cuts (Fits (max maxFetchChunks 1) gap) chunks.toList runs :=
  ⟨h.flatten_eq, fun run hrun =>
    (fits_iff_obeys (h.each run hrun).1 (h.flatten_eq ▸ part_of_flatten hrun)).mpr (h.each run hrun).2⟩

/-- Each requested chunk is in the range of a run. -/
theorem Runs.covers (h : Runs chunks maxFetchChunks gap runs) (hc : c ∈ chunks) : ∃ run ∈ runs, (rangeOf run).Covers c := by
  rw [OrderedSet.mem_def, ← h.flatten_eq] at hc
  obtain ⟨run, hrun, hmem⟩ := List.mem_flatten.mp hc
  have hsorted := chunks.sorted.sublist (h.flatten_eq ▸ part_of_flatten hrun).sublist
  exact ⟨run, hrun, (rangeOf_spec (h.each run hrun).1 hsorted).2.2 c hmem⟩

/-- The next requested chunk after a run is where the one after it begins. -/
theorem Runs.next {before after : List (List Nat)}
    (h : Runs chunks maxFetchChunks gap (before ++ run :: after)) (hc : c ∈ chunks) (hstop : (rangeOf run).stop ≤ c)
    (hleast : ∀ d ∈ chunks, (rangeOf run).stop ≤ d → c ≤ d) : ∃ rest after', after = (c :: rest) :: after' := by
  have hmem : run ∈ before ++ run :: after := List.mem_append_right _ List.mem_cons_self
  have hall : chunks.toList = before.flatten ++ (run ++ after.flatten) := by rw [← h.flatten_eq]; simp
  have hsorted := chunks.sorted
  rw [hall] at hsorted
  obtain ⟨-, hright, hleft⟩ := List.pairwise_append.mp hsorted
  obtain ⟨hrun, hafter, hbelow⟩ := List.pairwise_append.mp hright
  obtain ⟨hstart, hlast, hcovers⟩ := rangeOf_spec (h.each run hmem).1 hrun
  have hpos : 0 < (rangeOf run).stop := Nat.succ_pos _
  have hc' : c ∈ after.flatten := by
    rw [OrderedSet.mem_def, hall] at hc
    rcases List.mem_append.mp hc with hc | hc
    · have hlt := hleft c hc _ (List.mem_append_left _ hlast)
      omega
    · rcases List.mem_append.mp hc with hc | hc
      · exact absurd (hcovers c hc).2 (Nat.not_lt.mpr hstop)
      · exact hc
  cases after with
  | nil => exact absurd hc' List.not_mem_nil
  | cons next after =>
    obtain ⟨x, rest, rfl⟩ := List.exists_cons_of_ne_nil (h.each next (by simp)).1
    have hx : c ≤ x := by
      refine hleast x ?_ ?_
      · rw [OrderedSet.mem_def, hall]
        simp
      · have hlt := hbelow _ hlast x (by simp)
        omega
    have hle : x ≤ c := by
      rw [List.flatten_cons, List.cons_append] at hc' hafter
      rcases List.mem_cons.mp hc' with rfl | hc'
      · exact le_rfl
      · exact ((List.pairwise_cons.mp hafter).1 c hc').le
    obtain rfl := Nat.le_antisymm hx hle
    exact ⟨rest, after, rfl⟩

/-- The planned ranges are those of runs that the chunks are cut into. -/
theorem contiguousChunkRanges_runs (chunks : OrderedSet Nat) (maxFetchChunks gap : Nat) :
    ∃ runs, Runs chunks maxFetchChunks gap runs ∧ contiguousChunkRanges chunks maxFetchChunks gap = runs.map rangeOf := by
  classical
  obtain ⟨hcuts, hne⟩ := Segmentation.greedy_cuts (fits_single gap (Nat.le_max_right maxFetchChunks 1)) chunks.toList
  exact ⟨_, runs_of_cuts hcuts hne, contiguousChunkRanges_eq_greedy chunks maxFetchChunks gap⟩

/-! ## In `u64` -/

theorem contiguousLoopU64_eq {start p : Nat} {cs : List Nat} (hnext : ∀ c ∈ cs, c + 1 < u64Bound)
    (hreach : (p :: cs).Pairwise fun a _ => a + 1 + gap < u64Bound) :
    contiguousLoopU64 m gap start (p + 1) cs = some (contiguousLoop m gap start (p + 1) cs) := by
  induction cs generalizing start p with
  | nil => rfl
  | cons c cs ih =>
    obtain ⟨hc, hcs⟩ := List.forall_mem_cons.mp hnext
    obtain ⟨hp, hrest⟩ := List.pairwise_cons.mp hreach
    have hreach : checkedAdd (p + 1) gap = some (p + 1 + gap) := if_pos (hp c List.mem_cons_self)
    have hnext : checkedAdd c 1 = some (c + 1) := if_pos hc
    rw [contiguousLoopU64, contiguousLoop, hreach, hnext]
    dsimp only [bind, Option.bind]
    split
    · exact ih hcs hrest
    · rw [ih hcs hrest]

/-- No sum overflows where the end of no chunk but the last one does so with a gap. -/
theorem contiguousChunkRangesU64_eq (hnext : ∀ c ∈ chunks, c + 1 < u64Bound)
    (hreach : ∀ c ∈ chunks, ∀ d ∈ chunks, c < d → c + 1 + gap < u64Bound) :
    contiguousChunkRangesU64 chunks maxFetchChunks gap = some (contiguousChunkRanges chunks maxFetchChunks gap) := by
  have hpairs : chunks.toList.Pairwise fun a _ => a + 1 + gap < u64Bound :=
    chunks.sorted.imp_of_mem fun ha hb hlt => hreach _ ha _ hb hlt
  unfold contiguousChunkRangesU64 contiguousChunkRanges
  simp only [OrderedSet.mem_def] at hnext
  cases hlist : chunks.toList with
  | nil => rfl
  | cons c cs =>
    rw [hlist] at hnext hpairs
    obtain ⟨hc, hcs⟩ := List.forall_mem_cons.mp hnext
    have hfirst : checkedAdd c 1 = some (c + 1) := if_pos hc
    dsimp only
    rw [hfirst]
    exact contiguousLoopU64_eq hcs hpairs

/-! ## Groups -/

variable {chunkSize : Nat} {archive : Bytes}

/-- A chunk of the archive lies in the bytes of a group of its chunks, unless its end overflows. -/
theorem exists_chunkSlice_ok {r : ChunkRange} (hpos : 1 ≤ chunkSize) (hc : r.Covers c) (hin : c * chunkSize < archive.length)
    (hstop : r.stop * chunkSize < u64Bound) :
    ∃ s, chunkSlice chunkSize archive.length (r.start * chunkSize)
      (min (r.stop * chunkSize) archive.length - r.start * chunkSize) c = .ok s := by
  have hle : (c + 1) * chunkSize ≤ r.stop * chunkSize := Nat.mul_le_mul_right _ hc.2
  have hsucc : (c + 1) * chunkSize = c * chunkSize + chunkSize := Nat.succ_mul ..
  have hself : c + 1 ≤ (c + 1) * chunkSize := Nat.le_mul_of_pos_right _ hpos
  have hstart : checkedMul c chunkSize = some (c * chunkSize) := if_pos (by omega)
  have hnext : checkedAdd c 1 = some (c + 1) := if_pos (by omega)
  have hend : checkedMul (c + 1) chunkSize = some ((c + 1) * chunkSize) := if_pos (by omega)
  unfold chunkSlice
  rw [hstart]
  dsimp only
  rw [hnext]
  dsimp only
  rw [hend]
  dsimp only
  rw [if_neg (by omega), if_neg (by omega)]
  exact ⟨_, rfl⟩

/-- A group of chunks of the archive can be fetched and cut exactly when its end does not overflow. -/
theorem fetchedGroup_ok_iff {r : ChunkRange} (hpos : 1 ≤ chunkSize) (hr : r.start < r.stop)
    (hin : ∀ c, r.Covers c → c * chunkSize < archive.length) :
    (∃ chunks, fetchedGroup chunkSize archive r archive.length none = .ok chunks) ↔ r.stop * chunkSize < u64Bound := by
  have hle : r.start * chunkSize + chunkSize ≤ r.stop * chunkSize := by
    rw [← Nat.succ_mul]
    exact Nat.mul_le_mul_right _ hr
  have hbefore := hin r.start ⟨Nat.le_refl _, hr⟩
  unfold fetchedGroup fetchChunkGroup
  rw [if_neg (Nat.not_le.mpr hr)]
  constructor
  · intro h
    by_contra hover
    have hstop : checkedMul r.stop chunkSize = none := if_neg hover
    rw [hstop] at h
    obtain ⟨chunks, h⟩ := h
    split at h
    · cases h
    · rename_i hbytes
      split at hbytes
      · rename_i hnone
        cases hnone
      · cases hbytes
  · intro hstop
    have hstart' : checkedMul r.start chunkSize = some (r.start * chunkSize) := if_pos (by omega)
    have hstop' : checkedMul r.stop chunkSize = some (r.stop * chunkSize) := if_pos hstop
    rw [hstart', hstop']
    dsimp only
    rw [if_neg (by omega)]
    have hlength : (slice archive (r.start * chunkSize) (min (r.stop * chunkSize) archive.length)).length =
        min (r.stop * chunkSize) archive.length - r.start * chunkSize := by
      rw [length_slice, Nat.min_eq_left (Nat.min_le_right _ _)]
    unfold fetchRange
    dsimp only
    rw [hlength, if_neg (by omega)]
    obtain ⟨slices, hslices⟩ := (Except.exists_mapM_ok_iff (l := r.chunks)).mpr fun c hc =>
      exists_chunkSlice_ok hpos (ChunkRange.mem_chunks.mp hc) (hin c (ChunkRange.mem_chunks.mp hc)) hstop
    dsimp only
    unfold cacheChunkGroup chunkSlices
    rw [if_neg (Nat.not_le.mpr hr), hstart', hlength]
    dsimp only
    rw [hslices]
    exact ⟨_, rfl⟩

/-! ## A read -/

/-- What a read misses are chunks of its range, which begin before its end. -/
theorem missingChunks_lt {start length c : Nat} {cached : Nat → Bool} (hpos : 1 ≤ chunkSize)
    (hc : c ∈ missingChunks chunkSize start length cached) : c * chunkSize < start + length := by
  unfold missingChunks byteRangeToChunkRange chunkIndex at hc
  split at hc
  · cases hc
  · dsimp only at hc
    obtain ⟨hrange, -⟩ := List.mem_filter.mp hc
    rw [List.mem_range'_1] at hrange
    have hlast : c ≤ (start + length - 1) / chunkSize := by
      have hle : start / chunkSize ≤ (start + length - 1) / chunkSize := Nat.div_le_div_right (by omega)
      omega
    have hmul := (Nat.le_div_iff_mul_le hpos).mp hlast
    omega

/-- A read within the archive, planned with what is pending of others: no sum overflows, and the plan fails exactly when the end
of a chunk that is to be fetched does. -/
theorem planRead_ok_iff {maxFetchChunks start length : Nat} {cached : Nat → Bool} {pending : OrderedSet Nat}
    (hpos : 1 ≤ chunkSize)
    (hlen : archive.length < u64Bound) (hread : start + length ≤ archive.length)
      (hpending : ∀ c ∈ pending, c * chunkSize < archive.length) :
    planRead chunkSize maxFetchChunks archive start length cached pending ≠ none ∧
      ((∃ groups, planRead chunkSize maxFetchChunks archive start length cached pending = some (.ok groups)) ↔
        (missingChunks chunkSize start length cached ≠ [] →
          ∀ c, c ∈ missingChunks chunkSize start length cached ∨ c ∈ pending → (c + 1) * chunkSize < u64Bound)) := by
  have hvalid : validateByteRange start length (some archive.length) = .ok (start + length) := by
    unfold validateByteRange checkedAdd
    rw [if_pos (hread.trans_lt hlen)]
    dsimp only
    rw [if_neg (by omega)]
  unfold planRead
  rw [hvalid]
  dsimp only
  cases hmissing : missingChunks chunkSize start length cached with
  | nil => exact ⟨nofun, fun _ h => absurd rfl h, fun _ => ⟨[], rfl⟩⟩
  | cons first rest =>
    dsimp only
    rw [← hmissing]
    have hmem : ∀ c, c ∈ pending.extend (missingChunks chunkSize start length cached) ↔
        c ∈ missingChunks chunkSize start length cached ∨ c ∈ pending := fun c => OrderedSet.mem_extend.trans or_comm
    have hin : ∀ c ∈ pending.extend (missingChunks chunkSize start length cached), c * chunkSize < archive.length := by
      intro c hc
      rcases (hmem c).mp hc with hc | hc
      · exact (missingChunks_lt hpos hc).trans_le hread
      · exact hpending c hc
    generalize pending.extend (missingChunks chunkSize start length cached) = chunks at hmem hin
    have hle : ∀ c, c ≤ c * chunkSize := fun c => Nat.le_mul_of_pos_right c hpos
    have hplanned : contiguousChunkRangesU64 chunks maxFetchChunks maxChunkGap =
      some (contiguousChunkRanges chunks maxFetchChunks maxChunkGap) := by
      refine contiguousChunkRangesU64_eq (fun c hc => ?_) fun c hc d hd hlt => ?_
      · have hlt := (hle c).trans_lt (hin c hc)
        omega
      · have hlast := (hle d).trans_lt (hin d hd)
        unfold maxChunkGap
        omega
    rw [hplanned]
    refine ⟨nofun, ?_⟩
    obtain ⟨runs, hruns, hranges⟩ := contiguousChunkRanges_runs chunks maxFetchChunks maxChunkGap
    have hgroup : ∀ run ∈ runs, (∃ group, fetchedGroup chunkSize archive (rangeOf run) archive.length none = .ok group) ↔
        (rangeOf run).stop * chunkSize < u64Bound := by
      intro run hrun
      have hobeys := (hruns.each run hrun).2
      refine fetchedGroup_ok_iff hpos hobeys.lt fun c hc => ?_
      exact (Nat.mul_le_mul_right _ (Nat.le_pred_of_lt hc.2)).trans_lt (hin _ hobeys.last_mem)
    have hall : (∃ groups, (runs.map rangeOf).mapM (fun r => fetchedGroup chunkSize archive r archive.length none) = .ok groups) ↔
        ∀ run ∈ runs, (rangeOf run).stop * chunkSize < u64Bound := by
      rw [Except.exists_mapM_ok_iff, List.forall_mem_map]
      exact forall₂_congr hgroup
    rw [hranges]
    simp only [Option.some.injEq]
    rw [hall]
    constructor
    · intro h _ c hc
      obtain ⟨run, hrun, hcovers⟩ := hruns.covers ((hmem c).mpr hc)
      exact (Nat.mul_le_mul_right _ hcovers.2).trans_lt (h run hrun)
    · intro h run hrun
      have hobeys := (hruns.each run hrun).2
      have hlast := h (by rw [hmissing]; exact List.cons_ne_nil _ _) _ ((hmem _).mp hobeys.last_mem)
      rwa [Nat.sub_add_cancel ((Nat.zero_le _).trans_lt hobeys.lt)] at hlast

end Biei
