import Biei.Lemmas.Store
import Biei.Theorems.Coordinator

/-!
# Chunked reads refine a slice of the archive

The store is a machine over the coordinator's machine, so the coordinator's own invariants hold in it.
-/

namespace Biei

/-! ## One read -/

/-- What is known of a read whose archive length was given: it asks for bytes, inside the archive. -/
structure Ranged (archive : Bytes) (start length : Nat) (archiveLen : Option Nat) : Prop where
  pos : 0 < length
  len : archiveLen = some archive.length
  inside : start + length ≤ archive.length

/-- The chunk a plan slices is the one its range starts in, or the chunks it joins are the archive's. -/
def PlanOk (archive : Bytes) (chunkSize start : Nat) : ReadPlan → Prop
  | .single c => c = start / chunkSize
  | .multi resolved => ChunksOk archive chunkSize resolved

/-- What a finished read owes its caller: the slice of the archive, whole when the archive's length was given. -/
def ReadOk (archive : Bytes) (start length : Nat) (archiveLen : Option Nat) (bytes : Bytes) : Prop :=
  bytes = slice archive start (start + length) ∧ (archiveLen ≠ none → start + length ≤ archive.length)

/-- What is known of a read in each phase; `opened c w` says that channel `w` was opened for chunk `c` of its tileset. -/
def PhaseOk (archive : Bytes) (chunkSize : Nat) (opened : Nat → Nat → Prop) (start length : Nat) (archiveLen : Option Nat) :
    ReadPhase → Prop
  | .single c => Ranged archive start length archiveLen ∧ c = start / chunkSize
  | .planning _ resolved _ => Ranged archive start length archiveLen ∧ ChunksOk archive chunkSize resolved
  | .fetching plan _ => Ranged archive start length archiveLen ∧ PlanOk archive chunkSize start plan
  | .waiting plan receivers fetched =>
    Ranged archive start length archiveLen ∧ PlanOk archive chunkSize start plan ∧ ChunksOk archive chunkSize fetched ∧
      ∀ e ∈ receivers, opened e.1 e.2
  | .exactRange stop => stop = start + length ∧ archiveLen = none
  | .done (.ok read) => ReadOk archive start length archiveLen read.bytes
  | .done (.error _) => True
  | .dropped => True

section Phases

variable {archive : Bytes} {chunkSize : Nat} {opened : Nat → Nat → Prop} {start length : Nat} {archiveLen : Option Nat}

/-- A channel stays opened for what it was opened for. -/
theorem PhaseOk.mono {opened' : Nat → Nat → Prop} (hop : ∀ c w, opened c w → opened' c w) {p : ReadPhase}
    (h : PhaseOk archive chunkSize opened start length archiveLen p) :
    PhaseOk archive chunkSize opened' start length archiveLen p := by
  cases p with
  | waiting plan receivers fetched =>
    obtain ⟨h1, h2, h3, h4⟩ := h
    exact ⟨h1, h2, h3, fun e he => hop _ _ (h4 e he)⟩
  | done result => cases result <;> exact h
  | single c => exact h
  | planning todo resolved missing => exact h
  | fetching plan missing => exact h
  | exactRange stop => exact h
  | dropped => exact h

theorem Ranged.readOk (hr : Ranged archive start length archiveLen) {bytes : Bytes}
    (h : bytes = slice archive start (start + length)) : ReadOk archive start length archiveLen bytes :=
  ⟨h, fun _ => hr.inside⟩

/-- A read that assembled bytes, when assembling them gives the slice. -/
theorem phaseOk_chunkRead (hr : Ranged archive start length archiveLen) {source : ChunkReadSource} {r : Except String Bytes}
    (h : ∀ bytes, r = .ok bytes → bytes = slice archive start (start + length)) :
    PhaseOk archive chunkSize opened start length archiveLen (.done (chunkRead source r)) := by
  cases r with
  | ok bytes => exact hr.readOk (h bytes rfl)
  | error text => exact trivial

/-- The range `read_bytes` goes on with was accepted, and holds its first chunk. -/
theorem phaseOk_readBytes (hlen : archiveLen = none ∨ archiveLen = some archive.length) :
    PhaseOk archive chunkSize opened start length archiveLen (readBytes chunkSize start length archiveLen) := by
  unfold readBytes
  cases hv : validateByteRange start length archiveLen with
  | error e => exact trivial
  | ok stop =>
    have hstop : stop = start + length ∧ (archiveLen ≠ none → start + length ≤ archive.length) := by
      unfold validateByteRange at hv
      split at hv
      · cases hv
      · rename_i stop' hadd
        obtain rfl := checkedAdd_eq_some hadd
        rcases hlen with rfl | rfl
        · exact ⟨(Except.ok.inj hv).symm, fun hne => absurd rfl hne⟩
        · simp only at hv
          split at hv
          · cases hv
          · exact ⟨(Except.ok.inj hv).symm, fun _ => by omega⟩
    obtain ⟨rfl, hin⟩ := hstop
    simp only
    split
    · rename_i hzero
      subst hzero
      exact ⟨by simp, hin⟩
    · rename_i hpos
      rcases hlen with rfl | rfl
      · exact ⟨rfl, rfl⟩
      · have hranged : Ranged archive start length (some archive.length) := ⟨by omega, rfl, hin (by simp)⟩
        simp only
        split
        · exact ⟨hranged, rfl⟩
        · exact ⟨hranged, by simp [ChunksOk]⟩

/-- Leaving the lookup loop, or going round again. -/
theorem phaseOk_planned (hpos : 1 ≤ chunkSize) (hr : Ranged archive start length archiveLen) {todo : List Nat}
    {resolved : List (Nat × Bytes)} {missing : List Nat} (hres : ChunksOk archive chunkSize resolved) :
    PhaseOk archive chunkSize opened start length archiveLen (planned chunkSize start length todo resolved missing) := by
  unfold planned
  split
  · exact phaseOk_chunkRead hr fun bytes hb => readResolvedBytes_ok hpos hres hr.pos hr.inside hb
  · exact ⟨hr, hres⟩
  · exact ⟨hr, hres⟩

/-- A lookup in a cache that holds only chunks of the archive. -/
theorem phaseOk_cacheGet (hpos : 1 ≤ chunkSize) {cache : Nat → Option Bytes}
    (hcache : ∀ c b, cache c = some b → b = chunkBytes archive chunkSize c) {p p' : ReadPhase}
    (h : PhaseOk archive chunkSize opened start length archiveLen p) (hget : cacheGet chunkSize start length cache p = some p') :
    PhaseOk archive chunkSize opened start length archiveLen p' := by
  unfold cacheGet at hget
  split at hget
  · obtain ⟨hr, hc⟩ := h
    split at hget
    · rename_i chunk hchunk
      cases hget
      refine phaseOk_chunkRead hr fun bytes hb => ?_
      rw [hcache _ _ hchunk] at hb
      exact sliceSingleChunk_ok hc hb
    · cases hget
      exact ⟨hr, hc⟩
  · obtain ⟨hr, hres⟩ := h
    split at hget
    · rename_i chunk hchunk
      cases hget
      exact phaseOk_planned hpos hr (hres.cons (hcache _ _ hchunk))
    · cases hget
      exact phaseOk_planned hpos hr hres
  · cases hget

/-- The last receiver, or one before it, gave the bytes of its chunk. -/
theorem phaseOk_received (hpos : 1 ≤ chunkSize) (hr : Ranged archive start length archiveLen) {plan : ReadPlan}
    (hplan : PlanOk archive chunkSize start plan) {receivers : List (Nat × Nat)} {fetched : List (Nat × Bytes)}
    (hfetched : ChunksOk archive chunkSize fetched) (hrec : ∀ e ∈ receivers, opened e.1 e.2) :
    PhaseOk archive chunkSize opened start length archiveLen (received chunkSize start length plan receivers fetched) := by
  unfold received
  split
  · cases plan with
    | single c =>
      unfold afterFetch
      simp only
      split
      · exact trivial
      · rename_i chunk hlook
        refine phaseOk_chunkRead hr fun bytes hb => ?_
        rw [hfetched.lookup hlook] at hb
        exact sliceSingleChunk_ok hplan hb
    | multi resolved =>
      exact phaseOk_chunkRead hr fun bytes hb => readResolvedBytes_ok hpos (hfetched.append hplan) hr.pos hr.inside hb
  · exact ⟨hr, hplan, hfetched, hrec⟩

/-- A range read without a known length is clipped at the end of the archive. -/
theorem fetchExactRange_ok {stop : Nat} {failure : Option ChunkFetchError} {bytes : Bytes}
    (h : fetchExactRange archive start stop failure = .ok bytes) : bytes = slice archive start stop := by
  unfold fetchExactRange at h
  split at h
  · cases h
    symm
    apply List.eq_nil_of_length_eq_zero
    rw [length_slice]
    omega
  · unfold fetchRange at h
    split at h
    · cases h
    · simp only at h
      split at h
      · cases h
      · exact (Except.ok.inj h).symm

end Phases

/-! ## The store -/

namespace ChunkedStore

variable {T : Type} [DecidableEq T]

/-- Channel `w` was opened for chunk `c` of the tileset. -/
def Opened (co : Coordinator T) (t : T) (c w : Nat) : Prop := co.registered w = some (t, c) ∧ w < co.nextWaiter

/-- The invariant of the store: its coordinator is a reachable one whose results are right, its cache holds chunks of the
archives, and every read is where its phase says. -/
structure StoreInv (config : ChunkedStoreConfig) (archive : T → Bytes) (s : ChunkedStore T) : Prop where
  reachable : (Coordinator.machine T config.maxFetchChunks).Reachable s.coordinator
  results : s.coordinator.ResultsOk archive config.chunkSize
  cache : ∀ t c b, s.cache t c = some b → b = chunkBytes (archive t) config.chunkSize c
  readers : ∀ r ∈ s.readers,
    PhaseOk (archive r.tilesetId) config.chunkSize (Opened s.coordinator r.tilesetId) r.start r.length r.archiveLen r.phase

variable {config : ChunkedStoreConfig} {archive : T → Bytes} {s : ChunkedStore T}

theorem StoreInv.new : StoreInv config archive (ChunkedStore.new : ChunkedStore T) where
  reachable := Machine.ReachedBy.init
  results := Coordinator.ResultsOk.new
  cache := by simp [ChunkedStore.new]
  readers := by simp [ChunkedStore.new]

/-- What the reads know survives a step of the coordinator, whose channels keep what they were opened for. -/
theorem StoreInv.coordinate (h : StoreInv config archive s) {a : CoordinatorAction T} {co : Coordinator T}
    (hs : s.coordinator.step config.maxFetchChunks a = some co)
    (hlen : ∀ t cs len now, a = .fetchChunks t cs len now → len = (archive t).length)
    (hfin : ∀ i g chunks, a = .finishFetch i (.ok chunks) → s.coordinator.groups[i]? = some g →
      ChunksOk (archive g.tilesetId) config.chunkSize chunks) :
    StoreInv config archive { s with coordinator := co } where
  reachable := h.reachable.next hs
  results := h.results.step (Coordinator.reachable_inv h.reachable).2 (Coordinator.step_stepped hs) hlen hfin
  cache := h.cache
  readers := by
    intro r hr
    refine (h.readers r hr).mono fun c w hop => ?_
    obtain ⟨hreg, hlt⟩ := Coordinator.registered_step (Coordinator.step_stepped hs) hop.2
    exact ⟨hreg.trans hop.1, hlt⟩

/-- Closing receivers is a run of the coordinator's cancellations. -/
theorem StoreInv.closeReceivers (h : StoreInv config archive s) (ws : List Nat) :
    StoreInv config archive { s with coordinator := s.coordinator.closeReceivers ws } := by
  induction ws generalizing s with
  | nil => exact h
  | cons w ws ih => exact ih (h.coordinate (a := .cancelReceiver w) rfl (by simp) (by simp))

variable {i : Nat}

/-- A read moves to a phase it is allowed to be in. -/
theorem StoreInv.setReader (h : StoreInv config archive s) {r : Reader T} {p : ReadPhase}
    (hp : PhaseOk (archive r.tilesetId) config.chunkSize (Opened s.coordinator r.tilesetId) r.start r.length r.archiveLen p) :
    StoreInv config archive (s.setReader i r p) where
  reachable := h.reachable
  results := h.results
  cache := h.cache
  readers := by
    intro r' hr'
    rcases List.mem_or_eq_of_mem_set hr' with hr' | rfl
    · exact h.readers r' hr'
    · exact hp

/-- Replacing one cache entry, by nothing or by the chunk of the archive. -/
theorem update_cache_ok {cache : T → Nat → Option Bytes} {chunkSize : Nat} {t : T} {c : Nat} {o : Option Bytes}
    (hcache : ∀ t c b, cache t c = some b → b = chunkBytes (archive t) chunkSize c)
    (ho : ∀ b, o = some b → b = chunkBytes (archive t) chunkSize c) :
    ∀ t' c' b, Function.update cache t (Function.update (cache t) c o) t' c' = some b →
      b = chunkBytes (archive t') chunkSize c' := by
  intro t' c' b hget
  by_cases ht : t' = t
  · subst ht
    rw [Function.update_self] at hget
    by_cases hc : c' = c
    · subst hc
      rw [Function.update_self] at hget
      exact ho b hget
    · rw [Function.update_of_ne hc] at hget
      exact hcache t' c' b hget
  · rw [Function.update_of_ne ht] at hget
    exact hcache t' c' b hget

/-- Putting chunks of the archive into the cache. -/
theorem putAll_ok {cache : T → Nat → Option Bytes} {chunkSize : Nat} {t : T} {chunks : List (Nat × Bytes)}
    (hcache : ∀ t c b, cache t c = some b → b = chunkBytes (archive t) chunkSize c)
    (hchunks : ChunksOk (archive t) chunkSize chunks) :
    ∀ t' c b, putAll cache t chunks t' c = some b → b = chunkBytes (archive t') chunkSize c := by
  induction chunks generalizing cache with
  | nil => exact hcache
  | cons e chunks ih =>
    refine ih (update_cache_ok hcache fun b hb => ?_) fun x hx => hchunks x (List.mem_cons_of_mem _ hx)
    cases hb
    exact hchunks e List.mem_cons_self

/-- What a group fetched, when it was dispatched with its archive's length, are chunks of the archive. -/
theorem StoreInv.fetched (h : StoreInv config archive s) {g : DispatchedGroup T}
    (hg : s.coordinator.groups[i]? = some g) {failure : Option ChunkFetchError} {chunks : List (Nat × Bytes)}
    (hf : fetchedGroup config.chunkSize (archive g.tilesetId) g.chunkRange g.archiveLen failure = .ok chunks) :
    ChunksOk (archive g.tilesetId) config.chunkSize chunks := by
  rw [(h.results.groups g (List.mem_of_getElem? hg)).1] at hf
  exact fetchedGroup_ok hf

/-- The critical section of `fetch_chunks`: the receivers it hands out are for the chunks asked for. -/
theorem StoreInv.enqueue (h : StoreInv config archive s) {r : Reader T} {plan : ReadPlan} {missing : List Nat} {len : Nat}
    {now : Instant} (hr : r ∈ s.readers) (hphase : r.phase = .fetching plan missing) (hlen : r.archiveLen = some len) :
    StoreInv config archive
      { s.setReader i r (.waiting plan ((s.coordinator.fetchChunks r.tilesetId missing len now).2.map fun e =>
          (e.chunkIndex, e.receiver)) []) with
        coordinator := (s.coordinator.fetchChunks r.tilesetId missing len now).1 } := by
  have hok := h.readers r hr
  rw [hphase] at hok
  obtain ⟨hranged, hplan⟩ := hok
  have hlen' : len = (archive r.tilesetId).length := by
    have := hranged.len
    rw [hlen] at this
    exact Option.some.inj this
  have hco := h.coordinate (a := .fetchChunks r.tilesetId missing len now) rfl (by
    intro t cs len' now' heq
    obtain ⟨rfl, -, rfl, -⟩ : r.tilesetId = t ∧ missing = cs ∧ len = len' ∧ now = now' := by simpa using heq
    exact hlen') (by simp)
  refine hco.setReader ⟨hranged, hplan, by simp [ChunksOk], fun e he => ?_⟩
  have hrec : (s.coordinator.fetchChunks r.tilesetId missing len now).2.map (fun e => (e.chunkIndex, e.receiver)) =
      missing.zipIdx s.coordinator.nextWaiter := TilesetFetchState.enqueueChunks_receivers missing now _ _
  rw [hrec] at he
  obtain ⟨hle, hget⟩ := List.mk_mem_zipIdx_iff_le_and_getElem?_sub.mp he
  refine ⟨?_, ?_⟩
  · show (if s.coordinator.nextWaiter ≤ e.2 then _ else _) = some (r.tilesetId, e.1)
    rw [if_pos hle, hget]
    rfl
  · show e.2 < s.coordinator.nextWaiter + missing.length
    have := (List.getElem?_eq_some_iff.mp hget).1
    omega

/-- A receiver resolves: with the bytes of the chunk its channel was opened for, with an error, or because its sender is gone. -/
theorem StoreInv.receive (h : StoreInv config archive s) {s' : ChunkedStore T}
    (hs : step config archive s (.receive i) = some s') : StoreInv config archive s' := by
  simp only [step] at hs
  split at hs
  · rename_i r hr
    have hmem := List.mem_of_getElem? hr
    split at hs
    · rename_i plan c w receivers fetched hphase
      have hok := h.readers r hmem
      rw [hphase] at hok
      obtain ⟨hranged, hplan, hfetched, hrec⟩ := hok
      split at hs
      · rename_i x hfind
        split at hs
        · rename_i bytes hx
          cases hs
          have hxw : x.waiter = w := by simpa using List.find?_some hfind
          have hopened := (hrec (c, w) List.mem_cons_self).1
          rw [← hxw] at hopened
          have hbytes := h.results.sends x (List.mem_of_find?_eq_some hfind) _ _ bytes hopened hx
          exact h.setReader (phaseOk_received config.chunkSize_pos hranged hplan (hfetched.cons hbytes)
            fun e he => hrec e (List.mem_cons_of_mem _ he))
        · cases hs
          exact (h.setReader (p := .done (.error _)) trivial).closeReceivers _
      · split at hs
        · cases hs
        · cases hs
          exact (h.setReader (p := .done (.error _)) trivial).closeReceivers _
    · cases hs
  · cases hs

/-- Every step of the store keeps its invariant. -/
theorem StoreInv.step {a : StoreAction T} {s' : ChunkedStore T} (h : StoreInv config archive s)
    (hs : ChunkedStore.step config archive s a = some s') : StoreInv config archive s' := by
  cases a with
  | readBytes t start length knowsArchiveLen =>
    simp only [ChunkedStore.step, Option.some.injEq] at hs
    subst hs
    refine ⟨h.reachable, h.results, h.cache, fun r hr => ?_⟩
    rcases List.mem_append.mp hr with hr | hr
    · exact h.readers r hr
    · rw [List.mem_singleton.mp hr]
      refine phaseOk_readBytes ?_
      cases knowsArchiveLen
      · exact Or.inl rfl
      · exact Or.inr rfl
  | cacheGet i =>
    simp only [ChunkedStore.step] at hs
    split at hs
    · rename_i r hr
      obtain ⟨p, hp, rfl⟩ := Option.map_eq_some_iff.mp hs
      exact h.setReader (phaseOk_cacheGet config.chunkSize_pos (h.cache r.tilesetId) (h.readers r (List.mem_of_getElem? hr)) hp)
    · cases hs
  | enqueue i now =>
    simp only [ChunkedStore.step] at hs
    split at hs
    · rename_i r hr
      split at hs
      · rename_i plan missing len hphase hlen
        cases hs
        exact h.enqueue (List.mem_of_getElem? hr) hphase hlen
      · cases hs
    · cases hs
  | receive i => exact h.receive hs
  | exactRange i failure =>
    simp only [ChunkedStore.step] at hs
    split at hs
    · rename_i r hr
      split at hs
      · rename_i stop hphase
        cases hs
        have hok := h.readers r (List.mem_of_getElem? hr)
        rw [hphase] at hok
        obtain ⟨rfl, hnone⟩ := hok
        refine h.setReader ?_
        cases hf : fetchExactRange (archive r.tilesetId) r.start (r.start + r.length) failure with
        | error e => exact trivial
        | ok bytes => exact ⟨fetchExactRange_ok hf, fun hne => absurd hnone hne⟩
      · cases hs
    · cases hs
  | dropRead i =>
    simp only [ChunkedStore.step] at hs
    split at hs
    · rename_i r hr
      split at hs
      · cases hs
      · cases hs
        exact (h.setReader (p := .dropped) trivial).closeReceivers _
    · cases hs
  | putChunk i c =>
    simp only [ChunkedStore.step] at hs
    split at hs
    · rename_i g hg
      split at hs
      · split at hs
        · rename_i chunks hf
          cases hs
          have hchunks := h.fetched hg hf
          refine ⟨h.reachable, h.results, putAll_ok h.cache fun e he => ?_, h.readers⟩
          exact hchunks e (List.mem_of_mem_filter he)
        · cases hs
      · cases hs
    · cases hs
  | finishFetch i failure =>
    simp only [ChunkedStore.step] at hs
    split at hs
    · rename_i g hg
      split at hs
      · rename_i co hco
        cases hs
        have hnext := h.coordinate hco (by simp) (by
          intro i' g' chunks heq hg'
          obtain ⟨rfl, hres⟩ : i = i' ∧ fetchedGroup config.chunkSize (archive g.tilesetId) g.chunkRange g.archiveLen failure =
              .ok chunks := by simpa using heq
          obtain rfl : g = g' := by simpa [hg] using hg'
          exact h.fetched hg hres)
        refine ⟨hnext.reachable, hnext.results, ?_, hnext.readers⟩
        split
        · rename_i chunks hf
          exact putAll_ok h.cache (h.fetched hg hf)
        · exact h.cache
      · cases hs
    · cases hs
  | coordinate a =>
    simp only [ChunkedStore.step] at hs
    split at hs
    · rename_i hown
      obtain ⟨co, hco, rfl⟩ := Option.map_eq_some_iff.mp hs
      refine h.coordinate hco ?_ ?_
      · rintro t cs len now rfl
        cases hown
      · rintro i g chunks rfl
        cases hown
    · cases hs
  | evict t c =>
    simp only [ChunkedStore.step, Option.some.injEq] at hs
    subst hs
    exact ⟨h.reachable, h.results, update_cache_ok h.cache (by simp), h.readers⟩

/-- Chunked reads refine a plain slice of the archive: in every reachable state, a read that has returned bytes returned the slice
it asked for, all of it when the archive's length was given, and a cached chunk is the archive between the chunk's bounds. -/
theorem read_bytes_refines_slice (config : ChunkedStoreConfig) (archive : T → Bytes) (s : ChunkedStore T)
    (h : (machine config archive).Reachable s) :
    (∀ r ∈ s.readers, ∀ read, r.phase = .done (.ok read) →
      read.bytes = slice (archive r.tilesetId) r.start (r.start + r.length) ∧
        (r.archiveLen ≠ none → r.start + r.length ≤ (archive r.tilesetId).length ∧ read.bytes.length = r.length)) ∧
    (∀ t c b, s.cache t c = some b →
      b = slice (archive t) (c * config.chunkSize) (min ((c + 1) * config.chunkSize) (archive t).length)) := by
  have hinv : StoreInv config archive s := h.invariant StoreInv.new fun _ _ _ hi hs => hi.step hs
  refine ⟨fun r hr read hphase => ?_, hinv.cache⟩
  have hok := hinv.readers r hr
  rw [hphase] at hok
  obtain ⟨hbytes, hin⟩ := hok
  refine ⟨hbytes, fun hlen => ⟨hin hlen, ?_⟩⟩
  have hle := hin hlen
  rw [hbytes, length_slice]
  omega

/-- Five bytes in chunks of two. -/
def smallConfig : ChunkedStoreConfig := ⟨2, 4, by decide⟩

def smallArchive : Unit → Bytes := fun _ => [10, 11, 12, 13, 14]

/-- A read of bytes 1, …, 4, over all three chunks; the first chunk is evicted again before the bytes arrive. -/
def smallRun : List (StoreAction Unit) :=
  [.readBytes () 1 4 true, .cacheGet 0, .cacheGet 0, .cacheGet 0, .enqueue 0 0, .coordinate (.selectDispatchGroups () 1),
    .coordinate (.spawnFetch 0), .finishFetch 0 none, .evict () 0, .coordinate (.completeGroup 0), .receive 0, .receive 0,
      .receive 0]

theorem read_bytes_refines_slice_smallRun :
    ∃ s r, (machine smallConfig smallArchive).run (machine smallConfig smallArchive).init smallRun = some s ∧ r ∈ s.readers ∧
      r.phase = .done (.ok ⟨[11, 12, 13, 14], .backend⟩) ∧ slice (smallArchive ()) 1 5 = [11, 12, 13, 14] := by
  refine ⟨_, _, rfl, List.mem_singleton.mpr rfl, rfl, ?_⟩
  have h := read_bytes_refines_slice smallConfig smallArchive _
    (Machine.reachable_of_run (show (machine smallConfig smallArchive).run _ smallRun = some _ from rfl))
  exact (h.1 _ (List.mem_singleton.mpr rfl) _ rfl).1.symm

end ChunkedStore

end Biei
