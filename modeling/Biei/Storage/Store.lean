import Biei.Lib.Slice
import Biei.Storage.Coordinator

/-!
# The chunked store

`store.rs` and the range fetches of `fetcher.rs`: how a byte range is read through the chunk cache and the coordinator. Offsets
and lengths are natural numbers below `u64Bound` where the source checks it; `usize` is taken as wide as `u64`, so the conversions
between the two never fail. The object store is the archive of each tileset and answers a range with its bytes, clipped at the end
of the object, or with an error.
-/

namespace Biei

/-! ## Ranges -/

inductive ChunkRangeError where
  | byteRangeOverflow (start length : Nat)
  | outsideArchive (start stop archiveLen : Nat)
  | invalidChunkGroup (startChunk endChunk : Nat)
  | chunkArithmeticOverflow (chunkIndex chunkSize : Nat)
  | chunkOutsideArchive (chunkIndex archiveLen : Nat)
  | sliceOutsideFetchedBytes (chunkIndex relativeStart relativeEnd bytesLen : Nat)
deriving DecidableEq, Repr

/-- The text of each error. -/
def ChunkRangeError.toString : ChunkRangeError → String
  | .byteRangeOverflow start length =>
    "byte range overflow: start=" ++ ToString.toString start ++ " length=" ++ ToString.toString length
  | .outsideArchive start stop archiveLen =>
    "byte range exceeds archive: start=" ++ ToString.toString start ++ " end=" ++ ToString.toString stop ++ " archive_len=" ++
      ToString.toString archiveLen
  | .invalidChunkGroup startChunk endChunk =>
    "invalid chunk group: start_chunk=" ++ ToString.toString startChunk ++ " end_chunk=" ++ ToString.toString endChunk
  | .chunkArithmeticOverflow chunkIndex chunkSize =>
    "chunk range arithmetic overflow: chunk_index=" ++ ToString.toString chunkIndex ++ " chunk_size=" ++
      ToString.toString chunkSize
  | .chunkOutsideArchive chunkIndex archiveLen =>
    "chunk " ++ ToString.toString chunkIndex ++ " does not intersect archive length " ++ ToString.toString archiveLen
  | .sliceOutsideFetchedBytes chunkIndex relativeStart relativeEnd bytesLen =>
    "fetched bytes omit chunk " ++ ToString.toString chunkIndex ++ ": slice=" ++ ToString.toString relativeStart ++ ".." ++
      ToString.toString relativeEnd ++ " bytes=" ++ ToString.toString bytesLen

/-- The end of a requested byte range, when it neither overflows nor leaves the archive. -/
def validateByteRange (start length : Nat) (archiveLen : Option Nat) : Except ChunkRangeError Nat :=
  match checkedAdd start length with
  | none => .error (.byteRangeOverflow start length)
  | some stop =>
    match archiveLen with
    | some len => if start > len ∨ stop > len then .error (.outsideArchive start stop len) else .ok stop
    | none => .ok stop

def chunkIndex (offset chunkSize : Nat) : Nat := offset / chunkSize

/-- Maps a byte range to the first and the last chunk it touches. -/
def byteRangeToChunkRange (start stop chunkSize : Nat) : Nat × Nat :=
  (chunkIndex start chunkSize, chunkIndex (stop - 1) chunkSize)

/-- The body of the loop of `chunk_slices`: the chunk and where its bytes lie in the fetched buffer. -/
def chunkSlice (chunkSize archiveLen rangeStart bytesLen c : Nat) : Except ChunkRangeError (Nat × Nat × Nat) :=
  match checkedMul c chunkSize with
  | none => .error (.chunkArithmeticOverflow c chunkSize)
  | some absoluteStart =>
    match checkedAdd c 1 with
    | none => .error (.chunkArithmeticOverflow c chunkSize)
    | some nextChunk =>
      match checkedMul nextChunk chunkSize with
      | none => .error (.chunkArithmeticOverflow nextChunk chunkSize)
      | some nextStart =>
        let absoluteEnd := min nextStart archiveLen
        if absoluteStart ≥ absoluteEnd then
          .error (.chunkOutsideArchive c archiveLen)
        else
          let relativeStart := absoluteStart - rangeStart
          let relativeEnd := absoluteEnd - rangeStart
          if relativeStart > relativeEnd ∨ relativeEnd > bytesLen then
            .error (.sliceOutsideFetchedBytes c relativeStart relativeEnd bytesLen)
          else
            .ok (c, relativeStart, relativeEnd)

/-- Where the bytes of each chunk of a group lie in the buffer fetched for the group. -/
def chunkSlices (r : ChunkRange) (chunkSize archiveLen bytesLen : Nat) : Except ChunkRangeError (List (Nat × Nat × Nat)) :=
  if r.start ≥ r.stop then
    .error (.invalidChunkGroup r.start r.stop)
  else
    match checkedMul r.start chunkSize with
    | none => .error (.chunkArithmeticOverflow r.start chunkSize)
    | some rangeStart => r.chunks.mapM (chunkSlice chunkSize archiveLen rangeStart bytesLen)

/-- `cache_chunk_group`: the chunks of a fetched group. They are also what the function puts into the cache, one by one. -/
def cacheChunkGroup (chunkSize : Nat) (r : ChunkRange) (archiveLen : Nat) (bytes : Bytes) :
    Except ChunkRangeError (List (Nat × Bytes)) :=
  match chunkSlices r chunkSize archiveLen bytes.length with
  | .error e => .error e
  | .ok slices => .ok (slices.map fun s => (s.1, slice bytes s.2.1 s.2.2))

/-! ## Fetching from the object store -/

inductive RangeLengthPolicy where
  | exact
  | allowShortAtEof
deriving DecidableEq, Repr

def RangeLengthPolicy.debug : RangeLengthPolicy → String
  | .exact => "Exact"
  | .allowShortAtEof => "AllowShortAtEof"

/-- `fetch_range`: the bytes of a range of the object, or the failure of the request (no source, no permit, a timeout, or an error
of the object store), and the check of the length received. -/
def fetchRange (archive : Bytes) (start stop : Nat) (policy : RangeLengthPolicy) (failure : Option ChunkFetchError) :
    Except ChunkFetchError Bytes :=
  match failure with
  | some e => .error e
  | none =>
    let bytes := slice archive start stop
    let expectedLen := stop - start
    if bytes.length > expectedLen ∨ (policy = .exact ∧ bytes.length ≠ expectedLen) then
      .error (.message ("unexpected object-store range length: range=" ++ toString start ++ ".." ++ toString stop ++
        " expected_bytes=" ++ toString expectedLen ++ " actual_bytes=" ++ toString bytes.length ++ " policy=" ++ policy.debug))
    else
      .ok bytes

/-- `fetch_chunk_group`: one range request for the chunks of a group, cut at the end of the archive. -/
def fetchChunkGroup (chunkSize : Nat) (archive : Bytes) (r : ChunkRange) (archiveLen : Nat) (failure : Option ChunkFetchError) :
    Except ChunkFetchError Bytes :=
  if r.start ≥ r.stop then
    .ok []
  else
    match checkedMul r.start chunkSize, checkedMul r.stop chunkSize with
    | some rangeStart, some groupEnd =>
      let rangeEnd := min groupEnd archiveLen
      if rangeStart ≥ rangeEnd then
        .error (.message ("chunk range start " ++ toString rangeStart ++ " does not precede end " ++ toString rangeEnd ++
          " (archive_len=" ++ toString archiveLen ++ ")"))
      else
        fetchRange archive rangeStart rangeEnd .exact failure
    | _, _ =>
      .error (.message ("chunk range overflow: start_chunk=" ++ toString r.start ++ " end_chunk=" ++ toString r.stop ++
        " chunk_size=" ++ toString chunkSize))

/-- `fetch_exact_range`: a bounded range read before the archive length is known; a range past the end is what is left of it. -/
def fetchExactRange (archive : Bytes) (start stop : Nat) (failure : Option ChunkFetchError) : Except ChunkFetchError Bytes :=
  if start ≥ stop then .ok [] else fetchRange archive start stop .allowShortAtEof failure

/-- `run_fetch_chunk_group` up to its completion: fetch the group and cut it into chunks. -/
def fetchedGroup (chunkSize : Nat) (archive : Bytes) (r : ChunkRange) (archiveLen : Nat) (failure : Option ChunkFetchError) :
    GroupResult :=
  match fetchChunkGroup chunkSize archive r archiveLen failure with
  | .error e => .error e
  | .ok bytes =>
    match cacheChunkGroup chunkSize r archiveLen bytes with
    | .error e => .error (.message e.toString)
    | .ok chunks => .ok chunks

/-! ## Assembling the bytes of a read -/

/-- `slice_single_chunk`. -/
def sliceSingleChunk (chunkSize c start length : Nat) (chunk : Bytes) : Except String Bytes :=
  let chunkOffset := start % chunkSize
  match checkedAdd chunkOffset length with
  | none => .error "byte range overflow computing chunk slice"
  | some chunkEnd =>
    if chunkEnd > chunk.length then
      .error ("cached chunk is shorter than requested range: chunk_index=" ++ toString c ++ " chunk_len=" ++
        toString chunk.length ++ " chunk_offset=" ++ toString chunkOffset ++ " length=" ++ toString length)
    else
      .ok (slice chunk chunkOffset chunkEnd)

/-- The loop of `read_resolved_bytes` over the chunks still to come: the bytes gathered, and how many remain. -/
def readResolvedLoop (chunks : List (Nat × Bytes)) : List Nat → Nat → Nat → Bytes → Except String (Bytes × Nat)
  | [], remaining, _, bytes => .ok (bytes, remaining)
  | c :: cs, remaining, currentOffset, bytes =>
    match chunks.lookup c with
    | none => .error "resolved chunk missing after fetch"
    | some chunk =>
      if currentOffset > chunk.length then
        .error ("cached chunk offset exceeds chunk length: chunk_index=" ++ toString c ++ " chunk_len=" ++
          toString chunk.length ++ " chunk_offset=" ++ toString currentOffset)
      else
        let take := min remaining (chunk.length - currentOffset)
        match checkedAdd currentOffset take with
        | none => .error "byte range overflow computing reconstructed chunk slice"
        | some currentEnd => readResolvedLoop chunks cs (remaining - take) 0 (bytes ++ slice chunk currentOffset currentEnd)

/-- `read_resolved_bytes`: the requested bytes from the chunks that hold them. -/
def readResolvedBytes (chunkSize start length : Nat) (chunks : List (Nat × Bytes)) : Except String Bytes :=
  match checkedAdd start length with
  | none => .error "byte range overflow computing cached read"
  | some stop =>
    let (first, last) := byteRangeToChunkRange start stop chunkSize
    if first = last then
      match chunks.lookup first with
      | none => .error "resolved chunk missing after fetch"
      | some chunk => sliceSingleChunk chunkSize first start length chunk
    else
      match readResolvedLoop chunks (List.range' first (last + 1 - first)) length (start % chunkSize) [] with
      | .error e => .error e
      | .ok (bytes, remaining) =>
        if remaining ≠ 0 then .error "failed to reconstruct tileset bytes from chunk cache" else .ok bytes

/-! ## A read in progress -/

/-- Whether a range read was satisfied immediately or waited for backend work. -/
inductive ChunkReadSource where
  | cache
  | backend
deriving DecidableEq, Repr

/-- Bytes returned by a chunked range read together with request provenance. -/
structure ChunkRead where
  bytes : Bytes
  source : ChunkReadSource
deriving DecidableEq, Repr

/-- What a read does with the chunks it fetches: slice the only one, or join them with the chunks found in the cache. -/
inductive ReadPlan where
  | single (c : Nat)
  | multi (resolved : List (Nat × Bytes))

/-- Where a call of `read_bytes` stands. Maps from a chunk to its bytes are lists, the last insertion first. -/
inductive ReadPhase where
  /-- `read_single_chunk`, before its cache lookup. -/
  | single (c : Nat)
  /-- The lookup loop over the chunks of the range. -/
  | planning (todo : List Nat) (resolved : List (Nat × Bytes)) (missing : List Nat)
  /-- `fetch_chunks`, before its critical section. -/
  | fetching (plan : ReadPlan) (missing : List Nat)
  /-- `fetch_chunks`, awaiting its receivers in order. -/
  | waiting (plan : ReadPlan) (receivers : List (Nat × Nat)) (fetched : List (Nat × Bytes))
  | exactRange (stop : Nat)
  | done (result : Except ChunkFetchError ChunkRead)
  | dropped

structure Reader (T : Type) where
  tilesetId : T
  start : Nat
  length : Nat
  archiveLen : Option Nat
  phase : ReadPhase

/-- The result of a read from the bytes it assembled. -/
def chunkRead (source : ChunkReadSource) : Except String Bytes → Except ChunkFetchError ChunkRead
  | .ok bytes => .ok ⟨bytes, source⟩
  | .error text => .error (.message text)

/-- `read_bytes` up to its first cache lookup. -/
def readBytes (chunkSize start length : Nat) (archiveLen : Option Nat) : ReadPhase :=
  match validateByteRange start length archiveLen with
  | .error e => .done (.error (.message e.toString))
  | .ok stop =>
    if length = 0 then
      .done (.ok ⟨[], .cache⟩)
    else
      match archiveLen with
      | none => .exactRange stop
      | some _ =>
        let (first, last) := byteRangeToChunkRange start stop chunkSize
        if first = last then .single first else .planning (List.range' first (last + 1 - first)) [] []

/-- The read after a lookup of the loop: on to the next chunk, or out of the loop to fetch what is missing or to assemble. -/
def planned (chunkSize start length : Nat) (todo : List Nat) (resolved : List (Nat × Bytes)) (missing : List Nat) : ReadPhase :=
  match todo, missing with
  | [], [] => .done (chunkRead .cache (readResolvedBytes chunkSize start length resolved))
  | [], missing => .fetching (.multi resolved) missing
  | todo, missing => .planning todo resolved missing

/-- The read after one cache lookup. -/
def cacheGet (chunkSize start length : Nat) (cache : Nat → Option Bytes) : ReadPhase → Option ReadPhase
  | .single c =>
    match cache c with
    | some chunk => some (.done (chunkRead .cache (sliceSingleChunk chunkSize c start length chunk)))
    | none => some (.fetching (.single c) [c])
  | .planning (c :: todo) resolved missing =>
    match cache c with
    | some chunk => some (planned chunkSize start length todo ((c, chunk) :: resolved) missing)
    | none => some (planned chunkSize start length todo resolved (missing ++ [c]))
  | _ => none

/-- The read when `fetch_chunks` has returned. -/
def afterFetch (chunkSize start length : Nat) (plan : ReadPlan) (fetched : List (Nat × Bytes)) :
    Except ChunkFetchError ChunkRead :=
  match plan with
  | .single c =>
    match fetched.lookup c with
    | none => .error (.message "resolved chunk missing after fetch")
    | some chunk => chunkRead .backend (sliceSingleChunk chunkSize c start length chunk)
  | .multi resolved => chunkRead .backend (readResolvedBytes chunkSize start length (fetched ++ resolved))

/-- The read after one receiver gave the bytes of its chunk. -/
def received (chunkSize start length : Nat) (plan : ReadPlan) (receivers : List (Nat × Nat)) (fetched : List (Nat × Bytes)) :
    ReadPhase :=
  match receivers with
  | [] => .done (afterFetch chunkSize start length plan fetched)
  | receivers => .waiting plan receivers fetched

/-- The receivers a read still holds. -/
def ReadPhase.receivers : ReadPhase → List Nat
  | .waiting _ receivers _ => receivers.map Prod.snd
  | _ => []

/-! ## The store -/

structure ChunkedStoreConfig where
  chunkSize : Nat
  maxFetchChunks : Nat
  chunkSize_pos : 1 ≤ chunkSize

/-- The store: its coordinator, its cache, and the reads that have been started. -/
structure ChunkedStore (T : Type) where
  coordinator : Coordinator T
  cache : T → Nat → Option Bytes
  readers : List (Reader T)

/-- The steps of the tasks that share a store. -/
inductive StoreAction (T : Type) where
  | readBytes (t : T) (start length : Nat) (knowsArchiveLen : Bool)
  | cacheGet (i : Nat)
  | enqueue (i : Nat) (now : Instant)
  | receive (i : Nat)
  | exactRange (i : Nat) (failure : Option ChunkFetchError)
  | dropRead (i : Nat)
  /-- One `cache.put` of a group whose loop in `cache_chunk_group` is still running. -/
  | putChunk (i : Nat) (c : Nat)
  | finishFetch (i : Nat) (failure : Option ChunkFetchError)
  /-- A step of the scheduler, of a group's guard, or of a completion. -/
  | coordinate (a : CoordinatorAction T)
  | evict (t : T) (c : Nat)

/-- The coordinator's own steps: joining a fetch, finishing one and dropping a receiver belong to the reads and the fetches. -/
def CoordinatorAction.isOwn {T : Type} : CoordinatorAction T → Bool
  | .fetchChunks .. => false
  | .finishFetch .. => false
  | .cancelReceiver _ => false
  | _ => true

/-- The receivers of a dropped future are closed. -/
def Coordinator.closeReceivers {T : Type} (s : Coordinator T) (ws : List Nat) : Coordinator T :=
  ws.foldl (fun s w => { s with closed := Function.update s.closed w true }) s

/-- Some state still holds the sender of the channel `w`, opened for chunk `c`. -/
def Coordinator.holdsSender {T : Type} (s : Coordinator T) (t : T) (c w : Nat) : Bool :=
  match s.tilesetStates t with
  | some st => decide ((c, w) ∈ st.waiters)
  | none => false

namespace ChunkedStore

variable {T : Type} [DecidableEq T]

def new : ChunkedStore T where
  coordinator := .new
  cache := fun _ _ => none
  readers := []

/-- The store with one read in another phase. -/
def setReader (s : ChunkedStore T) (i : Nat) (r : Reader T) (phase : ReadPhase) : ChunkedStore T :=
  { s with readers := s.readers.set i { r with phase := phase } }

/-- The cache with the chunks of a tileset put, one by one. -/
def putAll (cache : T → Nat → Option Bytes) (t : T) (chunks : List (Nat × Bytes)) : T → Nat → Option Bytes :=
  chunks.foldl (fun cache e => Function.update cache t (Function.update (cache t) e.1 (some e.2))) cache

/-- One step of the tasks that share the store. -/
def step (config : ChunkedStoreConfig) (archive : T → Bytes) (s : ChunkedStore T) : StoreAction T → Option (ChunkedStore T)
  | .readBytes t start length knowsArchiveLen =>
    let archiveLen := if knowsArchiveLen then some (archive t).length else none
    some { s with readers := s.readers ++
      [⟨t, start, length, archiveLen, Biei.readBytes config.chunkSize start length archiveLen⟩] }
  | .cacheGet i =>
    match s.readers[i]? with
    | some r => (Biei.cacheGet config.chunkSize r.start r.length (s.cache r.tilesetId) r.phase).map fun phase =>
        s.setReader i r phase
    | none => none
  | .enqueue i now =>
    match s.readers[i]? with
    | some r =>
      match r.phase, r.archiveLen with
      | .fetching plan missing, some len =>
        let (coordinator, enqueued) := s.coordinator.fetchChunks r.tilesetId missing len now
        some { s.setReader i r (.waiting plan (enqueued.map fun e => (e.chunkIndex, e.receiver)) []) with
          coordinator := coordinator }
      | _, _ => none
    | none => none
  | .receive i =>
    match s.readers[i]? with
    | some r =>
      match r.phase with
      | .waiting plan ((c, w) :: receivers) fetched =>
        match s.coordinator.sends.find? fun x => x.waiter == w with
        | some x =>
          match x.result with
          | .ok bytes => some (s.setReader i r (received config.chunkSize r.start r.length plan receivers
              ((c, bytes) :: fetched)))
          | .error e =>
            some { s.setReader i r (.done (.error e)) with
              coordinator := s.coordinator.closeReceivers (receivers.map Prod.snd) }
        | none =>
          if s.coordinator.holdsSender r.tilesetId c w then none
          else
            some { s.setReader i r (.done (.error (.message "chunk fetch waiter dropped"))) with
              coordinator := s.coordinator.closeReceivers (receivers.map Prod.snd) }
      | _ => none
    | none => none
  | .exactRange i failure =>
    match s.readers[i]? with
    | some r =>
      match r.phase with
      | .exactRange stop =>
        some (s.setReader i r (.done
          ((fetchExactRange (archive r.tilesetId) r.start stop failure).map fun bytes => ⟨bytes, .backend⟩)))
      | _ => none
    | none => none
  | .dropRead i =>
    match s.readers[i]? with
    | some r =>
      match r.phase with
      | .done _ => none
      | phase => some { s.setReader i r .dropped with coordinator := s.coordinator.closeReceivers phase.receivers }
    | none => none
  | .putChunk i c =>
    match s.coordinator.groups[i]? with
    | some g =>
      match g.phase with
      | .fetching =>
        match fetchedGroup config.chunkSize (archive g.tilesetId) g.chunkRange g.archiveLen none with
        | .ok chunks => some { s with cache := putAll s.cache g.tilesetId (chunks.filter fun e => e.1 == c) }
        | .error _ => none
      | _ => none
    | none => none
  | .finishFetch i failure =>
    match s.coordinator.groups[i]? with
    | some g =>
      let result := fetchedGroup config.chunkSize (archive g.tilesetId) g.chunkRange g.archiveLen failure
      match s.coordinator.step config.maxFetchChunks (.finishFetch i result) with
      | some coordinator =>
        some { s with
          coordinator := coordinator
          cache := match result with
            | .ok chunks => putAll s.cache g.tilesetId chunks
            | .error _ => s.cache }
      | none => none
    | none => none
  | .coordinate a =>
    if a.isOwn then (s.coordinator.step config.maxFetchChunks a).map fun coordinator => { s with coordinator := coordinator }
    else none
  | .evict t c => some { s with cache := Function.update s.cache t (Function.update (s.cache t) c none) }

/-- The store over an archive for each tileset, as a machine. -/
def machine (config : ChunkedStoreConfig) (archive : T → Bytes) : Machine (ChunkedStore T) (StoreAction T) where
  init := new
  step := step config archive

end ChunkedStore

/-! ## Planning a read

The arithmetic of planning in `u64`, where an unchecked sum that overflows stops the program: `contiguous_chunk_ranges` of
`coordinator.rs`, and what a read plans with it, from its byte range to the chunks of the groups that are fetched for it. -/

/-- The loop of `contiguous_chunk_ranges`. What the second operand of `&&` adds up is needed after it in any case. -/
def contiguousLoopU64 (maxFetchChunks maxGap : Nat) (start stop : Nat) : List Nat → Option (List ChunkRange)
  | [] => some [⟨start, stop⟩]
  | c :: cs => do
    let reach ← checkedAdd stop maxGap
    let next ← checkedAdd c 1
    if c ≤ reach ∧ next - start ≤ maxFetchChunks then
      contiguousLoopU64 maxFetchChunks maxGap start next cs
    else
      let ranges ← contiguousLoopU64 maxFetchChunks maxGap c next cs
      some (⟨start, stop⟩ :: ranges)

/-- `contiguous_chunk_ranges`, or nothing for an overflow. -/
def contiguousChunkRangesU64 (chunks : OrderedSet Nat) (maxFetchChunks maxGap : Nat) : Option (List ChunkRange) :=
  match chunks.toList with
  | [] => some []
  | c :: cs => do
    let stop ← checkedAdd c 1
    contiguousLoopU64 (max maxFetchChunks 1) maxGap c stop cs

/-- The chunks that a read has to fetch: those of its range that are not in the cache. -/
def missingChunks (chunkSize start length : Nat) (cached : Nat → Bool) : List Nat :=
  if length = 0 then []
  else
    let (first, last) := byteRangeToChunkRange start (start + length) chunkSize
    (List.range' first (last + 1 - first)).filter fun c => !cached c

/-- What is planned for a read when the object store answers: the groups that its chunks are fetched in, with the chunks that are
pending for other reads, and the chunks of each group. -/
def planRead (chunkSize maxFetchChunks : Nat) (archive : Bytes) (start length : Nat) (cached : Nat → Bool)
    (pending : OrderedSet Nat) :
    Option (Except ChunkFetchError (List (List (Nat × Bytes)))) :=
  match validateByteRange start length (some archive.length) with
  | .error e => some (.error (.message e.toString))
  | .ok _ =>
    match missingChunks chunkSize start length cached with
    | [] => some (.ok [])
    | missing =>
      match contiguousChunkRangesU64 (pending.extend missing) maxFetchChunks maxChunkGap with
      | none => none
      | some ranges => some (ranges.mapM fun r => fetchedGroup chunkSize archive r archive.length none)

end Biei
