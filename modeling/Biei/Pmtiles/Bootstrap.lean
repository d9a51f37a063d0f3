import Biei.Lib.Run
import Biei.Lib.Update
import Biei.Pmtiles.Format

/-!
# Bootstraps and how peers share them

The first bytes of an archive hold its header and its root directory. A node keeps them, and gives them to its peers, with the
metadata of the archive when the peer asks for it: `load_bootstrap_bytes_local` of `reader.rs`, the handler of `internal.rs` and
`decode_bootstrap_wire` of `peer.rs`. What a read of the object store answers is the environment's choice, within what a read may
answer.
-/

namespace Biei

def minBootstrapBytes : Nat := 16384

def defaultMaxDecompressedBytes : Nat := 64 * 1024 * 1024

/-! ## Archives -/

/-- Header and root directory of an archive, with its metadata when it is known. -/
structure ArchiveBootstrap (M : Type) where
  header : Header
  root : Directory
  metadata : Option M

def ArchiveBootstrap.archiveLen {M : Type} (archive : ArchiveBootstrap M) : Nat := archive.header.archiveLen

/-- What the reader needs of code that is not here: the decoders, and `serde_json` for metadata. -/
structure PmtilesEnv (M : Type) where
  decoders : Decoders
  metadataFromSlice : Bytes → Except String M

variable {M : Type}

def decodeBootstrapBytes (env : PmtilesEnv M) (body : Bytes) (maxDecompressedDirectoryBytes : Nat) :
    Except String (ArchiveBootstrap M) := do
  if body.length < headerSize then .error "PMTiles archive header is truncated"
  else
    let header ← context "failed to parse PMTiles header" (Header.parse (slice body 0 headerSize))
    if header.root.stop > body.length then .error "PMTiles root directory must fit in the bootstrap read"
    else
      let root ← context "failed to parse PMTiles root directory"
        (Directory.parseWithLimit env.decoders header.internalCompression (slice body header.root.offset header.root.stop)
          maxDecompressedDirectoryBytes)
      .ok ⟨header, root, none⟩

def decodeMetadataBytes (env : PmtilesEnv M) (header : Header) (bytes : Bytes) (maxDecompressedBytes : Nat) :
    Except String M := do
  let bytes ← context "failed to decompress PMTiles metadata"
    (env.decoders.decompressBytesWithLimit header.internalCompression bytes maxDecompressedBytes)
  context "failed to parse PMTiles metadata JSON" (env.metadataFromSlice bytes)

/-! ## On the wire -/

structure BootstrapTransfer where
  bootstrap : Bytes
  metadata : Option Bytes
deriving DecidableEq

/-- The body of the answer of `internal_bootstrap_handler`. -/
def bootstrapBody (transfer : BootstrapTransfer) : Bytes :=
  match transfer.metadata with
  | some metadata => leBytes 8 transfer.bootstrap.length ++ (transfer.bootstrap ++ metadata)
  | none => transfer.bootstrap

def prefixBytes : Nat := 8

def maxTransferBytes : Nat := prefixBytes + minBootstrapBytes + defaultMaxDecompressedBytes

/-- `decode_bootstrap_wire`. A slice out of range would panic; the outer `none` stands for it. -/
def decodeBootstrapWire (body : Bytes) (includeMetadata : Bool) : Option (Except String BootstrapTransfer) :=
  if !includeMetadata then
    if body.length > minBootstrapBytes then some (.error "bootstrap transfer exceeds the accepted bootstrap size")
    else some (.ok ⟨body, none⟩)
  else if body.length > maxTransferBytes then some (.error "bootstrap transfer exceeds the accepted metadata envelope")
  else if body.length < prefixBytes then some (.error "bootstrap transfer too short")
  else do
    let bootstrapLen := ofLeBytes (← slice? body 0 prefixBytes)
    if bootstrapLen > minBootstrapBytes then some (.error "bootstrap length exceeds the accepted bootstrap size")
    else
      match checkedAdd prefixBytes bootstrapLen with
      | none => some (.error "bootstrap transfer length overflows usize")
      | some bootstrapEnd =>
        if body.length < bootstrapEnd then some (.error "bootstrap transfer truncated")
        else do
          let bootstrap ← slice? body prefixBytes bootstrapEnd
          let metadata ← if body.length > bootstrapEnd then (slice? body bootstrapEnd body.length).map some else some none
          some (.ok ⟨bootstrap, metadata⟩)

/-! ## Reading from the object store -/

inductive StorageError where
  | notFound
  | overloaded (message : String)
  | timeout (message : String)
  | backend (message : String)
  | message (message : String)
deriving DecidableEq, Repr

def readChunkLimit : Nat := 8

def enforceChunkLimit (kind : String) (start length chunkSizeBytes : Nat) : Except String Unit :=
  match checkedAdd start length with
  | none => .error ("invalid " ++ kind ++ " byte range")
  | some stop =>
    let chunkCount := (stop - 1) / chunkSizeBytes - start / chunkSizeBytes + 1
    if chunkCount > readChunkLimit then
      .error (kind ++ " spans too many chunks: start=" ++ toString start ++ " length=" ++ toString length ++ " chunks=" ++
        toString chunkCount ++ " limit=" ++ toString readChunkLimit)
    else .ok ()

/-- What the chunked store may answer: an error, or the bytes of the range, all of them when the length of the archive was
given. -/
def MayAnswer (object : Bytes) (start length : Nat) (archiveLen : Option Nat) : Except StorageError Bytes → Prop
  | .error _ => True
  | .ok bytes => bytes = slice object start (start + length) ∧ (archiveLen ≠ none → start + length ≤ object.length)

instance (object : Bytes) (start length : Nat) (archiveLen : Option Nat) (answer : Except StorageError Bytes) :
    Decidable (MayAnswer object start length archiveLen answer) :=
  match answer with
  | .error _ => inferInstanceAs (Decidable True)
  | .ok bytes =>
    inferInstanceAs (Decidable (bytes = slice object start (start + length) ∧
      (archiveLen ≠ none → start + length ≤ object.length)))

/-- `read_range`, with the answer of the chunked store. -/
def readRange (chunkSize start length : Nat) (answer : Except StorageError Bytes) : Except StorageError Bytes :=
  if length = 0 then .ok []
  else
    match enforceChunkLimit "range" start length chunkSize with
    | .error e => .error (.message e)
    | .ok () => answer

/-! ## The reader -/

structure CachedArchive (M : Type) where
  archive : ArchiveBootstrap M
  bootstrap : Bytes

/-- The archive cache of a node. -/
structure ArchiveCache (T M : Type) where
  archives : T → Option (CachedArchive M)

/-- What happens to the cache: a load from the object store, a load from a peer that answers with any body, and an eviction. -/
inductive BootstrapAction (T : Type) where
  | loadLocal (t : T) (answer : Except StorageError Bytes)
  | loadPeer (t : T) (includeMetadata : Bool) (body : Bytes)
  | evict (t : T)

namespace ArchiveCache

variable {T : Type} [DecidableEq T]

def new : ArchiveCache T M := ⟨fun _ => none⟩

/-- `put`: metadata that is known of an archive is not lost. -/
def put (s : ArchiveCache T M) (t : T) (archive : ArchiveBootstrap M) (bootstrap : Bytes) : ArchiveCache T M :=
  let metadata := archive.metadata.or ((s.archives t).bind fun existing => existing.archive.metadata)
  ⟨Function.update s.archives t (some ⟨{ archive with metadata }, bootstrap⟩)⟩

/-- `load_bootstrap_local_uncached` with the bytes it has read. -/
def loadLocal (env : PmtilesEnv M) (s : ArchiveCache T M) (t : T) (initialBytes : Bytes) : ArchiveCache T M :=
  match decodeBootstrapBytes env initialBytes defaultMaxDecompressedBytes with
  | .error _ => s
  | .ok archive => s.put t archive initialBytes

/-- The first half of `load_bootstrap_uncached`: what is made of a peer's answer. -/
def loadPeer (env : PmtilesEnv M) (s : ArchiveCache T M) (t : T) (transfer : BootstrapTransfer) : ArchiveCache T M :=
  match decodeBootstrapBytes env transfer.bootstrap defaultMaxDecompressedBytes with
  | .error _ => s
  | .ok archive =>
    match transfer.metadata with
    | none => s.put t archive transfer.bootstrap
    | some bytes =>
      match decodeMetadataBytes env archive.header bytes defaultMaxDecompressedBytes with
      | .error _ => s
      | .ok metadata => s.put t { archive with metadata := some metadata } transfer.bootstrap

def step (env : PmtilesEnv M) (chunkSize : Nat) (object : T → Bytes) (s : ArchiveCache T M) :
    BootstrapAction T → Option (ArchiveCache T M)
  | .loadLocal t answer =>
    if MayAnswer (object t) 0 minBootstrapBytes none answer then
      match readRange chunkSize 0 minBootstrapBytes answer with
      | .error _ => some s
      | .ok initialBytes => some (s.loadLocal env t initialBytes)
    else none
  | .loadPeer t includeMetadata body =>
    match decodeBootstrapWire body includeMetadata with
    | none => none
    | some (.error _) => some s
    | some (.ok transfer) => some (s.loadPeer env t transfer)
  | .evict t => some ⟨Function.update s.archives t none⟩

/-- The cache of one node as a machine. -/
def machine (env : PmtilesEnv M) (chunkSize : Nat) (object : T → Bytes) : Machine (ArchiveCache T M) (BootstrapAction T) :=
  ⟨.new, step env chunkSize object⟩

end ArchiveCache

/-- What the object store answers to the two reads of a bootstrap transfer. -/
structure TransferReads where
  bootstrap : Except StorageError Bytes
  metadata : Except StorageError Bytes

/-- The bootstrap of a transfer: the raw bytes, if they are still in the cache, and what is read otherwise. -/
def transferBootstrap (chunkSize : Nat) (archive : ArchiveBootstrap M) (cached : Option Bytes) (reads : TransferReads) :
    Except StorageError Bytes :=
  match cached with
  | some bytes => .ok bytes
  | none => readRange chunkSize 0 (min archive.archiveLen minBootstrapBytes) reads.bootstrap

/-- The metadata of a transfer, if it is asked for and there is any. -/
def transferMetadata (chunkSize : Nat) (archive : ArchiveBootstrap M) (includeMetadata : Bool) (reads : TransferReads) :
    Except StorageError (Option Bytes) :=
  if includeMetadata ∧ archive.header.metadata.length > 0 then
    match readRange chunkSize archive.header.metadata.offset archive.header.metadata.length reads.metadata with
    | .error e => .error e
    | .ok bytes => .ok (some bytes)
  else .ok none

/-- `load_bootstrap_bytes_local`, once `load_bootstrap_local` has given the archive. -/
def loadBootstrapBytesLocal (chunkSize : Nat) (archive : ArchiveBootstrap M) (cached : Option Bytes) (includeMetadata : Bool)
    (reads : TransferReads) : Except StorageError BootstrapTransfer := do
  let bootstrap ← transferBootstrap chunkSize archive cached reads
  let metadata ← transferMetadata chunkSize archive includeMetadata reads
  .ok ⟨bootstrap, metadata⟩

end Biei
