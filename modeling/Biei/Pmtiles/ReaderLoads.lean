import Biei.Common.FlightTable
import Biei.Pmtiles.Bootstrap

/-!
# Loads of bootstraps and leaf directories

`load_bootstrap_with_metadata`, `load_bootstrap_local` and `load_leaf_directory` of `reader.rs`: each loops between the shared
cache and the election of a leader. The leader asks a peer, unless the load is a local one, then the backend; what they answer is
the environment's choice. Followers wait for the leader and look again.
-/

namespace Biei

/-! ## Errors -/

/-- `StorageError`, displayed. -/
def StorageError.display : StorageError → String
  | .notFound => "archive not found"
  | .overloaded text => text
  | .timeout text => text
  | .backend text => text
  | .message text => text

/-- An error of the reader: the chain of its texts, or the contexts that a storage error was given. -/
inductive AnyhowError where
  | plain (chain : String)
  | storage (contexts : List String) (err : StorageError)
deriving DecidableEq

/-- `ReaderFlightError`. -/
structure ReaderFlightError where
  message : String
  storage : Option StorageError
deriving DecidableEq

def ReaderFlightError.capture : AnyhowError → ReaderFlightError
  | .plain chain => ⟨chain, none⟩
  | .storage contexts err => ⟨contexts.headD err.display, some err⟩

def ReaderFlightError.intoError (e : ReaderFlightError) : AnyhowError :=
  match e.storage with
  | none => .plain e.message
  | some err => if e.message = err.display then .storage [] err else .storage [e.message] err

/-! ## What is loaded -/

/-- A call, with the arguments its loop depends on. -/
inductive Load (T : Type) where
  | bootstrap (t : T) (includeMetadata : Bool)
  | bootstrapLocal (t : T)
  | leafDirectory (t : T) (offset length : Nat) (compression : Compression) (archiveLen : Nat)

/-- The keys of `bootstrap_inflight` and of `leaf_inflight`. -/
inductive LoadKey (T : Type) where
  | bootstrap (t : T)
  | leaf (t : T) (offset length : Nat)
deriving DecidableEq

def Load.key {T : Type} : Load T → LoadKey T
  | .bootstrap t _ => .bootstrap t
  | .bootstrapLocal t => .bootstrap t
  | .leafDirectory t offset length _ _ => .leaf t offset length

inductive LoadValue (M : Type) where
  | archive (archive : ArchiveBootstrap M)
  | directory (directory : Directory)

abbrev LoadResult (M : Type) := Except AnyhowError (Option (LoadValue M))

/-- The caches that all loads share. -/
structure ReaderCaches (T M : Type) where
  archives : ArchiveCache T M
  absent : T → Bool
  leafs : T × Nat × Nat → Option Directory

section

variable {T M : Type}

namespace ReaderCaches

def new : ReaderCaches T M := ⟨⟨fun _ => none⟩, fun _ => false, fun _ => none⟩

/-- `get` or `get_leaf`. -/
def lookUp (c : ReaderCaches T M) : Load T → Option (LoadValue M)
  | .bootstrap t _ => (c.archives.archives t).map fun cached => .archive cached.archive
  | .bootstrapLocal t => (c.archives.archives t).map fun cached => .archive cached.archive
  | .leafDirectory t offset length _ _ => (c.leafs (t, offset, length)).map .directory

/-- `is_known_absent`; a leaf is never. -/
def isKnownAbsent (c : ReaderCaches T M) : Load T → Bool
  | .bootstrap t _ => c.absent t
  | .bootstrapLocal t => c.absent t
  | .leafDirectory .. => false

variable [DecidableEq T]

def put (c : ReaderCaches T M) (t : T) (archive : ArchiveBootstrap M) (bootstrap : Bytes) : ReaderCaches T M :=
  { c with archives := c.archives.put t archive bootstrap, absent := Function.update c.absent t false }

def markAbsent (c : ReaderCaches T M) (t : T) : ReaderCaches T M := { c with absent := Function.update c.absent t true }

def putLeaf (c : ReaderCaches T M) (t : T) (offset length : Nat) (directory : Directory) : ReaderCaches T M :=
  { c with leafs := Function.update c.leafs (t, offset, length) (some directory) }

end ReaderCaches

/-! ## A leader's attempt -/

/-- What a peer answers. -/
inductive PeerReply where
  | failed (error : String)
  | nothing
  | transfer (transfer : BootstrapTransfer)
  | body (body : Bytes)

/-- What an attempt has come to: it goes on at the backend, or is over. -/
inductive LoadAttempt (T M : Type) where
  | fallBack
  | done (caches : ReaderCaches T M) (result : LoadResult M)

/-- `read_directory_from_backend` and `decode_bootstrap_bytes` pass on what they fail with. -/
def LoadAttempt.failed (c : ReaderCaches T M) (chain : String) : LoadAttempt T M := .done c (.error (.plain chain))

variable [DecidableEq T] (env : PmtilesEnv M)

/-- A bootstrap with its metadata, as a peer sent them. -/
def decodeTransfer (transfer : BootstrapTransfer) : Except String (ArchiveBootstrap M) := do
  let archive ← context "failed to decode bootstrap from peer"
    (decodeBootstrapBytes env transfer.bootstrap defaultMaxDecompressedBytes)
  match transfer.metadata with
  | none => .ok archive
  | some bytes =>
    let metadata ← context "failed to decode metadata from peer"
      (decodeMetadataBytes env archive.header bytes defaultMaxDecompressedBytes)
    .ok { archive with metadata := some metadata }

/-- What `load_bootstrap_uncached` and `load_leaf_directory_uncached` make of the peer's answer. -/
def afterPeer (c : ReaderCaches T M) (load : Load T) (reply : PeerReply) : Option (LoadAttempt T M) :=
  match load, reply with
  | .bootstrap t _, .transfer transfer =>
    match decodeTransfer env transfer with
    | .error e => some (.failed c e)
    | .ok archive => some (.done (c.put t archive transfer.bootstrap) (.ok (some (.archive archive))))
  | .leafDirectory t offset length compression _, .body body =>
    match context "failed to decode leaf directory from peer"
        (Directory.parseWithLimit env.decoders compression body defaultMaxDecompressedBytes) with
    | .error e => some (.failed c e)
    | .ok directory => some (.done (c.putLeaf t offset length directory) (.ok (some (.directory directory))))
  | .bootstrap .., .nothing => some .fallBack
  | .bootstrap .., .failed _ => some .fallBack
  | .leafDirectory .., .nothing => some .fallBack
  | .leafDirectory .., .failed _ => some .fallBack
  | .bootstrap .., .body _ => none
  | .leafDirectory .., .transfer _ => none
  | .bootstrapLocal _, _ => none

/-- `load_bootstrap_local_uncached` with what was read. -/
def bootstrapFromBackend (c : ReaderCaches T M) (t : T) (answer : Except StorageError Bytes) : ReaderCaches T M × LoadResult M :=
  match answer with
  | .error .notFound => (c.markAbsent t, .ok none)
  | .error err => (c, .error (.storage ["failed to read PMTiles header"] err))
  | .ok initialBytes =>
    match decodeBootstrapBytes env initialBytes defaultMaxDecompressedBytes with
    | .error e => (c, .error (.plain e))
    | .ok archive => (c.put t archive initialBytes, .ok (some (.archive archive)))

/-- The last part of `load_leaf_directory_uncached` with what was read. -/
def leafFromBackend (c : ReaderCaches T M) (t : T) (offset length : Nat) (compression : Compression)
    (answer : Except StorageError Bytes) : ReaderCaches T M × LoadResult M :=
  match answer with
  | .error err => (c, .error (.storage ["failed to read directory"] err))
  | .ok bytes =>
    match Directory.parseWithLimit env.decoders compression bytes defaultMaxDecompressedBytes with
    | .error e => (c, .error (.plain e))
    | .ok directory => (c.putLeaf t offset length directory, .ok (some (.directory directory)))

def afterBackend (c : ReaderCaches T M) (load : Load T) (answer : Except StorageError Bytes) : ReaderCaches T M × LoadResult M :=
  match load with
  | .bootstrap t _ => bootstrapFromBackend env c t answer
  | .bootstrapLocal t => bootstrapFromBackend env c t answer
  | .leafDirectory t offset length compression _ => leafFromBackend env c t offset length compression answer

/-! ## The callers -/

inductive LoadPhase (M : Type) where
  /-- At the top of the loop. -/
  | looping
  /-- The cache has missed. -/
  | missed
  | electing
  | asking (g : Nat)
  | reading (g : Nat)
  | loaded (g : Nat) (result : LoadResult M)
  /-- The guard is dropped: with the result, or for a caller that was cancelled. -/
  | ending (g : Nat) (result : Option (LoadResult M))
  | following (f : Nat)
  /-- The load returned; a caller that led did so with its guard. -/
  | returned (led : Option Nat) (result : LoadResult M)
  | cancelled

/-- A caller, with the followers it has waited with so far. -/
structure LoadCaller (T M : Type) where
  load : Load T
  phase : LoadPhase M
  waited : List Nat

structure ReaderLoads (T M : Type) where
  caches : ReaderCaches T M
  flights : FlightTable (LoadKey T) ReaderFlightError
  callers : List (LoadCaller T M)

/-- The steps of a guard that is being dropped. -/
inductive DropStep where
  | remove
  | send
  | close
deriving DecidableEq

def DropStep.toFlightStep (step : DropStep) (g : Nat) : FlightStep (LoadKey T) ReaderFlightError :=
  match step with
  | .remove => .remove g
  | .send => .send g
  | .close => .close g

/-- The steps of a caller, with what it is answered. -/
inductive LoadStep where
  | lookUp
  | checkAbsent
  | elect
  | peerAnswers (reply : PeerReply)
  | backendAnswers (answer : Except StorageError Bytes)
  | complete
  | finish
  | wake
  | read
  | cancel

/-- What happens: a call, a step of a caller, a step of a guard that is being dropped, and whatever else becomes of the caches. -/
inductive LoadAction (T M : Type) where
  | call (load : Load T)
  | move (i : Nat) (step : LoadStep)
  | dropStep (g : Nat) (step : DropStep)
  | others (caches : ReaderCaches T M)

namespace ReaderLoads

def new : ReaderLoads T M := ⟨.new, .empty, []⟩

def setPhase (s : ReaderLoads T M) (i : Nat) (caller : LoadCaller T M) (phase : LoadPhase M) : ReaderLoads T M :=
  { s with callers := s.callers.set i { caller with phase := phase } }

/-- A step of the flights, with what becomes of the caller after it. -/
def withFlights (s : ReaderLoads T M) (i : Nat) (caller : LoadCaller T M) (step : FlightStep (LoadKey T) ReaderFlightError)
    (phase : LoadPhase M) : Option (ReaderLoads T M) :=
  (s.flights.step step).map fun flights => { s.setPhase i caller phase with flights := flights }

/-- `begin`: the caller leads, or follows. -/
def elect (s : ReaderLoads T M) (i : Nat) (caller : LoadCaller T M) : Option (ReaderLoads T M) :=
  match s.flights.entries caller.load.key, caller.load with
  | some _, _ => s.withFlights i caller (.begin caller.load.key) (.following s.flights.followers.length)
  | none, .bootstrapLocal _ => s.withFlights i caller (.begin caller.load.key) (.reading s.flights.guards.length)
  | none, .bootstrap .. => s.withFlights i caller (.begin caller.load.key) (.asking s.flights.guards.length)
  | none, .leafDirectory .. => s.withFlights i caller (.begin caller.load.key) (.asking s.flights.guards.length)

/-- `complete_reader_flight`. -/
def complete (s : ReaderLoads T M) (i : Nat) (caller : LoadCaller T M) : Option (ReaderLoads T M) :=
  match caller.phase with
  | .loaded g (.error err) => s.withFlights i caller (.completeWith g (.capture err)) (.ending g (some (.error err)))
  | .loaded g (.ok value) => s.withFlights i caller (.drop g) (.ending g (some (.ok value)))
  | _ => none

/-- The guard is gone, and the load returns. -/
def finish (s : ReaderLoads T M) (i : Nat) (caller : LoadCaller T M) : Option (ReaderLoads T M) :=
  match caller.phase with
  | .ending g result =>
    match s.flights.guards[g]?.map LeaderGuard.phase with
    | some .ended => some (s.setPhase i caller (result.elim .cancelled (.returned (some g))))
    | _ => none
  | _ => none

/-- `wait_reader_flight`, once the channel has been read. -/
def read (s : ReaderLoads T M) (i : Nat) (caller : LoadCaller T M) : Option (ReaderLoads T M) :=
  match caller.phase with
  | .following f =>
    (s.flights.step (.read f)).bind fun flights =>
      match flights.followers[f]?.map Follower.phase with
      | some (.returned (some e)) =>
        some { s.setPhase i caller (.returned none (.error e.intoError)) with flights := flights }
      | some (.returned none) =>
        some { s with flights := flights, callers := s.callers.set i ⟨caller.load, .looping, caller.waited ++ [f]⟩ }
      | _ => none
  | _ => none

/-- The caller is dropped where it awaits something. -/
def cancel (s : ReaderLoads T M) (i : Nat) (caller : LoadCaller T M) : Option (ReaderLoads T M) :=
  match caller.phase with
  | .asking g => s.withFlights i caller (.drop g) (.ending g none)
  | .reading g => s.withFlights i caller (.drop g) (.ending g none)
  | .following f => s.withFlights i caller (.cancel f) .cancelled
  | _ => none

/-- A step of one caller. -/
def callerStep (s : ReaderLoads T M) (i : Nat) (caller : LoadCaller T M) (step : LoadStep) : Option (ReaderLoads T M) :=
  match step, caller.phase with
  | .lookUp, .looping =>
    match s.caches.lookUp caller.load with
    | some value => some (s.setPhase i caller (.returned none (.ok (some value))))
    | none => some (s.setPhase i caller .missed)
  | .checkAbsent, .missed =>
    if s.caches.isKnownAbsent caller.load then some (s.setPhase i caller (.returned none (.ok none)))
    else some (s.setPhase i caller .electing)
  | .elect, .electing => s.elect i caller
  | .peerAnswers reply, .asking g =>
    match afterPeer env s.caches caller.load reply with
    | some .fallBack => some (s.setPhase i caller (.reading g))
    | some (.done caches result) => some { s.setPhase i caller (.loaded g result) with caches := caches }
    | none => none
  | .backendAnswers answer, .reading g =>
    let (caches, result) := afterBackend env s.caches caller.load answer
    some { s.setPhase i caller (.loaded g result) with caches := caches }
  | .complete, _ => s.complete i caller
  | .finish, _ => s.finish i caller
  | .wake, .following f => s.withFlights i caller (.wake f) (.following f)
  | .read, _ => s.read i caller
  | .cancel, _ => s.cancel i caller
  | _, _ => none

def step (s : ReaderLoads T M) : LoadAction T M → Option (ReaderLoads T M)
  | .call load => some { s with callers := s.callers ++ [⟨load, .looping, []⟩] }
  | .move i m => s.callers[i]?.bind fun caller => s.callerStep env i caller m
  | .dropStep g m => (s.flights.step (m.toFlightStep g)).map fun flights => { s with flights := flights }
  | .others caches => some { s with caches := caches }

def machine : Machine (ReaderLoads T M) (LoadAction T M) where
  init := new
  step := step env

end ReaderLoads

end

end Biei
