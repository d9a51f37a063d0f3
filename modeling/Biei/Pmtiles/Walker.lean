import Biei.Lib.BinarySearch
import Biei.Pmtiles.Bootstrap

/-!
# From a tile id to its bytes

`DirectoryWalker` of `reader.rs` and the reader that drives it: from the root directory over the leaf directories that it asks a
backend for, to the part of the archive that holds the tile. The backend answers what it likes, also by what it was asked before.
-/

namespace Biei

def maxTileId : Nat := 6148914691236517204

/-- `TileId::new`. -/
def tileIdNew (value : Nat) : Except String Nat :=
  if value > maxTileId then .error ("invalid tile id " ++ toString value) else .ok value

/-! ## Directories -/

/-- An entry that points to a leaf directory. -/
def DirectoryEntry.isLeaf (e : DirectoryEntry) : Bool := e.runLength == 0

/-- The search among the tile ids of the entries. -/
def Directory.searchTileId (d : Directory) (tileId : Nat) : Except Nat Nat :=
  BinarySearch.binarySearchBy (fun e : DirectoryEntry => compare e.tileId tileId) d.entries

/-- The entry that holds the tile id, or that points to where it is. -/
def Directory.findTileId (d : Directory) (tileId : Nat) : Option (Nat × DirectoryEntry) :=
  match d.searchTileId tileId with
  | .ok index => (d.entries[index]?).map fun entry => (index, entry)
  | .error 0 => none
  | .error (before + 1) =>
    match d.entries[before]? with
    | none => none
    | some previous =>
      -- the search has left an entry before whose id is less
      if previous.isLeaf || tileId - previous.tileId < previous.runLength then some (before, previous) else none

/-! ## The walker -/

structure ArchiveRange where
  offset : Nat
  length : Nat
deriving DecidableEq

structure TileLocation where
  offset : Nat
  length : Nat
  archiveLen : Nat
deriving DecidableEq

inductive DirectoryStep where
  | missing
  | leaf (range : ArchiveRange)
  | tile (location : TileLocation)
deriving DecidableEq

def checkedSectionOffset (name : String) (s : Section) (relativeOffset length : Nat) : Except String Nat :=
  match checkedAdd relativeOffset length with
  | none => .error ("PMTiles " ++ name ++ " entry range overflows u64")
  | some relativeEnd =>
    if relativeEnd > s.length then
      .error ("PMTiles " ++ name ++ " entry range " ++ toString relativeOffset ++ ".." ++ toString relativeEnd ++
        " exceeds section length " ++ toString s.length)
    else
      match checkedAdd s.offset relativeOffset with
      | none => .error ("PMTiles " ++ name ++ " absolute offset overflows u64")
      | some offset => .ok offset

structure DirectoryWalker where
  header : Header
  archiveLen : Nat
  tileId : Nat
  depth : Nat
  maxDepth : Nat

namespace DirectoryWalker

def new (header : Header) (tileId maxDepth : Nat) : Except String DirectoryWalker :=
  if maxDepth = 0 then .error "PMTiles directory depth limit must be greater than zero"
  else .ok ⟨header, header.archiveLen, tileId, 0, maxDepth⟩

/-- One directory: the walker goes on to a leaf, is at the tile, or there is none. -/
def step (w : DirectoryWalker) (directory : Directory) : Except String (DirectoryWalker × DirectoryStep) :=
  match directory.findTileId w.tileId with
  | none => .ok (w, .missing)
  | some (_, entry) =>
    if entry.isLeaf then
      if w.depth ≥ w.maxDepth then .error ("PMTiles directory depth exceeds " ++ toString w.maxDepth)
      else
        match checkedSectionOffset "leaf directory" w.header.leaf entry.offset entry.length with
        | .error e => .error e
        | .ok offset => .ok ({ w with depth := w.depth + 1 }, .leaf ⟨offset, entry.length⟩)
    else
      match checkedSectionOffset "tile data" w.header.data entry.offset entry.length with
      | .error e => .error e
      | .ok offset => .ok (w, .tile ⟨offset, entry.length, w.archiveLen⟩)

end DirectoryWalker

/-! ## The reader -/

/-- The limits of a reader that bear on where a tile is. -/
structure ReaderLimits where
  maxRangeBytes : Nat
  maxDirectoryDepth : Nat

structure LeafDirectoryRequest where
  offset : Nat
  length : Nat
  compression : Compression
  archiveLen : Nat
deriving DecidableEq

/-- A read of a tile, whose kind is left out. -/
structure ReadRequest where
  offset : Nat
  length : Nat
  archiveLen : Option Nat
deriving DecidableEq

/-- What a reader asks, with the leaves it asked for before, and how the backend names what is wrong. -/
structure ArchiveBackend (E M : Type) where
  loadBootstrap : Except E (ArchiveBootstrap M)
  loadLeaf : List LeafDirectoryRequest → LeafDirectoryRequest → Except E Directory
  readRange : ReadRequest → Except E Bytes
  invalidTileId : String → E
  invalidArchive : String → E

section

variable {E M : Type} (backend : ArchiveBackend E M) (limits : ReaderLimits)

def checkRange (offset length : Nat) : Except E Unit :=
  if length > limits.maxRangeBytes then
    .error (backend.invalidArchive ("archive range length " ++ toString length ++ " exceeds max_range_bytes " ++
      toString limits.maxRangeBytes))
  else
    match checkedAdd offset length with
    | none => .error (backend.invalidArchive ("archive range at offset " ++ toString offset ++ " length " ++ toString length ++
        " overflows the archive address space"))
    | some _ => .ok ()

/-- The loop of `resolve_tile_location`, in as many turns as there is fuel for, with the leaves it has asked for. -/
def resolveLoop (header : Header) (archiveLen : Nat) : Nat → DirectoryWalker → Directory → List LeafDirectoryRequest →
    Option (List LeafDirectoryRequest × Except E (Option TileLocation))
  | 0, _, _, _ => none
  | fuel + 1, walker, directory, asked =>
    match walker.step directory with
    | .error e => some (asked, .error (backend.invalidArchive e))
    | .ok (_, .missing) => some (asked, .ok none)
    | .ok (_, .tile location) => some (asked, .ok (some location))
    | .ok (walker, .leaf range) =>
      match checkRange backend limits range.offset range.length with
      | .error e => some (asked, .error e)
      | .ok () =>
        let request : LeafDirectoryRequest := ⟨range.offset, range.length, header.internalCompression, archiveLen⟩
        match backend.loadLeaf asked request with
        | .error e => some (asked ++ [request], .error e)
        | .ok directory => resolveLoop header archiveLen fuel walker directory (asked ++ [request])

/-- `resolve_tile_location`, with the leaves that were asked for. -/
def resolveTileLocation (fuel tileId : Nat) :
    Option (List LeafDirectoryRequest × Except E (Option TileLocation × Header × Nat)) :=
  match tileIdNew tileId with
  | .error e => some ([], .error (backend.invalidTileId e))
  | .ok tileId =>
    match backend.loadBootstrap with
    | .error e => some ([], .error e)
    | .ok bootstrap =>
      match DirectoryWalker.new bootstrap.header tileId limits.maxDirectoryDepth with
      | .error e => some ([], .error (backend.invalidArchive e))
      | .ok walker =>
        (resolveLoop backend limits bootstrap.header bootstrap.archiveLen fuel walker bootstrap.root []).map fun resolved =>
          (resolved.1, resolved.2.map fun location => (location, bootstrap.header, bootstrap.archiveLen))

/-- `get_tile`, with what is read of the archive for it. -/
def getTile (fuel tileId : Nat) : Option (List ReadRequest × Except E (Option TileData)) :=
  match resolveTileLocation backend limits fuel tileId with
  | none => none
  | some (_, .error e) => some ([], .error e)
  | some (_, .ok (none, _, _)) => some ([], .ok none)
  | some (_, .ok (some location, header, _)) =>
    match checkRange backend limits location.offset location.length with
    | .error e => some ([], .error e)
    | .ok () =>
      let request : ReadRequest := ⟨location.offset, location.length, some location.archiveLen⟩
      match backend.readRange request with
      | .error e => some ([request], .error e)
      | .ok bytes => some ([request], .ok (some ⟨bytes, header.tileType.contentType, header.tileCompression.contentEncoding⟩))

end

end Biei
