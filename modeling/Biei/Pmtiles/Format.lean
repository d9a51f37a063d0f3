import Biei.Basic
import Biei.Lib.Slice

/-!
# The PMTiles format

`format.rs` of the PMTiles crate: the header of an archive, its directories with their varints and columns, and the ids of tiles.
The decoders of the compressions are not part of the repository; a decoder is what it gives when so many bytes are read of it.
-/

namespace Biei

/-- An error with what was being done. -/
def context {α : Type} (text : String) : Except String α → Except String α
  | .ok a => .ok a
  | .error e => .error (text ++ ": " ++ e)

/-! ## Compressions and tile types -/

inductive Compression where
  | unknown
  | none
  | gzip
  | brotli
  | zstd
deriving DecidableEq, Repr

def Compression.tryFrom (value : UInt8) : Except String Compression :=
  match value.toNat with
  | 0 => .ok .unknown
  | 1 => .ok .none
  | 2 => .ok .gzip
  | 3 => .ok .brotli
  | 4 => .ok .zstd
  | n => .error ("invalid PMTiles compression " ++ toString n)

inductive TileType where
  | unknown
  | mvt
  | png
  | jpeg
  | webp
  | avif
  | mlt
deriving DecidableEq, Repr

def TileType.tryFrom (value : UInt8) : Except String TileType :=
  match value.toNat with
  | 0 => .ok .unknown
  | 1 => .ok .mvt
  | 2 => .ok .png
  | 3 => .ok .jpeg
  | 4 => .ok .webp
  | 5 => .ok .avif
  | 6 => .ok .mlt
  | n => .error ("invalid PMTiles tile type " ++ toString n)

def mltContentType : String := "application/vnd.maplibre-tile"

/-- `content_type`. -/
def TileType.contentType : TileType → String
  | .mvt => "application/vnd.mapbox-vector-tile"
  | .png => "image/png"
  | .jpeg => "image/jpeg"
  | .webp => "image/webp"
  | .avif => "image/avif"
  | .mlt => mltContentType
  | .unknown => "application/octet-stream"

/-- `content_encoding`. -/
def Compression.contentEncoding : Compression → Option String
  | .gzip => some "gzip"
  | .brotli => some "br"
  | .zstd => some "zstd"
  | .unknown => Option.none
  | .none => Option.none

/-- The bytes of a tile and the metadata it is served with. -/
structure TileData where
  bytes : Bytes
  contentType : String
  contentEncoding : Option String
deriving DecidableEq

/-- The decoders of the compressions: what is read of the decoded bytes, up to a limit. -/
structure Decoders where
  read : Compression → Bytes → Nat → Except String Bytes
  length_le : ∀ compression bytes limit decoded, read compression bytes limit = .ok decoded → decoded.length ≤ limit

def Decoders.decompressBytesWithLimit (decoders : Decoders) (compression : Compression) (bytes : Bytes) (maxBytes : Nat) :
    Except String Bytes :=
  let tooLarge := "PMTiles payload exceeds " ++ toString maxBytes ++ " decompressed bytes"
  match compression with
  | .none => if bytes.length > maxBytes then .error tooLarge else .ok bytes
  | .unknown => .error "unsupported PMTiles compression"
  | compression =>
    match checkedAdd maxBytes 1 with
    | .none => .error "decompression limit overflow"
    | some readLimit =>
      match decoders.read compression bytes readLimit with
      | .error e => .error e
      | .ok decompressed => if decompressed.length > maxBytes then .error tooLarge else .ok decompressed

/-! ## The header -/

def headerSize : Nat := 127

/-- A part of an archive, whose end is a `u64` too. -/
structure Section where
  offset : Nat
  length : Nat
  fits : offset + length < u64Bound
deriving DecidableEq

def Section.stop (s : Section) : Nat := s.offset + s.length

/-- The check of a part that the header declares. -/
def Section.parse (name : String) (offset length : Nat) : Except String Section :=
  if h : offset + length < u64Bound then .ok ⟨offset, length, h⟩ else .error ("PMTiles " ++ name ++ " range overflows u64")

/-- The parsed header, as far as an archive is read by it. -/
structure Header where
  root : Section
  metadata : Section
  leaf : Section
  data : Section
  internalCompression : Compression
  tileCompression : Compression
  tileType : TileType
  minZoom : UInt8
  maxZoom : UInt8
deriving DecidableEq

/-- The bytes of `PMTiles`. -/
def magic : Bytes := [80, 77, 84, 105, 108, 101, 115]

/-- `get_u64_le` at a position. -/
def u64LeAt (bytes : Bytes) (i : Nat) : Nat := ofLeBytes (slice bytes i (i + 8))

/-- `get_u8` at a position. -/
def u8At (bytes : Bytes) (i : Nat) : UInt8 := bytes.getD i 0

def Header.parse (bytes : Bytes) : Except String Header := do
  if bytes.length < headerSize then
    .error ("PMTiles header is truncated: expected " ++ toString headerSize ++ " bytes, got " ++ toString bytes.length)
  else if slice bytes 0 7 ≠ magic then .error "invalid PMTiles magic"
  else if u8At bytes 7 ≠ 3 then
    .error ("unsupported PMTiles version " ++ toString (u8At bytes 7) ++ "; expected 3")
  else
    let internalCompression ← Compression.tryFrom (u8At bytes 97)
    let tileCompression ← Compression.tryFrom (u8At bytes 98)
    let tileType ← TileType.tryFrom (u8At bytes 99)
    let root ← Section.parse "root directory" (u64LeAt bytes 8) (u64LeAt bytes 16)
    let metadata ← Section.parse "metadata" (u64LeAt bytes 24) (u64LeAt bytes 32)
    let leaf ← Section.parse "leaf directory" (u64LeAt bytes 40) (u64LeAt bytes 48)
    let data ← Section.parse "tile data" (u64LeAt bytes 56) (u64LeAt bytes 64)
    .ok
      { root, metadata, leaf, data, internalCompression, tileCompression, tileType
        minZoom := u8At bytes 100
        maxZoom := u8At bytes 101 }

/-- `archive_len`: the end of the last part. That no part overflows was checked with the header. -/
def Header.archiveLen (header : Header) : Nat :=
  max (max (max header.root.stop header.metadata.stop) header.leaf.stop) header.data.stop

/-! ## Directories -/

structure DirectoryEntry where
  tileId : Nat
  offset : Nat
  length : Nat
  runLength : Nat
deriving DecidableEq, Repr

structure Directory where
  entries : List DirectoryEntry
deriving DecidableEq, Repr

/-- The loop of `read_u64_varint`, with the bits gathered so far and the place of the next. -/
def readU64VarintLoop (shift value : Nat) : Bytes → Except String (Nat × Bytes)
  | [] => .error "unexpected EOF while reading PMTiles varint"
  | byte :: rest =>
    let payload := byte.toNat % 128
    if shift = 63 ∧ payload > 1 then .error "invalid PMTiles varint: value exceeds u64"
    else
      let value := value ||| payload <<< shift
      if byte.toNat < 128 then .ok (value, rest)
      else if shift + 7 ≥ 64 then .error "invalid PMTiles varint: value exceeds u64"
      else readU64VarintLoop (shift + 7) value rest

def readU64Varint (buffer : Bytes) : Except String (Nat × Bytes) := readU64VarintLoop 0 0 buffer

/-- A column of a directory: each varint is decoded with the value before it. -/
def readColumn (decode : Option Nat → Nat → Except String Nat) : Nat → Option Nat → Bytes → Except String (List Nat × Bytes)
  | 0, _, buffer => .ok ([], buffer)
  | n + 1, previous, buffer => do
    let (raw, buffer) ← readU64Varint buffer
    let value ← decode previous raw
    let (values, buffer) ← readColumn decode n (some value) buffer
    .ok (value :: values, buffer)

def decodeTileId (previous : Option Nat) (delta : Nat) : Except String Nat :=
  match checkedAdd (previous.getD 0) delta with
  | some tileId => .ok tileId
  | none => .error "PMTiles directory tile id overflow"

def decodeU32 (_ : Option Nat) (raw : Nat) : Except String Nat :=
  if raw < 2 ^ 32 then .ok raw else .error "varint does not fit into u32"

/-- The column of offsets: a zero stands for the end of the entry before. -/
def readOffsets : List Nat → Option (Nat × Nat) → Bytes → Except String (List Nat × Bytes)
  | [], _, buffer => .ok ([], buffer)
  | length :: lengths, previous, buffer => do
    let (raw, buffer) ← readU64Varint buffer
    let offset ←
      if raw = 0 then
        match previous with
        | none => .error "invalid PMTiles directory entry"
        | some (previousOffset, previousLength) =>
          match checkedAdd previousOffset previousLength with
          | some offset => .ok offset
          | none => .error "PMTiles directory offset overflow"
      else .ok (raw - 1)
    let (offsets, buffer) ← readOffsets lengths (some (offset, length)) buffer
    .ok (offset :: offsets, buffer)

def Directory.parseWithLimit (decoders : Decoders) (compression : Compression) (bytes : Bytes) (maxDecompressedBytes : Nat) :
    Except String Directory := do
  let decompressed ← decoders.decompressBytesWithLimit compression bytes maxDecompressedBytes
  let (nEntries, buffer) ← readU64Varint decompressed
  match checkedMul nEntries 4 with
  | none => .error "PMTiles directory entry count overflow"
  | some minimumEncodedLen =>
    if minimumEncodedLen > buffer.length then
      .error ("PMTiles directory declares " ++ toString nEntries ++ " entries but only " ++ toString buffer.length ++
        " encoded bytes remain")
    else
      let (tileIds, buffer) ← readColumn decodeTileId nEntries none buffer
      let (runLengths, buffer) ← readColumn decodeU32 nEntries none buffer
      let (lengths, buffer) ← readColumn decodeU32 nEntries none buffer
      let (offsets, _) ← readOffsets lengths none buffer
      .ok ⟨(List.zip (List.zip tileIds offsets) (List.zip lengths runLengths)).map
        fun (((tileId, offset), (length, runLength))) =>
        ⟨tileId, offset, length, runLength⟩⟩

/-! ## Tile coordinates and ids -/

def maxZoom : Nat := 31

/-- `checked_shl` of the number one, in 64 bits. -/
def checkedShlOne (amount : Nat) : Option Nat := if amount < 64 then some (2 ^ amount % u64Bound) else none

/-- A shift in range is a power of two. -/
theorem checkedShlOne_eq {amount : Nat} (h : amount < 64) : checkedShlOne amount = some (2 ^ amount) := by
  rw [checkedShlOne, if_pos h, u64Bound, Nat.mod_eq_of_lt (Nat.pow_lt_pow_right (by decide) h)]

/-- The coordinates of a tile, checked. -/
structure TileCoord where
  z : UInt8
  x : UInt32
  y : UInt32
  valid : z.toNat ≤ maxZoom ∧ x.toNat < 2 ^ z.toNat ∧ y.toNat < 2 ^ z.toNat

/-- What the checks of `new` leave is in range. -/
theorem TileCoord.valid_of_extent {z : UInt8} {x y : UInt32} {extent : Nat} (hextent : checkedShlOne z.toNat = some extent)
    (h : ¬ (z.toNat > maxZoom ∨ x.toNat ≥ extent ∨ y.toNat ≥ extent)) :
    z.toNat ≤ maxZoom ∧ x.toNat < 2 ^ z.toNat ∧ y.toNat < 2 ^ z.toNat := by
  obtain ⟨hz, hx, hy⟩ : z.toNat ≤ maxZoom ∧ x.toNat < extent ∧ y.toNat < extent := by omega
  have hshift : z.toNat < 64 := Nat.lt_of_le_of_lt hz (by decide)
  rw [checkedShlOne_eq hshift] at hextent
  exact ⟨hz, Option.some.inj hextent ▸ hx, Option.some.inj hextent ▸ hy⟩

def TileCoord.new (z : UInt8) (x y : UInt32) : Except String TileCoord :=
  match hextent : checkedShlOne z.toNat with
  | none => .error "invalid zoom level"
  | some extent =>
    if h : z.toNat > maxZoom ∨ x.toNat ≥ extent ∨ y.toNat ≥ extent then
      .error ("invalid tile coordinate z=" ++ toString z ++ " x=" ++ toString x ++ " y=" ++ toString y)
    else .ok ⟨z, x, y, valid_of_extent hextent h⟩

/-- The tiles of the zooms below. -/
def pyramidSizeBeforeZoom (z : UInt8) : Nat :=
  match checkedShlOne (z.toNat * 2) with
  | some count => (count - 1) / 3
  | none => (u64Bound - 1) / 3

/-- `TileId::from`: none if the sum is no `u64`. The curve is in a library. -/
def tileIdFrom (xy2h : UInt32 → UInt32 → UInt8 → UInt64) (coord : TileCoord) : Option Nat :=
  if coord.z = 0 then some 0 else checkedAdd (pyramidSizeBeforeZoom coord.z) (xy2h coord.x coord.y coord.z).toNat

end Biei
