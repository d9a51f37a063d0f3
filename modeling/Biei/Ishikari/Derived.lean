import Biei.Ishikari.InternalPath
import Biei.Pmtiles.Format
import Biei.Provider.Fetch

/-!
# Derived terrain tiles

`terrain/mod.rs` and `terrain/product.rs`: a request for a tile that is derived from terrain, which a node passes on to the owner
of the tile by an internal path, and the wire form that the owner answers in. Terrain generation, compression and transcoding are
functions of the environment, as are what `fast_hilbert` and `f32` make of their arguments.
-/

namespace Biei.Ishikari

open Provider (HttpError)

/-! ## Products and formats -/

inductive DerivedProduct where
  | contours
  | hillshade
  | hillshadeRaster
  | hillshadeWebpLossy
  | hillshadeJpeg
deriving DecidableEq, Repr

namespace DerivedProduct

def parse (value : String) : Except HttpError DerivedProduct :=
  if value = "contours" then .ok .contours
  else if value = "hillshade" then .ok .hillshade
  else if value = "hillshade-raster" then .ok .hillshadeRaster
  else if value = "hillshade-webp-lossy" then .ok .hillshadeWebpLossy
  else if value = "hillshade-jpeg" then .ok .hillshadeJpeg
  else .error ⟨404, "derived product not found"⟩

def path : DerivedProduct → String
  | .contours => "contours"
  | .hillshade => "hillshade"
  | .hillshadeRaster => "hillshade-raster"
  | .hillshadeWebpLossy => "hillshade-webp-lossy"
  | .hillshadeJpeg => "hillshade-jpeg"

def isRaster : DerivedProduct → Bool
  | .hillshadeRaster => true
  | .hillshadeWebpLossy => true
  | .hillshadeJpeg => true
  | .contours => false
  | .hillshade => false

end DerivedProduct

inductive RequestedTileFormat where
  | asStored
  | mlt
deriving DecidableEq, Repr

/-- `TilesetId`: a validated key. -/
structure TilesetId where
  value : String
  valid : (validateTilesetId (utf8 value)).toBool = true
deriving DecidableEq

def TilesetId.tryFrom (value : String) : Except String TilesetId :=
  match h : validateTilesetId (utf8 value) with
  | .ok _ => .ok ⟨value, by rw [h]; rfl⟩
  | .error e => .error e

/-- What the handlers use of `AppState` and of code that is not here. -/
structure DerivedState where
  /-- Whether the configured Mapterhorn tileset is this one; nothing when none is configured. -/
  mapterhorn : Option (TilesetId → Bool)
  /-- Whether `parse::<f32>` gives a quality above zero and at most one. -/
  qualityAllows : List Char → Bool
  /-- `TileId::from` of a valid coordinate. -/
  tileIdOf : Nat → Nat → Nat → Nat
  /-- The payload generated for a tile, and whether it is degraded; nothing where there is no terrain. -/
  generate : TilesetId → DerivedProduct → Nat → Nat → Nat → Except HttpError (Option (Bytes × Bool))
  gzip : Bytes → Except HttpError Bytes
  transcodeMlt : TileData → Except HttpError Bytes

/-! ## Negotiation -/

/-- The media ranges of an `Accept` value: split at commas outside of quotes, in which a backslash escapes. -/
def mediaRanges (quoted escaped : Bool) (current : List Char) : List Char → List (List Char)
  | [] => [current]
  | c :: rest =>
    if escaped then mediaRanges quoted false (current ++ [c]) rest
    else if c.toNat = 92 ∧ quoted = true then mediaRanges quoted true (current ++ [c]) rest
    else if c.toNat = 34 then mediaRanges (!quoted) false (current ++ [c]) rest
    else if c = ',' ∧ quoted = false then current :: mediaRanges quoted false [] rest
    else mediaRanges quoted false (current ++ [c]) rest

def mediaRangeAllowsMlt (state : DerivedState) (range : List Char) : Bool :=
  match range.splitOn ';' with
  | [] => false
  | mediaType :: parameters =>
    eqIgnoreAsciiCase (trim mediaType) mltContentType.toList &&
      parameters.foldl (fun allowed parameter =>
        match splitOnce '=' parameter with
        | none => allowed
        | some (name, value) => if eqIgnoreAsciiCase (trim name) ['q'] then state.qualityAllows (trim value) else allowed) true

def acceptValueAllowsMlt (state : DerivedState) (value : List Char) : Bool :=
    (mediaRanges false false [] value).any (mediaRangeAllowsMlt state)

local instance lawfulBEq_text : LawfulBEq (List Char) := inferInstance

def negotiateFormat (state : DerivedState) (yRaw : List Char) (headers : HeaderMap) : List Char × RequestedTileFormat :=
  let wanted := if (headers.getAllStr "accept").any (acceptValueAllowsMlt state) then .mlt else .asStored
  match rsplitOnce '.' yRaw with
  | some (y, extension) =>
    if extension = "mlt".toList then (y, .mlt)
    else if extension ∈ ["mvt".toList, "pbf".toList, "webp".toList, "jpg".toList, "jpeg".toList] then (y, wanted)
    else (yRaw, wanted)
  | none => (yRaw, wanted)

def normalizedFormat (product : DerivedProduct) (format : RequestedTileFormat) : RequestedTileFormat :=
  if product.isRaster then .asStored else format

/-! ## Requests -/

structure DerivedTileRequest where
  tilesetId : TilesetId
  product : DerivedProduct
  z : Nat
  x : Nat
  y : Nat
  tileId : Nat
  format : RequestedTileFormat

def validatedMapterhorn (state : DerivedState) (value : String) : Except HttpError TilesetId :=
  match TilesetId.tryFrom value with
  | .error e => .error ⟨400, e⟩
  | .ok tilesetId =>
    if state.mapterhorn.any fun resolver => resolver tilesetId then .ok tilesetId
    else .error ⟨404, "derived terrain products require the configured Mapterhorn tileset"⟩

/-- `TileCoord::new`. -/
def tileCoordNew (z x y : Nat) : Except String Unit :=
  if 64 ≤ z then .error "invalid zoom level"
  else if z > 31 ∨ x ≥ 2 ^ z ∨ y ≥ 2 ^ z then
    .error ("invalid tile coordinate z=" ++ toString z ++ " x=" ++ toString x ++ " y=" ++ toString y)
  else .ok ()

def parseDerivedTileRequest (state : DerivedState) (tilesetId product : String) (z x : Nat) (yRaw : String)
    (headers : HeaderMap) :
    Except HttpError DerivedTileRequest := do
  let tilesetId ← validatedMapterhorn state tilesetId
  let product ← DerivedProduct.parse product
  let (y, format) := negotiateFormat state yRaw.toList headers
  match parseUnsigned (2 ^ 32) y with
  | none => .error ⟨400, "invalid tile y: " ++ String.ofList y⟩
  | some y =>
    match tileCoordNew z x y with
    | .error e => .error ⟨400, e⟩
    | .ok () => .ok ⟨tilesetId, product, z, x, y, state.tileIdOf z x y, normalizedFormat product format⟩

/-- The path that `serve_derived_tile` asks the owner with. -/
def derivedInternalPath (request : DerivedTileRequest) : Bytes :=
  utf8 "/_internal/derived" ++ slash :: (pathPercentEncode (utf8 request.tilesetId.value) ++ slash ::
    (utf8 request.product.path ++
    slash :: (utf8 request.z.repr ++ slash :: (utf8 request.x.repr ++ slash :: (utf8 request.y.repr ++
      match request.format with
      | .asStored => []
      | .mlt => utf8 ".mlt")))))

def derivedRoute : RoutePattern :=
  [.text "_internal", .text "derived", .parameter "tileset_id", .parameter "product", .parameter "z", .parameter "x",
    .parameter "y"]

/-- The request that `internal_derived_tile_handler` reads of a path; nothing when the router or an extractor refuses it. -/
def internalDerivedRequest (state : DerivedState) (path : Bytes) : Option (Except HttpError DerivedTileRequest) := do
  match ← derivedRoute.parameters path with
  | [tilesetId, product, z, x, yRaw] =>
    let z ← parseUnsigned 256 z.toList
    let x ← parseUnsigned (2 ^ 32) x.toList
    some (parseDerivedTileRequest state tilesetId product z x yRaw ⟨[]⟩)
  | _ => none

/-! ## Outcomes -/

inductive DerivedOutcome where
  | tile (tile : TileData)
  | degraded (tile : TileData)
  | absent
deriving DecidableEq

def tileFromGeneratedPayload (state : DerivedState) (product : DerivedProduct) (payload : Bytes) : Except HttpError TileData :=
  if product.isRaster then
    .ok ⟨payload, if product = .hillshadeJpeg then TileType.jpeg.contentType else TileType.webp.contentType, none⟩
  else (state.gzip payload).map fun bytes => ⟨bytes, TileType.mvt.contentType, some "gzip"⟩

/-- `generate_tile`. -/
def generateTile (state : DerivedState) (tilesetId : TilesetId) (product : DerivedProduct) (z x y : Nat) :
    Except HttpError DerivedOutcome := do
  match ← state.generate tilesetId product z x y with
  | none => .ok .absent
  | some (payload, degraded) =>
    let tile ← tileFromGeneratedPayload state product payload
    .ok (if degraded then .degraded tile else .tile tile)

/-- `mlt_response_bytes`, without the label of the metrics. -/
def mltResponseBytes (state : DerivedState) (tile : TileData) : Except HttpError (Bytes × Option String) :=
  if tile.contentType = mltContentType then .ok (tile.bytes, tile.contentEncoding)
  else if tile.contentType ≠ TileType.mvt.contentType then .error ⟨406, "cannot serve " ++ tile.contentType ++ " tile as MLT"⟩
  else (state.transcodeMlt tile).map fun bytes => (bytes, some "gzip")

/-- The tile in the format of the request. -/
def inFormat (state : DerivedState) (format : RequestedTileFormat) (generated : TileData) : Except HttpError TileData :=
  match format with
  | .asStored => .ok generated
  | .mlt => (mltResponseBytes state generated).map fun (bytes, contentEncoding) => ⟨bytes, mltContentType, contentEncoding⟩

/-- `local_derived_output`. What its caches hold was generated for the same key. -/
def localDerivedOutput (state : DerivedState) (request : DerivedTileRequest) : Except HttpError DerivedOutcome := do
  match ← generateTile state request.tilesetId request.product request.z request.x request.y with
  | .absent => .ok .absent
  | .tile tile => (inFormat state request.format tile).map .tile
  | .degraded tile => (inFormat state request.format tile).map .degraded

/-! ## The wire -/

/-- The bytes of `ISKRDRV2`. -/
def derivedWireMagic : Bytes := [73, 83, 75, 82, 68, 82, 86, 50]

def derivedContentTypeCode (contentType : String) : Except String UInt8 :=
  if contentType = TileType.mvt.contentType then .ok 1
  else if contentType = mltContentType then .ok 2
  else if contentType = TileType.png.contentType then .ok 3
  else if contentType = TileType.jpeg.contentType then .ok 4
  else if contentType = TileType.webp.contentType then .ok 5
  else if contentType = TileType.avif.contentType then .ok 6
  else if contentType = TileType.unknown.contentType then .ok 7
  else .error "unsupported derived wire content type"

def derivedContentType (code : UInt8) : Except String String :=
  match code.toNat with
  | 1 => .ok TileType.mvt.contentType
  | 2 => .ok mltContentType
  | 3 => .ok TileType.png.contentType
  | 4 => .ok TileType.jpeg.contentType
  | 5 => .ok TileType.webp.contentType
  | 6 => .ok TileType.avif.contentType
  | 7 => .ok TileType.unknown.contentType
  | _ => .error "unsupported derived wire content type"

def derivedContentEncodingCode (encoding : Option String) : Except String UInt8 :=
  if encoding = none then .ok 0
  else if encoding = some "gzip" then .ok 1
  else if encoding = some "br" then .ok 2
  else if encoding = some "zstd" then .ok 3
  else .error "unsupported derived wire content encoding"

def derivedContentEncoding (code : UInt8) : Except String (Option String) :=
  match code.toNat with
  | 0 => .ok none
  | 1 => .ok (some "gzip")
  | 2 => .ok (some "br")
  | 3 => .ok (some "zstd")
  | _ => .error "unsupported derived wire content encoding"

def encodeDerivedTile (tile : TileData) : Except String Bytes := do
  let contentType ← derivedContentTypeCode tile.contentType
  let contentEncoding ← derivedContentEncodingCode tile.contentEncoding
  .ok (derivedWireMagic ++ 1 :: contentType :: contentEncoding :: tile.bytes)

def encodeDerivedWire : DerivedOutcome → Except String Bytes
  | .tile tile => encodeDerivedTile tile
  | .degraded tile => encodeDerivedTile tile
  | .absent => .ok (derivedWireMagic ++ [0])

/-- The content type that a tile of the request has. -/
def expectedContentType (product : DerivedProduct) : RequestedTileFormat → String
  | .mlt => mltContentType
  | .asStored =>
    if product = .hillshadeJpeg then TileType.jpeg.contentType
    else if product.isRaster then TileType.webp.contentType
    else TileType.mvt.contentType

def validateDerivedTileData (product : DerivedProduct) (format : RequestedTileFormat) (tile : TileData) :
    Except String TileData :=
  if tile.contentType ≠ expectedContentType product format then .error "derived wire content type does not match request" else
    .ok tile

/-- What `decode_derived_wire_v2` makes of a tile whose content type and encoding have these codes. -/
def decodedTile (product : DerivedProduct) (format : RequestedTileFormat) (bytes : Bytes) (contentType contentEncoding : UInt8) :
    Except String DerivedOutcome := do
  let contentType ← derivedContentType contentType
  let contentEncoding ← derivedContentEncoding contentEncoding
  let tile ← validateDerivedTileData product format ⟨bytes, contentType, contentEncoding⟩
  .ok (.tile tile)

/-- `decode_derived_wire_v2`; nothing for an access that is out of range. -/
def decodeDerivedWireV2 (wire : Bytes) (product : DerivedProduct) (format : RequestedTileFormat) :
    Option (Except String DerivedOutcome) := do
  let statusOffset := derivedWireMagic.length
  let status ← wire[statusOffset]?
  if status = 0 ∧ wire.length = statusOffset + 1 then some (.ok .absent)
  else if status = 0 then some (.error "absent derived wire response has a payload")
  else if status = 1 ∧ wire.length ≥ statusOffset + 3 then
    let bytes ← slice? wire (statusOffset + 3) wire.length
    let contentType ← wire[statusOffset + 1]?
    let contentEncoding ← wire[statusOffset + 2]?
    some (decodedTile product format bytes contentType contentEncoding)
  else if status = 1 then some (.error "derived tile wire response is truncated")
  else some (.error "invalid derived wire status")

def decodeDerivedWire (wire : Bytes) (product : DerivedProduct) (format : RequestedTileFormat) :
    Option (Except String DerivedOutcome) :=
  if wire.length < derivedWireMagic.length + 1 then some (.error "invalid derived wire magic")
  else do
    let magic ← slice? wire 0 derivedWireMagic.length
    if magic ≠ derivedWireMagic then some (.error "invalid derived wire magic") else decodeDerivedWireV2 wire product format

/-! ## Handlers -/

/-- The body that `internal_derived_tile_handler` answers a path with; nothing when the router or an extractor refuses it. -/
def internalDerivedTileHandler (state : DerivedState) (path : Bytes) : Option (Except HttpError Bytes) :=
  (internalDerivedRequest state path).map fun request => do
    let request ← request
    let outcome ← localDerivedOutput state request
    match encodeDerivedWire outcome with
    | .error e => .error ⟨500, "cannot encode derived peer response: " ++ e⟩
    | .ok wire => .ok wire

/-- What `serve_derived_tile` serves, with the answer that the route to the owner gives for a path; nothing for an access that is
out of range. -/
def serveDerivedTile (state : DerivedState) (route : Bytes → Except String (Option Bytes)) (tilesetId product : String)
    (z x : Nat)
    (yRaw : String) (headers : HeaderMap) : Option (Except HttpError DerivedOutcome) :=
  match parseDerivedTileRequest state tilesetId product z x yRaw headers with
  | .error e => some (.error e)
  | .ok request =>
    match route (derivedInternalPath request) with
    | .ok (some wire) => do
      match ← decodeDerivedWire wire request.product request.format with
      | .ok outcome => some (.ok outcome)
      | .error _ => some (localDerivedOutput state request)
    | .ok none => some (localDerivedOutput state request)
    | .error _ => some (localDerivedOutput state request)

end Biei.Ishikari
