import Biei.Http.PathOverlay
import Biei.Ishikari.DeliveryPath
import Biei.Lib.Fields
import Biei.Lib.Float
import Biei.Renderer.Overlay

/-!
# Overlays of a static image

`overlay/`: how the overlays of a public path are read, and what every overlay is checked for, whether it was read from a path or
came from a peer. The checks of a GeoJSON document give back the positions whose range they checked, in the order they did.
-/

namespace Biei

/-! ## Floats -/

def binary32 : FloatFormat := ⟨8, 23⟩

def binary64 : FloatFormat := ⟨11, 52⟩

namespace F32

def zero : F32 := ⟨0⟩

def isFinite (x : F32) : Bool := binary32.isFinite x.bits.toNat

def le (x y : F32) : Bool := binary32.le x.bits.toNat y.bits.toNat

/-- `(lo..=hi).contains(&x)`. -/
def contains (lo hi x : F32) : Bool := binary32.contains lo.bits.toNat hi.bits.toNat x.bits.toNat

end F32

namespace F64

def isFinite (x : F64) : Bool := binary64.isFinite x.bits.toNat

def isNaN (x : F64) : Bool := binary64.isNaN x.bits.toNat

def le (x y : F64) : Bool := binary64.le x.bits.toNat y.bits.toNat

/-- `x == y`. -/
def eq (x y : F64) : Bool := binary64.eq x.bits.toNat y.bits.toNat

def contains (lo hi x : F64) : Bool := binary64.contains lo.bits.toNat hi.bits.toNat x.bits.toNat

/-- `x.min(y)`; of two zeros the first. -/
def min (x y : F64) : F64 := if binary64.min x.bits.toNat y.bits.toNat = x.bits.toNat then x else y

def max (x y : F64) : F64 := if binary64.max x.bits.toNat y.bits.toNat = x.bits.toNat then x else y

end F64

/-! ## JSON values -/

namespace Json

/-- `value.get(name)`. -/
def get : Json → String → Option Json
  | .object fields, name => Fields.get fields name
  | _, _ => none

/-- `as_str`. -/
def text? : Json → Option String
  | .string s => some s
  | _ => none

/-- `as_array`. -/
def array? : Json → Option (List Json)
  | .array items => some items
  | _ => none

/-- The text in a field. -/
def getStr (value : Json) (name : String) : Option String := (value.get name).bind text?

end Json

/-- What the overlay code takes from elsewhere: the reading of numbers from a text, the reading of JSON, and the numbers in it. -/
structure OverlayCodec where
  parseF32 : List Char → Option F32
  parseF64 : List Char → Option F64
  /-- `n as f64 / 100_000.0`. -/
  degrees : Int → F64
  /-- `serde_json::from_str`. -/
  fromStr : String → Option Json
  /-- `as_f64`. -/
  asF64 : JsonNumber → Option F64
  /-- The number of a finite float. -/
  ofF64 : F64 → JsonNumber
  ofF32 : F32 → JsonNumber

/-- A number made of a finite float is read as that float. -/
def OverlayCodec.Exact (codec : OverlayCodec) : Prop := ∀ x : F64, x.isFinite = true → codec.asF64 (codec.ofF64 x) = some x

inductive OverlayParseError where
  | polyline (e : PathOverlay.OverlayParseError)
  | invalidPathSyntax
  | invalidStrokeWidth
  | invalidColor
  | invalidOpacity
  | invalidPercentEncoding
  | tooManyOverlays
  | invalidGeoJsonSyntax
  | unsupportedGeoJsonType
  | tooManyFeatures
  | tooManyCoordinates
  | invalidPinSyntax
  | invalidPinSize
  | invalidPinLabel
  /-- An operation of the polyline decoder left its range. -/
  | panicked
deriving DecidableEq, Repr

def OverlayParseError.text : OverlayParseError → String
  | .polyline e => e.text
  | .invalidPathSyntax => "path overlay must be path-...(<polyline>)"
  | .invalidStrokeWidth => "path stroke width must be positive"
  | .invalidColor => "path color must be a 3- or 6-digit hex color"
  | .invalidOpacity => "path opacity must be between 0 and 1"
  | .invalidPercentEncoding => "invalid percent-encoded polyline"
  | .tooManyOverlays => "request has more than 64 overlays"
  | .invalidGeoJsonSyntax => "geojson overlay payload is not valid JSON"
  | .unsupportedGeoJsonType => "geojson overlay must be a Feature or FeatureCollection"
  | .tooManyFeatures => "geojson overlay has more than 500 features"
  | .tooManyCoordinates => "geojson overlay has more than 5000 coordinates"
  | .invalidPinSyntax => "pin overlay must be pin-\x7bs|m|l\x7d[-label]+color(lon,lat)"
  | .invalidPinSize => "pin size must be s, m, or l"
  | .invalidPinLabel => "pin label must be one ASCII letter or a number from 0 to 99"
  | .panicked => "panicked"

def maxGeojsonFeatures : Nat := 500
def maxGeojsonCoordinates : Nat := 5000
def minLat : F64 := ⟨0xC056800000000000⟩
def maxLat : F64 := ⟨0x4056800000000000⟩
def minLon : F64 := ⟨0xC066800000000000⟩
def maxLon : F64 := ⟨0x4066800000000000⟩

/-! ## Checks -/

def validateCoordinate (point : LngLat) : Except OverlayParseError Unit :=
  if F64.contains minLon maxLon point.lon && F64.contains minLat maxLat point.lat then .ok () else .error
    (.polyline .coordinateOutOfRange)

def isHexDigit (c : Char) : Bool := c.isDigit || decide ('a' ≤ c ∧ c ≤ 'f') || decide ('A' ≤ c ∧ c ≤ 'F')

/-- A color of 3 or 6 hexadecimal digits, in lower case. -/
def parseOptionalColor : Option String → Except OverlayParseError (Option String)
  | none => .ok none
  | some value =>
    if (value.length = 3 ∨ value.length = 6) ∧ value.toList.all isHexDigit then .ok
      (some (String.ofList (value.toList.map Char.toLower)))
    else .error .invalidColor

def validateOpacity (opacity : F32) : Except OverlayParseError Unit :=
  if opacity.isFinite && F32.contains .zero .one opacity then .ok () else .error .invalidOpacity

def validatePathOverlay (overlay : PathOverlay) : Except OverlayParseError Unit := do
  if overlay.coordinates.isEmpty then throw (.polyline .empty)
  if PathOverlay.maxPathPoints < overlay.coordinates.length then throw (.polyline .tooManyPoints)
  if overlay.strokeWidth.any fun width => !width.isFinite || width.le .zero then throw .invalidStrokeWidth
  discard (parseOptionalColor overlay.strokeColor)
  discard (parseOptionalColor overlay.fillColor)
  overlay.strokeOpacity.forM validateOpacity
  overlay.fillOpacity.forM validateOpacity
  overlay.coordinates.forM validateCoordinate

/-- One letter, in lower case, or a number from 0 to 99 without a leading zero. -/
def normalizePinLabel (value : String) : Option String :=
  match value.toList with
  | [c] => if c.isAlpha then some (String.singleton c.toLower) else if c.isDigit then some value else none
  | [c, d] => if '1' ≤ c ∧ c ≤ '9' ∧ d.isDigit then some value else none
  | _ => none

def validatePinOverlay (overlay : PinOverlay) : Except OverlayParseError Unit := do
  if overlay.label.any fun label => (normalizePinLabel label).isNone then throw .invalidPinLabel
  discard (parseOptionalColor (some overlay.color))
  validateCoordinate overlay.coordinate

/-! ## Checks of GeoJSON -/

/-- `try_for_each`, with all that the checks give back. -/
def tryForEach {α β ε : Type} (check : α → Except ε (List β)) : List α → Except ε (List β)
  | [] => .ok []
  | a :: rest =>
    match check a with
    | .error e => .error e
    | .ok found => (tryForEach check rest).map (found ++ ·)

/-- The items of an array. -/
def itemsOf (value : Json) : Except OverlayParseError (List Json) :=
  match value.array? with
  | some items => .ok items
  | none => .error .invalidGeoJsonSyntax

section

variable (codec : OverlayCodec)

def validatePosition (pos : Json) : Except OverlayParseError (List LngLat) :=
  match pos.array? with
  | some (lon :: lat :: _) =>
    match lon, lat with
    | .number lon, .number lat =>
      match codec.asF64 lon, codec.asF64 lat with
      | some lon, some lat =>
        if !lon.isFinite || !lat.isFinite then .error (.polyline .coordinateOutOfRange)
        else if !F64.contains minLon maxLon lon || !F64.contains minLat maxLat lat then .error (.polyline .coordinateOutOfRange)
        else .ok [⟨lon, lat⟩]
      | _, _ => .error .invalidGeoJsonSyntax
    | _, _ => .error .invalidGeoJsonSyntax
  | _ => .error .invalidGeoJsonSyntax

/-- The positions of a line. -/
def validatePositions (value : Json) : Except OverlayParseError (List LngLat) := do
  tryForEach (validatePosition codec) (← itemsOf value)

/-- The positions of the rings of a polygon. -/
def validateRings (value : Json) : Except OverlayParseError (List LngLat) := do
  tryForEach (validatePositions codec) (← itemsOf value)

def validateCoordinateValues (gType : String) (coords : Json) : Except OverlayParseError (List LngLat) :=
  if gType = "Point" then validatePosition codec coords
  else if gType = "LineString" ∨ gType = "MultiPoint" then validatePositions codec coords
  else if gType = "Polygon" ∨ gType = "MultiLineString" then validateRings codec coords
  else if gType = "MultiPolygon" then do tryForEach (validateRings codec) (← itemsOf coords)
  else .ok []

/-- The length of an array, and 0 for what is none. -/
def arrayLen (value : Json) : Nat := (value.array?.map List.length).getD 0

def countCoordinates (gType : String) (coords : Json) : Nat :=
  if gType = "Point" then 1
  else if gType = "LineString" ∨ gType = "MultiPoint" then arrayLen coords
  else if gType = "Polygon" ∨ gType = "MultiLineString" then ((coords.array?.getD []).map arrayLen).sum
  else if gType = "MultiPolygon" then
    ((((coords.array?.getD []).filterMap Json.array?).flatMap fun rings => rings.map arrayLen)).sum
  else 0

def geometryTypes : List String := ["Point", "LineString", "Polygon", "MultiPoint", "MultiLineString", "MultiPolygon"]

/-- `validate_feature`: the count of coordinates so far goes in and comes out. -/
def validateFeature (value : Json) (totalCoords : Nat) : Except OverlayParseError (Nat × List LngLat) :=
  match value with
  | .object _ =>
    if value.getStr "type" ≠ some "Feature" then .error .invalidGeoJsonSyntax
    else
      match value.get "geometry" with
      | none => .ok (totalCoords, [])
      | some .null => .ok (totalCoords, [])
      | some (.object geometry) =>
        match Json.getStr (.object geometry) "type" with
        | none => .error .invalidGeoJsonSyntax
        | some gType =>
          if gType ∉ geometryTypes then .error .unsupportedGeoJsonType
          else
            match Fields.get geometry "coordinates" with
            | none => .error .invalidGeoJsonSyntax
            | some coords =>
              let total := min (totalCoords + countCoordinates gType coords) (2 ^ 64 - 1)
              if maxGeojsonCoordinates < total then .error .tooManyCoordinates
              else (validateCoordinateValues codec gType coords).map fun positions => (total, positions)
      | some _ => .error .invalidGeoJsonSyntax
  | _ => .error .invalidGeoJsonSyntax

def validateFeatures : List Json → Nat → Except OverlayParseError (Nat × List LngLat)
  | [], totalCoords => .ok (totalCoords, [])
  | f :: rest, totalCoords =>
    match validateFeature codec f totalCoords with
    | .error e => .error e
    | .ok (total, positions) => (validateFeatures rest total).map fun (last, more) => (last, positions ++ more)

/-- `validate_geojson`, with the final count and the positions. -/
def validateGeojson (value : Json) : Except OverlayParseError (Nat × List LngLat) :=
  match value.getStr "type" with
  | none => .error .invalidGeoJsonSyntax
  | some typeStr =>
    if typeStr = "Feature" then validateFeature codec value 0
    else if typeStr = "FeatureCollection" then
      match (value.get "features").bind Json.array? with
      | none => .error .invalidGeoJsonSyntax
      | some features =>
        if maxGeojsonFeatures < features.length then .error .tooManyFeatures else validateFeatures codec features 0
    else .error .unsupportedGeoJsonType

def validateStaticOverlay : StaticOverlay → Except OverlayParseError Unit
  | .path path => validatePathOverlay path
  | .geoJson geojson => discard (validateGeojson codec geojson.featureCollection)
  | .pin pin => validatePinOverlay pin

end

/-! ## Reading overlays -/

/-- The text before a delimiter, and after it where there is more. -/
def splitFirstOptionalPair (value : List Char) (delimiter : Char) : List Char × Option (List Char) :=
  match splitOnce delimiter value with
  | none => (value, none)
  | some (first, second) => (first, if second.isEmpty then none else some second)

/-- Two parts at most, of which the second may be missing or empty. -/
def splitOptionalPair (value : List Char) (delimiter : Char) : Except OverlayParseError (List Char × Option (List Char)) :=
  match value.splitOn delimiter with
  | [] => .ok ([], none)
  | [first] => .ok (first, none)
  | [first, second] => .ok (first, if second.isEmpty then none else some second)
  | _ => .error .invalidPathSyntax

def splitRequiredPair (value : List Char) (delimiter : Char) : Except OverlayParseError (List Char × Option (List Char)) := do
  let (first, second) ← splitOptionalPair value delimiter
  if first.isEmpty then throw .invalidPathSyntax
  return (first, second)

/-- `percent_decode`: an escape that is not one, and bytes that are no text, are errors. -/
def overlayPercentDecode (value : List Char) : Except OverlayParseError String :=
  match Ishikari.decodeStrict (utf8 (String.ofList value)) with
  | .error _ => .error .invalidPercentEncoding
  | .ok bytes =>
    match String.fromUTF8? ⟨bytes.toArray⟩ with
    | some text => .ok text
    | none => .error .invalidPercentEncoding

section

variable (codec : OverlayCodec)

def parseOptionalStrokeWidth (value : List Char) : Except OverlayParseError (Option F32) :=
  if value.isEmpty then .ok none
  else
    match codec.parseF32 value with
    | none => .error .invalidStrokeWidth
    | some width => if width.isFinite && !width.le .zero then .ok (some width) else .error .invalidStrokeWidth

def parseOptionalOpacity : Option (List Char) → Except OverlayParseError (Option F32)
  | none => .ok none
  | some value =>
    match codec.parseF32 value with
    | none => .error .invalidOpacity
    | some opacity => (validateOpacity opacity).map fun _ => some opacity

/-- `parse_path_style`: a path of these paints, without its points. -/
def parsePathStyle (style : List Char) : Except OverlayParseError PathOverlay := do
  let (strokeWidth, paint) := splitFirstOptionalPair style '+'
  match paint with
  | none => return ⟨← parseOptionalStrokeWidth codec strokeWidth, none, none, none, none, []⟩
  | some paint =>
    let (stroke, fill) ← splitOptionalPair paint '+'
    let (strokeColor, strokeOpacity) ← splitRequiredPair stroke '-'
    let (fillColor, fillOpacity) ← match fill with
      | some fill => (splitRequiredPair fill '-').map fun (color, opacity) => (some color, opacity)
      | none => Except.ok (none, none)
    return ⟨← parseOptionalStrokeWidth codec strokeWidth, ← parseOptionalColor (some (String.ofList strokeColor)),
      ← parseOptionalOpacity codec strokeOpacity, ← parseOptionalColor (fillColor.map String.ofList),
      ← parseOptionalOpacity codec fillOpacity, []⟩

/-- The point of a polyline, in degrees. -/
def pointOf (point : PathOverlay.Point) : LngLat := ⟨codec.degrees point.lon, codec.degrees point.lat⟩

def parsePathOverlay (overlay : List Char) : Except OverlayParseError PathOverlay := do
  let some pathBody := stripLead "path-".toList overlay | throw .invalidPathSyntax
  let some (style, encoded) := splitOnce '(' pathBody | throw .invalidPathSyntax
  let some encoded := stripEnd [')'] encoded | throw .invalidPathSyntax
  let paints ← parsePathStyle codec style
  let decoded ← overlayPercentDecode encoded
  let points ← match PathOverlay.decodePolyline decoded with
    | none => .error .panicked
    | some (.error e) => .error (.polyline e)
    | some (.ok points) => .ok points
  let path := { paints with coordinates := points.map (pointOf codec) }
  validatePathOverlay path
  return path

def parseGeojsonOverlay (overlay : List Char) : Except OverlayParseError GeoJsonOverlay := do
  let some body := stripLead "geojson(".toList overlay | throw .invalidGeoJsonSyntax
  let some body := stripEnd [')'] body | throw .invalidGeoJsonSyntax
  let decoded ← overlayPercentDecode body
  let some value := codec.fromStr decoded | throw .invalidGeoJsonSyntax
  discard (validateGeojson codec value)
  return ⟨value⟩

def parsePinHead (value : List Char) : Except OverlayParseError (PinSize × Option String) := do
  let (size, label) := match splitOnce '-' value with
    | none => (value, none)
    | some (size, label) => (size, some label)
  let size ←
    if size = ['s'] then Except.ok PinSize.small else if size = ['m'] then .ok .medium else if size = ['l'] then .ok .large
    else .error .invalidPinSize
  match label with
  | none => return (size, none)
  | some label =>
    match normalizePinLabel (String.ofList label) with
    | some label => return (size, some label)
    | none => throw .invalidPinLabel

def parseLngLat (value : List Char) : Except OverlayParseError LngLat := do
  let some (lon, lat) := splitOnce ',' value | throw .invalidPinSyntax
  let some lon := codec.parseF64 lon | throw .invalidPinSyntax
  let some lat := codec.parseF64 lat | throw .invalidPinSyntax
  validateCoordinate ⟨lon, lat⟩
  return ⟨lon, lat⟩

def parsePinOverlay (overlay : List Char) : Except OverlayParseError PinOverlay := do
  let some body := stripLead "pin-".toList overlay | throw .invalidPinSyntax
  let some (style, coord) := splitOnce '(' body | throw .invalidPinSyntax
  let some coord := stripEnd [')'] coord | throw .invalidPinSyntax
  let some (head, color) := splitOnce '+' style | throw .invalidPinSyntax
  let (size, label) ← parsePinHead head
  let some color ← parseOptionalColor (some (String.ofList color)) | throw .invalidColor
  let coordinate ← parseLngLat codec coord
  let pin := ⟨size, label, color, coordinate⟩
  validatePinOverlay pin
  return pin

/-- `split_overlays`: at the commas outside of parentheses. `part` is what was read since the last one, backwards. -/
def splitOverlaysFrom : Nat → List Char → List Char → Except OverlayParseError (List (List Char))
  | depth, part, [] => if depth ≠ 0 then .error .invalidPathSyntax else .ok [part.reverse]
  | depth, part, c :: rest =>
    if c = '(' then splitOverlaysFrom (depth + 1) (c :: part) rest
    else if c = ')' then if depth = 0 then .error .invalidPathSyntax else splitOverlaysFrom (depth - 1) (c :: part) rest
    else if c = ',' ∧ depth = 0 then (splitOverlaysFrom 0 [] rest).map (part.reverse :: ·)
    else splitOverlaysFrom depth (c :: part) rest

/-- One overlay, by how its text begins. -/
def parseStaticOverlay (part : List Char) : Except OverlayParseError StaticOverlay :=
  if "geojson(".toList.isPrefixOf part then (parseGeojsonOverlay codec part).map .geoJson
  else if "pin-".toList.isPrefixOf part then (parsePinOverlay codec part).map .pin
  else (parsePathOverlay codec part).map .path

def parseStaticOverlays (overlay : List Char) : Except OverlayParseError (List StaticOverlay) :=
  if overlay = "none".toList then .ok []
  else do
    let parts ← splitOverlaysFrom 0 [] overlay
    if maxStaticOverlays < parts.length then throw .tooManyOverlays
    parts.mapM (parseStaticOverlay codec)

end

end Biei
