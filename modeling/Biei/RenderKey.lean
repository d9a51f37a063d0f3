import Biei.Types

/-!
# Render cache keys

`RenderCacheKey` of `render_cache.rs`: what two tasks must agree on to share an image and a flight. Floating point numbers enter
by their bits, a GeoJSON document by its text, an added layer by the length-framed texts of its parts. Neither the grants nor the
number of hops of a task are part of its key.
-/

namespace Biei

/-! ## JSON text -/

/-- A character of a JSON string, as `serde_json` prints it. -/
def escapeChar (c : Char) : String :=
  if c.toNat = 0x22 then "\\\""
  else if c.toNat = 0x5c then "\\\\"
  else if c.toNat = 0x08 then "\\b"
  else if c.toNat = 0x09 then "\\t"
  else if c.toNat = 0x0a then "\\n"
  else if c.toNat = 0x0c then "\\f"
  else if c.toNat = 0x0d then "\\r"
  else if c.toNat < 0x20 then
    "\\u00" ++ String.singleton (Nat.digitChar (c.toNat / 16)) ++ String.singleton (Nat.digitChar (c.toNat % 16))
  else String.singleton c

def printString (s : String) : String := "\"" ++ String.join (s.toList.map escapeChar) ++ "\""

mutual

/-- The compact text of a document. -/
def Json.print : Json → String
  | .null => "null"
  | .bool b => if b then "true" else "false"
  | .number n => n.text
  | .string s => printString s
  | .array items => "[" ++ String.intercalate "," (Json.printItems items) ++ "]"
  | .object fields => "\x7b" ++ String.intercalate "," (Json.printFields fields) ++ "\x7d"

def Json.printItems : List Json → List String
  | [] => []
  | j :: js => j.print :: Json.printItems js

def Json.printFields : List (String × Json) → List String
  | [] => []
  | (k, j) :: fields => (printString k ++ ":" ++ j.print) :: Json.printFields fields

end

/-! ## Keys -/

structure LngLatKey where
  lon : UInt64
  lat : UInt64
deriving DecidableEq

def LngLatKey.ofPoint (point : LngLat) : LngLatKey := ⟨point.lon.bits, point.lat.bits⟩

inductive PositioningKey where
  | center (lon lat zoom : UInt64) (bearing pitch : UInt32)
  | bbox (minLon minLat maxLon maxLat : UInt64)
  | auto
deriving DecidableEq

def PositioningKey.ofPositioning : Positioning → PositioningKey
  | .center lon lat zoom bearing pitch => .center lon.bits lat.bits zoom.bits bearing.bits pitch.bits
  | .bbox minLon minLat maxLon maxLat => .bbox minLon.bits minLat.bits maxLon.bits maxLat.bits
  | .auto => .auto

inductive StaticOverlayKey where
  | path (strokeWidth : Option UInt32) (strokeColor : Option String) (strokeOpacity : Option UInt32) (fillColor : Option String)
      (fillOpacity : Option UInt32) (coordinates : List LngLatKey)
  | geoJson (featureCollection : String)
  | pin (size : PinSize) (label : Option String) (color : String) (coordinate : LngLatKey)
deriving DecidableEq

def StaticOverlayKey.ofOverlay : StaticOverlay → StaticOverlayKey
  | .path o => .path (o.strokeWidth.map F32.bits) o.strokeColor (o.strokeOpacity.map F32.bits) o.fillColor
      (o.fillOpacity.map F32.bits) (o.coordinates.map LngLatKey.ofPoint)
  | .geoJson o => .geoJson o.featureCollection.print
  | .pin o => .pin o.size o.label o.color (LngLatKey.ofPoint o.coordinate)

/-- One component of an identity, framed by its length in bytes. -/
def frame (component : String) : String := toString component.utf8ByteSize ++ ":" ++ component

/-- `addlayer_identity`. -/
def addlayerIdentity (addlayer : AddLayer) : String :=
  match addlayer.source with
  | none => frame addlayer.json
  | some source => frame addlayer.json ++ frame source.tilesetId ++ frame source.json

inductive RenderRequestKey where
  | tile (z : UInt8) (x y : UInt32) (tileSize : UInt16)
  | staticImage (positioning : PositioningKey) (width height : UInt16) (overlays : List StaticOverlayKey)
      (beforeLayer : Option String) (padding : Padding) (addlayer : Option String)
deriving DecidableEq

def RenderRequestKey.ofRequest : RenderRequest → RenderRequestKey
  | .tile z x y tileSize => .tile z x y tileSize
  | .staticImage positioning width height overlays beforeLayer padding addlayer =>
    .staticImage (.ofPositioning positioning) width height (overlays.map .ofOverlay) beforeLayer padding
      (addlayer.map addlayerIdentity)

structure RenderCacheKey where
  styleId : String
  styleVersion : UInt64
  request : RenderRequestKey
  scale : Scale
  outputFormat : ImageFormat
  sourceHash : Option UInt64
deriving DecidableEq

def RenderCacheKey.fromTask (task : InternalTask) : RenderCacheKey where
  styleId := task.style.id.id
  styleVersion := task.style.version
  request := .ofRequest task.request
  scale := task.pixelRatio.toScale
  outputFormat := task.outputFormat
  sourceHash := task.source.map SourceRef.hash

end Biei
