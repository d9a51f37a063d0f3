import Biei.ForwardResponse
import Biei.Http.Overlay

/-!
# Features of the overlays

`features.rs`, `layers.rs` and `camera.rs`: the GeoJSON features that a request's overlays become, the filters by which the layers
of a slot take their features, and the bounds that a camera is fitted to. A walk over positions is written once, for whatever it
does with a position.
-/

namespace Biei

/-! ## Bounds -/

structure OverlayBounds where
  minLon : F64
  minLat : F64
  maxLon : F64
  maxLat : F64

namespace OverlayBounds

def new (point : LngLat) : OverlayBounds := ⟨point.lon, point.lat, point.lon, point.lat⟩

/-- `include`. -/
def including (bounds : OverlayBounds) (point : LngLat) : OverlayBounds where
  minLon := bounds.minLon.min point.lon
  minLat := bounds.minLat.min point.lat
  maxLon := bounds.maxLon.max point.lon
  maxLat := bounds.maxLat.max point.lat

end OverlayBounds

def includeBounds (bounds : Option OverlayBounds) (point : LngLat) : Option OverlayBounds :=
  match bounds with
  | some bounds => some (bounds.including point)
  | none => some (.new point)

/-- A field is smaller than its object. -/
theorem Json.sizeOf_lt_of_get {value found : Json} {name : String} (h : value.get name = some found) :
    sizeOf found < sizeOf value := by
  unfold Json.get at h
  split at h
  · rename_i fields
    obtain ⟨field, hfind, rfl⟩ := Option.map_eq_some_iff.mp h
    have hmem := List.sizeOf_lt_of_mem (List.mem_of_find?_eq_some hfind)
    have hfield : sizeOf field = 1 + sizeOf field.1 + sizeOf field.2 := rfl
    have hobject : sizeOf (Json.object fields) = 1 + sizeOf fields := Json.object.sizeOf_spec fields
    omega
  · cases h

section

variable (codec : OverlayCodec)

/-- An array that begins with two numbers is a position. -/
def positionOf : List Json → Option LngLat
  | .number lon :: .number lat :: _ => do return ⟨← codec.asF64 lon, ← codec.asF64 lat⟩
  | _ => none

variable {σ : Type} (visit : σ → LngLat → σ)

mutual

/-- `collect_geojson_coordinates`. -/
def collectGeojsonCoordinates : Json → σ → σ
  | .array items, s =>
    match positionOf codec items with
    | some point => visit s point
    | none => collectItems items s
  | .null, s => s
  | .bool _, s => s
  | .number _, s => s
  | .string _, s => s
  | .object _, s => s

def collectItems : List Json → σ → σ
  | [], s => s
  | item :: items, s => collectItems items (collectGeojsonCoordinates item s)

end

/-- `collect_geojson_bounds`. -/
def collectGeojsonBounds (value : Json) (s : σ) : σ :=
  match value.getStr "type" with
  | some "FeatureCollection" =>
    match h : (value.get "features").bind Json.array? with
    | some features => features.attach.foldl (fun s feature => collectGeojsonBounds feature.1 s) s
    | none => s
  | some "Feature" =>
    match h : value.get "geometry" with
    | some geometry => collectGeojsonBounds geometry s
    | none => s
  | some type =>
    if type ∈ geometryTypes then
      match value.get "coordinates" with
      | some coordinates => collectGeojsonCoordinates codec visit coordinates s
      | none => s
    else s
  | none => s
termination_by sizeOf value
decreasing_by
  · obtain ⟨found, hfound, harray⟩ := Option.bind_eq_some_iff.mp h
    have hlt := Json.sizeOf_lt_of_get hfound
    have hmem := List.sizeOf_lt_of_mem feature.2
    unfold Json.array? at harray
    split at harray
    · rename_i items
      cases harray
      have harraySize : sizeOf (Json.array features) = 1 + sizeOf features := Json.array.sizeOf_spec features
      omega
    · cases harray
  · exact Json.sizeOf_lt_of_get h

/-- The positions of an overlay, as `overlay_bounds` goes through them. -/
def visitOverlay (s : σ) : StaticOverlay → σ
  | .path path => path.coordinates.foldl visit s
  | .pin pin => visit s pin.coordinate
  | .geoJson geojson => collectGeojsonBounds codec visit geojson.featureCollection s

end

def overlayBounds (codec : OverlayCodec) (overlays : List StaticOverlay) : Option OverlayBounds :=
  overlays.foldl (visitOverlay codec includeBounds) none

/-- The positions that `overlay_bounds` goes through. -/
def visitedPositions (codec : OverlayCodec) (overlays : List StaticOverlay) : List LngLat :=
  overlays.foldl (visitOverlay codec fun seen point => seen ++ [point]) []

/-! ## Features -/

def overlayIdxProperty : String := "__biei_overlay_idx"
def pinKindProperty : String := "__biei_marker_kind"
def pinImageProperty : String := "__biei_marker_image"
def pinOffsetProperty : String := "__biei_marker_offset"
def pinKindValue : String := "pin"

section

variable (codec : OverlayCodec)

/-- The JSON of a float, which for one that is not finite is null. -/
def jsonOfF64 (x : F64) : Json := if x.isFinite then .number (codec.ofF64 x) else .null

def jsonOfF32 (x : F32) : Json := if x.isFinite then .number (codec.ofF32 x) else .null

def positionJson (p : LngLat) : Json := .array [jsonOfF64 codec p.lon, jsonOfF64 codec p.lat]

def coordinatesJson (coordinates : List LngLat) : List Json := coordinates.map (positionJson codec)

/-- A feature; the fields of an object are in order. -/
def featureJson (geometryType : String) (coordinates : Json) (properties : List (String × Json)) : Json :=
  .object [("geometry", .object [("coordinates", coordinates), ("type", .string geometryType)]),
    ("properties", .object properties),
    ("type", .string "Feature")]

def cssColor (hex : String) : String := "#" ++ hex

/-- A property that is set when there is a value for it. -/
def withProperty (name : String) (value : Option Json) (props : List (String × Json)) : List (String × Json) :=
  match value with
  | some value => Fields.insert props name value
  | none => props

def pathStrokeProperties (path : PathOverlay) : List (String × Json) :=
  withProperty "stroke-opacity" (path.strokeOpacity.map (jsonOfF32 codec))
    (withProperty "stroke-width" (path.strokeWidth.map (jsonOfF32 codec))
      (withProperty "stroke" (path.strokeColor.map fun color => .string (cssColor color)) []))

def pathFillProperties (path : PathOverlay) : List (String × Json) :=
  withProperty "fill-opacity" (path.fillOpacity.map (jsonOfF32 codec))
    (withProperty "fill" (path.fillColor.map fun color => .string (cssColor color)) [])

/-- `==` of two points, by the values of their floats. -/
def LngLat.same (p q : LngLat) : Bool := p.lon.eq q.lon && p.lat.eq q.lat

/-- The points of a ring, closed. -/
def closedRing (coordinates : List LngLat) : List LngLat :=
  match coordinates.head?, coordinates.getLast? with
  | some first, some last => if first.same last then coordinates else coordinates ++ [first]
  | _, _ => coordinates

def pathFeatures (path : PathOverlay) : List Json :=
  featureJson "LineString" (.array (coordinatesJson codec path.coordinates)) (pathStrokeProperties codec path) ::
    if path.fillColor.isSome ∧ 3 ≤ path.coordinates.length then
      [featureJson "Polygon" (.array [.array (coordinatesJson codec (closedRing path.coordinates))])
        (pathFillProperties codec path)]
    else []

def geojsonFeatures (overlay : GeoJsonOverlay) : List Json :=
  match overlay.featureCollection.getStr "type" with
  | some "FeatureCollection" => ((overlay.featureCollection.get "features").bind Json.array?).getD []
  | some "Feature" => [overlay.featureCollection]
  | _ => []

/-- `pin_icon_offset_y`: half of what the height of the image leaves below the tip, the tip being 2.62 radii below 3. -/
def pinIconOffsetY : PinSize → F32
  | .small => ⟨0x40B147B0⟩
  | .medium => ⟨0x40C99998⟩
  | .large => ⟨0x40EE1480⟩

def pinProperties (pin : PinOverlay) : List (String × Json) :=
  Fields.insert
    (Fields.insert (Fields.insert [] pinKindProperty (.string pinKindValue)) pinImageProperty (.string (pinImageId pin)))
    pinOffsetProperty (.array [jsonOfF64 codec ⟨0⟩, jsonOfF32 codec (pinIconOffsetY pin.size)])

def pinFeatures (pin : PinOverlay) : List Json :=
  [featureJson "Point" (.array [jsonOfF64 codec pin.coordinate.lon, jsonOfF64 codec pin.coordinate.lat])
    (pinProperties codec pin)]

def overlayToFeatures : StaticOverlay → List Json
  | .path path => pathFeatures codec path
  | .geoJson geojson => geojsonFeatures geojson
  | .pin pin => pinFeatures codec pin

/-- `inject_overlay_idx` on one feature: none is the panic of an index into what is no object. -/
def stampFeature (idx : Nat) : Json → Option Json
  | .object fields =>
    let props := match Fields.get fields "properties" with
      | some (.object props) => props
      | _ => []
    some (.object (Fields.insert fields "properties" (.object (Fields.insert props overlayIdxProperty (.ofNat idx)))))
  | .null => some (.object [("properties", .object [(overlayIdxProperty, .ofNat idx)])])
  | _ => none

def injectOverlayIdx (features : List Json) (idx : Nat) : Option (List Json) := features.mapM (stampFeature idx)

/-- `build_union_features`: none is a panic. -/
def buildUnionFeatures (overlays : List StaticOverlay) : Option (List Json) := do
  let groups ← (overlaySlotGroups overlays).zipIdx.mapM fun (group, slotIdx) =>
    group.mapM fun overlay => injectOverlayIdx (overlayToFeatures codec overlay) slotIdx
  return groups.flatten.flatten

def buildUnionFeatureCollection (overlays : List StaticOverlay) : Option Json := do
  return .object [("features", .array (← buildUnionFeatures codec overlays)), ("type", .string "FeatureCollection")]

end

/-! ## The layers of a slot -/

inductive LayerKind where
  | fill
  | line
  | circle
  | symbol
deriving DecidableEq, Repr

/-- The conditions that the filters are made of. -/
inductive Condition where
  /-- `["==", ["geometry-type"], t]`, or a `match` of it with some types. -/
  | geometryType (types : List String)
  /-- `["==", ["get", name], n]`. -/
  | index (name : String) (n : Nat)
  /-- `["==", ["get", name], value]`. -/
  | text (name value : String)
  /-- `["!=", ["get", name], value]`. -/
  | notText (name value : String)

/-- The filter of a layer, an `all` of its conditions. -/
def slotLayerFilter (idx : Nat) : LayerKind → List Condition
  | .fill => [.geometryType ["Polygon"], .index overlayIdxProperty idx]
  | .line => [.geometryType ["LineString", "Polygon"], .index overlayIdxProperty idx]
  | .circle => [.geometryType ["Point"], .index overlayIdxProperty idx, .notText pinKindProperty pinKindValue]
  | .symbol => [.geometryType ["Point"], .index overlayIdxProperty idx, .text pinKindProperty pinKindValue]

/-- A number property that is the index; indices are written in one way. -/
def isIndex (n : Nat) : Option Json → Bool
  | some (.number m) => m.text == n.repr
  | _ => false

def isText (text : String) : Option Json → Bool
  | some (.string s) => s == text
  | _ => false

def Condition.holds (geometryType : String) (props : List (String × Json)) : Condition → Bool
  | .geometryType types => geometryType ∈ types
  | .index name n => isIndex n (Fields.get props name)
  | .text name value => isText value (Fields.get props name)
  | .notText name value => !isText value (Fields.get props name)

/-- `geometry-type` of a feature: a multi-geometry has the type of its parts, and a feature without geometry none. -/
def geometryTypeOf (feature : Json) : Option String :=
  match (feature.get "geometry").bind (Json.getStr · "type") with
  | some "Point" => some "Point"
  | some "MultiPoint" => some "Point"
  | some "LineString" => some "LineString"
  | some "MultiLineString" => some "LineString"
  | some "Polygon" => some "Polygon"
  | some "MultiPolygon" => some "Polygon"
  | _ => none

def propertiesOf (feature : Json) : List (String × Json) :=
  match feature.get "properties" with
  | some (.object props) => props
  | _ => []

/-- The layer draws the feature. -/
def selects (idx : Nat) (kind : LayerKind) (feature : Json) : Bool :=
  match geometryTypeOf feature with
  | none => false
  | some geometryType => (slotLayerFilter idx kind).all (Condition.holds geometryType (propertiesOf feature))

end Biei
