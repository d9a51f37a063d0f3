import Biei.Http.Overlay
import Biei.Lib.Fallible
import Biei.StyleCatalog

/-!
# Requests for a static image

`static_image.rs`, `format.rs` and `query.rs`: the position, the size and the format in a public path, and the checks of a
request, whether it was read from a path or came from a peer.
-/

namespace Biei

inductive IngressError where
  | invalidRequest (detail : String)
  | unknownStyle (styleId : StyleId)
deriving DecidableEq, Repr

/-- `invalid`. -/
def invalid {α : Type} (detail : String) : Except IngressError α := .error (.invalidRequest detail)

/-- `x > y`. -/
def F64.gt (x y : F64) : Bool := y.le x && !x.le y

/-- `TaskSpec`: a task before it is started. -/
structure TaskSpec where
  id : UInt64
  requestId : RequestId
  style : StyleRevision
  source : Option SourceRef
  request : RenderRequest
  pixelRatio : PixelRatio
  outputFormat : ImageFormat

def TaskSpec.start (spec : TaskSpec) (arrivedAt : Instant) (budget : Duration) : InternalTask where
  id := spec.id
  requestId := spec.requestId
  authorization := none
  style := spec.style
  source := spec.source
  request := spec.request
  pixelRatio := spec.pixelRatio
  outputFormat := spec.outputFormat
  arrivedAt := arrivedAt
  deadline := arrivedAt + budget
  forwardingHops := 0

/-! ## Scale and format -/

/-- `parse_suffix`: the text before the scale and the format. -/
def parseSuffix (value : List Char) : Except IngressError (List Char × Scale × ImageFormat) := do
  let (body, outputFormat) ← match rsplitOnce '.' value with
    | none => Except.ok (value, ImageFormat.png)
    | some (body, extension) =>
      if extension = "png".toList then .ok (body, .png)
      else if extension = "webp".toList then .ok (body, .webp)
      else if extension = "jpg".toList ∨ extension = "jpeg".toList then .ok (body, .jpeg)
      else invalid "format must be png, webp, or jpg"
  match stripEnd "@2x".toList body with
  | some body => return (body, .x2, outputFormat)
  | none => if '@' ∈ body then invalid "scale must be omitted or @2x" else return (body, .x1, outputFormat)

/-- `parse_size_scale_format`. -/
def parseSizeScaleFormat (value : List Char) : Except IngressError (Nat × Nat × Scale × ImageFormat) := do
  let (size, scale, format) ← parseSuffix value
  match splitOnce 'x' size with
  | none => invalid "static size must be \x7bwidth\x7dx\x7bheight\x7d"
  | some (width, height) =>
    match parseUnsigned (2 ^ 16) width with
    | none => invalid "static width must be an integer"
    | some width =>
      match parseUnsigned (2 ^ 16) height with
      | none => invalid "static height must be an integer"
      | some height => return (width, height, scale, format)

/-! ## Checks -/

def maxStaticWidth : Nat := 1920
def maxStaticHeight : Nat := 1280
def maxStaticRgbaBytes : Nat := maxStaticWidth * maxStaticHeight * 2 * 2 * 4

def validateStaticDimensions (width height : Nat) (scale : Scale) : Except IngressError Unit :=
  if width = 0 ∨ height = 0 then invalid "static width and height must be positive"
  else if maxStaticWidth < width then invalid "static width must be <= 1920"
  else if maxStaticHeight < height then invalid "static height must be <= 1280"
  else
    let multiplier := match scale with
      | .x1 => 1
      | .x2 => 2
    if maxStaticRgbaBytes < width * height * multiplier * multiplier * 4 then invalid "static raw RGBA size exceeds limit" else
      .ok ()

/-- `validate_range`, with the text of the range. -/
def validateRange (value lo hi : F64) (name range : String) : Except IngressError Unit :=
  if F64.contains lo hi value then .ok () else invalid (name ++ " must be in " ++ range)

def validateLon (value : F64) (name : String) : Except IngressError Unit := validateRange value minLon maxLon name "[-180, 180]"

def validateLat (value : F64) (name : String) : Except IngressError Unit := validateRange value minLat maxLat name "[-90, 90]"

/-- From 0 to 24. -/
def validateZoom (value : F64) : Except IngressError Unit := validateRange value ⟨0⟩ ⟨0x4038000000000000⟩ "zoom" "[0, 24]"

def validateBearing (value : F32) : Except IngressError Unit :=
    if value.isFinite then .ok () else invalid "bearing must be finite"

/-- From 0 to 85. -/
def validatePitch (value : F32) : Except IngressError Unit :=
  if F32.contains .zero ⟨0x42AA0000⟩ value then .ok () else invalid "pitch must be in [0, 85]"

def validateBbox (minLon minLat maxLon maxLat : F64) : Except IngressError Unit := do
  validateLon minLon "min_lon"
  validateLon maxLon "max_lon"
  validateLat minLat "min_lat"
  validateLat maxLat "max_lat"
  if minLon.gt maxLon then invalid "bbox min_lon must be <= max_lon"
  if minLat.gt maxLat then invalid "bbox min_lat must be <= max_lat"

def validateCenter (lon lat zoom : F64) (bearing pitch : F32) : Except IngressError Unit := do
  validateLon lon "lon"
  validateLat lat "lat"
  validateZoom zoom
  validateBearing bearing
  validatePitch pitch

def validateAutoHasOverlays (positioning : Positioning) (overlaysEmpty : Bool) : Except IngressError Unit :=
  if positioning = .auto ∧ overlaysEmpty then invalid "auto positioning requires at least one overlay with geometry" else .ok ()

def validatePositioning (positioning : Positioning) (overlaysEmpty : Bool) : Except IngressError Unit :=
  match positioning with
  | .auto => validateAutoHasOverlays positioning overlaysEmpty
  | .center lon lat zoom bearing pitch => validateCenter lon lat zoom bearing pitch
  | .bbox minLon minLat maxLon maxLat => validateBbox minLon minLat maxLon maxLat

def isLayerIdChar (c : Char) : Bool := c.isAlphanum || c == '-' || c == '_' || c == '.' || c == ':'

def validateBeforeLayer : Option String → Except IngressError Unit
  | none => .ok ()
  | some value =>
    if value.isEmpty ∨ 64 < (utf8 value).length then invalid "before_layer must be 1..=64 characters"
    else if value.toList.all isLayerIdChar then .ok ()
    else invalid "before_layer contains an unsupported character"

def maxPadding : UInt16 := 1024

def validatePadding (padding : Padding) : Except IngressError Unit :=
  [("padding top", padding.top), ("padding right", padding.right), ("padding bottom", padding.bottom),
    ("padding left", padding.left)].forM fun (name, value) =>
      if maxPadding < value then invalid (name ++ " must be in [0, 1024]") else .ok ()

/-- `validate_render_request` for a static image, with the check of an added layer. -/
def validateStaticRequest (codec : OverlayCodec) (validateAddlayer : AddLayer → Except IngressError Unit)
    (positioning : Positioning)
    (width height : UInt16) (overlays : List StaticOverlay) (beforeLayer : Option String) (padding : Padding)
    (addlayer : Option AddLayer) (scale : Scale) : Except IngressError Unit := do
  validateStaticDimensions width.toNat height.toNat scale
  if maxStaticOverlays < overlays.length then invalid "request has more than 64 overlays"
  overlays.forM fun overlay =>
    (validateStaticOverlay codec overlay).mapError fun err => .invalidRequest ("invalid static overlay: " ++ err.text)
  validatePositioning positioning overlays.isEmpty
  validateBeforeLayer beforeLayer
  validatePadding padding
  addlayer.forM validateAddlayer

def validatePublicStaticRequest (positioning : Positioning) (width height : Nat) (scale : Scale) (overlaysEmpty : Bool) :
    Except IngressError Unit := do
  validateStaticDimensions width height scale
  validateAutoHasOverlays positioning overlaysEmpty

/-! ## The parts of a path -/

/-- `percent_decode_str` on bytes: a plus sign is a blank. -/
def percentDecodePlus : Bytes → Except Unit Bytes
  | [] => .ok []
  | b :: rest =>
    if b = Ishikari.percent then
      match rest with
      | h :: l :: rest' =>
        match Ishikari.decodeHex h, Ishikari.decodeHex l with
        | some high, some low => (percentDecodePlus rest').map fun decoded => Ishikari.hexByte high low :: decoded
        | _, _ => .error ()
      | _ => .error ()
    else (percentDecodePlus rest).map fun decoded => (if b = 43 then 32 else b) :: decoded

def percentDecodeStr (value : List Char) : Except Unit (List Char) :=
  match percentDecodePlus (utf8 (String.ofList value)) with
  | .error e => .error e
  | .ok bytes =>
    match String.fromUTF8? ⟨bytes.toArray⟩ with
    | some text => .ok text.toList
    | none => .error ()

section

variable (codec : OverlayCodec)

def parseF64 (value : List Char) (name : String) : Except IngressError F64 :=
  match codec.parseF64 value with
  | some x => .ok x
  | none => invalid (name ++ " must be a number")

def parseF32 (value : List Char) (name : String) : Except IngressError F32 :=
  match codec.parseF32 value with
  | some x => .ok x
  | none => invalid (name ++ " must be a number")

def parseBboxPositioning (value : List Char) : Except IngressError Positioning :=
  match value.splitOn ',' with
  | [minLon, minLat, maxLon, maxLat] => do
    let minLon ← parseF64 codec minLon "min_lon"
    let minLat ← parseF64 codec minLat "min_lat"
    let maxLon ← parseF64 codec maxLon "max_lon"
    let maxLat ← parseF64 codec maxLat "max_lat"
    validateBbox minLon minLat maxLon maxLat
    return .bbox minLon minLat maxLon maxLat
  | _ => invalid "bbox must be [min_lon,min_lat,max_lon,max_lat]"

/-- The numbers of a center; a bearing and a pitch that are missing, and those written `0`, are zero. -/
def parseCenterNumbers (coords : List (List Char)) : Except IngressError (F64 × F64 × F64 × F32 × F32) :=
  match coords with
  | [lon, lat, zoom] => do
    return (← parseF64 codec lon "lon", ← parseF64 codec lat "lat", ← parseF64 codec zoom "zoom", .zero, .zero)
  | [lon, lat, zoom, bearing] => do
    return (← parseF64 codec lon "lon", ← parseF64 codec lat "lat", ← parseF64 codec zoom "zoom",
      ← if bearing = ['0'] then .ok F32.zero else parseF32 codec bearing "bearing", .zero)
  | [lon, lat, zoom, bearing, pitch] => do
    let zero := bearing = ['0'] ∧ pitch = ['0']
    return (← parseF64 codec lon "lon", ← parseF64 codec lat "lat", ← parseF64 codec zoom "zoom",
      ← if zero then .ok F32.zero else parseF32 codec bearing "bearing",
        ← if zero then .ok F32.zero else parseF32 codec pitch "pitch")
  | _ => invalid "position must be auto, [min_lon,min_lat,max_lon,max_lat], or lon,lat,zoom[,bearing[,pitch]]"

def parsePositioning (value : List Char) : Except IngressError Positioning := do
  let value ← if '%' ∈ value then
      match percentDecodeStr value with
      | .ok decoded => Except.ok decoded
      | .error _ => invalid "position must be valid percent-encoded UTF-8"
    else .ok value
  if value = "auto".toList then return .auto
  else
    match (stripLead ['['] value).bind (stripEnd [']']) with
    | some bbox => parseBboxPositioning codec bbox
    | none =>
      let (lon, lat, zoom, bearing, pitch) ← parseCenterNumbers codec (value.splitOn ',')
      validateCenter lon lat zoom bearing pitch
      return .center lon lat zoom bearing pitch

def fivePercentCeil (value : UInt16) : UInt16 := UInt16.ofNat (min (value.toNat + 19) 65535 / 20)

def defaultPaddingForPositioning (positioning : Positioning) (width height : UInt16) : Padding :=
  match positioning with
  | .auto => ⟨fivePercentCeil height, fivePercentCeil width, fivePercentCeil height, fivePercentCeil width⟩
  | .center .. => ⟨0, 0, 0, 0⟩
  | .bbox .. => ⟨0, 0, 0, 0⟩

/-- `resolve_style`. -/
def resolveStyle (catalog : StyleCatalog) (styleId : StyleId) : Except IngressError StyleRevision :=
  match catalog.resolveLatest styleId with
  | some version => .ok ⟨styleId, version⟩
  | none => .error (.unknownStyle styleId)

/-- The overlays, the position and the size in the parts of a static path. -/
def staticComponents (parts : List (List Char)) : Except IngressError (List StaticOverlay × List Char × List Char) :=
  match parts with
  | [first, position, sizeFormat] => if first = "static".toList then .ok ([], position, sizeFormat) else malformed
  | [first, overlay, position, sizeFormat] =>
    if first = "static".toList then
      match parseStaticOverlays codec overlay with
      | .ok overlays => .ok (overlays, position, sizeFormat)
      | .error err => invalid ("invalid static overlay: " ++ err.text)
    else malformed
  | _ => malformed
where
  malformed : Except IngressError (List StaticOverlay × List Char × List Char) :=
    invalid ("static path must be /\x7bstyle_id\x7d/static/[\x7boverlay\x7d/]\x7bposition\x7d/" ++
      "\x7bwidth\x7dx\x7bheight\x7d\x7b@scale\x7d.\x7bformat\x7d")

/-- `parse_static_path`, of what follows the style. -/
def parseStaticPath (parts : List (List Char)) (staticIndex : Nat) (styleId : StyleId) (beforeLayer : Option String)
    (padding : Option Padding) (addlayer : Option AddLayer) (catalog : StyleCatalog) (taskId : UInt64) (requestId : RequestId) :
    Except IngressError TaskSpec := do
  let (overlays, position, sizeFormat) ← staticComponents codec (parts.drop staticIndex)
  let style ← resolveStyle catalog styleId
  let positioning ← parsePositioning codec position
  let (width, height, scale, outputFormat) ← parseSizeScaleFormat sizeFormat
  let padding := padding.getD (defaultPaddingForPositioning positioning (UInt16.ofNat width) (UInt16.ofNat height))
  validatePublicStaticRequest positioning width height scale overlays.isEmpty
  let request := RenderRequest.staticImage positioning (UInt16.ofNat width) (UInt16.ofNat height) overlays beforeLayer padding
    addlayer
  return ⟨taskId, requestId, style, none, request, .ofScale scale, outputFormat⟩

/-- The two shapes of path that are accepted. -/
theorem staticComponents_eq_ok_iff {codec : OverlayCodec} {parts : List (List Char)} {overlays : List StaticOverlay}
    {position sizeFormat : List Char} :
    staticComponents codec parts = .ok (overlays, position, sizeFormat) ↔
      parts = ["static".toList, position, sizeFormat] ∧ overlays = [] ∨
        ∃ overlay, parts = ["static".toList, overlay, position, sizeFormat] ∧
          parseStaticOverlays codec overlay = .ok overlays := by
  constructor
  · intro h
    unfold staticComponents at h
    split at h
    · split at h
      · rename_i hfirst
        subst hfirst
        cases h
        exact Or.inl ⟨rfl, rfl⟩
      · cases h
    · rename_i overlay position' sizeFormat'
      split at h
      · rename_i hfirst
        subst hfirst
        split at h
        · rename_i overlays' hoverlays
          cases h
          exact Or.inr ⟨overlay, rfl, hoverlays⟩
        · cases h
      · cases h
    · cases h
  · rintro (⟨rfl, rfl⟩ | ⟨overlay, rfl, hoverlays⟩)
    · rfl
    · unfold staticComponents
      simp only [if_true, hoverlays]

/-- When a static path is a request. -/
theorem parseStaticPath_eq_ok_iff {codec : OverlayCodec} {parts : List (List Char)} {staticIndex : Nat} {styleId : StyleId}
    {beforeLayer : Option String} {padding : Option Padding} {addlayer : Option AddLayer} {catalog : StyleCatalog}
      {taskId : UInt64}
    {requestId : RequestId} {spec : TaskSpec} :
    parseStaticPath codec parts staticIndex styleId beforeLayer padding addlayer catalog taskId requestId = .ok spec ↔
      ∃ overlays position sizeFormat style positioning width height scale outputFormat,
        staticComponents codec (parts.drop staticIndex) = .ok (overlays, position, sizeFormat) ∧
          resolveStyle catalog styleId = .ok style ∧
          parsePositioning codec position = .ok positioning ∧
          parseSizeScaleFormat sizeFormat = .ok (width, height, scale, outputFormat) ∧
          validatePublicStaticRequest positioning width height scale overlays.isEmpty = .ok () ∧
          spec = ⟨taskId, requestId, style, none,
            .staticImage positioning (UInt16.ofNat width) (UInt16.ofNat height) overlays beforeLayer
              (padding.getD (defaultPaddingForPositioning positioning (UInt16.ofNat width) (UInt16.ofNat height))) addlayer,
            .ofScale scale, outputFormat⟩ := by
  constructor
  · intro h
    obtain ⟨⟨overlays, position, sizeFormat⟩, hcomponents, h⟩ := Except.bind_eq_ok_iff.mp h
    obtain ⟨style, hstyle, h⟩ := Except.bind_eq_ok_iff.mp h
    obtain ⟨positioning, hpositioning, h⟩ := Except.bind_eq_ok_iff.mp h
    obtain ⟨⟨width, height, scale, outputFormat⟩, hsize, h⟩ := Except.bind_eq_ok_iff.mp h
    obtain ⟨u, hvalid, h⟩ := Except.bind_eq_ok_iff.mp h
    exact ⟨overlays, position, sizeFormat, style, positioning, width, height, scale, outputFormat, hcomponents, hstyle,
      hpositioning, hsize,
      hvalid, (Except.ok.inj h).symm⟩
  · rintro ⟨overlays, position, sizeFormat, style, positioning, width, height, scale, outputFormat, hcomponents, hstyle,
      hpositioning,
      hsize, hvalid, rfl⟩
    unfold parseStaticPath
    rw [hcomponents]
    refine Except.bind_eq_ok_iff.mpr ⟨_, rfl, Except.bind_eq_ok_iff.mpr ⟨_, hstyle, Except.bind_eq_ok_iff.mpr ⟨_, hpositioning,
      Except.bind_eq_ok_iff.mpr ⟨_, hsize, Except.bind_eq_ok_iff.mpr ⟨_, hvalid, rfl⟩⟩⟩⟩⟩

end

end Biei
