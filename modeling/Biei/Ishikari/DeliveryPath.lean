import Biei.Text

/-!
# Public paths of the content server

The public routes of `server/mod.rs`, what their handlers make of a path, and `auth.rs`, which derives the namespace to authorize
from the raw path on its own. The router matches the raw path, and what it captures is percent-decoded for the handler.
-/

namespace Biei.Ishikari

def slash : UInt8 := 47

def percent : UInt8 := 37

/-- The text up to the first slash: `split('/').next()`. -/
def firstSegment (text : Bytes) : Bytes := text.takeWhile fun b => b != slash

/-- `split('/')`. -/
def splitSlash (text : Bytes) : List Bytes := text.splitOn slash

/-- The bytes are a text. -/
def validUtf8 (bytes : Bytes) : Bool := ByteArray.validateUTF8 ⟨bytes.toArray⟩

/-- `decode_hex`. -/
def decodeHex (byte : UInt8) : Option UInt8 :=
  if 48 ≤ byte ∧ byte ≤ 57 then some (byte - 48)
  else if 97 ≤ byte ∧ byte ≤ 102 then some (byte - 97 + 10)
  else if 65 ≤ byte ∧ byte ≤ 70 then some (byte - 65 + 10)
  else none

def hexByte (high low : UInt8) : UInt8 := (high <<< 4) ||| low

/-! ## What the handlers read -/

/-- How a captured parameter is decoded: an escape that is not one stays as it is. -/
def percentDecode : Bytes → Bytes
  | b :: h :: l :: rest =>
    if b ≠ percent then b :: percentDecode (h :: l :: rest)
    else
      match decodeHex h, decodeHex l with
      | some high, some low => hexByte high low :: percentDecode rest
      | _, _ => b :: percentDecode (h :: l :: rest)
  | text => text

/-- The parameter that the handler receives; the request is refused when it is not a text. -/
def decodedParameter (raw : Bytes) : Option Bytes := if validUtf8 (percentDecode raw) then some (percentDecode raw) else none

inductive PathPart where
  | text (segment : String)
  /-- One segment: `{name}`. -/
  | parameter (name : String)
  /-- The rest of the path: `{*name}`. -/
  | wildcard (name : String)
deriving DecidableEq

abbrev RoutePattern := List PathPart

/-- The raw parameters of a path that the pattern matches. -/
def RoutePattern.captures : RoutePattern → Bytes → Option (List Bytes)
  | [], path => if path.isEmpty then some [] else none
  | .text segment :: parts, path => do
    let rest ← (slash :: utf8 segment).isPrefixOf? path
    captures parts rest
  | .parameter _ :: parts, path =>
    match path with
    | [] => none
    | b :: rest =>
      if b = slash ∧ firstSegment rest ≠ [] then
        (captures parts (rest.dropWhile fun b => b != slash)).map fun raws => firstSegment rest :: raws
      else none
  | .wildcard _ :: _, path =>
    match path with
    | [] => none
    | b :: rest => if b = slash ∧ rest ≠ [] then some [rest] else none

/-! ## Keys -/

/-- `is_identifier_segment`. -/
def isIdentifierSegment (segment : Bytes) : Bool :=
  segment.all fun byte =>
    decide (48 ≤ byte ∧ byte ≤ 57) || decide (65 ≤ byte ∧ byte ≤ 90) || decide (97 ≤ byte ∧ byte ≤ 122) || byte == 46 ||
      byte == 95 ||
      byte == 45

/-- `MAX_TILESET_ID_LEN`. -/
def maxTilesetIdLen : Nat := 256

/-- `validate_tileset_segment`. -/
def validateTilesetSegment (segment : Bytes) : Except String Unit := do
  if segment.isEmpty then throw "tileset_id segments must not be empty"
  if segment = utf8 "." ∨ segment = utf8 ".." then throw "tileset_id segments must not be '.' or '..'"
  if !isIdentifierSegment segment then throw "tileset_id contains invalid characters"

/-- `validate_tileset_id`. -/
def validateTilesetId (tilesetId : Bytes) : Except String Unit := do
  if tilesetId.isEmpty then throw "tileset_id must not be empty"
  if maxTilesetIdLen < tilesetId.length then throw "tileset_id must be at most 256 bytes"
  match splitSlash tilesetId with
  | _ :: _ :: _ :: _ => throw "tileset_id may contain at most one '/' separating namespace and id"
  | [first, second] =>
    validateTilesetSegment first
    validateTilesetSegment second
    if second = utf8 "preview" ∨ second = utf8 "preview.json" then
      throw "tileset_id namespace segment may not use reserved route words"
  | [first] => validateTilesetSegment first
  | [] => validateTilesetSegment []

/-- `validate_style_key`. -/
def validateStyleKey (styleKey : Bytes) : Except String Unit := do
  if styleKey.isEmpty ∨ 200 < styleKey.length then throw "style_id length invalid"
  (splitSlash styleKey).forM fun segment => do
    if segment.isEmpty ∨ segment = utf8 "." ∨ segment = utf8 ".." then throw "style_id segment invalid"
    if !isIdentifierSegment segment then throw "style_id contains invalid characters"

/-- `join_tileset_key`. -/
def joinTilesetKey (ns tilesetId : Bytes) : Bytes := ns ++ slash :: tilesetId

/-- `str::strip_suffix`. -/
def stripTail (tail text : Bytes) : Option Bytes :=
  if tail.isSuffixOf text then some (text.take (text.length - tail.length)) else none

/-- The key in a path below `/styles/`, of a style or a preview, or of a sprite in `parse_sprite_path`. -/
def styleKeyOf (stylePath : Bytes) : Option Bytes :=
  match stripTail (utf8 "/style.json") stylePath with
  | some styleKey => some styleKey
  | none =>
    match stripTail (utf8 "/preview") stylePath with
    | some styleKey => some styleKey
    | none =>
      (["/sprite@2x.json", "/sprite@2x.png", "/sprite.json", "/sprite.png"].filterMap fun tail =>
        stripTail (utf8 tail) stylePath).find?
        fun styleKey => !styleKey.isEmpty

/-! ## Routes -/

/-- What a handler takes for the key of what it serves. -/
inductive KeySource where
  /-- The first parameter. -/
  | flat
  /-- The first two parameters. -/
  | namespaced
  | style
  /-- Nothing that belongs to a namespace. -/
  | unscoped
deriving DecidableEq

/-- `public_router`, with what the handler of each route takes for the key. -/
def publicRouter : List (RoutePattern × KeySource) :=
  [([.text "livez"], .unscoped),
    ([.text "readyz"], .unscoped),
    ([.text "tilesets", .parameter "tileset_id"], .flat),
    ([.text "tilesets", .parameter "tileset_id", .text "preview"], .flat),
    ([.text "tilesets", .parameter "tileset_id", .text "preview.json"], .flat),
    ([.text "tilesets", .parameter "tileset_id", .parameter "z", .parameter "x", .parameter "y"], .flat),
    ([.text "tilesets", .parameter "tileset_id", .text "derived", .parameter "product"], .flat),
    ([.text "tilesets", .parameter "tileset_id", .text "derived", .parameter "product", .parameter "z", .parameter "x",
      .parameter "y"],
      .flat),
    ([.text "tilesets", .parameter "namespace", .parameter "tileset_id"], .namespaced),
    ([.text "tilesets", .parameter "namespace", .parameter "tileset_id", .text "preview"], .namespaced),
    ([.text "tilesets", .parameter "namespace", .parameter "tileset_id", .text "preview.json"], .namespaced),
    ([.text "tilesets", .parameter "namespace", .parameter "tileset_id", .parameter "z", .parameter "x", .parameter "y"],
      .namespaced),
    ([.text "tilesets", .parameter "namespace", .parameter "tileset_id", .text "derived", .parameter "product"], .namespaced),
    ([.text "tilesets", .parameter "namespace", .parameter "tileset_id", .text "derived", .parameter "product", .parameter "z",
        .parameter "x", .parameter "y"], .namespaced),
    ([.text "styles", .wildcard "style_path"], .style),
    ([.text "fonts", .parameter "fontstack", .parameter "range"], .unscoped)]

/-- The key that a handler accepts, of its decoded parameters; what else it checks can only refuse more. -/
def KeySource.accept (source : KeySource) (parameters : List Bytes) : Option Bytes :=
  match source, parameters with
  | .flat, tilesetId :: _ => if (validateTilesetId tilesetId).toBool then some tilesetId else none
  | .namespaced, ns :: tilesetId :: _ =>
    if (validateTilesetId (joinTilesetKey ns tilesetId)).toBool then some (joinTilesetKey ns tilesetId) else none
  | .style, stylePath :: _ => (styleKeyOf stylePath).filter fun styleKey => (validateStyleKey styleKey).toBool
  | _, _ => none

/-- The key that is served for a raw path on a route. -/
def servedKey (route : RoutePattern × KeySource) (path : Bytes) : Option Bytes := do
  let raws ← route.1.captures path
  let parameters ← raws.mapM decodedParameter
  route.2.accept parameters

/-! ## Authorization -/

/-- The loop of `decoded_namespace`: an escape that is not one is an error. -/
def decodeStrict : Bytes → Except Unit Bytes
  | [] => .ok []
  | b :: rest =>
    if b ≠ percent then (decodeStrict rest).map fun decoded => b :: decoded
    else
      match rest with
      | h :: l :: rest' =>
        match decodeHex h, decodeHex l with
        | some high, some low => (decodeStrict rest').map fun decoded => hexByte high low :: decoded
        | _, _ => .error ()
      | _ => .error ()

/-- `decoded_namespace`. -/
def decodedNamespace (path lead : Bytes) : Except Unit Bytes :=
  match lead.isPrefixOf? path with
  | none => .error ()
  | some rest =>
    let raw := firstSegment rest
    if raw.isEmpty then .error ()
    else
      match decodeStrict raw with
      | .error e => .error e
      | .ok decoded =>
        if !validUtf8 decoded then .error ()
        else if (firstSegment decoded).isEmpty then .error ()
        else .ok (firstSegment decoded)

/-- `delivery_namespace`: nothing for other routes, `some none` for what is shared by all, and else the namespace. -/
def deliveryNamespace (matched : RoutePattern) (path : Bytes) : Except Unit (Option (Option Bytes)) :=
  if matched = [.text "fonts", .parameter "fontstack", .parameter "range"] then .ok (some none)
  else if matched = [.text "styles", .wildcard "style_path"] then
    (decodedNamespace path (utf8 "/styles/")).map fun ns => some (some ns)
  else if matched.head? = some (.text "tilesets") then (decodedNamespace path (utf8 "/tilesets/")).map fun ns => some (some ns)
  else .ok none

/-- What `authorize_delivery` does with a request. -/
inductive Admission where
  /-- Refused with `invalid_path`. -/
  | invalidPath
  | refused
  /-- Passed on without authorization. -/
  | exempt
  /-- Passed on, authorized for the namespace or for what is shared by all. -/
  | authorized (ns : Option Bytes)
deriving DecidableEq

/-- The request is passed on to its handler. -/
def Admission.Passed (admission : Admission) : Prop := admission = .exempt ∨ ∃ ns, admission = .authorized ns

/-- `authorize_delivery` where authorization is configured; `authorize` is what it says of the request's credential. -/
def authorizeDelivery (authorize : Option Bytes → Bool) (matched : RoutePattern) (path : Bytes) : Admission :=
  match deliveryNamespace matched path with
  | .error _ => .invalidPath
  | .ok none => .exempt
  | .ok (some ns) => if authorize ns then .authorized ns else .refused

end Biei.Ishikari
