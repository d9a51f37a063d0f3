import Biei.Ishikari.InternalPath
import Biei.Provider.Cache
import Biei.Storage.Peer

/-!
# Provider resources from a peer

A style, a glyph range or a sprite is asked of its owner by an internal path, and comes back in a response of the internal
listener: the paths of `peer.rs`, the internal handlers of `style.rs`, `sprite.rs` and `glyph.rs`, the responses of `upstream.rs`,
and the client of `internal_transport.rs`.
-/

namespace Biei.Ishikari

open Provider (HttpError ProviderEnv ProviderResource Validators)
open Storage (Peer PeerFetchError ScoredPeer)

/-! ## Resources -/

inductive ProviderSpriteVariant where
  | json
  | png
  | json2x
  | png2x
deriving DecidableEq, Repr

def ProviderSpriteVariant.suffix : ProviderSpriteVariant → String
  | .json => ".json"
  | .png => ".png"
  | .json2x => "@2x.json"
  | .png2x => "@2x.png"

/-- `ProviderResource` of `peer.rs`: what is asked for. -/
inductive ResourceName where
  | style (styleKey : String)
  | glyph (fontstack range : String)
  | sprite (styleKey : String) (variant : ProviderSpriteVariant)
deriving DecidableEq

/-- `ProviderRequest::internal_path`. -/
def ResourceName.internalPath : ResourceName → Bytes
  | .style styleKey => utf8 "/_internal/provider/styles/" ++ pathPercentEncodeSegments (utf8 styleKey) ++ utf8 "/style.json"
  | .glyph fontstack range =>
    utf8 "/_internal/provider/fonts/" ++ pathPercentEncode (utf8 fontstack) ++ utf8 "/" ++ utf8 range ++ utf8 ".pbf"
  | .sprite styleKey variant =>
    utf8 "/_internal/provider/styles/" ++ pathPercentEncodeSegments (utf8 styleKey) ++ utf8 "/sprite" ++ utf8 variant.suffix

/-- `SpriteFormat`. -/
inductive SpriteFormat where
  | json
  | png
deriving DecidableEq

/-- The format that `parse_sprite_path` gives with a variant. -/
def ProviderSpriteVariant.format : ProviderSpriteVariant → SpriteFormat
  | .json => .json
  | .json2x => .json
  | .png => .png
  | .png2x => .png

/-- The limit of the body that the owner fetches. -/
def ResourceName.maxBytes : ResourceName → Nat
  | .style _ => 2 * 1024 * 1024
  | .glyph _ _ => 1024 * 1024
  | .sprite _ variant =>
    match variant.format with
    | .json => 2 * 1024 * 1024
    | .png => 8 * 1024 * 1024

def ResourceName.contentType : ResourceName → String
  | .style _ => "application/json"
  | .glyph _ _ => "application/x-protobuf"
  | .sprite _ variant =>
    match variant.format with
    | .json => "application/json"
    | .png => "image/png"

/-! ## What the handlers accept -/

/-- `char::is_control`. -/
def isControl (c : Char) : Bool := c.toNat < 0x20 || (0x7f ≤ c.toNat && c.toNat < 0xa0)

def maxFontstackLen : Nat := 256

def validateFontstack (fontstack : String) : Except HttpError Unit :=
  if fontstack.isEmpty ∨ maxFontstackLen < (utf8 fontstack).length then .error ⟨400, "fontstack length invalid"⟩
  else if fontstack.toList.any isControl ||
      (fontstack.toList.splitOn ',').any fun part => (trim part).isEmpty || part.contains '/' || part.contains '\\' then
    .error ⟨400, "fontstack invalid"⟩
  else .ok ()

def validateRange (range : String) : Except HttpError String :=
  let invalid := HttpError.mk 400 "glyph range invalid"
  match splitOnce '-' ((stripEnd ".pbf".toList range.toList).getD range.toList) with
  | none => .error invalid
  | some (start, stop) =>
    match parseUnsigned (2 ^ 32) start, parseUnsigned (2 ^ 32) stop with
    | some start, some stop =>
      if start % 256 ≠ 0 ∨ (if start + 255 < 2 ^ 32 then some (start + 255) else none) ≠ some stop then .error invalid
      else .ok (start.repr ++ "-" ++ stop.repr)
    | _, _ => .error invalid

/-- `validate_style_key` of a text. -/
def checkStyleKey (styleKey : String) : Except HttpError Unit :=
  match validateStyleKey (utf8 styleKey) with
  | .error e => .error ⟨400, e⟩
  | .ok () => .ok ()

/-- `parse_sprite_path`. -/
def parseSpritePath (stylePath : String) : Option (String × ProviderSpriteVariant) :=
  [("/sprite@2x.json", ProviderSpriteVariant.json2x), ("/sprite@2x.png", .png2x), ("/sprite.json", .json),
    ("/sprite.png", .png)].findSome? fun (tail, variant) =>
      ((stripEnd tail.toList stylePath.toList).filter fun styleKey => !styleKey.isEmpty).map fun styleKey =>
        (String.ofList styleKey, variant)

/-- What `internal_style_handler` is asked for. -/
def internalStyleResource (stylePath : String) : Except HttpError ResourceName :=
  match stripEnd "/style.json".toList stylePath.toList with
  | some styleKey => (checkStyleKey (String.ofList styleKey)).map fun _ => .style (String.ofList styleKey)
  | none =>
    match parseSpritePath stylePath with
    | some (styleKey, variant) => (checkStyleKey styleKey).map fun _ => .sprite styleKey variant
    | none => .error ⟨404, "not found"⟩

/-- What `internal_glyph_handler` is asked for. -/
def internalGlyphResource (fontstack range : String) : Except HttpError ResourceName := do
  validateFontstack fontstack
  let range ← validateRange range
  .ok (.glyph fontstack range)

def stylesRoute : RoutePattern := [.text "_internal", .text "provider", .text "styles", .wildcard "style_path"]

def fontsRoute : RoutePattern := [.text "_internal", .text "provider", .text "fonts", .parameter "fontstack", .parameter "range"]

/-- What the internal listener is asked for by a path; nothing when no provider route matches, or a parameter is not a text. -/
def internalResource (path : Bytes) : Option (Except HttpError ResourceName) :=
  match stylesRoute.parameters path with
  | some [stylePath] => some (internalStyleResource stylePath)
  | _ =>
    match fontsRoute.parameters path with
    | some [fontstack, range] => some (internalGlyphResource fontstack range)
    | _ => none

/-- What passes the checks of the public handlers. -/
def ResourceName.Validated : ResourceName → Prop
  | .style styleKey => checkStyleKey styleKey = .ok ()
  | .glyph fontstack range => validateFontstack fontstack = .ok () ∧ ∃ raw, validateRange raw = .ok range
  | .sprite styleKey _ => checkStyleKey styleKey = .ok ()

end Biei.Ishikari
