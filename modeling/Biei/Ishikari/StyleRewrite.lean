import Biei.Ishikari.ProviderConfig
import Biei.Lib.Fields
import Biei.Types

/-!
# Rewritten styles

`rewrite_style` of `style.rs`: a style is pointed at the endpoints of this server, for its glyphs, its sprite and the tilesets
that its sources name by provider-relative references.
-/

namespace Biei.Ishikari

/-! ## Tokens -/

/-- What is needed of code that is not here: `form_urlencoded::byte_serialize`, which escapes what separates parameters. -/
structure StyleEnv where
  byteSerialize : Bytes → List Char
  byteSerialize_separators : ∀ bytes, ∀ c ∈ byteSerialize bytes, c ≠ '?' ∧ c ≠ '&'

structure PropagatedAccessToken where
  value : String

def tokenParameter : List Char := "access_token=".toList

/-- `append_to`. -/
def PropagatedAccessToken.appendTo (env : StyleEnv) (token : PropagatedAccessToken) (url : List Char) : List Char :=
  url ++ (if '?' ∈ url then '&' else '?') :: (tokenParameter ++ env.byteSerialize (utf8 token.value))

/-- The URL with the token, if there is one. -/
def withToken (env : StyleEnv) (token : Option PropagatedAccessToken) (url : List Char) : List Char :=
  match token with
  | some token => token.appendTo env url
  | none => url

/-! ## References -/

/-- `TilesetId::try_new` accepts the key. -/
def isTilesetKey (key : List Char) : Bool := (validateTilesetId (utf8 (String.ofList key))).toBool

/-- `strip_tileset_ref`. -/
def stripTilesetRef (url : List Char) : Option (List Char) := stripLead ['/'] url

def tilePathTemplate : List Char := "/\x7bz\x7d/\x7bx\x7d/\x7by\x7d".toList

def rewriteTilesetRefTilejsonUrl (url baseUrl : List Char) : Option (List Char) := do
  let tilesetKey ← stripTilesetRef url
  if isTilesetKey tilesetKey then some (baseUrl ++ "/tilesets/".toList ++ tilesetKey) else none

def rewriteTilesetRefTileUrl (url baseUrl : List Char) : Option (List Char) := do
  let rest ← stripTilesetRef url
  let tilesetKey := (stripEnd tilePathTemplate rest).getD rest
  if isTilesetKey tilesetKey then some (baseUrl ++ "/tilesets/".toList ++ tilesetKey ++ tilePathTemplate) else none

/-! ## Sources -/

/-- `Value::as_str`. -/
def asText : Json → Option (List Char)
  | .string s => some s.toList
  | _ => none

def textValue (text : List Char) : Json := .string (String.ofList text)

variable (env : StyleEnv) (baseUrl : List Char) (token : Option PropagatedAccessToken)

/-- What a reference to TileJSON is rewritten to. -/
def tilejsonUrl (mlt : Bool) (url : List Char) : Option (List Char) :=
  (rewriteTilesetRefTilejsonUrl url baseUrl).map fun rewritten =>
    withToken env token (if mlt then rewritten ++ "?encoding=mlt".toList else rewritten)

/-- What a reference to tiles is rewritten to. -/
def tileUrl (mlt : Bool) (url : List Char) : Option (List Char) :=
  (rewriteTilesetRefTileUrl url baseUrl).map fun rewritten =>
    withToken env token (if mlt then rewritten ++ ".mlt".toList else rewritten)

/-- An element of `tiles`, and whether it was rewritten. -/
def rewriteTile (mlt : Bool) (tile : Json) : Json × Bool :=
  match (asText tile).bind (tileUrl env baseUrl token mlt) with
  | some url => (textValue url, true)
  | none => (tile, false)

/-- The fields with their `url`, and whether it was rewritten. -/
def rewriteUrlField (mlt : Bool) (fields : List (String × Json)) : List (String × Json) × Bool :=
  match ((Fields.get fields "url").bind asText).bind (tilejsonUrl env baseUrl token mlt) with
  | some url => (Fields.insert fields "url" (textValue url), true)
  | none => (fields, false)

/-- The fields with their `tiles`, and whether one was rewritten. -/
def rewriteTilesField (mlt : Bool) (fields : List (String × Json)) : List (String × Json) × Bool :=
  match Fields.get fields "tiles" with
  | some (.array tiles) =>
    let rewritten := tiles.map (rewriteTile env baseUrl token mlt)
    (Fields.set "tiles" (.array (rewritten.map Prod.fst)) fields, rewritten.any Prod.snd)
  | _ => (fields, false)

/-- Whether a source is to be MLT: MLT is wanted, and only vector sources have it. -/
def sourceMlt (wantsMlt : Bool) (fields : List (String × Json)) : Bool :=
  wantsMlt && (Fields.get fields "type").bind asText == some "vector".toList

def rewriteSourceFields (wantsMlt : Bool) (fields : List (String × Json)) : List (String × Json) :=
  let mlt := sourceMlt wantsMlt fields
  let (fields, rewroteUrl) := rewriteUrlField env baseUrl token mlt fields
  let (fields, rewroteTile) := rewriteTilesField env baseUrl token mlt fields
  if mlt && (rewroteUrl || rewroteTile) then Fields.insert fields "encoding" (textValue "mlt".toList) else fields

def rewriteSourceObject (wantsMlt : Bool) (source : Json) : Json :=
  match source with
  | .object fields => .object (rewriteSourceFields env baseUrl token wantsMlt fields)
  | _ => source

/-! ## Styles -/

def rewriteSourcesField (wantsMlt : Bool) (fields : List (String × Json)) : List (String × Json) :=
  match Fields.get fields "sources" with
  | some (.object sources) =>
    Fields.set "sources" (.object (sources.map fun (name, source) =>
      (name, rewriteSourceObject env baseUrl token wantsMlt source))) fields
  | _ => fields

/-- The URL of the glyphs, and of the sprite of a style. -/
def glyphsUrl : List Char := withToken env token (baseUrl ++ "/fonts/\x7bfontstack\x7d/\x7brange\x7d.pbf".toList)

def spriteUrl (styleKey : List Char) : List Char :=
  withToken env token (baseUrl ++ "/styles/".toList ++ encodeTextSegments styleKey ++ "/sprite".toList)

def rewriteStyle (styleKey : List Char) (provider : ProviderConfig) (encoding : Option String) (style : Json) : Json :=
  match style with
  | .object fields =>
    let fields := if provider.hasGlyphProvider then Fields.insert fields "glyphs" (textValue (glyphsUrl env baseUrl token)) else
      fields
    let fields :=
      if provider.hasSpriteProvider styleKey then Fields.insert fields "sprite"
        (textValue (spriteUrl env baseUrl token styleKey)) else fields
    .object (rewriteSourcesField env baseUrl token (encoding == some "mlt") fields)
  | _ => style

end Biei.Ishikari
