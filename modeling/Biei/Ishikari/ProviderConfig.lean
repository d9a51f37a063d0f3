import Biei.Ishikari.ProviderRoute
import Biei.Lib.Pattern

/-!
# Provider configuration

`resource_templates.rs` and `provider.rs`: templates of upstream URLs for each namespace, what a configuration must be, and how
the key of a resource is put into a template.
-/

namespace Biei.Ishikari

/-! ## Namespaced entries -/

/-- `NamespacedEntries`. -/
structure NamespacedEntries (α : Type) where
  namespaces : List (List Char × α) := []
  default : Option α := none
deriving DecidableEq

/-- `valid_namespace_key` of `AsciiIdentifier`, the one policy that is used here. -/
def validNamespaceKey (key : List Char) : Bool := !key.isEmpty && key.all fun c => c.isAlphanum || c == '-' || c == '_'

/-- The texts between the characters that split. -/
def splitText (c : Char) (text : List Char) : List (List Char) := text.splitOn c

/-- The namespace, if there is one, and the value of an entry. -/
def namespacedEntry (entry : List Char) : Option (List Char) × List Char :=
  match splitOnce '=' entry with
  | some (key, value) =>
    if validNamespaceKey (trim key) then (if trim key = "default".toList then none else some (trim key), trim value) else
      (none, entry)
  | none => (none, entry)

namespace NamespacedEntries

/-- One entry of a specification. -/
def addEntry (configName entryName : String) (out : NamespacedEntries (List Char)) (entry : List Char) :
    Except String (NamespacedEntries (List Char)) :=
  match namespacedEntry entry with
  | (none, value) =>
    if out.default.isSome then .error (configName ++ " has multiple default " ++ entryName ++ "s") else .ok
      { out with default := some value }
  | (some key, value) =>
    if out.namespaces.any fun e => e.1 == key then .error
      (configName ++ " has duplicate namespace \"" ++ String.ofList key ++ "\"")
    else .ok { out with namespaces := out.namespaces ++ [(key, value)] }

def parse (configName entryName : String) (raw : List Char) : Except String (NamespacedEntries (List Char)) := do
  let entries := ((splitText ';' raw).map trim).filter fun entry => !entry.isEmpty
  let out ← entries.foldlM (addEntry configName entryName) {}
  if out.namespaces.isEmpty && out.default.isNone then .error (configName ++ " must define at least one " ++ entryName) else
    .ok out

/-- A value, and the key relative to its namespace. -/
def select {α : Type} (entries : NamespacedEntries α) (key : List Char) : Option (α × List Char) :=
  let ofNamespace := (splitOnce '/' key).bind fun (ns, rest) => (entries.namespaces.find? fun e => e.1 == ns).map fun e =>
    (e.2, rest)
  match ofNamespace with
  | some selected => some selected
  | none => entries.default.map fun value => (value, key)

end NamespacedEntries

/-! ## Templates -/

/-- What a URL says of its scheme and its path. -/
structure ParsedUrl where
  scheme : String
  path : List Char

/-- What is needed of code that is not here: `Url::parse`, or the text of its error. -/
structure TemplateEnv where
  urlParse : List Char → Except String ParsedUrl

/-- `TemplatePolicy`, with `AsciiIdentifier` for its keys. -/
structure TemplatePolicy where
  configName : String
  placeholder : List Char
  requirePlaceholder : Bool
  placeholderMustBeInPath : Bool
  allowedSchemes : List String

/-- `contains`. -/
def containsText (pattern text : List Char) : Bool := decide (pattern <:+: text)

/-- The loop of `placeholder_marker`: a marker that is longer than the template is not in it. -/
def extendMarker (template : List Char) : Nat → List Char → List Char
  | 0, marker => marker
  | fuel + 1, marker => if containsText marker template then extendMarker template fuel (marker ++ ['x']) else marker

def placeholderMarker (template : List Char) : List Char := extendMarker template template.length "mmpf-placeholder-marker".toList

def validateUrlTemplate (env : TemplateEnv) (policy : TemplatePolicy) (template : List Char) (label : String) :
    Except String Unit := do
  if template.isEmpty then throw (policy.configName ++ " template for " ++ label ++ " must not be empty")
  if policy.requirePlaceholder && !containsText policy.placeholder template then
    throw (policy.configName ++ " template for " ++ label ++ " must contain " ++ String.ofList policy.placeholder)
  let marker := placeholderMarker template
  let parsed ← match env.urlParse (Pattern.replace policy.placeholder marker template) with
    | .ok parsed => .ok parsed
    | .error error => throw (policy.configName ++ " template for " ++ label ++ " is not a valid URL: " ++ error)
  if !policy.allowedSchemes.contains parsed.scheme then
    throw (policy.configName ++ " template URL scheme \"" ++ parsed.scheme ++ "\" is not supported")
  if policy.placeholderMustBeInPath && Pattern.count marker parsed.path != Pattern.count policy.placeholder template then
    throw (policy.configName ++ " template placeholder must appear only in the URL path")

structure ResourceTemplates where
  entries : NamespacedEntries (List Char) := {}
  placeholder : List Char := []
  enforcePathPlaceholder : Bool := false
deriving DecidableEq

/-- `substitution_has_traversal_segment`. -/
def substitutionHasTraversalSegment (substitution : List Char) : Bool :=
  (splitText '/' substitution).any fun segment => segment == ".".toList || segment == "..".toList

namespace ResourceTemplates

def parse (env : TemplateEnv) (policy : TemplatePolicy) (raw : List Char) : Except String ResourceTemplates := do
  let entries ← NamespacedEntries.parse policy.configName "template" raw
  entries.namespaces.forM fun (ns, template) => validateUrlTemplate env policy template (String.ofList ns)
  match entries.default with
  | some template => validateUrlTemplate env policy template "default"
  | none => pure ()
  .ok ⟨entries, policy.placeholder, policy.placeholderMustBeInPath⟩

def hasMatch (templates : ResourceTemplates) (key : List Char) : Bool := (templates.entries.select key).isSome

def resolveWith (templates : ResourceTemplates) (key : List Char) (encode : List Char → List Char) : Option (List Char) :=
  match templates.entries.select key with
  | none => none
  | some (template, relativeKey) =>
    let substitution := encode relativeKey
    if templates.enforcePathPlaceholder && containsText templates.placeholder template && substitutionHasTraversalSegment
      substitution then
      none
    else some (Pattern.replace templates.placeholder substitution template)

end ResourceTemplates

/-! ## Providers -/

structure ProviderConfig where
  styleTemplates : ResourceTemplates
  glyphUrlTemplate : Option (List Char)
  spriteTemplates : ResourceTemplates
deriving DecidableEq

def styleIdPlaceholder : List Char := "\x7bstyle_id\x7d".toList
def fontstackPlaceholder : List Char := "\x7bfontstack\x7d".toList
def rangePlaceholder : List Char := "\x7brange\x7d".toList

/-- The policy of `parse_resource_templates`. -/
def resourcePolicy (configName : String) : TemplatePolicy where
  configName := configName
  placeholder := styleIdPlaceholder
  requirePlaceholder := false
  placeholderMustBeInPath := true
  allowedSchemes := ["http", "https", "gs", "s3"]

/-- The policy of `validate_glyph_template`. -/
def glyphPolicy (placeholder : List Char) : TemplatePolicy where
  configName := "GLYPH_URL_TEMPLATE"
  placeholder := placeholder
  requirePlaceholder := true
  placeholderMustBeInPath := true
  allowedSchemes := ["http", "https", "gs", "s3"]

def glyphPlaceholders : List (List Char × List Char) :=
  [(fontstackPlaceholder, "Noto%20Sans".toList), (rangePlaceholder, "0-255".toList)]

def validateGlyphTemplate (env : TemplateEnv) (template : List Char) : Except String (List Char) := do
  glyphPlaceholders.forM fun (placeholder, _) => do
    if !containsText placeholder template then throw ("template must contain " ++ String.ofList placeholder)
  glyphPlaceholders.forM fun (placeholder, _) =>
    -- The other placeholders are given samples, so that this one is checked alone.
    let others := glyphPlaceholders.filter fun (other, _) => other != placeholder
    let sample := others.foldl (fun sample (other, replacement) => Pattern.replace other replacement sample) template
    validateUrlTemplate env (glyphPolicy placeholder) sample "default"
  .ok template

/-- `path_percent_encode` of a text. -/
def encodeText (text : List Char) : List Char := (pathPercentEncode (utf8 (String.ofList text))).map fun b => Char.ofNat b.toNat

/-- `path_percent_encode_segments` of a text. -/
def encodeTextSegments (text : List Char) : List Char := ['/'].intercalate ((splitText '/' text).map encodeText)

namespace ProviderConfig

def new (env : TemplateEnv) (styleTemplates glyphUrlTemplate spriteTemplates : Option (List Char)) :
    Except String ProviderConfig := do
  let style ← match styleTemplates with
    | some raw => ResourceTemplates.parse env (resourcePolicy "STYLE_TEMPLATES") raw
    | none => pure {}
  let glyph ← match glyphUrlTemplate with
    | some template => (validateGlyphTemplate env template).map some
    | none => pure none
  let sprite ← match spriteTemplates with
    | some raw => ResourceTemplates.parse env (resourcePolicy "SPRITE_TEMPLATES") raw
    | none => pure {}
  .ok ⟨style, glyph, sprite⟩

def resolveStyleUrl (config : ProviderConfig) (styleKey : List Char) : Option (List Char) :=
  config.styleTemplates.resolveWith styleKey encodeTextSegments

def resolveGlyphUrl (config : ProviderConfig) (fontstack range : List Char) : Option (List Char) :=
  config.glyphUrlTemplate.map fun template =>
    Pattern.replace rangePlaceholder range (Pattern.replace fontstackPlaceholder (encodeText fontstack) template)

def resolveSpriteUrl (config : ProviderConfig) (styleKey suffix : List Char) : Option (List Char) :=
  (config.spriteTemplates.resolveWith styleKey encodeTextSegments).map fun base => base ++ suffix

def hasGlyphProvider (config : ProviderConfig) : Bool := config.glyphUrlTemplate.isSome

def hasSpriteProvider (config : ProviderConfig) (styleKey : List Char) : Bool := config.spriteTemplates.hasMatch styleKey

end ProviderConfig

end Biei.Ishikari
