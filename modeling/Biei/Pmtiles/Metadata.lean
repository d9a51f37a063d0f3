import Biei.Lib.Fields
import Biei.Text
import Biei.Types

/-!
# The metadata of an archive

`metadata.rs` of the PMTiles crate. A document is a parsed one, whose objects are maps; what is derived reads a structure from an
object, or from an array of its fields in order, and refuses a field of another type.
-/

namespace Biei.PmtilesMetadata

/-! ## Values -/

def readString : Json → Option String
  | .string s => some s
  | _ => none

/-- A number that is an integer. -/
def integerOf (n : JsonNumber) : Option Int :=
  match n.text.toList with
  | '-' :: digits => if digits.isEmpty || !digits.all Char.isDigit then none else some (-(decimal digits : Int))
  | digits => if digits.isEmpty || !digits.all Char.isDigit then none else some (decimal digits : Int)

/-- An integer of some type, from its least value to below its bound. -/
def readInt (least bound : Int) : Json → Option Int
  | .number n => (integerOf n).filter fun k => decide (least ≤ k ∧ k < bound)
  | _ => none

def readI32 : Json → Option Int := readInt (-(2 ^ 31)) (2 ^ 31)

def readU32 : Json → Option Int := readInt 0 (2 ^ 32)

/-- Any number is an `f64`. -/
def readF64 : Json → Option JsonNumber
  | .number n => some n
  | _ => none

def readOption {α : Type} (read : Json → Option α) : Json → Option (Option α)
  | .null => some none
  | value => (read value).map some

def readVec {α : Type} (read : Json → Option α) : Json → Option (List α)
  | .array items => items.mapM read
  | _ => none

def readMap {α : Type} (read : Json → Option α) : Json → Option (List (String × α))
  | .object fields => fields.mapM fun (name, value) => (read value).map fun a => (name, a)
  | _ => none

/-! ## Structures -/

/-- What a structure is read from. -/
inductive Entries where
  | map (fields : List (String × Json))
  | seq (items : List Json)

/-- An object, or an array of so many fields at most. -/
def entriesOf (arity : Nat) : Json → Option Entries
  | .object fields => some (.map fields)
  | .array items => if items.length ≤ arity then some (.seq items) else none
  | _ => none

def Entries.find (entries : Entries) (index : Nat) (name : String) : Option Json :=
  match entries with
  | .map fields => Fields.get fields name
  | .seq items => items[index]?

/-- A field with a default. -/
def Entries.field {α : Type} (entries : Entries) (index : Nat) (name : String) (default : α) (read : Json → Option α) :
    Option α :=
  match entries.find index name with
  | some value => read value
  | none => some default

/-- A field that has to be there. -/
def Entries.required {α : Type} (entries : Entries) (index : Nat) (name : String) (read : Json → Option α) : Option α :=
  (entries.find index name).bind read

/-- An optional field without a default: an object need not have it, an array has to. -/
def Entries.optional {α : Type} (entries : Entries) (index : Nat) (name : String) (read : Json → Option α) : Option (Option α) :=
  match entries.find index name with
  | some value => readOption read value
  | none =>
    match entries with
    | .map _ => some none
    | .seq _ => none

/-! ## Vector layers -/

structure VectorLayer where
  id : String
  description : Option String
  minzoom : Option Int
  maxzoom : Option Int
  fields : List (String × String)
deriving DecidableEq

/-- `str::parse` of an `i8`. -/
def parseI8 (text : List Char) : Option Int :=
  match text with
  | '-' :: digits =>
    if digits.isEmpty || !digits.all Char.isDigit then none else if decimal digits ≤ 128 then
      some (-(decimal digits : Int)) else none
  | text => (parseUnsigned 128 text).map fun n => (n : Int)

/-- `deserialize_optional_i8`. -/
def readOptionalI8 : Json → Option (Option Int)
  | .null => some none
  | .number n => ((integerOf n).filter fun k => decide (-128 ≤ k ∧ k < 128)).map some
  | .string text => (parseI8 text.toList).map some
  | _ => none

def readVectorLayer (value : Json) : Option VectorLayer := do
  let entries ← entriesOf 5 value
  let id ← entries.required 0 "id" readString
  let description ← entries.field 1 "description" none (readOption readString)
  let minzoom ← entries.field 2 "minzoom" none readOptionalI8
  let maxzoom ← entries.field 3 "maxzoom" none readOptionalI8
  let fields ← entries.field 4 "fields" [] (readMap readString)
  some ⟨id, description, minzoom, maxzoom, fields⟩

/-! ## Statistics -/

structure TilestatsAttribute where
  attributeName : String
  count : Int
  type : String
  values : List Json
  min : Option JsonNumber
  max : Option JsonNumber

structure TilestatsLayer where
  layer : String
  count : Int
  geometry : String
  attributeCount : Int
  attributes : List TilestatsAttribute

structure Tilestats where
  layerCount : Int
  layers : List TilestatsLayer

def readTilestatsAttribute (value : Json) : Option TilestatsAttribute := do
  let entries ← entriesOf 6 value
  let attributeName ← entries.field 0 "attribute" "" readString
  let count ← entries.field 1 "count" 0 readU32
  let type ← entries.field 2 "type" "" readString
  let values ← entries.field 3 "values" [] (readVec some)
  let min ← entries.optional 4 "min" readF64
  let max ← entries.optional 5 "max" readF64
  some ⟨attributeName, count, type, values, min, max⟩

def readTilestatsLayer (value : Json) : Option TilestatsLayer := do
  let entries ← entriesOf 5 value
  let layer ← entries.field 0 "layer" "" readString
  let count ← entries.field 1 "count" 0 readI32
  let geometry ← entries.field 2 "geometry" "" readString
  let attributeCount ← entries.field 3 "attributeCount" 0 readI32
  let attributes ← entries.field 4 "attributes" [] (readVec readTilestatsAttribute)
  some ⟨layer, count, geometry, attributeCount, attributes⟩

def readTilestats (value : Json) : Option Tilestats := do
  let entries ← entriesOf 2 value
  let layerCount ← entries.field 0 "layerCount" 0 readI32
  let layers ← entries.field 1 "layers" [] (readVec readTilestatsLayer)
  some ⟨layerCount, layers⟩

/-! ## Documents -/

/-- The fields of an object that a structure does not name. -/
def unnamed (names : List String) (fields : List (String × Json)) : List (String × Json) := fields.filter fun field =>
    !names.contains field.1

structure MetadataJson where
  encoding : Option String
  vectorLayers : List VectorLayer
  tilestats : Option Tilestats
  other : List (String × Json)

structure Metadata where
  name : Option String
  description : Option String
  attribution : Option String
  version : Option String
  encoding : Option String
  vectorLayers : List VectorLayer
  tilestats : Option Tilestats
  json : Option MetadataJson
  other : List (String × Json)

/-- A structure with a map of what it does not name is read from an object only. -/
def readMetadataJson : Json → Option MetadataJson
  | .object fields => do
    let entries := Entries.map fields
    let encoding ← entries.field 0 "encoding" none (readOption readString)
    let vectorLayers ← entries.field 1 "vector_layers" [] (readVec readVectorLayer)
    let tilestats ← entries.field 2 "tilestats" none (readOption readTilestats)
    some ⟨encoding, vectorLayers, tilestats, unnamed ["encoding", "vector_layers", "tilestats"] fields⟩
  | _ => none

/-- `deserialize_optional_metadata_json`, with the parser of texts. -/
def readOptionalMetadataJson (parseText : String → Option Json) : Json → Option (Option MetadataJson)
  | .null => some none
  | .string text => ((parseText text).bind readMetadataJson).map some
  | value => (readMetadataJson value).map some

def metadataNames : List String :=
  ["name", "description", "attribution", "version", "encoding", "vector_layers", "tilestats", "json"]

def readMetadata (parseText : String → Option Json) : Json → Option Metadata
  | .object fields => do
    let entries := Entries.map fields
    let name ← entries.field 0 "name" none (readOption readString)
    let description ← entries.field 1 "description" none (readOption readString)
    let attribution ← entries.field 2 "attribution" none (readOption readString)
    let version ← entries.field 3 "version" none (readOption readString)
    let encoding ← entries.field 4 "encoding" none (readOption readString)
    let vectorLayers ← entries.field 5 "vector_layers" [] (readVec readVectorLayer)
    let tilestats ← entries.field 6 "tilestats" none (readOption readTilestats)
    let json ← entries.field 7 "json" none (readOptionalMetadataJson parseText)
    some ⟨name, description, attribution, version, encoding, vectorLayers, tilestats, json, unnamed metadataNames fields⟩
  | _ => none

/-- `KNOWN_METADATA_KEYS`. -/
def knownMetadataKeys : List String :=
  ["attribution", "bounds", "center", "description", "encoding", "format", "maxzoom", "minzoom", "name", "tilejson", "tiles",
    "tilestats",
    "vector_layers", "version"]

namespace Metadata

/-- `vector_layers()`. -/
def allVectorLayers (m : Metadata) : List VectorLayer :=
  if !m.vectorLayers.isEmpty then m.vectorLayers else (m.json.map (·.vectorLayers)).getD []

/-- `encoding()`. -/
def anyEncoding (m : Metadata) : Option String := m.encoding.or (m.json.bind (·.encoding))

/-- `other()`, as a map. -/
def allOther (m : Metadata) (key : String) : Option Json :=
  if knownMetadataKeys.contains key then none
  else (Fields.get m.other key).or (m.json.bind fun json => Fields.get json.other key)

end Metadata

end Biei.PmtilesMetadata
