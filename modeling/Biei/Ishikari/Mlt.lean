import Biei.Pmtiles.Format

/-!
# Narrowing the columns of a tile

`mlt.rs` between the parser of vector tiles and the encoder: a layer's columns of 64-bit integers are given the narrowest type
that holds their values. The layers and their builder belong to a library, and so do the geometries; of the other kinds of
properties only the name is told.
-/

namespace Biei.Ishikari.Mlt

/-- The type `f64`, with what a number is as one and what its numbers are. -/
structure Floats (F : Type) where
  ofI64 : Int64 → F
  ofU64 : UInt64 → F
  value : F → Option ℚ

inductive PropKind where
  | i32
  | u32
  | i64
  | u64
  | f64
  | other (name : String)
deriving DecidableEq, Repr

/-- A property, which may be null. -/
inductive PropValue (F V : Type) where
  | i32 (value : Option Int32)
  | u32 (value : Option UInt32)
  | i64 (value : Option Int64)
  | u64 (value : Option UInt64)
  | f64 (value : Option F)
  | other (name : String) (value : Option V)

/-- `PropKind::from`. -/
def PropKind.ofValue {F V : Type} : PropValue F V → PropKind
  | .i32 _ => .i32
  | .u32 _ => .u32
  | .i64 _ => .i64
  | .u64 _ => .u64
  | .f64 _ => .f64
  | .other name _ => .other name

structure Feature (G F V : Type) where
  geometry : G
  id : Option UInt64
  properties : List (PropValue F V)

/-- A layer, whose features have a property in each column. -/
structure TileLayer (G F V : Type) where
  name : String
  extent : UInt32
  propertyNames : List String
  features : List (Feature G F V)
  aligned : ∀ f ∈ features, f.properties.length = propertyNames.length

/-- The builder of layers. -/
structure LayerBuilder (G F V : Type) where
  Builder : Type
  Key : Type
  FeatureBuilder : Type
  builder : String → UInt32 → Except String Builder
  addProperty : Builder → String → PropKind → Except String (Key × Builder)
  feature : Builder → G → FeatureBuilder
  id : FeatureBuilder → Option UInt64 → FeatureBuilder
  property : FeatureBuilder → Key → PropValue F V → Except String FeatureBuilder
  finishFeature : FeatureBuilder → Except String Builder
  finish : Builder → TileLayer G F V

def jsSafeInt : Nat := 2 ^ 53

section Narrowing

variable {G F V : Type}

/-- The properties of a column. -/
def column (features : List (Feature G F V)) (j : Nat) : List (PropValue F V) := features.filterMap fun f => f.properties[j]?

def hasWideIntColumn (layer : TileLayer G F V) : Bool :=
  match layer.features.head? with
  | none => false
  | some first => first.properties.any fun p => PropKind.ofValue p == .i64 || PropKind.ofValue p == .u64

/-- `i32::try_from(x).is_ok()`. -/
def fitsI32 (x : Int64) : Bool := decide (-(2 ^ 31) ≤ x.toInt ∧ x.toInt < 2 ^ 31)

/-- `u32::try_from(x).is_ok()`. -/
def fitsU32 (x : UInt64) : Bool := decide (x.toNat < 2 ^ 32)

/-- What a pass over a column of `i64` tells: all values are `i32`, and all are safe. -/
def passI64 (found : Bool × Bool) : PropValue F V → Bool × Bool
  | .i64 (some x) => (found.1 && fitsI32 x, found.2 && decide (x.toInt.natAbs < jsSafeInt))
  | _ => found

def passU64 (found : Bool × Bool) : PropValue F V → Bool × Bool
  | .u64 (some x) => (found.1 && fitsU32 x, found.2 && decide (x.toNat < jsSafeInt))
  | _ => found

def narrowedKind (kind : PropKind) (values : List (PropValue F V)) : PropKind :=
  match kind with
  | .i64 =>
    let (allI32, allSafe) := values.foldl passI64 (true, true)
    if allI32 then .i32 else if allSafe then .f64 else .i64
  | .u64 =>
    let (allU32, allSafe) := values.foldl passU64 (true, true)
    if allU32 then .u32 else if allSafe then .f64 else .u64
  | other => other

def convertValue (floats : Floats F) (value : PropValue F V) (target : PropKind) : PropValue F V :=
  match target, value with
  | .i32, .i64 o => .i32 (o.map Int64.toInt32)
  | .f64, .i64 o => .f64 (o.map floats.ofI64)
  | .u32, .u64 o => .u32 (o.map UInt64.toUInt32)
  | .f64, .u64 o => .f64 (o.map floats.ofU64)
  | _, _ => value

/-- The kind of each column: that of the first feature's property, narrowed by all of the column. -/
def targets (layer : TileLayer G F V) : List PropKind :=
  (List.range layer.propertyNames.length).filterMap fun j =>
    (column layer.features j).head?.map fun first => narrowedKind (PropKind.ofValue first) (column layer.features j)

variable (core : LayerBuilder G F V) (floats : Floats F)

/-- The columns declared, with the key of each. -/
def declareColumns : core.Builder → List (String × PropKind) → Except String (List core.Key × core.Builder)
  | builder, [] => .ok ([], builder)
  | builder, (name, kind) :: columns =>
    match core.addProperty builder name kind with
    | .error e => .error e
    | .ok (key, builder) => (declareColumns builder columns).map fun (keys, builder) => (key :: keys, builder)

/-- The properties of a feature, one after the other. -/
def setProperties : core.FeatureBuilder → List (core.Key × PropKind × PropValue F V) → Except String core.FeatureBuilder
  | fb, [] => .ok fb
  | fb, (key, target, value) :: rest =>
    match context "set narrowed property" (core.property fb key (convertValue floats value target)) with
    | .error e => .error e
    | .ok fb => setProperties fb rest

def addFeature (keys : List core.Key) (targets : List PropKind) (builder : core.Builder) (feature : Feature G F V) :
    Except String core.Builder := do
  let fb := core.id (core.feature builder feature.geometry) feature.id
  let fb ← setProperties core floats fb (keys.zip (targets.zip feature.properties))
  context "finish feature" (core.finishFeature fb)

def narrowIntColumns (layer : TileLayer G F V) : Except String (TileLayer G F V) := do
  let builder ← context "create layer builder" (core.builder layer.name layer.extent)
  let (keys, builder) ← context "declare narrowed columns" (declareColumns core builder (layer.propertyNames.zip (targets layer)))
  let builder ← layer.features.foldlM (addFeature core floats keys (targets layer)) builder
  .ok (core.finish builder)

/-- The rebuilding step of `mvt_to_mlt`. -/
def rebuild (layer : TileLayer G F V) : Except String (TileLayer G F V) :=
  if hasWideIntColumn layer then context "narrow MLT integer columns" (narrowIntColumns core floats layer) else .ok layer

end Narrowing

end Biei.Ishikari.Mlt
