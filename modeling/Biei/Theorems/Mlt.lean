import Biei.Ishikari.Mlt
import Biei.Lib.Fallible

/-! # Narrowing keeps every value -/

namespace Biei.Ishikari.Mlt

section Narrowing

variable {G F V : Type}

/-! ## The library -/

/-- What a builder has been given. -/
structure Draft (G F V : Type) where
  name : String
  extent : UInt32
  columns : List (String × PropKind)
  features : List (Feature G F V)

/-- What the builder of a feature has been given. -/
structure FeatureDraft (G F V : Type) where
  layer : Draft G F V
  geometry : G
  id : Option UInt64
  values : Nat → Option (PropValue F V)

/-- What is assumed of the builder: it stores what it is given, and accepts a property of the kind that was declared for its
column. -/
structure Stores (core : LayerBuilder G F V) where
  draft : core.Builder → Draft G F V
  columnOf : core.Key → Nat
  featureDraft : core.FeatureBuilder → FeatureDraft G F V
  builder_ok : ∀ layer : TileLayer G F V, ∃ b, core.builder layer.name layer.extent = .ok b ∧
    draft b = ⟨layer.name, layer.extent, [], []⟩
  addProperty_ok : ∀ b name kind, (draft b).features = [] → ∃ key b', core.addProperty b name kind = .ok (key, b') ∧
    columnOf key = (draft b).columns.length ∧ draft b' = { draft b with columns := (draft b).columns ++ [(name, kind)] }
  feature_eq : ∀ b geometry, featureDraft (core.feature b geometry) = ⟨draft b, geometry, none, fun _ => none⟩
  id_eq : ∀ fb id, featureDraft (core.id fb id) = { featureDraft fb with id := id }
  property_ok : ∀ fb key value name, (featureDraft fb).layer.columns[columnOf key]? = some (name, PropKind.ofValue value) →
    ∃ fb', core.property fb key value = .ok fb' ∧
      featureDraft fb' = { featureDraft fb with values := Function.update (featureDraft fb).values (columnOf key) (some value) }
  finishFeature_ok : ∀ fb properties, properties.length = (featureDraft fb).layer.columns.length →
    (∀ j, (featureDraft fb).values j = properties[j]?) → ∃ b, core.finishFeature fb = .ok b ∧
      draft b = { (featureDraft fb).layer with
        features := (featureDraft fb).layer.features ++ [⟨(featureDraft fb).geometry, (featureDraft fb).id, properties⟩] }
  finish_eq : ∀ b, (core.finish b).name = (draft b).name ∧ (core.finish b).extent = (draft b).extent ∧
    (core.finish b).propertyNames = (draft b).columns.map (·.1) ∧ (core.finish b).features = (draft b).features

/-- What is assumed of floats: they hold every integer below two to the 53rd. -/
structure Floats.Exact (floats : Floats F) : Prop where
  ofI64 : ∀ x : Int64, x.toInt.natAbs < 2 ^ 53 → floats.value (floats.ofI64 x) = some (x.toInt : ℚ)
  ofU64 : ∀ x : UInt64, x.toNat < 2 ^ 53 → floats.value (floats.ofU64 x) = some (x.toNat : ℚ)

/-! ## Values -/

def PropValue.isNull : PropValue F V → Bool
  | .i32 o => o.isNone
  | .u32 o => o.isNone
  | .i64 o => o.isNone
  | .u64 o => o.isNone
  | .f64 o => o.isNone
  | .other _ o => o.isNone

/-- The number that a property is. -/
def PropValue.number (floats : Floats F) : PropValue F V → Option ℚ
  | .i32 o => o.map fun x => (x.toInt : ℚ)
  | .u32 o => o.map fun x => (x.toNat : ℚ)
  | .i64 o => o.map fun x => (x.toInt : ℚ)
  | .u64 o => o.map fun x => (x.toNat : ℚ)
  | .f64 o => o.bind floats.value
  | .other _ _ => none

/-- A kind of 64-bit integers. -/
def PropKind.IsWide (kind : PropKind) : Prop := kind = .i64 ∨ kind = .u64

/-- The same value, of another kind perhaps. -/
def SameValue (floats : Floats F) (v w : PropValue F V) : Prop :=
  w.isNull = v.isNull ∧ w.number floats = v.number floats ∧ (¬ (PropKind.ofValue v).IsWide → w = v)

/-- All numbers of a column of `i64` satisfy a condition. -/
def AllI64 (P : Int → Prop) (values : List (PropValue F V)) : Prop := ∀ x, .i64 (some x) ∈ values → P x.toInt

def AllU64 (P : Nat → Prop) (values : List (PropValue F V)) : Prop := ∀ x, .u64 (some x) ∈ values → P x.toNat

/-- The type that a column is to be given. -/
def NarrowedTo (values : List (PropValue F V)) : PropKind → PropKind → Prop
  | .i64, target =>
    (target = .i32 ↔ AllI64 (fun x => -(2 ^ 31) ≤ x ∧ x < 2 ^ 31) values) ∧
      (target = .f64 ↔ ¬ AllI64 (fun x => -(2 ^ 31) ≤ x ∧ x < 2 ^ 31) values ∧ AllI64 (fun x => x.natAbs < 2 ^ 53) values) ∧
      (target = .i32 ∨ target = .f64 ∨ target = .i64)
  | .u64, target =>
    (target = .u32 ↔ AllU64 (fun x => x < 2 ^ 32) values) ∧
      (target = .f64 ↔ ¬ AllU64 (fun x => x < 2 ^ 32) values ∧ AllU64 (fun x => x < 2 ^ 53) values) ∧
      (target = .u32 ∨ target = .f64 ∨ target = .u64)
  | kind, target => target = kind

/-- A number that is not safe. -/
def Unsafe : PropValue F V → Prop
  | .i64 (some x) => 2 ^ 53 ≤ x.toInt.natAbs
  | .u64 (some x) => 2 ^ 53 ≤ x.toNat
  | _ => False

/-! ## The pass that chooses -/

theorem foldl_and {α : Type} (p q : α → Bool) (l : List α) (found : Bool × Bool) :
    l.foldl (fun found a => (found.1 && p a, found.2 && q a)) found = (found.1 && l.all p, found.2 && l.all q) := by
  induction l generalizing found with
  | nil => simp
  | cons a l ih => rw [List.foldl_cons, ih, List.all_cons, List.all_cons, Bool.and_assoc, Bool.and_assoc]

/-- What a property of a column of `i64` has to be. -/
def i64Meets (p : Int64 → Bool) : PropValue F V → Bool
  | .i64 (some x) => p x
  | _ => true

def u64Meets (p : UInt64 → Bool) : PropValue F V → Bool
  | .u64 (some x) => p x
  | _ => true

theorem all_i64Meets {p : Int64 → Bool} {P : Int → Prop} (h : ∀ x, p x = true ↔ P x.toInt) (values : List (PropValue F V)) :
    values.all (i64Meets p) = true ↔ AllI64 P values := by
  rw [List.all_eq_true]
  constructor
  · intro hall x hx
    exact (h x).mp (hall _ hx)
  · intro hall v hv
    unfold i64Meets
    split
    · exact (h _).mpr (hall _ hv)
    · rfl

theorem all_u64Meets {p : UInt64 → Bool} {P : Nat → Prop} (h : ∀ x, p x = true ↔ P x.toNat) (values : List (PropValue F V)) :
    values.all (u64Meets p) = true ↔ AllU64 P values := by
  rw [List.all_eq_true]
  constructor
  · intro hall x hx
    exact (h x).mp (hall _ hx)
  · intro hall v hv
    unfold u64Meets
    split
    · exact (h _).mpr (hall _ hv)
    · rfl

theorem passI64_eq : (passI64 : Bool × Bool → PropValue F V → Bool × Bool) = fun found v =>
    (found.1 && i64Meets fitsI32 v, found.2 && i64Meets (fun x => decide (x.toInt.natAbs < jsSafeInt)) v) := by
  funext found v
  unfold passI64 i64Meets
  split
  · rfl
  · simp

theorem passU64_eq : (passU64 : Bool × Bool → PropValue F V → Bool × Bool) = fun found v =>
    (found.1 && u64Meets fitsU32 v, found.2 && u64Meets (fun x => decide (x.toNat < jsSafeInt)) v) := by
  funext found v
  unfold passU64 u64Meets
  split
  · rfl
  · simp

/-- The type that is chosen holds every value of the column, and is the narrowest that does. -/
theorem narrowedKind_spec (kind : PropKind) (values : List (PropValue F V)) :
    NarrowedTo values kind (narrowedKind kind values) := by
  cases kind with
  | i64 =>
    have hi32 := all_i64Meets (p := fitsI32) (P := fun x => -(2 ^ 31) ≤ x ∧ x < 2 ^ 31) (fun x => decide_eq_true_iff) values
    have hsafe := all_i64Meets (p := fun x => decide (x.toInt.natAbs < jsSafeInt)) (P := fun x => x.natAbs < 2 ^ 53)
      (fun x => decide_eq_true_iff) values
    simp only [NarrowedTo, narrowedKind, passI64_eq, foldl_and, Bool.true_and, ← hi32, ← hsafe]
    cases values.all (i64Meets fitsI32) <;> cases values.all (i64Meets fun x => decide (x.toInt.natAbs < jsSafeInt)) <;> simp
  | u64 =>
    have hu32 := all_u64Meets (p := fitsU32) (P := fun x => x < 2 ^ 32) (fun x => decide_eq_true_iff) values
    have hsafe := all_u64Meets (p := fun x => decide (x.toNat < jsSafeInt)) (P := fun x => x < 2 ^ 53)
      (fun x => decide_eq_true_iff) values
    simp only [NarrowedTo, narrowedKind, passU64_eq, foldl_and, Bool.true_and, ← hu32, ← hsafe]
    cases values.all (u64Meets fitsU32) <;> cases values.all (u64Meets fun x => decide (x.toNat < jsSafeInt)) <;> simp
  | i32 => rfl
  | u32 => rfl
  | f64 => rfl
  | other name => rfl

/-! ## The pass that converts -/

theorem toInt_toInt32 {x : Int64} (h : -(2 ^ 31) ≤ x.toInt ∧ x.toInt < 2 ^ 31) : x.toInt32.toInt = x.toInt := by
  rw [Int64.toInt_toInt32]
  exact Int.bmod_eq_of_le (by omega) (by omega)

theorem toNat_toUInt32 {x : UInt64} (h : x.toNat < 2 ^ 32) : x.toUInt32.toNat = x.toNat := by
  rw [UInt64.toNat_toUInt32, Nat.mod_eq_of_lt h]

variable {floats : Floats F} {v : PropValue F V}

/-- A property of a column is what it was, and of the type that was chosen. -/
theorem convertValue_spec (hexact : floats.Exact) {values : List (PropValue F V)} (hv : v ∈ values) :
    SameValue floats v (convertValue floats v (narrowedKind (PropKind.ofValue v) values)) ∧
      PropKind.ofValue (convertValue floats v (narrowedKind (PropKind.ofValue v) values)) = narrowedKind (PropKind.ofValue v)
        values := by
  have hspec := narrowedKind_spec (PropKind.ofValue v) values
  generalize narrowedKind (PropKind.ofValue v) values = target at hspec ⊢
  cases v with
  | i64 o =>
    obtain ⟨hi32, hf64, rfl | rfl | rfl⟩ := hspec
    · refine ⟨⟨?_, ?_, fun h => absurd (Or.inl rfl) h⟩, rfl⟩
      · cases o <;> rfl
      · cases o with
        | none => rfl
        | some x => exact congrArg (fun n : Int => some (n : ℚ)) (toInt_toInt32 (hi32.mp rfl x hv))
    · refine ⟨⟨?_, ?_, fun h => absurd (Or.inl rfl) h⟩, rfl⟩
      · cases o <;> rfl
      · cases o with
        | none => rfl
        | some x => exact hexact.ofI64 x ((hf64.mp rfl).2 x hv)
    · exact ⟨⟨rfl, rfl, fun _ => rfl⟩, rfl⟩
  | u64 o =>
    obtain ⟨hu32, hf64, rfl | rfl | rfl⟩ := hspec
    · refine ⟨⟨?_, ?_, fun h => absurd (Or.inr rfl) h⟩, rfl⟩
      · cases o <;> rfl
      · cases o with
        | none => rfl
        | some x => exact congrArg (fun n : Nat => some (n : ℚ)) (toNat_toUInt32 (hu32.mp rfl x hv))
    · refine ⟨⟨?_, ?_, fun h => absurd (Or.inr rfl) h⟩, rfl⟩
      · cases o <;> rfl
      · cases o with
        | none => rfl
        | some x => exact hexact.ofU64 x ((hf64.mp rfl).2 x hv)
    · exact ⟨⟨rfl, rfl, fun _ => rfl⟩, rfl⟩
  | i32 o =>
    obtain rfl := hspec
    exact ⟨⟨rfl, rfl, fun _ => rfl⟩, rfl⟩
  | u32 o =>
    obtain rfl := hspec
    exact ⟨⟨rfl, rfl, fun _ => rfl⟩, rfl⟩
  | f64 o =>
    obtain rfl := hspec
    exact ⟨⟨rfl, rfl, fun _ => rfl⟩, rfl⟩
  | other name o =>
    obtain rfl := hspec
    exact ⟨⟨rfl, rfl, fun _ => rfl⟩, rfl⟩

/-! ## The layer that is built -/

section Build

variable {core : LayerBuilder G F V} (stores : Stores core) (floats : Floats F)

include stores in
/-- The columns are declared in order. -/
theorem declareColumns_ok (columns : List (String × PropKind)) : ∀ {b : core.Builder}, (stores.draft b).features = [] →
    ∃ keys b', declareColumns core b columns = .ok (keys, b') ∧
      keys.map stores.columnOf = List.range' (stores.draft b).columns.length columns.length ∧
      stores.draft b' = { stores.draft b with columns := (stores.draft b).columns ++ columns } := by
  induction columns with
  | nil =>
    intro b _
    refine ⟨[], b, rfl, rfl, ?_⟩
    rw [List.append_nil]
  | cons declared columns ih =>
    obtain ⟨name, kind⟩ := declared
    intro b hfeatures
    obtain ⟨key, b', hadd, hkey, hdraft⟩ := stores.addProperty_ok b name kind hfeatures
    obtain ⟨keys, b'', hdeclare, hkeys, hdraft'⟩ := ih (b := b') (by rw [hdraft]; exact hfeatures)
    refine ⟨key :: keys, b'', ?_, ?_, ?_⟩
    · rw [declareColumns, hadd]
      dsimp only
      rw [hdeclare]
      rfl
    · rw [List.map_cons, hkey, hkeys, hdraft, List.length_append, List.length_singleton, List.length_cons, List.range'_succ]
    · rw [hdraft', hdraft, List.append_assoc, List.singleton_append]

include stores in
/-- The properties of a feature are set in the order of their columns. -/
theorem setProperties_ok (keys : List core.Key) : ∀ (targets : List PropKind) (properties before : List (PropValue F V))
    (fb : core.FeatureBuilder), keys.map stores.columnOf = List.range' before.length keys.length →
      properties.length = keys.length → targets.length = keys.length →
      (∀ j, (stores.featureDraft fb).values j = before[j]?) →
      (∀ j target value, targets[j]? = some target → properties[j]? = some value →
        ∃ name, (stores.featureDraft fb).layer.columns[before.length + j]? =
          some (name, PropKind.ofValue (convertValue floats value target))) →
      ∃ fb', setProperties core floats fb (keys.zip (targets.zip properties)) = .ok fb' ∧
        (∀ j, (stores.featureDraft fb').values j = (before ++ List.zipWith (convertValue floats) properties targets)[j]?) ∧
        (stores.featureDraft fb').layer = (stores.featureDraft fb).layer ∧
        (stores.featureDraft fb').geometry = (stores.featureDraft fb).geometry ∧
          (stores.featureDraft fb').id = (stores.featureDraft fb).id := by
  induction keys with
  | nil =>
    intro targets properties before fb _ hproperties _ hvalues _
    obtain rfl := List.length_eq_zero_iff.mp hproperties
    refine ⟨fb, rfl, fun j => ?_, rfl, rfl, rfl⟩
    rw [List.zipWith_nil_left, List.append_nil, hvalues j]
  | cons key keys ih =>
    intro targets properties before fb hkeys hproperties htargets hvalues hkinds
    obtain ⟨value, properties, rfl⟩ := List.exists_cons_of_length_eq_add_one hproperties
    obtain ⟨target, targets, rfl⟩ := List.exists_cons_of_length_eq_add_one htargets
    rw [List.map_cons, List.length_cons, List.range'_succ, List.cons.injEq] at hkeys
    obtain ⟨name, hname⟩ := hkinds 0 target value rfl rfl
    rw [Nat.add_zero, ← hkeys.1] at hname
    obtain ⟨fb', hset, hdraft⟩ := stores.property_ok fb key (convertValue floats value target) name hname
    have hvalues' : ∀ j, (stores.featureDraft fb').values j = (before ++ [convertValue floats value target])[j]? := by
      intro j
      rw [hdraft]
      dsimp only
      rw [hkeys.1]
      by_cases hj : j = before.length
      · rw [hj, Function.update_self, List.getElem?_concat_length]
      · rw [Function.update_of_ne hj, hvalues j, List.getElem?_append]
        split
        · rfl
        · rename_i hge
          rw [List.getElem?_eq_none (by omega), List.getElem?_eq_none (by rw [List.length_singleton]; omega)]
    obtain ⟨fb'', hrest, hvalues'', hlayer, hgeometry, hid⟩ := ih targets properties
      (before ++ [convertValue floats value target]) fb'
      (by rw [hkeys.2, List.length_append, List.length_singleton]) (by simpa using hproperties) (by simpa using htargets) hvalues'
      (by
        intro j target' value' htarget' hvalue'
        obtain ⟨name', hname'⟩ := hkinds (j + 1) target' value' htarget' hvalue'
        refine ⟨name', ?_⟩
        rw [hdraft, List.length_append, List.length_singleton, Nat.add_assoc, Nat.add_comm 1 j]
        exact hname')
    refine ⟨fb'', ?_, fun j => ?_, ?_, ?_, ?_⟩
    · rw [List.zip_cons_cons, List.zip_cons_cons, setProperties, hset]
      exact hrest
    · rw [hvalues'', List.zipWith_cons_cons, List.append_assoc, List.singleton_append]
    · rw [hlayer, hdraft]
    · rw [hgeometry, hdraft]
    · rw [hid, hdraft]

/-- A feature with its properties converted. -/
def narrowFeature (floats : Floats F) (targets : List PropKind) (feature : Feature G F V) : Feature G F V :=
  { feature with properties := List.zipWith (convertValue floats) feature.properties targets }

include stores in
theorem addFeature_ok {keys : List core.Key} {targets : List PropKind} {b : core.Builder} (feature : Feature G F V)
    (hkeys : keys.map stores.columnOf = List.range' 0 keys.length) (hlength : targets.length = keys.length)
    (hcolumns : (stores.draft b).columns.map (·.2) = targets) (hproperties : feature.properties.length = keys.length)
    (hkinds : ∀ (j : Nat) target value, targets[j]? = some target → feature.properties[j]? = some value →
      PropKind.ofValue (convertValue floats value target) = target) :
    ∃ b', addFeature core floats keys targets b feature = .ok b' ∧
      stores.draft b' = { stores.draft b with features :=
        (stores.draft b).features ++ [narrowFeature floats targets feature] } := by
  have hdraft : stores.featureDraft (core.id (core.feature b feature.geometry) feature.id) =
      ⟨stores.draft b, feature.geometry, feature.id, fun _ => none⟩ := by
    rw [stores.id_eq, stores.feature_eq]
  obtain ⟨fb, hset, hvalues, hlayer, hgeometry, hid⟩ := setProperties_ok stores floats keys targets feature.properties []
    (core.id (core.feature b feature.geometry) feature.id) hkeys hproperties hlength (fun j => by rw [hdraft]; rfl) (by
      intro j target value htarget hvalue
      rw [hdraft, List.length_nil, Nat.zero_add, hkinds j target value htarget hvalue]
      rw [← hcolumns, List.getElem?_map, Option.map_eq_some_iff] at htarget
      obtain ⟨⟨name, _⟩, hcolumn, rfl⟩ := htarget
      exact ⟨name, hcolumn⟩)
  rw [hdraft] at hlayer hgeometry hid
  rw [List.nil_append] at hvalues
  have hcount : (List.zipWith (convertValue floats) feature.properties targets).length =
    (stores.featureDraft fb).layer.columns.length := by
    rw [hlayer, List.length_zipWith, hproperties, hlength, Nat.min_self, ← hlength, ← hcolumns, List.length_map]
  obtain ⟨b', hfinish, hdraft'⟩ := stores.finishFeature_ok fb _ hcount hvalues
  refine ⟨b', ?_, ?_⟩
  · refine Except.bind_eq_ok_iff.mpr ⟨fb, hset, ?_⟩
    rw [hfinish]
    rfl
  · rw [hdraft', hlayer, hgeometry, hid]
    rfl

include stores in
/-- The features are added in order. -/
theorem addFeatures_ok {keys : List core.Key} {targets : List PropKind}
    (hkeys : keys.map stores.columnOf = List.range' 0 keys.length)
    (hlength : targets.length = keys.length) (features : List (Feature G F V))
      (hproperties : ∀ f ∈ features, f.properties.length = keys.length)
    (hkinds : ∀ f ∈ features, ∀ (j : Nat) target value, targets[j]? = some target → f.properties[j]? = some value →
      PropKind.ofValue (convertValue floats value target) = target) :
    ∀ {b : core.Builder}, (stores.draft b).columns.map (·.2) = targets →
      ∃ b', features.foldlM (addFeature core floats keys targets) b = .ok b' ∧
        stores.draft b' = { stores.draft b with features :=
          (stores.draft b).features ++ features.map (narrowFeature floats targets) } := by
  induction features with
  | nil =>
    intro b _
    refine ⟨b, rfl, ?_⟩
    rw [List.map_nil, List.append_nil]
  | cons feature features ih =>
    intro b hcolumns
    rw [List.forall_mem_cons] at hproperties hkinds
    obtain ⟨b', hadd, hdraft⟩ := addFeature_ok stores floats feature hkeys hlength hcolumns hproperties.1 hkinds.1
    obtain ⟨b'', hrest, hdraft'⟩ := ih hproperties.2 hkinds.2 (b := b') (by rw [hdraft]; exact hcolumns)
    refine ⟨b'', ?_, ?_⟩
    · rw [List.foldlM_cons]
      exact Except.bind_eq_ok_iff.mpr ⟨b', hadd, hrest⟩
    · rw [hdraft', hdraft, List.append_assoc, List.map_cons, List.singleton_append]

end Build

/-! ## Columns -/

variable {layer : TileLayer G F V} {kinds : List PropKind}

/-- Each column has properties of one kind. -/
def SingleKinds (layer : TileLayer G F V) (kinds : List PropKind) : Prop := ∀ f ∈ layer.features,
    f.properties.map PropKind.ofValue = kinds

theorem length_kinds (hne : layer.features ≠ []) (hkinds : SingleKinds layer kinds) :
    kinds.length = layer.propertyNames.length := by
  obtain ⟨first, hfirst⟩ := List.exists_mem_of_ne_nil _ hne
  rw [← hkinds first hfirst, List.length_map, layer.aligned first hfirst]

variable {j : Nat}

/-- A property of a column. -/
theorem mem_column_iff {features : List (Feature G F V)} :
    v ∈ column features j ↔ ∃ f ∈ features, f.properties[j]? = some v := by
  rw [column, List.mem_filterMap]

variable {f : Feature G F V}

theorem kind_of_mem (hkinds : SingleKinds layer kinds) (hf : f ∈ layer.features)
    (hv : f.properties[j]? = some v) : kinds[j]? = some (PropKind.ofValue v) := by
  rw [← hkinds f hf, List.getElem?_map, hv]
  rfl

/-- The kind that is chosen for each column. -/
theorem targets_getElem? (hne : layer.features ≠ []) (hkinds : SingleKinds layer kinds) (j : Nat) :
    (targets layer)[j]? = kinds[j]?.map fun kind => narrowedKind kind (column layer.features j) := by
  have htargets : targets layer = (List.range layer.propertyNames.length).map fun j =>
      narrowedKind (kinds.getD j .i64) (column layer.features j) := by
    rw [targets, ← List.filterMap_eq_map]
    refine List.filterMap_congr fun j hj => ?_
    obtain ⟨first, rest, hfeatures⟩ := List.exists_cons_of_ne_nil hne
    have hfirst : first ∈ layer.features := hfeatures ▸ List.mem_cons_self
    have hlt : j < first.properties.length := by
      rw [layer.aligned first hfirst]
      exact List.mem_range.mp hj
    have hkind := kind_of_mem hkinds hfirst (List.getElem?_eq_getElem hlt)
    have hhead : (column layer.features j).head? = some (first.properties[j]) := by
      rw [column, hfeatures, List.filterMap_cons, List.getElem?_eq_getElem hlt, List.head?_cons]
    rw [hhead, Option.map_some, Function.comp_apply, List.getD_eq_getElem?_getD, hkind, Option.getD_some]
  rw [htargets, List.getElem?_map]
  have hlength := length_kinds hne hkinds
  rcases Nat.lt_or_ge j kinds.length with hlt | hge
  · rw [List.getElem?_range (by omega), List.getElem?_eq_getElem hlt, Option.map_some, Option.map_some,
      List.getD_eq_getElem?_getD,
      List.getElem?_eq_getElem hlt, Option.getD_some]
  · rw [List.getElem?_eq_none (by rw [List.length_range]; omega), List.getElem?_eq_none hge]
    rfl

theorem length_targets (hne : layer.features ≠ []) (hkinds : SingleKinds layer kinds) :
    (targets layer).length = layer.propertyNames.length := by
  have hlength := length_kinds hne hkinds
  have hget := targets_getElem? hne hkinds
  refine Nat.le_antisymm ?_ ?_
  · rw [← hlength, ← List.getElem?_eq_none_iff, hget, List.getElem?_eq_none (Nat.le_refl _)]
    rfl
  · rw [← hlength]
    by_contra hlt
    have hnone := List.getElem?_eq_none (l := targets layer) (i := (targets layer).length) (Nat.le_refl _)
    rw [hget, List.getElem?_eq_getElem (Nat.lt_of_not_le hlt)] at hnone
    cases hnone

/-- A property is converted to the kind that is chosen for its column, and keeps its value. -/
theorem convertValue_column (hexact : floats.Exact) (hne : layer.features ≠ []) (hkinds : SingleKinds layer kinds)
    (hf : f ∈ layer.features) {target : PropKind} {value : PropValue F V}
    (htarget : (targets layer)[j]? = some target) (hvalue : f.properties[j]? = some value) :
    SameValue floats value (convertValue floats value target) ∧ PropKind.ofValue (convertValue floats value target) = target ∧
      target = narrowedKind (PropKind.ofValue value) (column layer.features j) := by
  rw [targets_getElem? hne hkinds, kind_of_mem hkinds hf hvalue] at htarget
  cases htarget
  obtain ⟨hsame, hkind⟩ := convertValue_spec hexact (mem_column_iff.mpr ⟨f, hf, hvalue⟩)
  exact ⟨hsame, hkind, rfl⟩

/-- A feature keeps what it is, and the values of its properties. -/
def SameFeature (floats : Floats F) (f g : Feature G F V) : Prop :=
  g.geometry = f.geometry ∧ g.id = f.id ∧ List.Forall₂ (SameValue floats) f.properties g.properties

theorem sameFeature_narrow (hexact : floats.Exact) (hne : layer.features ≠ []) (hkinds : SingleKinds layer kinds)
    (hf : f ∈ layer.features) : SameFeature floats f (narrowFeature floats (targets layer) f) := by
  have hlength : f.properties.length = (targets layer).length := (layer.aligned f hf).trans (length_targets hne hkinds).symm
  refine ⟨rfl, rfl, List.forall₂_iff_get.mpr ⟨?_, fun j hj hj' => ?_⟩⟩
  · rw [narrowFeature, List.length_zipWith, hlength, Nat.min_self]
  · simp only [narrowFeature, List.get_eq_getElem, List.getElem_zipWith]
    exact (convertValue_column hexact hne hkinds hf (List.getElem?_eq_getElem (by omega)) (List.getElem?_eq_getElem hj)).1

/-- What the builder is given is the layer with its features narrowed. -/
theorem narrowIntColumns_eq {core : LayerBuilder G F V} (stores : Stores core) (hexact : floats.Exact)
    (hne : layer.features ≠ []) (hkinds : SingleKinds layer kinds) : ∃ narrowed,
      narrowIntColumns core floats layer = .ok narrowed ∧
      narrowed.name = layer.name ∧ narrowed.extent = layer.extent ∧ narrowed.propertyNames = layer.propertyNames ∧
      narrowed.features = layer.features.map (narrowFeature floats (targets layer)) := by
  have hlength := length_targets hne hkinds
  have hzip : (layer.propertyNames.zip (targets layer)).length = layer.propertyNames.length := by
    rw [List.length_zip, hlength, Nat.min_self]
  obtain ⟨b, hbuilder, hdraft⟩ := stores.builder_ok layer
  obtain ⟨keys, b', hdeclare, hkeys, hdraft'⟩ :=
    declareColumns_ok stores (layer.propertyNames.zip (targets layer)) (b := b) (by rw [hdraft])
  rw [hdraft] at hkeys hdraft'
  have hcount : keys.length = layer.propertyNames.length := by
    have hlengths := congrArg List.length hkeys
    rwa [List.length_map, List.length_range', hzip] at hlengths
  obtain ⟨b'', hadd, hdraft''⟩ := addFeatures_ok stores floats
    (show keys.map stores.columnOf = List.range' 0 keys.length by rw [hkeys, hzip, hcount]; rfl) (by rw [hlength, hcount])
      layer.features (fun f hf => by rw [layer.aligned f hf, hcount])
    (fun f hf j target value htarget hvalue => (convertValue_column hexact hne hkinds hf htarget hvalue).2.1) (b := b')
    (by rw [hdraft', List.nil_append]; exact List.map_snd_zip (Nat.le_of_eq hlength))
  rw [hdraft'] at hdraft''
  obtain ⟨hname, hextent, hnames, hfeatures⟩ := stores.finish_eq b''
  refine ⟨core.finish b'', ?_, ?_, ?_, ?_, ?_⟩
  · refine Except.bind_eq_ok_iff.mpr ⟨b, by rw [hbuilder]; rfl, Except.bind_eq_ok_iff.mpr ⟨(keys, b'), by rw [hdeclare]; rfl, ?_⟩⟩
    exact Except.bind_eq_ok_iff.mpr ⟨b'', hadd, rfl⟩
  · rw [hname, hdraft'']
  · rw [hextent, hdraft'']
  · rw [hnames, hdraft'']
    exact List.map_fst_zip (Nat.le_of_eq hlength.symm)
  · rw [hfeatures, hdraft'']
    rfl

/-- A column that is left with 64-bit integers has a number that is not safe. -/
theorem unsafe_of_wide {kind target : PropKind} {values : List (PropValue F V)} (hspec : NarrowedTo values kind target)
    (hwide : target.IsWide) :
    kind = target ∧ ∃ v ∈ values, Unsafe v := by
  cases kind with
  | i64 =>
    obtain ⟨hi32, hf64, rfl | rfl | rfl⟩ := hspec
    · rcases hwide with h | h <;> cases h
    · rcases hwide with h | h <;> cases h
    · have hlarge : ¬ AllI64 (fun x => -(2 ^ 31) ≤ x ∧ x < 2 ^ 31) values := fun hall => by cases hi32.mpr hall
      have hunsafe : ¬ AllI64 (fun x => x.natAbs < 2 ^ 53) values := fun hall => by cases hf64.mpr ⟨hlarge, hall⟩
      simp only [AllI64, not_forall] at hunsafe
      obtain ⟨x, hx, hge⟩ := hunsafe
      exact ⟨rfl, .i64 (some x), hx, Nat.le_of_not_lt hge⟩
  | u64 =>
    obtain ⟨hu32, hf64, rfl | rfl | rfl⟩ := hspec
    · rcases hwide with h | h <;> cases h
    · rcases hwide with h | h <;> cases h
    · have hlarge : ¬ AllU64 (fun x => x < 2 ^ 32) values := fun hall => by cases hu32.mpr hall
      have hunsafe : ¬ AllU64 (fun x => x < 2 ^ 53) values := fun hall => by cases hf64.mpr ⟨hlarge, hall⟩
      simp only [AllU64, not_forall] at hunsafe
      obtain ⟨x, hx, hge⟩ := hunsafe
      exact ⟨rfl, .u64 (some x), hx, Nat.le_of_not_lt hge⟩
  | i32 =>
    obtain rfl := hspec
    rcases hwide with h | h <;> cases h
  | u32 =>
    obtain rfl := hspec
    rcases hwide with h | h <;> cases h
  | f64 =>
    obtain rfl := hspec
    rcases hwide with h | h <;> cases h
  | other name =>
    obtain rfl := hspec
    rcases hwide with h | h <;> cases h

/-- What is left as it is. -/
theorem convertValue_self (floats : Floats F) (value : PropValue F V) :
    convertValue floats value (PropKind.ofValue value) = value := by
  cases value <;> rfl

/-- A layer with 64-bit integers is found by its first feature. -/
theorem hasWideIntColumn_of_mem (hkinds : SingleKinds layer kinds) (hf : f ∈ layer.features) (hv : f.properties[j]? = some v)
    (hwide : (PropKind.ofValue v).IsWide) : hasWideIntColumn layer = true := by
  obtain ⟨first, rest, hfeatures⟩ := List.exists_cons_of_ne_nil (List.ne_nil_of_mem hf)
  have hfirst : first ∈ layer.features := hfeatures ▸ List.mem_cons_self
  have hkind := kind_of_mem hkinds hf hv
  rw [← hkinds first hfirst, List.getElem?_map, Option.map_eq_some_iff] at hkind
  obtain ⟨w, hw, hsame⟩ := hkind
  rw [hasWideIntColumn, hfeatures, List.head?_cons]
  refine List.any_eq_true.mpr ⟨w, List.mem_of_getElem? hw, ?_⟩
  rw [hsame, Bool.or_eq_true, beq_iff_eq, beq_iff_eq]
  exact hwide

/-- Narrowing keeps the name, the extent, the columns, the features and every value of them; a column of 64-bit integers gets the
narrowest type that holds its values, and is left as it is only where some value is not safe. -/
theorem narrowIntColumns_spec {core : LayerBuilder G F V} (stores : Stores core) {floats : Floats F} (hexact : floats.Exact)
    (hne : layer.features ≠ []) (hkinds : SingleKinds layer kinds) :
    (∃ narrowed, narrowIntColumns core floats layer = .ok narrowed ∧ narrowed.name = layer.name ∧ narrowed.extent = layer.extent ∧
      narrowed.propertyNames = layer.propertyNames ∧ List.Forall₂ (SameFeature floats) layer.features narrowed.features ∧
      ∀ (j : Nat) (kind : PropKind), kinds[j]? = some kind → ∃ target, NarrowedTo (column layer.features j) kind target ∧
        ∀ g ∈ narrowed.features, ∃ v, g.properties[j]? = some v ∧ PropKind.ofValue v = target) ∧
    ∃ rebuilt, rebuild core floats layer = .ok rebuilt ∧ ∀ g ∈ rebuilt.features, ∀ (j : Nat) (v : PropValue F V),
      g.properties[j]? = some v →
      (PropKind.ofValue v).IsWide → ∃ f ∈ rebuilt.features, ∃ w, f.properties[j]? = some w ∧ Unsafe w := by
  obtain ⟨narrowed, heq, hname, hextent, hnames, hfeatures⟩ := narrowIntColumns_eq stores hexact hne hkinds
  have hget : ∀ f ∈ layer.features, ∀ (j : Nat) w, (narrowFeature floats (targets layer) f).properties[j]? = some w ↔
      ∃ value target, f.properties[j]? = some value ∧ (targets layer)[j]? = some target ∧
        convertValue floats value target = w := by
    intro f _ j w
    simp only [narrowFeature, List.getElem?_zipWith]
    cases f.properties[j]? <;> cases (targets layer)[j]? <;> simp
  constructor
  · refine ⟨narrowed, heq, hname, hextent, hnames, ?_, fun j kind hkind => ?_⟩
    · rw [hfeatures, List.forall₂_map_right_iff]
      exact List.forall₂_same.mpr fun f hf => sameFeature_narrow hexact hne hkinds hf
    · refine ⟨narrowedKind kind (column layer.features j), narrowedKind_spec _ _, fun g hg => ?_⟩
      rw [hfeatures] at hg
      obtain ⟨f, hf, rfl⟩ := List.mem_map.mp hg
      rw [← hkinds f hf, List.getElem?_map, Option.map_eq_some_iff] at hkind
      obtain ⟨value, hvalue, rfl⟩ := hkind
      have htarget : (targets layer)[j]? = some (narrowedKind (PropKind.ofValue value) (column layer.features j)) := by
        rw [targets_getElem? hne hkinds, kind_of_mem hkinds hf hvalue]
        rfl
      exact ⟨_, (hget f hf j _).mpr ⟨value, _, hvalue, htarget, rfl⟩,
        (convertValue_column hexact hne hkinds hf htarget hvalue).2.1⟩
  · by_cases hwideColumn : hasWideIntColumn layer = true
    · refine ⟨narrowed, by rw [rebuild, if_pos hwideColumn, heq]; rfl, fun g hg j v hv hwide => ?_⟩
      rw [hfeatures] at hg
      obtain ⟨f, hf, rfl⟩ := List.mem_map.mp hg
      obtain ⟨value, target, hvalue, htarget, rfl⟩ := (hget f hf j v).mp hv
      obtain ⟨-, hkind, hchosen⟩ := convertValue_column hexact hne hkinds hf htarget hvalue
      rw [hkind] at hwide
      obtain ⟨hsame, w, hw, hunsafe⟩ := unsafe_of_wide (hchosen ▸ narrowedKind_spec _ (column layer.features j)) hwide
      -- The property that is not safe is in a column of the same kind, which is left as it is.
      obtain ⟨f', hf', hw⟩ := mem_column_iff.mp hw
      have hkindValue := kind_of_mem hkinds hf hvalue
      rw [kind_of_mem hkinds hf' hw, Option.some.injEq, hsame] at hkindValue
      refine ⟨narrowFeature floats (targets layer) f', ?_, w, (hget f' hf' j w).mpr ⟨w, target, hw, htarget, ?_⟩, hunsafe⟩
      · rw [hfeatures]
        exact List.mem_map_of_mem hf'
      · rw [← hkindValue]
        exact convertValue_self floats w
    · refine ⟨layer, by rw [rebuild, if_neg hwideColumn], fun g hg j v hv hwide => ?_⟩
      exact absurd (hasWideIntColumn_of_mem hkinds hg hv hwide) hwideColumn

/-! ## A builder -/

/-- A builder that keeps what it is given in lists. -/
def listBuilder (G F V : Type) : LayerBuilder G F V where
  Builder := { d : Draft G F V // ∀ f ∈ d.features, f.properties.length = d.columns.length }
  Key := Nat
  FeatureBuilder := { fd : FeatureDraft G F V // ∀ f ∈ fd.layer.features, f.properties.length = fd.layer.columns.length }
  builder name extent := .ok ⟨⟨name, extent, [], []⟩, nofun⟩
  addProperty b name kind :=
    if h : b.1.features = [] then
      .ok (b.1.columns.length, ⟨{ b.1 with columns := b.1.columns ++ [(name, kind)] }, fun f hf =>
        absurd (h ▸ hf) List.not_mem_nil⟩)
    else .error "the layer has features"
  feature b geometry := ⟨⟨b.1, geometry, none, fun _ => none⟩, b.2⟩
  id fb id := ⟨{ fb.1 with id := id }, fb.2⟩
  property fb key value :=
    if fb.1.layer.columns[key]?.map (·.2) = some (PropKind.ofValue value) then
      .ok ⟨{ fb.1 with values := Function.update fb.1.values key (some value) }, fb.2⟩
    else .error "the property has another kind"
  finishFeature fb :=
    if (List.range fb.1.layer.columns.length).all fun j => (fb.1.values j).isSome then
      .ok ⟨{ fb.1.layer with features := fb.1.layer.features ++ [⟨fb.1.geometry, fb.1.id,
        (List.range fb.1.layer.columns.length).map fun j => (fb.1.values j).getD (.other "" none)⟩] }, by
          intro f hf
          rcases List.mem_append.mp hf with hf | hf
          · exact fb.2 f hf
          · rw [List.mem_singleton.mp hf, List.length_map, List.length_range]⟩
    else .error "a property is missing"
  finish b := ⟨b.1.name, b.1.extent, b.1.columns.map (·.1), b.1.features, fun f hf => by rw [b.2 f hf, List.length_map]⟩

def storesListBuilder (G F V : Type) : Stores (listBuilder G F V) where
  draft b := b.1
  columnOf key := key
  featureDraft fb := fb.1
  builder_ok _ := ⟨_, rfl, rfl⟩
  addProperty_ok b name kind h := by
    refine ⟨b.1.columns.length, ⟨{ b.1 with columns := b.1.columns ++ [(name, kind)] }, fun f hf =>
      absurd (h ▸ hf) List.not_mem_nil⟩, ?_, rfl, rfl⟩
    exact dif_pos h
  feature_eq _ _ := rfl
  id_eq _ _ := rfl
  property_ok fb key value name h := by
    refine ⟨⟨{ fb.1 with values := Function.update fb.1.values key (some value) }, fb.2⟩, ?_, rfl⟩
    exact if_pos (by rw [h]; rfl)
  finishFeature_ok fb properties hlength hvalues := by
    have hgiven : (List.range fb.1.layer.columns.length).map (fun j => (fb.1.values j).getD (.other "" none)) = properties := by
      refine List.ext_getElem (by rw [List.length_map, List.length_range, hlength]) fun j hj hj' => ?_
      rw [List.getElem_map, List.getElem_range, hvalues j, List.getElem?_eq_getElem hj', Option.getD_some]
    have hall : ((List.range fb.1.layer.columns.length).all fun j => (fb.1.values j).isSome) = true := by
      rw [List.all_eq_true]
      intro j hj
      rw [hvalues j, List.getElem?_eq_getElem (by rw [hlength]; exact List.mem_range.mp hj)]
      rfl
    refine ⟨_, if_pos hall, ?_⟩
    rw [← hgiven]
  finish_eq _ := ⟨rfl, rfl, rfl, rfl⟩

/-- Numbers as the floats of the examples. -/
def exactFloats : Floats ℚ where
  ofI64 x := x.toInt
  ofU64 x := x.toNat
  value := some

/-- The layer of buildings, with a height and a rank. -/
def buildings : TileLayer (Int × Int) ℚ String where
  name := "building"
  extent := 4096
  propertyNames := ["render_height", "rank"]
  features := [⟨(1, 2), some 14905260892, [.i64 (some 26), .u64 (some 9007199254740991)]⟩, ⟨(3, 4), none, [.i64 none, .u64 none]⟩]
  aligned := by simp

theorem narrowIntColumns_buildings : ∃ narrowed, narrowIntColumns (listBuilder (Int × Int) ℚ String) exactFloats buildings = .ok
    narrowed ∧
    narrowed.name = "building" := by
  obtain ⟨⟨narrowed, heq, hname, -⟩, -⟩ := narrowIntColumns_spec (storesListBuilder (Int × Int) ℚ String)
    (show exactFloats.Exact from ⟨fun _ _ => rfl, fun _ _ => rfl⟩) (show buildings.features ≠ [] by simp [buildings])
    (show SingleKinds buildings [.i64, .u64] by simp [SingleKinds, buildings, PropKind.ofValue])
  exact ⟨narrowed, heq, hname⟩

end Narrowing

end Biei.Ishikari.Mlt
