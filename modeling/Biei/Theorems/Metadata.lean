import Biei.Lib.Fallible
import Biei.Pmtiles.Metadata

/-! # Statistics in the metadata -/

namespace Biei.PmtilesMetadata

/-! ## Types -/

/-- An integer from a least value to below a bound. -/
def IsInt (least bound : Int) (value : Json) : Prop := ∃ n k, value = .number n ∧ integerOf n = some k ∧ least ≤ k ∧ k < bound

def IsText (value : Json) : Prop := ∃ s, value = .string s

def IsNumberOrNull (value : Json) : Prop := value = .null ∨ ∃ n, value = .number n

def IsArrayOf (P : Json → Prop) (value : Json) : Prop := ∃ items, value = .array items ∧ ∀ item ∈ items, P item

/-- A field that has its type where it is there. -/
def Entries.FieldIs (entries : Entries) (index : Nat) (name : String) (P : Json → Prop) : Prop := ∀ value,
    entries.find index name = some value → P value

/-- A field that an object need not have, but an array. -/
def Entries.OptionalIs (entries : Entries) (index : Nat) (name : String) (P : Json → Prop) : Prop :=
  entries.FieldIs index name P ∧ ∀ items, entries = .seq items → (entries.find index name).isSome

def IsAttribute (value : Json) : Prop := ∃ entries, entriesOf 6 value = some entries ∧ entries.FieldIs 0 "attribute" IsText ∧
  entries.FieldIs 1 "count" (IsInt 0 (2 ^ 32)) ∧ entries.FieldIs 2 "type" IsText ∧
    entries.FieldIs 3 "values" (IsArrayOf fun _ => True) ∧
  entries.OptionalIs 4 "min" IsNumberOrNull ∧ entries.OptionalIs 5 "max" IsNumberOrNull

def IsLayer (value : Json) : Prop := ∃ entries, entriesOf 5 value = some entries ∧ entries.FieldIs 0 "layer" IsText ∧
  entries.FieldIs 1 "count" (IsInt (-(2 ^ 31)) (2 ^ 31)) ∧ entries.FieldIs 2 "geometry" IsText ∧
  entries.FieldIs 3 "attributeCount" (IsInt (-(2 ^ 31)) (2 ^ 31)) ∧ entries.FieldIs 4 "attributes" (IsArrayOf IsAttribute)

/-- Statistics whose fields all have their types. -/
def IsStats (value : Json) : Prop := ∃ entries, entriesOf 2 value = some entries ∧
  entries.FieldIs 0 "layerCount" (IsInt (-(2 ^ 31)) (2 ^ 31)) ∧ entries.FieldIs 1 "layers" (IsArrayOf IsLayer)

/-! ## Readers -/

theorem readString_isSome_iff (value : Json) : (readString value).isSome ↔ IsText value := by
  cases value <;> simp [readString, IsText]

theorem readInt_isSome_iff (least bound : Int) (value : Json) : (readInt least bound value).isSome ↔ IsInt least bound value := by
  cases value with
  | number n =>
    simp only [readInt, Option.isSome_iff_exists, Option.filter_eq_some_iff, decide_eq_true_eq, IsInt, Json.number.injEq]
    constructor
    · rintro ⟨k, hk, hrange⟩
      exact ⟨n, k, rfl, hk, hrange⟩
    · rintro ⟨m, k, rfl, hk, hrange⟩
      exact ⟨k, hk, hrange⟩
  | _ => simp [readInt, IsInt]

theorem readVec_isSome_iff {α : Type} {read : Json → Option α} {P : Json → Prop} (h : ∀ value, (read value).isSome ↔ P value)
    (value : Json) :
    (readVec read value).isSome ↔ IsArrayOf P value := by
  cases value with
  | array items =>
    have hitems : (items.mapM read).isSome ↔ ∀ item ∈ items, P item := by
      induction items with
      | nil => simp
      | cons item items ih =>
        rw [List.forall_mem_cons, ← ih, ← h item, List.mapM_cons]
        cases read item with
        | none => simp
        | some a => cases items.mapM read <;> simp
    simp [readVec, IsArrayOf, hitems]
  | _ => simp [readVec, IsArrayOf]

theorem field_isSome_iff {α : Type} {read : Json → Option α} {P : Json → Prop} (h : ∀ value, (read value).isSome ↔ P value)
    (entries : Entries)
    (index : Nat) (name : String) (default : α) : (entries.field index name default read).isSome ↔
      entries.FieldIs index name P := by
  unfold Entries.field Entries.FieldIs
  cases entries.find index name with
  | none => simp
  | some value => simp [h]

theorem optional_isSome_iff (entries : Entries) (index : Nat) (name : String) :
    (entries.optional index name readF64).isSome ↔ entries.OptionalIs index name IsNumberOrNull := by
  unfold Entries.optional Entries.OptionalIs Entries.FieldIs
  cases entries.find index name with
  | none => cases entries <;> simp
  | some value => cases value <;> simp [readOption, readF64, IsNumberOrNull]

/-- What is read one after the other is read when each part is. -/
theorem isSome_bind_iff {α β : Type} {o : Option α} {f : α → Option β} {P Q : Prop} (ho : o.isSome ↔ P)
    (hf : ∀ a, (f a).isSome ↔ Q) :
    (o >>= f).isSome ↔ P ∧ Q := by
  rw [← ho]
  cases o with
  | none => simp
  | some a => simpa using hf a

theorem isSome_bind_some {α β : Type} {o : Option α} {f : α → β} {P : Prop} (ho : o.isSome ↔ P) :
    (o >>= fun a => some (f a)).isSome ↔ P := by
  rw [← ho]
  cases o <;> simp

variable {value : Json}

theorem exists_entries_iff {arity : Nat} {α : Type} {f : Entries → Option α} {P : Entries → Prop}
    (hf : ∀ entries, (f entries).isSome ↔ P entries) :
    (entriesOf arity value >>= f).isSome ↔ ∃ entries, entriesOf arity value = some entries ∧ P entries := by
  cases entriesOf arity value with
  | none => simp
  | some entries => simpa using hf entries

theorem readTilestatsAttribute_isSome_iff (value : Json) : (readTilestatsAttribute value).isSome ↔ IsAttribute value := by
  have hvalue : ∀ value : Json, (some value).isSome ↔ (fun _ => True) value := fun _ => iff_of_true rfl trivial
  refine exists_entries_iff fun entries => ?_
  refine isSome_bind_iff (field_isSome_iff readString_isSome_iff entries 0 "attribute" "") fun _ => ?_
  refine isSome_bind_iff (field_isSome_iff (readInt_isSome_iff 0 (2 ^ 32)) entries 1 "count" 0) fun _ => ?_
  refine isSome_bind_iff (field_isSome_iff readString_isSome_iff entries 2 "type" "") fun _ => ?_
  refine isSome_bind_iff (field_isSome_iff (readVec_isSome_iff hvalue) entries 3 "values" []) fun _ => ?_
  exact isSome_bind_iff (optional_isSome_iff entries 4 "min") fun _ => isSome_bind_some (optional_isSome_iff entries 5 "max")

theorem readTilestatsLayer_isSome_iff (value : Json) : (readTilestatsLayer value).isSome ↔ IsLayer value := by
  refine exists_entries_iff fun entries => ?_
  refine isSome_bind_iff (field_isSome_iff readString_isSome_iff entries 0 "layer" "") fun _ => ?_
  refine isSome_bind_iff (field_isSome_iff (readInt_isSome_iff _ _) entries 1 "count" 0) fun _ => ?_
  refine isSome_bind_iff (field_isSome_iff readString_isSome_iff entries 2 "geometry" "") fun _ => ?_
  refine isSome_bind_iff (field_isSome_iff (readInt_isSome_iff _ _) entries 3 "attributeCount" 0) fun _ => ?_
  exact isSome_bind_some (field_isSome_iff (readVec_isSome_iff readTilestatsAttribute_isSome_iff) entries 4 "attributes" [])

/-- Statistics are read exactly when each field has its type. -/
theorem readTilestats_isSome_iff (value : Json) : (readTilestats value).isSome ↔ IsStats value := by
  refine exists_entries_iff fun entries => ?_
  refine isSome_bind_iff (field_isSome_iff (readInt_isSome_iff _ _) entries 0 "layerCount" 0) fun _ => ?_
  exact isSome_bind_some (field_isSome_iff (readVec_isSome_iff readTilestatsLayer_isSome_iff) entries 1 "layers" [])

/-! ## Documents with statistics -/

/-- Statistics added to an object that has none. -/
def Adds (stats : Json) (fields fields' : List (String × Json)) : Prop :=
  Fields.get fields "tilestats" = none ∧ ∃ before after, fields = before ++ after ∧
    fields' = before ++ ("tilestats", stats) :: after

/-- Statistics added to a document: at the top, or in the object that it has as an object or as a text. -/
inductive AddsStats (parseText : String → Option Json) (stats : Json) : List (String × Json) → List (String × Json) → Prop
  | top {fields fields' : List (String × Json)} : Adds stats fields fields' → AddsStats parseText stats fields fields'
  | object {fields inner inner' : List (String × Json)} : Fields.get fields "json" = some (.object inner) →
      Adds stats inner inner' →
      AddsStats parseText stats fields (Fields.set "json" (.object inner') fields)
  | text {fields inner inner' : List (String × Json)} {s t : String} : Fields.get fields "json" = some (.string s) →
      parseText s = some (.object inner) → parseText t = some (.object inner') → Adds stats inner inner' →
      AddsStats parseText stats fields (Fields.set "json" (.string t) fields)

/-- A document is still read, as it was but for its statistics. -/
def Tolerated (parseText : String → Option Json) (fields : List (String × Json)) (m : Metadata) : Prop :=
  ∃ m', readMetadata parseText (.object fields) = some m' ∧ m'.name = m.name ∧ m'.description = m.description ∧
    m'.attribution = m.attribution ∧ m'.version = m.version ∧ m'.allVectorLayers = m.allVectorLayers ∧
      m'.anyEncoding = m.anyEncoding ∧
    m'.allOther = m.allOther

theorem get_append (before after : List (String × Json)) (name : String) :
    Fields.get (before ++ after) name = (Fields.get before name).or (Fields.get after name) := by
  induction before with
  | nil => rfl
  | cons field before ih =>
    rw [List.cons_append, Fields.get_cons, Fields.get_cons, ih]
    split <;> rfl

variable {stats : Json} {fields fields' : List (String × Json)}

theorem get_of_adds (h : Adds stats fields fields') (name : String) :
    Fields.get fields' name = if name = "tilestats" then some stats else Fields.get fields name := by
  obtain ⟨hnone, before, after, rfl, rfl⟩ := h
  rw [get_append] at hnone ⊢
  rw [Option.or_eq_none_iff] at hnone
  rw [Fields.get_cons, get_append]
  by_cases hname : name = "tilestats"
  · rw [if_pos hname, if_pos hname.symm, hname, hnone.1]
    rfl
  · rw [if_neg hname, if_neg (Ne.symm hname)]

theorem unnamed_of_adds (h : Adds stats fields fields') {names : List String}
    (hnames : "tilestats" ∈ names) : unnamed names fields' = unnamed names fields := by
  obtain ⟨-, before, after, rfl, rfl⟩ := h
  unfold unnamed
  rw [List.filter_append, List.filter_append, List.filter_cons_of_neg (by simpa using hnames)]

theorem field_of_adds (h : Adds stats fields fields') {name : String}
    (hname : name ≠ "tilestats") {α : Type} (index : Nat) (default : α) (read : Json → Option α) :
    (Entries.map fields').field index name default read = (Entries.map fields).field index name default read := by
  simp only [Entries.field, Entries.find, get_of_adds h, if_neg hname]

/-- The field of the statistics, before and after they are added. -/
theorem field_tilestats_of_adds {stats : List (String × Json)} (h : Adds (.object stats) fields fields')
    (index : Nat) : (Entries.map fields').field index "tilestats" none (readOption readTilestats) =
      (readTilestats (.object stats)).map some := by
  simp only [Entries.field, Entries.find, get_of_adds h, if_true]
  rfl

variable {fields : List (String × Json)} {json : MetadataJson}

/-- What a nested object is read as. -/
theorem readMetadataJson_eq_some_iff : readMetadataJson (.object fields) = some json ↔
    (Entries.map fields).field 0 "encoding" none (readOption readString) = some json.encoding ∧
      (Entries.map fields).field 1 "vector_layers" [] (readVec readVectorLayer) = some json.vectorLayers ∧
      (Entries.map fields).field 2 "tilestats" none (readOption readTilestats) = some json.tilestats ∧
      unnamed ["encoding", "vector_layers", "tilestats"] fields = json.other := by
  obtain ⟨encoding, vectorLayers, tilestats, other⟩ := json
  simp only [readMetadataJson, Option.bind_eq_bind, Option.bind_eq_some_iff, Option.some.injEq, MetadataJson.mk.injEq]
  constructor
  · rintro ⟨_, hencoding, _, hlayers, _, hstats, rfl, rfl, rfl, hother⟩
    exact ⟨hencoding, hlayers, hstats, hother⟩
  · rintro ⟨hencoding, hlayers, hstats, hother⟩
    exact ⟨_, hencoding, _, hlayers, _, hstats, rfl, rfl, rfl, hother⟩

variable {parseText : String → Option Json} {m : Metadata}

/-- What a document is read as. -/
theorem readMetadata_eq_some_iff :
    readMetadata parseText (.object fields) = some m ↔
      (Entries.map fields).field 0 "name" none (readOption readString) = some m.name ∧
      (Entries.map fields).field 1 "description" none (readOption readString) = some m.description ∧
      (Entries.map fields).field 2 "attribution" none (readOption readString) = some m.attribution ∧
      (Entries.map fields).field 3 "version" none (readOption readString) = some m.version ∧
      (Entries.map fields).field 4 "encoding" none (readOption readString) = some m.encoding ∧
      (Entries.map fields).field 5 "vector_layers" [] (readVec readVectorLayer) = some m.vectorLayers ∧
      (Entries.map fields).field 6 "tilestats" none (readOption readTilestats) = some m.tilestats ∧
      (Entries.map fields).field 7 "json" none (readOptionalMetadataJson parseText) = some m.json ∧
        unnamed metadataNames fields = m.other := by
  obtain ⟨name, description, attribution, version, encoding, vectorLayers, tilestats, json, other⟩ := m
  simp only [readMetadata, Option.bind_eq_bind, Option.bind_eq_some_iff, Option.some.injEq, Metadata.mk.injEq]
  constructor
  · rintro ⟨_, hname, _, hdescription, _, hattribution, _, hversion, _, hencoding, _, hlayers, _, hstats, _, hjson, rfl, rfl, rfl,
      rfl, rfl,
      rfl, rfl, rfl, hother⟩
    exact ⟨hname, hdescription, hattribution, hversion, hencoding, hlayers, hstats, hjson, hother⟩
  · rintro ⟨hname, hdescription, hattribution, hversion, hencoding, hlayers, hstats, hjson, hother⟩
    exact ⟨_, hname, _, hdescription, _, hattribution, _, hversion, _, hencoding, _, hlayers, _, hstats, _, hjson, rfl, rfl, rfl,
      rfl, rfl,
      rfl, rfl, rfl, hother⟩

/-- A nested object with statistics is read exactly when they are, as it was but for them. -/
theorem readMetadataJson_of_adds {stats inner inner' : List (String × Json)} (h : Adds (.object stats) inner inner')
    (hread : readMetadataJson (.object inner) = some json) :
    readMetadataJson (.object inner') = (readTilestats (.object stats)).map fun tilestats =>
      { json with tilestats := some tilestats } := by
  obtain ⟨hencoding, hlayers, -, hother⟩ := readMetadataJson_eq_some_iff.mp hread
  have hsame : ∀ json', readMetadataJson (.object inner') = some json' ↔ some json.encoding = some json'.encoding ∧
      some json.vectorLayers = some json'.vectorLayers ∧ (readTilestats (.object stats)).map some = some json'.tilestats ∧
      json.other = json'.other := by
    intro json'
    rw [readMetadataJson_eq_some_iff, field_of_adds h (by decide), field_of_adds h (by decide), field_tilestats_of_adds h,
      unnamed_of_adds h (by decide), hencoding, hlayers, hother]
  cases hstats : readTilestats (.object stats) with
  | none =>
    rw [Option.map_none, Option.eq_none_iff_forall_not_mem]
    intro json' hjson
    have hnone := ((hsame json').mp hjson).2.2.1
    rw [hstats] at hnone
    cases hnone
  | some tilestats =>
    rw [Option.map_some, hsame, hstats]
    exact ⟨rfl, rfl, rfl, rfl⟩

/-- What a document with another nested object is read as. -/
theorem tolerated_of_nested (hread : readMetadata parseText (.object fields) = some m)
    (hget : (Fields.get fields "json").isSome = true)
    (hjson : m.json = some json) (hvalue : readOptionalMetadataJson parseText value =
      (readTilestats stats).map fun tilestats => some { json with tilestats := some tilestats }) :
    Tolerated parseText (Fields.set "json" value fields) m ↔ IsStats stats := by
  obtain ⟨hname, hdescription, hattribution, hversion, hencoding, hlayers, hstats, -, hother⟩ := readMetadata_eq_some_iff.mp hread
  have hfield : ∀ {name : String}, name ≠ "json" → ∀ {α : Type} (index : Nat) (default : α) (read : Json → Option α),
      (Entries.map (Fields.set "json" value fields)).field index name default read = (Entries.map fields).field index name default
        read := by
    intro name hne α index default read
    simp only [Entries.field, Entries.find, Fields.get_set_of_ne hne]
  have hnested : (Entries.map (Fields.set "json" value fields)).field 7 "json" none (readOptionalMetadataJson parseText) =
      (readTilestats stats).map fun tilestats => some { json with tilestats := some tilestats } := by
    simp only [Entries.field, Entries.find, Fields.get_set_self value hget, hvalue]
  rw [← readTilestats_isSome_iff]
  constructor
  · rintro ⟨m', hread', -⟩
    have hjson' := (readMetadata_eq_some_iff.mp hread').2.2.2.2.2.2.2.1
    rw [hnested] at hjson'
    obtain ⟨tilestats, htilestats, -⟩ := Option.map_eq_some_iff.mp hjson'
    rw [htilestats]
    rfl
  · intro hsome
    obtain ⟨tilestats, htilestats⟩ := Option.isSome_iff_exists.mp hsome
    refine ⟨{ m with json := some { json with tilestats := some tilestats } }, ?_, rfl, rfl, rfl, rfl, ?_, ?_, ?_⟩
    · rw [readMetadata_eq_some_iff]
      refine ⟨?_, ?_, ?_, ?_, ?_, ?_, ?_, ?_, ?_⟩
      · exact (hfield (by decide) _ _ _).trans hname
      · exact (hfield (by decide) _ _ _).trans hdescription
      · exact (hfield (by decide) _ _ _).trans hattribution
      · exact (hfield (by decide) _ _ _).trans hversion
      · exact (hfield (by decide) _ _ _).trans hencoding
      · exact (hfield (by decide) _ _ _).trans hlayers
      · exact (hfield (by decide) _ _ _).trans hstats
      · rw [hnested, htilestats]
        rfl
      · exact (Fields.filter_set (fun name => !metadataNames.contains name) (by decide) value fields).trans hother
    · simp [Metadata.allVectorLayers, hjson]
    · simp [Metadata.anyEncoding, hjson]
    · funext key
      simp [Metadata.allOther, hjson]

/-- The nested object of a document that has one. -/
theorem exists_json {read : Option MetadataJson}
    (hread : readMetadata parseText (.object fields) = some m) (hget : Fields.get fields "json" = some value)
    (hvalue : readOptionalMetadataJson parseText value = read.map some) : ∃ json, read = some json ∧ m.json = some json := by
  have hjson := (readMetadata_eq_some_iff.mp hread).2.2.2.2.2.2.2.1
  simp only [Entries.field, Entries.find, hget, hvalue] at hjson
  obtain ⟨json, hsome, heq⟩ := Option.map_eq_some_iff.mp hjson
  exact ⟨json, hsome, heq.symm⟩

/-- Statistics are tolerated exactly when each of their fields has its type. -/
theorem tolerated_iff {parseText : String → Option Json} {fields fields' stats : List (String × Json)} {m : Metadata}
    (hread : readMetadata parseText (.object fields) = some m) (hadds : AddsStats parseText (.object stats) fields fields') :
    Tolerated parseText fields' m ↔ IsStats (.object stats) := by
  cases hadds with
  | top hadds =>
    obtain ⟨hname, hdescription, hattribution, hversion, hencoding, hlayers, -, hjson, hother⟩ :=
      readMetadata_eq_some_iff.mp hread
    have hsame : ∀ m', readMetadata parseText (.object fields') = some m' ↔ m.name = m'.name ∧ m.description = m'.description ∧
        m.attribution = m'.attribution ∧ m.version = m'.version ∧ m.encoding = m'.encoding ∧ m.vectorLayers = m'.vectorLayers ∧
        (readTilestats (.object stats)).map some = some m'.tilestats ∧ m.json = m'.json ∧ m.other = m'.other := by
      intro m'
      rw [readMetadata_eq_some_iff, field_of_adds hadds (by decide), field_of_adds hadds (by decide),
        field_of_adds hadds (by decide),
        field_of_adds hadds (by decide), field_of_adds hadds (by decide), field_of_adds hadds (by decide),
          field_tilestats_of_adds hadds,
        field_of_adds hadds (by decide), unnamed_of_adds hadds (by decide), hname, hdescription, hattribution, hversion,
          hencoding, hlayers,
        hjson, hother]
      simp only [Option.some.injEq]
    rw [← readTilestats_isSome_iff]
    constructor
    · rintro ⟨m', hread', -⟩
      obtain ⟨tilestats, htilestats, -⟩ := Option.map_eq_some_iff.mp ((hsame m').mp hread').2.2.2.2.2.2.1
      rw [htilestats]
      rfl
    · intro hsome
      obtain ⟨tilestats, htilestats⟩ := Option.isSome_iff_exists.mp hsome
      refine ⟨{ m with tilestats := some tilestats }, ?_, rfl, rfl, rfl, rfl, rfl, rfl, rfl⟩
      rw [hsame, htilestats]
      exact ⟨rfl, rfl, rfl, rfl, rfl, rfl, rfl, rfl, rfl⟩
  | object hget hadds =>
    rename_i inner inner'
    obtain ⟨json, hinner, hjson⟩ := exists_json hread hget (show _ = (readMetadataJson (.object inner)).map some from rfl)
    refine tolerated_of_nested hread (by rw [hget]; rfl) hjson ?_
    show (readMetadataJson (.object inner')).map some = _
    rw [readMetadataJson_of_adds hadds hinner, Option.map_map]
    rfl
  | text hget hparse hparse' hadds =>
    rename_i inner inner' s t
    obtain ⟨json, hinner, hjson⟩ := exists_json hread hget (show _ = (readMetadataJson (.object inner)).map some by
      rw [readOptionalMetadataJson, hparse]
      rfl)
    refine tolerated_of_nested hread (by rw [hget]; rfl) hjson ?_
    rw [readOptionalMetadataJson, hparse', Option.bind_some, readMetadataJson_of_adds hadds hinner, Option.map_map]
    rfl

/-- Statistics whose layers are null. -/
theorem tolerated_null_layers : ¬ ∀ parseText fields fields' stats m, readMetadata parseText (.object fields) = some m →
    AddsStats parseText (.object stats) fields fields' → Tolerated parseText fields' m := by
  intro h
  obtain ⟨m', hread', -⟩ := h (fun _ => none) [("name", .string "tiles")]
    [("name", .string "tiles"), ("tilestats", .object [("layers", .null)])]
    [("layers", .null)] _ rfl (.top ⟨rfl, [("name", .string "tiles")], [], rfl, rfl⟩)
  cases hread'

theorem tolerated_partial : Tolerated (fun _ => none) [("name", .string "tiles"),
    ("tilestats", .object [("layers", .array [.object []])])]
      ⟨some "tiles", none, none, none, none, [], none, none, []⟩ ↔ IsStats (.object [("layers", .array [.object []])]) :=
  tolerated_iff (show readMetadata (fun _ => none) (.object [("name", .string "tiles")]) = some _ from rfl)
    (.top ⟨rfl, [("name", .string "tiles")], [], rfl, rfl⟩)

end Biei.PmtilesMetadata
