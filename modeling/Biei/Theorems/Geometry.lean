import Biei.Http.StaticImage
import Biei.Lemmas.Text
import Biei.Renderer.Features

/-! # The geometry of the overlays -/

namespace Biei

/-! ## A walk goes through positions -/

section

variable {codec : OverlayCodec} {σ : Type} {visit : σ → LngLat → σ}

mutual

/-- The positions in coordinates, in order. -/
def coordinatePositions (codec : OverlayCodec) : Json → List LngLat
  | .array items =>
    match positionOf codec items with
    | some point => [point]
    | none => itemPositions codec items
  | .null => []
  | .bool _ => []
  | .number _ => []
  | .string _ => []
  | .object _ => []

def itemPositions (codec : OverlayCodec) : List Json → List LngLat
  | [] => []
  | item :: items => coordinatePositions codec item ++ itemPositions codec items

end

mutual

theorem collectGeojsonCoordinates_eq (value : Json) (s : σ) :
    collectGeojsonCoordinates codec visit value s = (coordinatePositions codec value).foldl visit s := by
  cases value with
  | array items =>
    unfold collectGeojsonCoordinates coordinatePositions
    cases positionOf codec items with
    | some point => rfl
    | none => exact collectItems_eq items s
  | null => rfl
  | bool b => rfl
  | number n => rfl
  | string t => rfl
  | object fields => rfl

theorem collectItems_eq (items : List Json) (s : σ) :
    collectItems codec visit items s = (itemPositions codec items).foldl visit s := by
  cases items with
  | nil => rfl
  | cons item items =>
    unfold collectItems itemPositions
    rw [List.foldl_append, collectGeojsonCoordinates_eq item s, collectItems_eq items]

end

theorem itemPositions_eq (items : List Json) : itemPositions codec items = items.flatMap (coordinatePositions codec) := by
  induction items with
  | nil => rfl
  | cons item items ih =>
    unfold itemPositions
    rw [ih]
    rfl

/-- An array that does not begin with a number is no position. -/
theorem coordinatePositions_array {items : List Json} (h : ∀ item ∈ items, ∃ inner, item = .array inner) :
    coordinatePositions codec (.array items) = items.flatMap (coordinatePositions codec) := by
  unfold coordinatePositions
  have hnone : positionOf codec items = none := by
    cases items with
    | nil => rfl
    | cons item items =>
      obtain ⟨inner, rfl⟩ := h item List.mem_cons_self
      rfl
  rw [hnone]
  exact itemPositions_eq items

/-! ### Documents -/

variable {value : Json}

theorem collectGeojsonBounds_collection {features : List Json} (htype : value.getStr "type" = some "FeatureCollection")
    (hfeatures : (value.get "features").bind Json.array? = some features) (s : σ) :
    collectGeojsonBounds codec visit value s = features.foldl (fun s feature => collectGeojsonBounds codec visit feature s)
      s := by
  rw [collectGeojsonBounds, htype]
  simp only
  split
  · rename_i found hfound
    cases hfound.symm.trans hfeatures
    exact List.foldl_attach (f := fun s feature => collectGeojsonBounds codec visit feature s)
  · rename_i hnone
    cases hnone.symm.trans hfeatures

theorem collectGeojsonBounds_feature (htype : value.getStr "type" = some "Feature") (s : σ) :
    collectGeojsonBounds codec visit value s =
      match value.get "geometry" with
      | some geometry => collectGeojsonBounds codec visit geometry s
      | none => s := by
  rw [collectGeojsonBounds, htype]
  simp only
  split
  · rename_i geometry hgeometry
    rw [hgeometry]
  · rename_i hnone
    rw [hnone]

theorem collectGeojsonBounds_geometry {type : String} {coordinates : Json} (htype : value.getStr "type" = some type)
    (hmem : type ∈ geometryTypes) (hcoordinates : value.get "coordinates" = some coordinates) (s : σ) :
    collectGeojsonBounds codec visit value s = (coordinatePositions codec coordinates).foldl visit s := by
  have hcollection : type ≠ "FeatureCollection" := by
    rintro rfl
    exact absurd hmem (by decide)
  have hfeature : type ≠ "Feature" := by
    rintro rfl
    exact absurd hmem (by decide)
  rw [collectGeojsonBounds, htype]
  simp only [hmem, if_true, hcoordinates]
  exact collectGeojsonCoordinates_eq coordinates s

theorem collectGeojsonBounds_null (s : σ) : collectGeojsonBounds codec visit .null s = s := by
  rw [collectGeojsonBounds]
  rfl

end

/-! ## What the checks establish -/

/-- The range that every position is checked for. -/
def InRange (p : LngLat) : Prop := F64.contains minLon maxLon p.lon = true ∧ F64.contains minLat maxLat p.lat = true

variable {p : LngLat}

theorem validateCoordinate_eq_ok_iff : validateCoordinate p = .ok () ↔ InRange p := by
  unfold validateCoordinate InRange
  rw [← Bool.and_eq_true]
  split
  · rename_i h
    simp [h]
  · rename_i h
    simp [h]

section

variable {codec : OverlayCodec}

/-- An array whose positions were checked: these are the ones that a walk finds. -/
structure Checked (codec : OverlayCodec) (value : Json) (positions : List LngLat) : Prop where
  array : ∃ items, value = .array items
  walked : coordinatePositions codec value = positions
  inRange : ∀ p ∈ positions, InRange p

theorem of_tryForEach {α β ε : Type} {check : α → Except ε (List β)} {items : List α} {found : List β}
    (h : tryForEach check items = .ok found) :
    ∃ parts, List.Forall₂ (fun item part => check item = .ok part) items parts ∧ parts.flatten = found := by
  induction items generalizing found with
  | nil => exact ⟨[], .nil, Except.ok.inj h⟩
  | cons item items ih =>
    unfold tryForEach at h
    split at h
    · cases h
    · rename_i part hpart
      cases hrest : tryForEach check items with
      | error e =>
        rw [hrest] at h
        cases h
      | ok rest =>
        rw [hrest] at h
        obtain ⟨parts, hparts, rfl⟩ := ih hrest
        cases h
        exact ⟨part :: parts, .cons hpart hparts, rfl⟩

variable {items : List Json}

theorem checked_items {parts : List (List LngLat)} (h : List.Forall₂ (Checked codec) items parts) :
    (∀ item ∈ items, ∃ inner, item = .array inner) ∧ items.flatMap (coordinatePositions codec) = parts.flatten ∧
      ∀ p ∈ parts.flatten, InRange p := by
  induction h with
  | nil => exact ⟨nofun, rfl, nofun⟩
  | cons hpart hrest ih =>
    obtain ⟨harrays, hwalked, hrange⟩ := ih
    refine ⟨List.forall_mem_cons.mpr ⟨hpart.array, harrays⟩, ?_, ?_⟩
    · rw [List.flatMap_cons, List.flatten_cons, hpart.walked, hwalked]
    · intro p hp
      rcases List.mem_append.mp hp with hp | hp
      · exact hpart.inRange p hp
      · exact hrange p hp

variable {positions : List LngLat}

theorem checked_tryForEach {check : Json → Except OverlayParseError (List LngLat)}
    (hcheck : ∀ item part, check item = .ok part → Checked codec item part) (h : tryForEach check items = .ok positions) :
    Checked codec (.array items) positions := by
  obtain ⟨parts, hparts, rfl⟩ := of_tryForEach h
  obtain ⟨harrays, hwalked, hrange⟩ := checked_items (hparts.imp fun item part hpart => hcheck item part hpart)
  exact ⟨⟨items, rfl⟩, (coordinatePositions_array harrays).trans hwalked, hrange⟩

variable {value : Json}

theorem array?_eq (h : value.array? = some items) : value = .array items := by
  cases value with
  | array items' => rw [Option.some.inj h]
  | null => cases h
  | bool b => cases h
  | number n => cases h
  | string t => cases h
  | object fields => cases h

theorem of_itemsOf {β : Type} {check : List Json → Except OverlayParseError β} {found : β}
    (h : itemsOf value >>= check = .ok found) : ∃ items, value = .array items ∧ check items = .ok found := by
  obtain ⟨items, hitems, hcheck⟩ := Except.bind_eq_ok_iff.mp h
  unfold itemsOf at hitems
  split at hitems
  · rename_i items' harray
    obtain rfl := Except.ok.inj hitems
    exact ⟨items', array?_eq harray, hcheck⟩
  · cases hitems

/-- A count of the items is a count of the positions. -/
theorem sum_map_tryForEach {α β ε : Type} {check : α → Except ε (List β)} (size : α → Nat) {items : List α} {found : List β}
    (hsize : ∀ item part, check item = .ok part → size item = part.length) (h : tryForEach check items = .ok found) :
    (items.map size).sum = found.length := by
  obtain ⟨parts, hparts, rfl⟩ := of_tryForEach h
  clear h
  induction hparts with
  | nil => rfl
  | cons hpart hrest ih =>
    rw [List.map_cons, List.sum_cons, hsize _ _ hpart, ih, List.flatten_cons, List.length_append]

/-- One position. -/
theorem checked_position {pos : Json} (h : validatePosition codec pos = .ok positions) :
    Checked codec pos positions ∧ positions.length = 1 := by
  unfold validatePosition at h
  split at h
  · rename_i items lon lat rest harray
    split at h
    · rename_i lon lat
      split at h
      · rename_i x y hx hy
        split at h
        · cases h
        · split at h
          · cases h
          · rename_i hrange
            cases h
            refine ⟨⟨⟨_, array?_eq harray⟩, ?_, ?_⟩, rfl⟩
            · rw [array?_eq harray]
              simp [coordinatePositions, positionOf, hx, hy]
            · simpa [InRange] using hrange
      · cases h
    · cases h
  · cases h

theorem checked_positions (h : validatePositions codec value = .ok positions) :
    Checked codec value positions ∧ arrayLen value = positions.length := by
  obtain ⟨items, rfl, hitems⟩ := of_itemsOf h
  have hsize := sum_map_tryForEach (fun _ => 1) (fun item part hpart => (checked_position hpart).2.symm) hitems
  refine ⟨checked_tryForEach (fun item part hpart => (checked_position hpart).1) hitems, ?_⟩
  rw [← hsize]
  simp [arrayLen, Json.array?]

theorem checked_rings (h : validateRings codec value = .ok positions) :
    Checked codec value positions ∧ ((value.array?.getD []).map arrayLen).sum = positions.length := by
  obtain ⟨items, rfl, hitems⟩ := of_itemsOf h
  exact ⟨checked_tryForEach (fun item part hpart => (checked_positions hpart).1) hitems,
    sum_map_tryForEach arrayLen (fun item part hpart => (checked_positions hpart).2) hitems⟩

/-- The rings of all polygons are counted together. -/
theorem sum_flatMap_arrayLen (items : List Json) :
    (((items.filterMap Json.array?).flatMap fun rings => rings.map arrayLen)).sum =
      (items.map fun polygon => ((polygon.array?.getD []).map arrayLen).sum).sum := by
  induction items with
  | nil => rfl
  | cons item items ih =>
    cases harray : item.array? with
    | none =>
      rw [List.filterMap_cons_none harray, ih, List.map_cons, List.sum_cons, harray]
      simp
    | some rings =>
      rw [List.filterMap_cons_some harray, List.flatMap_cons, List.sum_append, ih, List.map_cons, List.sum_cons, harray]
      rfl

/-- The positions of checked coordinates are the ones that were checked, and as many as are counted. -/
theorem checked_coordinates {gType : String} {coords : Json} (htype : gType ∈ geometryTypes)
    (h : validateCoordinateValues codec gType coords = .ok positions) :
    coordinatePositions codec coords = positions ∧ countCoordinates gType coords = positions.length ∧ ∀ p ∈ positions,
      InRange p := by
  unfold validateCoordinateValues at h
  unfold countCoordinates
  split at h
  · rename_i hpoint
    obtain ⟨hchecked, hlength⟩ := checked_position h
    rw [if_pos hpoint]
    exact ⟨hchecked.walked, hlength.symm, hchecked.inRange⟩
  · rename_i hpoint
    rw [if_neg hpoint]
    split at h
    · rename_i hline
      obtain ⟨hchecked, hlength⟩ := checked_positions h
      rw [if_pos hline]
      exact ⟨hchecked.walked, hlength, hchecked.inRange⟩
    · rename_i hline
      rw [if_neg hline]
      split at h
      · rename_i hpolygon
        obtain ⟨hchecked, hlength⟩ := checked_rings h
        rw [if_pos hpolygon]
        exact ⟨hchecked.walked, hlength, hchecked.inRange⟩
      · rename_i hpolygon
        rw [if_neg hpolygon]
        split at h
        · rename_i hmulti
          obtain ⟨items, rfl, hitems⟩ := of_itemsOf h
          have hchecked := checked_tryForEach (fun item part hpart => (checked_rings hpart).1) hitems
          have hlength := sum_map_tryForEach _ (fun item part hpart => (checked_rings hpart).2) hitems
          rw [if_pos hmulti]
          exact ⟨hchecked.walked, (sum_flatMap_arrayLen items).trans hlength, hchecked.inRange⟩
        · rename_i hmulti
          simp [geometryTypes] at htype
          tauto

/-! ### Documents -/

/-- An object that says it is a feature. -/
def IsFeature (value : Json) : Prop := (∃ fields, value = .object fields) ∧ value.getStr "type" = some "Feature"

/-- A document whose positions were checked, with the count of coordinates before and after it. -/
structure Accounted (codec : OverlayCodec) (value : Json) (positions : List LngLat) (before after : Nat) : Prop where
  walked : ∀ {σ : Type} (visit : σ → LngLat → σ) (s : σ), collectGeojsonBounds codec visit value s = positions.foldl visit s
  counted : after = before + positions.length
  bounded : before ≤ maxGeojsonCoordinates → after ≤ maxGeojsonCoordinates
  inRange : ∀ p ∈ positions, InRange p

/-- What `count_coordinates` counts in a feature. -/
def coordinateCount (feature : Json) : Nat :=
  match feature.get "geometry" with
  | none => 0
  | some geometry =>
    match geometry.getStr "type", geometry.get "coordinates" with
    | some gType, some coords => countCoordinates gType coords
    | _, _ => 0

variable {n : Nat}

/-- A feature without geometry. -/
theorem accounted_empty (htype : value.getStr "type" = some "Feature")
    (hgeometry : value.get "geometry" = none ∨ value.get "geometry" = some .null) : Accounted codec value [] n n where
  walked := by
    intro σ visit s
    rw [collectGeojsonBounds_feature htype]
    rcases hgeometry with hgeometry | hgeometry
    · rw [hgeometry]
      rfl
    · rw [hgeometry]
      exact collectGeojsonBounds_null s
  counted := rfl
  bounded := id
  inRange := nofun

theorem accounted_feature {n m : Nat} (h : validateFeature codec value n = .ok (m, positions)) :
    IsFeature value ∧ positions.length = coordinateCount value ∧ Accounted codec value positions n m := by
  unfold validateFeature at h
  split at h
  · rename_i fields
    split at h
    · cases h
    · rename_i htype
      have htype : Json.getStr (.object fields) "type" = some "Feature" := by simpa using htype
      refine ⟨⟨⟨fields, rfl⟩, htype⟩, ?_⟩
      split at h
      · rename_i hgeometry
        cases h
        exact ⟨by simp [coordinateCount, hgeometry], accounted_empty htype (Or.inl hgeometry)⟩
      · rename_i hgeometry
        cases h
        refine ⟨?_, accounted_empty htype (Or.inr hgeometry)⟩
        unfold coordinateCount
        rw [hgeometry]
        rfl
      · rename_i geometry hgeometry
        split at h
        · cases h
        · rename_i gType hgType
          split at h
          · cases h
          · rename_i hmem
            split at h
            · cases h
            · rename_i coords hcoords
              simp only at h
              split at h
              · cases h
              · rename_i htotal
                cases hvalues : validateCoordinateValues codec gType coords with
                | error e =>
                  rw [hvalues] at h
                  cases h
                | ok found =>
                  rw [hvalues] at h
                  cases h
                  obtain ⟨hwalked, hcount, hrange⟩ := checked_coordinates (by simpa using hmem) hvalues
                  have hcoordinates : Json.get (.object geometry) "coordinates" = some coords := hcoords
                  refine ⟨by simp [coordinateCount, hgeometry, hgType, hcoordinates, hcount], ?_⟩
                  have htotal := Nat.le_of_not_lt htotal
                  have hsmall : maxGeojsonCoordinates < 2 ^ 64 - 1 := by decide
                  rw [hcount] at htotal ⊢
                  have hexact : min (n + positions.length) (2 ^ 64 - 1) = n + positions.length := by omega
                  refine ⟨fun visit s => ?_, hexact, fun _ => htotal, hrange⟩
                  rw [collectGeojsonBounds_feature htype, hgeometry]
                  simp only
                  rw [collectGeojsonBounds_geometry hgType (by simpa using hmem) hcoords, hwalked]
      · cases h
  · cases h

/-- What the features of a collection add up to. -/
theorem accounted_features {features : List Json} {n m : Nat} (h : validateFeatures codec features n = .ok (m, positions)) :
    (∀ {σ : Type} (visit : σ → LngLat → σ) (s : σ),
        features.foldl (fun s f => collectGeojsonBounds codec visit f s) s = positions.foldl visit s) ∧
      m = n + positions.length ∧ positions.length = (features.map coordinateCount).sum ∧
      (n ≤ maxGeojsonCoordinates → m ≤ maxGeojsonCoordinates) ∧ (∀ p ∈ positions, InRange p) ∧ ∀ f ∈ features, IsFeature f := by
  induction features generalizing n positions with
  | nil =>
    cases h
    exact ⟨fun _ _ => rfl, rfl, rfl, id, nofun, nofun⟩
  | cons f features ih =>
    unfold validateFeatures at h
    split at h
    · cases h
    · rename_i total first hfirst
      cases hrest : validateFeatures codec features total with
      | error e =>
        rw [hrest] at h
        cases h
      | ok rest =>
        obtain ⟨last, more⟩ := rest
        rw [hrest] at h
        cases h
        obtain ⟨hobject, hsum, hfeature⟩ := accounted_feature hfirst
        obtain ⟨hwalked, hcount, hsums, hbound, hrange, hobjects⟩ := ih hrest
        refine ⟨fun visit s => ?_, ?_, ?_, fun hn => hbound (hfeature.bounded hn), ?_,
          List.forall_mem_cons.mpr ⟨hobject, hobjects⟩⟩
        · rw [List.foldl_cons, hfeature.walked, hwalked, List.foldl_append]
        · rw [hcount, hfeature.counted, List.length_append, Nat.add_assoc]
        · rw [List.length_append, List.map_cons, List.sum_cons, hsum, hsums]
        · intro p hp
          rcases List.mem_append.mp hp with hp | hp
          · exact hfeature.inRange p hp
          · exact hrange p hp

/-- What an accepted document has: its positions are accounted for, and so they are in its features. -/
theorem accounted_geojson (h : validateGeojson codec value = .ok (n, positions)) :
    Accounted codec value positions 0 n ∧ positions.length = ((geojsonFeatures ⟨value⟩).map coordinateCount).sum ∧
      (∀ f ∈ geojsonFeatures ⟨value⟩, IsFeature f) ∧
      ∀ {σ : Type} (visit : σ → LngLat → σ) (s : σ),
        (geojsonFeatures ⟨value⟩).foldl (fun s f => collectGeojsonBounds codec visit f s) s = positions.foldl visit s := by
  unfold validateGeojson at h
  split at h
  · cases h
  · rename_i type htype
    split at h
    · rename_i hfeature
      obtain ⟨hobject, hsum, haccounted⟩ := accounted_feature h
      refine ⟨haccounted, ?_⟩
      unfold geojsonFeatures
      rw [hobject.2]
      exact ⟨by simpa using hsum, List.forall_mem_singleton.mpr hobject, fun visit s => haccounted.walked visit s⟩
    · split at h
      · rename_i hcollection
        subst hcollection
        split at h
        · cases h
        · rename_i features hfeatures
          split at h
          · cases h
          · obtain ⟨hwalked, hcount, hsum, hbound, hrange, hobjects⟩ := accounted_features h
            refine ⟨⟨fun visit s => ?_, hcount, hbound, hrange⟩, ?_⟩
            · rw [collectGeojsonBounds_collection htype hfeatures, hwalked]
            · unfold geojsonFeatures
              rw [htype]
              simp only [hfeatures]
              exact ⟨hsum, hobjects, fun visit s => hwalked visit s⟩
      · cases h

/-! ## Overlays -/

/-- The positions of an overlay that its checks go through. -/
def checkedPositions (codec : OverlayCodec) : StaticOverlay → List LngLat
  | .path path => path.coordinates
  | .pin pin => [pin.coordinate]
  | .geoJson geojson =>
    match validateGeojson codec geojson.featureCollection with
    | .ok (_, positions) => positions
    | .error _ => []

theorem checkedPositions_geoJson {geojson : GeoJsonOverlay}
    (h : validateGeojson codec geojson.featureCollection = .ok (n, positions)) :
    checkedPositions codec (.geoJson geojson) = positions := by
  simp only [checkedPositions, h]

theorem of_map_ok {ε α β : Type} {x : Except ε α} {f : α → β} {b : β} (h : x.map f = .ok b) : ∃ a, x = .ok a ∧ f a = b := by
  cases x with
  | error e => cases h
  | ok a => exact ⟨a, rfl, Except.ok.inj h⟩

theorem of_discard {ε α : Type} {x : Except ε α} (h : discard x = .ok ()) : ∃ a, x = .ok a := by
  cases x with
  | error e => cases h
  | ok a => exact ⟨a, rfl⟩

theorem inRange_of_validatePathOverlay {path : PathOverlay} (h : validatePathOverlay path = .ok ()) :
    path.coordinates ≠ [] ∧ ∀ p ∈ path.coordinates, InRange p := by
  unfold validatePathOverlay at h
  dsimp only at h
  split at h
  · cases h
  · rename_i hempty
    split at h
    · cases h
    · split at h
      · cases h
      · obtain ⟨_, -, h⟩ := Except.bind_eq_ok_iff.mp h
        obtain ⟨_, -, h⟩ := Except.bind_eq_ok_iff.mp h
        obtain ⟨_, -, h⟩ := Except.bind_eq_ok_iff.mp h
        obtain ⟨_, -, h⟩ := Except.bind_eq_ok_iff.mp h
        exact ⟨by simpa using hempty, fun p hp => validateCoordinate_eq_ok_iff.mp (Except.forM_eq_ok_iff.mp h p hp)⟩

theorem inRange_of_validatePinOverlay {pin : PinOverlay} (h : validatePinOverlay pin = .ok ()) : InRange pin.coordinate := by
  unfold validatePinOverlay at h
  dsimp only at h
  split at h
  · cases h
  · obtain ⟨_, -, h⟩ := Except.bind_eq_ok_iff.mp h
    exact validateCoordinate_eq_ok_iff.mp h

theorem visitOverlay_eq {overlay : StaticOverlay} (h : validateStaticOverlay codec overlay = .ok ()) {σ : Type}
    (visit : σ → LngLat → σ)
    (s : σ) : visitOverlay codec visit s overlay = (checkedPositions codec overlay).foldl visit s := by
  cases overlay with
  | path path => rfl
  | pin pin => rfl
  | geoJson geojson =>
    obtain ⟨⟨n, positions⟩, hvalid⟩ := of_discard h
    rw [checkedPositions_geoJson hvalid]
    exact (accounted_geojson hvalid).1.walked visit s

theorem inRange_of_validateStaticOverlay {overlay : StaticOverlay} (h : validateStaticOverlay codec overlay = .ok ()) :
    ∀ p ∈ checkedPositions codec overlay, InRange p := by
  cases overlay with
  | path path => exact (inRange_of_validatePathOverlay h).2
  | pin pin => exact List.forall_mem_singleton.mpr (inRange_of_validatePinOverlay h)
  | geoJson geojson =>
    obtain ⟨⟨n, positions⟩, hvalid⟩ := of_discard h
    rw [checkedPositions_geoJson hvalid]
    exact (accounted_geojson hvalid).1.inRange

/-- Every overlay was checked. -/
def Valid (codec : OverlayCodec) (overlays : List StaticOverlay) : Prop := ∀ o ∈ overlays, validateStaticOverlay codec o = .ok ()

theorem foldl_visitOverlay {overlays : List StaticOverlay} (h : Valid codec overlays) {σ : Type} (visit : σ → LngLat → σ)
    (s : σ) :
    overlays.foldl (visitOverlay codec visit) s = (overlays.flatMap (checkedPositions codec)).foldl visit s := by
  induction overlays generalizing s with
  | nil => rfl
  | cons o overlays ih =>
    rw [List.foldl_cons, visitOverlay_eq (h o List.mem_cons_self), ih (fun o' ho' => h o' (List.mem_cons_of_mem _ ho')),
      List.flatMap_cons, List.foldl_append]

theorem foldl_snoc {α : Type} (l seen : List α) : l.foldl (fun seen a => seen ++ [a]) seen = seen ++ l := by
  induction l generalizing seen with
  | nil => exact (List.append_nil seen).symm
  | cons a l ih => rw [List.foldl_cons, ih, List.append_assoc, List.singleton_append]

/-- The positions that the camera goes through are the ones that were checked. -/
theorem visitedPositions_eq {overlays : List StaticOverlay} (h : Valid codec overlays) :
    visitedPositions codec overlays = overlays.flatMap (checkedPositions codec) := by
  unfold visitedPositions
  rw [foldl_visitOverlay h, foldl_snoc, List.nil_append]

end

/-! ## Bounds -/

namespace F64

theorem le_iff_bits (x y : F64) : x.le y = binary64.le x.bits.toNat y.bits.toNat := rfl

theorem bits_min (x y : F64) : (x.min y).bits.toNat = binary64.min x.bits.toNat y.bits.toNat := by
  unfold F64.min
  split
  · rename_i h
    exact h.symm
  · rename_i h
    exact ((FloatFormat.min_cases _ _).resolve_left h).symm

theorem bits_max (x y : F64) : (x.max y).bits.toNat = binary64.max x.bits.toNat y.bits.toNat := by
  unfold F64.max
  split
  · rename_i h
    exact h.symm
  · rename_i h
    exact ((FloatFormat.max_cases _ _).resolve_left h).symm

theorem min_cases (x y : F64) : x.min y = x ∨ x.min y = y := by
  unfold F64.min
  split
  · exact Or.inl rfl
  · exact Or.inr rfl

theorem max_cases (x y : F64) : x.max y = x ∨ x.max y = y := by
  unfold F64.max
  split
  · exact Or.inl rfl
  · exact Or.inr rfl

theorem min_le {x y : F64} (hx : x.isNaN = false) (hy : y.isNaN = false) : (x.min y).le x = true ∧ (x.min y).le y = true := by
  rw [le_iff_bits, le_iff_bits, bits_min]
  exact FloatFormat.min_le hx hy

theorem le_max {x y : F64} (hx : x.isNaN = false) (hy : y.isNaN = false) : x.le (x.max y) = true ∧ y.le (x.max y) = true := by
  rw [le_iff_bits, le_iff_bits, bits_max]
  exact FloatFormat.le_max hx hy

theorem isFinite_of_contains {lo hi x : F64} (hlo : lo.isFinite = true) (hhi : hi.isFinite = true)
    (h : F64.contains lo hi x = true) :
    x.isFinite = true :=
  FloatFormat.isFinite_of_contains (by decide) hlo hhi h

end F64

theorem InRange.isFinite (h : InRange p) : p.lon.isFinite = true ∧ p.lat.isFinite = true :=
  ⟨F64.isFinite_of_contains (by decide) (by decide) h.1, F64.isFinite_of_contains (by decide) (by decide) h.2⟩

theorem InRange.isNaN (h : InRange p) : p.lon.isNaN = false ∧ p.lat.isNaN = false :=
  ⟨FloatFormat.isNaN_of_isFinite h.isFinite.1, FloatFormat.isNaN_of_isFinite h.isFinite.2⟩

/-- A coordinate of one of the points that no other point has one before. -/
def Extreme (le : F64 → F64 → Bool) (coordinate : LngLat → F64) (x : F64) (points : List LngLat) : Prop :=
  (∃ p ∈ points, coordinate p = x) ∧ ∀ p ∈ points, le x (coordinate p) = true

theorem Extreme.snoc {le : F64 → F64 → Bool} {pick : F64 → F64 → F64} (hcases : ∀ x y, pick x y = x ∨ pick x y = y)
    (hpick : ∀ x y, x.isNaN = false → y.isNaN = false → le (pick x y) x = true ∧ le (pick x y) y = true)
    (htrans : ∀ x y z, le x y = true → le y z = true → le x z = true) {coordinate : LngLat → F64} {x : F64} {points : List LngLat}
    {p : LngLat} (h : Extreme le coordinate x points) (hx : x.isNaN = false) (hp : (coordinate p).isNaN = false) :
    Extreme le coordinate (pick x (coordinate p)) (points ++ [p]) := by
  obtain ⟨⟨q, hq, hqx⟩, hle⟩ := h
  obtain ⟨hleft, hright⟩ := hpick x (coordinate p) hx hp
  constructor
  · rcases hcases x (coordinate p) with heq | heq
    · exact ⟨q, List.mem_append_left _ hq, hqx.trans heq.symm⟩
    · exact ⟨p, List.mem_append_right _ List.mem_cons_self, heq.symm⟩
  · intro r hr
    rcases List.mem_append.mp hr with hr | hr
    · exact htrans _ _ _ hleft (hle r hr)
    · rw [List.mem_singleton.mp hr]
      exact hright

/-- The least and the greatest coordinates of some points. -/
structure IsBounds (bounds : OverlayBounds) (points : List LngLat) : Prop where
  minLon : Extreme F64.le LngLat.lon bounds.minLon points
  minLat : Extreme F64.le LngLat.lat bounds.minLat points
  maxLon : Extreme (fun x y => y.le x) LngLat.lon bounds.maxLon points
  maxLat : Extreme (fun x y => y.le x) LngLat.lat bounds.maxLat points

theorem IsBounds.new (h : InRange p) : IsBounds (.new p) [p] := by
  have hself : ∀ x : F64, x.isNaN = false → x.le x = true := fun x hx => FloatFormat.le_refl hx
  have hextreme : ∀ (coordinate : LngLat → F64), (coordinate p).isNaN = false →
      (∃ q ∈ [p], coordinate q = coordinate p) ∧ ∀ q ∈ [p], (coordinate p).le (coordinate q) = true ∧
        (coordinate q).le (coordinate p) = true := by
    intro coordinate hnum
    refine ⟨⟨p, List.mem_cons_self, rfl⟩, fun q hq => ?_⟩
    rw [List.mem_singleton.mp hq]
    exact ⟨hself _ hnum, hself _ hnum⟩
  obtain ⟨hlon, hlonLe⟩ := hextreme LngLat.lon h.isNaN.1
  obtain ⟨hlat, hlatLe⟩ := hextreme LngLat.lat h.isNaN.2
  exact ⟨⟨hlon, fun q hq => (hlonLe q hq).1⟩, ⟨hlat, fun q hq => (hlatLe q hq).1⟩, ⟨hlon, fun q hq => (hlonLe q hq).2⟩,
    ⟨hlat, fun q hq => (hlatLe q hq).2⟩⟩

theorem IsBounds.including {bounds : OverlayBounds} {points : List LngLat} (h : IsBounds bounds points)
    (hpoints : ∀ p ∈ points, InRange p)
    {p : LngLat} (hp : InRange p) : IsBounds (bounds.including p) (points ++ [p]) := by
  have hnum : ∀ {le : F64 → F64 → Bool} {x : F64}, Extreme le LngLat.lon x points → x.isNaN = false := by
    rintro le x ⟨⟨q, hq, rfl⟩, -⟩
    exact (hpoints q hq).isNaN.1
  have hnum' : ∀ {le : F64 → F64 → Bool} {x : F64}, Extreme le LngLat.lat x points → x.isNaN = false := by
    rintro le x ⟨⟨q, hq, rfl⟩, -⟩
    exact (hpoints q hq).isNaN.2
  have htrans : ∀ x y z : F64, x.le y = true → y.le z = true → x.le z = true := fun x y z => FloatFormat.le_trans
  have hmin := fun (x y : F64) => F64.min_le (x := x) (y := y)
  have hmax := fun (x y : F64) => F64.le_max (x := x) (y := y)
  exact ⟨h.minLon.snoc F64.min_cases hmin htrans (hnum h.minLon) hp.isNaN.1,
    h.minLat.snoc F64.min_cases hmin htrans (hnum' h.minLat) hp.isNaN.2,
    h.maxLon.snoc F64.max_cases hmax (fun x y z hxy hyz => htrans z y x hyz hxy) (hnum h.maxLon) hp.isNaN.1,
    h.maxLat.snoc F64.max_cases hmax (fun x y z hxy hyz => htrans z y x hyz hxy) (hnum' h.maxLat) hp.isNaN.2⟩

theorem isBounds_foldl {seen points : List LngLat} {bounds : OverlayBounds} (h : IsBounds bounds seen)
    (hrange : ∀ p ∈ seen ++ points, InRange p) :
    ∃ bounds', points.foldl includeBounds (some bounds) = some bounds' ∧ IsBounds bounds' (seen ++ points) := by
  induction points generalizing seen bounds with
  | nil => exact ⟨bounds, rfl, by rwa [List.append_nil]⟩
  | cons p points ih =>
    have hnext := h.including (fun q hq => hrange q (List.mem_append_left _ hq))
      (hrange p (List.mem_append_right _ List.mem_cons_self))
    have hsplit : seen ++ p :: points = seen ++ [p] ++ points := by simp
    rw [hsplit] at hrange ⊢
    exact ih hnext hrange

/-- The bounds of some points: none without a point. -/
theorem isBounds_of_foldl {points : List LngLat} (hrange : ∀ p ∈ points, InRange p) :
    (points = [] ∧ points.foldl includeBounds none = none) ∨
      ∃ bounds, points.foldl includeBounds none = some bounds ∧ IsBounds bounds points := by
  cases points with
  | nil => exact Or.inl ⟨rfl, rfl⟩
  | cons p points => exact Or.inr (isBounds_foldl (IsBounds.new (hrange p List.mem_cons_self)) hrange)

/-! ## Features -/

/-- A feature with the index of its slot, where it is an object. -/
def stamped (idx : Nat) (feature : Json) : Json := (stampFeature idx feature).getD feature

variable {feature : Json}

theorem stampFeature_eq (h : ∃ fields, feature = .object fields) (idx : Nat) :
    stampFeature idx feature = some (stamped idx feature) := by
  obtain ⟨fields, rfl⟩ := h
  rfl

/-- The index goes into the properties and nowhere else. -/
theorem get_stamped (h : ∃ fields, feature = .object fields) (idx : Nat) {name : String} (hname : name ≠ "properties") :
    (stamped idx feature).get name = feature.get name := by
  obtain ⟨fields, rfl⟩ := h
  exact Fields.get_insert_of_ne hname _ _

theorem getStr_stamped (h : ∃ fields, feature = .object fields) (idx : Nat) {name : String} (hname : name ≠ "properties") :
    (stamped idx feature).getStr name = feature.getStr name := by
  unfold Json.getStr
  rw [get_stamped h idx hname]

theorem IsFeature.featureJson (geometryType : String) (coordinates : Json) (properties : List (String × Json)) :
    IsFeature (featureJson geometryType coordinates properties) :=
  ⟨⟨_, rfl⟩, rfl⟩

section

variable {codec : OverlayCodec}

theorem collectGeojsonBounds_stamped {feature : Json} (h : IsFeature feature) (idx : Nat) {σ : Type} (visit : σ → LngLat → σ)
    (s : σ) :
    collectGeojsonBounds codec visit (stamped idx feature) s = collectGeojsonBounds codec visit feature s := by
  have htype : (stamped idx feature).getStr "type" = some "Feature" := (getStr_stamped h.1 idx (by decide)).trans h.2
  rw [collectGeojsonBounds_feature htype, collectGeojsonBounds_feature h.2, get_stamped h.1 idx (by decide)]

variable {p : LngLat}

/-- The coordinates of points are read as these points. -/
theorem coordinatePositions_positionJson (hexact : codec.Exact) (h : InRange p) :
    positionJson codec p = .array [.number (codec.ofF64 p.lon), .number (codec.ofF64 p.lat)] ∧
      coordinatePositions codec (positionJson codec p) = [p] := by
  have hjson : positionJson codec p = .array [.number (codec.ofF64 p.lon), .number (codec.ofF64 p.lat)] := by
    simp [positionJson, jsonOfF64, h.isFinite.1, h.isFinite.2]
  refine ⟨hjson, ?_⟩
  rw [hjson]
  simp [coordinatePositions, positionOf, hexact _ h.isFinite.1, hexact _ h.isFinite.2]

theorem coordinatePositions_coordinatesJson (hexact : codec.Exact) {points : List LngLat} (h : ∀ p ∈ points, InRange p) :
    coordinatePositions codec (.array (coordinatesJson codec points)) = points := by
  have harrays : ∀ item ∈ coordinatesJson codec points, ∃ inner, item = .array inner := by
    intro item hitem
    obtain ⟨p, hp, rfl⟩ := List.mem_map.mp hitem
    exact ⟨_, (coordinatePositions_positionJson hexact (h p hp)).1⟩
  rw [coordinatePositions_array harrays]
  unfold coordinatesJson
  induction points with
  | nil => rfl
  | cons p points ih =>
    have hrest : ∀ q ∈ points, InRange q := fun q hq => h q (List.mem_cons_of_mem _ hq)
    rw [List.map_cons, List.flatMap_cons, (coordinatePositions_positionJson hexact (h p List.mem_cons_self)).2,
      ih hrest fun item hitem => harrays item (List.mem_cons_of_mem _ hitem)]
    rfl

theorem collectGeojsonBounds_featureJson {geometryType : String} (hmem : geometryType ∈ geometryTypes) (coordinates : Json)
    (properties : List (String × Json)) {σ : Type} (visit : σ → LngLat → σ) (s : σ) :
    collectGeojsonBounds codec visit (featureJson geometryType coordinates properties) s =
      (coordinatePositions codec coordinates).foldl visit s := by
  rw [collectGeojsonBounds_feature rfl]
  exact collectGeojsonBounds_geometry rfl hmem rfl s

/-- The positions that the features of an overlay have. -/
def featurePositions (codec : OverlayCodec) : StaticOverlay → List LngLat
  | .path path =>
    path.coordinates ++ if path.fillColor.isSome ∧ 3 ≤ path.coordinates.length then closedRing path.coordinates else []
  | .pin pin => [pin.coordinate]
  | .geoJson geojson => checkedPositions codec (.geoJson geojson)

theorem mem_closedRing {points : List LngLat} : p ∈ closedRing points ↔ p ∈ points := by
  unfold closedRing
  split
  · rename_i first last hfirst hlast
    split
    · exact Iff.rfl
    · rw [List.mem_append, List.mem_singleton]
      refine ⟨?_, Or.inl⟩
      rintro (hp | rfl)
      · exact hp
      · exact List.mem_of_mem_head? hfirst
  · exact Iff.rfl

variable {overlay : StaticOverlay}

/-- Closing a ring adds no position. -/
theorem mem_featurePositions :
    p ∈ featurePositions codec overlay ↔ p ∈ checkedPositions codec overlay := by
  cases overlay with
  | path path =>
    unfold featurePositions checkedPositions
    rw [List.mem_append]
    refine ⟨?_, Or.inl⟩
    rintro (hp | hp)
    · exact hp
    · split at hp
      · exact mem_closedRing.mp hp
      · cases hp
  | pin pin => exact Iff.rfl
  | geoJson geojson => exact Iff.rfl

/-- The features of a checked overlay are features. -/
theorem isFeature_of_validateStaticOverlay (h : validateStaticOverlay codec overlay = .ok ()) :
    ∀ f ∈ overlayToFeatures codec overlay, IsFeature f := by
  cases overlay with
  | path path =>
    unfold overlayToFeatures pathFeatures
    refine List.forall_mem_cons.mpr ⟨.featureJson .., fun f hf => ?_⟩
    split at hf
    · rw [List.mem_singleton.mp hf]
      exact .featureJson ..
    · cases hf
  | pin pin => exact List.forall_mem_singleton.mpr (.featureJson ..)
  | geoJson geojson =>
    obtain ⟨⟨n, positions⟩, hvalid⟩ := of_discard h
    exact (accounted_geojson hvalid).2.2.1

/-- The features of a checked overlay have its positions. -/
theorem foldl_overlayToFeatures (hexact : codec.Exact) (h : validateStaticOverlay codec overlay = .ok ())
    {σ : Type} (visit : σ → LngLat → σ) (s : σ) :
    (overlayToFeatures codec overlay).foldl (fun s f => collectGeojsonBounds codec visit f s) s =
      (featurePositions codec overlay).foldl visit s := by
  cases overlay with
  | path path =>
    have hrange := (inRange_of_validatePathOverlay h).2
    have hring : ∀ p ∈ closedRing path.coordinates, InRange p := fun p hp => hrange p (mem_closedRing.mp hp)
    have hline := coordinatePositions_coordinatesJson hexact hrange
    have hpolygon : coordinatePositions codec (.array [.array (coordinatesJson codec (closedRing path.coordinates))]) =
        closedRing path.coordinates := by
      rw [coordinatePositions_array (List.forall_mem_singleton.mpr ⟨_, rfl⟩), List.flatMap_singleton,
        coordinatePositions_coordinatesJson hexact hring]
    unfold overlayToFeatures pathFeatures featurePositions
    by_cases hfill : path.fillColor.isSome = true ∧ 3 ≤ path.coordinates.length
    · simp only [if_pos hfill]
      rw [List.foldl_cons, List.foldl_cons, List.foldl_nil, collectGeojsonBounds_featureJson (by decide),
        collectGeojsonBounds_featureJson (by decide), hline, hpolygon, List.foldl_append]
    · simp only [if_neg hfill]
      rw [List.foldl_cons, List.foldl_nil, collectGeojsonBounds_featureJson (by decide), hline, List.append_nil]
  | pin pin =>
    have hrange := inRange_of_validatePinOverlay h
    unfold overlayToFeatures pinFeatures featurePositions
    rw [List.foldl_cons, List.foldl_nil, collectGeojsonBounds_featureJson (by decide)]
    exact congrArg (List.foldl visit s) (coordinatePositions_positionJson hexact hrange).2
  | geoJson geojson =>
    obtain ⟨⟨n, positions⟩, hvalid⟩ := of_discard h
    have hpositions : featurePositions codec (.geoJson geojson) = positions := checkedPositions_geoJson hvalid
    rw [hpositions]
    exact (accounted_geojson hvalid).2.2.2 visit s

/-! ### The union -/

theorem flatten_slotGroupsFrom {rounds : Nat} {overlays : List StaticOverlay} (h : overlays.length ≤ rounds) :
    (slotGroupsFrom rounds overlays).flatten = overlays := by
  induction rounds generalizing overlays with
  | zero =>
    rw [List.length_eq_zero_iff.mp (Nat.le_zero.mp h)]
    rfl
  | succ rounds ih =>
    cases overlays with
    | nil => rfl
    | cons o overlays =>
      have hrest : ((o :: overlays).drop (max (strokeOnlyPathRunLen (o :: overlays)) 1)).length ≤ rounds := by
        rw [List.length_drop]
        have hlength : (o :: overlays).length = overlays.length + 1 := rfl
        omega
      unfold slotGroupsFrom
      rw [if_neg (by simp)]
      simp only
      rw [List.flatten_cons, ih hrest, List.take_append_drop]

/-- Every overlay is in one group, in order. -/
theorem flatten_overlaySlotGroups (overlays : List StaticOverlay) : (overlaySlotGroups overlays).flatten = overlays :=
  flatten_slotGroupsFrom (Nat.le_refl _)

theorem mapM_eq_some_map {α β : Type} {f : α → Option β} {g : α → β} {l : List α} (h : ∀ a ∈ l, f a = some (g a)) :
    l.mapM f = some (l.map g) := by
  induction l with
  | nil => rfl
  | cons a l ih =>
    rw [List.mapM_cons, h a List.mem_cons_self, ih fun b hb => h b (List.mem_cons_of_mem _ hb)]
    rfl

/-- The features of the overlays before they are stamped, each with its slot and its overlay. -/
def slotEntries (codec : OverlayCodec) (overlays : List StaticOverlay) : List (Nat × StaticOverlay × Json) :=
  (overlaySlotGroups overlays).zipIdx.flatMap fun (group, slot) =>
    group.flatMap fun overlay => (overlayToFeatures codec overlay).map fun feature => (slot, overlay, feature)

/-- The union is the features in order, each stamped with its slot. -/
theorem buildUnionFeatures_eq {overlays : List StaticOverlay} (h : ∀ o ∈ overlays, ∀ f ∈ overlayToFeatures codec o, IsFeature f) :
    buildUnionFeatures codec overlays = some ((slotEntries codec overlays).map fun e => stamped e.1 e.2.2) := by
  have hgroups : ∀ entry ∈ (overlaySlotGroups overlays).zipIdx,
      entry.1.mapM (fun overlay => injectOverlayIdx (overlayToFeatures codec overlay) entry.2) =
        some (entry.1.map fun overlay => (overlayToFeatures codec overlay).map (stamped entry.2)) := by
    intro entry hentry
    refine mapM_eq_some_map fun overlay hoverlay => mapM_eq_some_map fun feature hfeature => ?_
    have hmem : overlay ∈ overlays := by
      rw [← flatten_overlaySlotGroups overlays]
      exact List.mem_flatten.mpr ⟨entry.1, List.fst_mem_of_mem_zipIdx hentry, hoverlay⟩
    exact stampFeature_eq (h overlay hmem feature hfeature).1 entry.2
  have hunion : buildUnionFeatures codec overlays = some (((overlaySlotGroups overlays).zipIdx.map fun entry =>
      entry.1.map fun overlay => (overlayToFeatures codec overlay).map (stamped entry.2)).flatten.flatten) := by
    unfold buildUnionFeatures
    rw [mapM_eq_some_map hgroups]
    rfl
  rw [hunion]
  refine congrArg some ?_
  unfold slotEntries
  rw [← List.flatMap_def, List.map_flatMap]
  induction (overlaySlotGroups overlays).zipIdx with
  | nil => rfl
  | cons entry entries ih =>
    rw [List.flatMap_cons, List.flatten_append, ih, List.flatMap_cons, List.map_flatMap, ← List.flatMap_def]
    simp [Function.comp_def]

end

/-! ## Accepted requests -/

section

variable {codec : OverlayCodec} {text : List Char}

theorem validate_of_parsePathOverlay {path : PathOverlay} (h : parsePathOverlay codec text = .ok path) :
    validatePathOverlay path = .ok () := by
  unfold parsePathOverlay at h
  split at h
  · split at h
    · split at h
      · obtain ⟨_, -, h⟩ := Except.bind_eq_ok_iff.mp h
        obtain ⟨_, -, h⟩ := Except.bind_eq_ok_iff.mp h
        dsimp only at h
        split at h
        · cases h
        · cases h
        · obtain ⟨_, -, h⟩ := Except.bind_eq_ok_iff.mp h
          obtain ⟨_, hvalid, h⟩ := Except.bind_eq_ok_iff.mp h
          cases h
          exact hvalid
      · cases h
    · cases h
  · cases h

theorem validate_of_parseGeojsonOverlay {geojson : GeoJsonOverlay} (h : parseGeojsonOverlay codec text = .ok geojson) :
    validateStaticOverlay codec (.geoJson geojson) = .ok () := by
  unfold parseGeojsonOverlay at h
  split at h
  · split at h
    · obtain ⟨_, -, h⟩ := Except.bind_eq_ok_iff.mp h
      split at h
      · obtain ⟨_, hvalid, h⟩ := Except.bind_eq_ok_iff.mp h
        cases h
        exact hvalid
      · cases h
    · cases h
  · cases h

theorem validate_of_parsePinOverlay {pin : PinOverlay} (h : parsePinOverlay codec text = .ok pin) :
    validatePinOverlay pin = .ok () := by
  unfold parsePinOverlay at h
  split at h
  · split at h
    · split at h
      · split at h
        · obtain ⟨_, -, h⟩ := Except.bind_eq_ok_iff.mp h
          obtain ⟨_, -, h⟩ := Except.bind_eq_ok_iff.mp h
          split at h
          · obtain ⟨_, -, h⟩ := Except.bind_eq_ok_iff.mp h
            obtain ⟨_, hvalid, h⟩ := Except.bind_eq_ok_iff.mp h
            cases h
            exact hvalid
          · cases h
        · cases h
      · cases h
    · cases h
  · cases h

theorem validate_of_parseStaticOverlay {part : List Char} {overlay : StaticOverlay}
    (h : parseStaticOverlay codec part = .ok overlay) :
    validateStaticOverlay codec overlay = .ok () := by
  unfold parseStaticOverlay at h
  split at h
  · obtain ⟨geojson, hparse, rfl⟩ := of_map_ok h
    exact validate_of_parseGeojsonOverlay hparse
  · split at h
    · obtain ⟨pin, hparse, rfl⟩ := of_map_ok h
      exact validate_of_parsePinOverlay hparse
    · obtain ⟨path, hparse, rfl⟩ := of_map_ok h
      exact validate_of_parsePathOverlay hparse

variable {overlays : List StaticOverlay}

/-- What is read from a path has been checked. -/
theorem valid_of_parseStaticOverlays (h : parseStaticOverlays codec text = .ok overlays) : Valid codec overlays := by
  unfold parseStaticOverlays at h
  split at h
  · cases h
    exact nofun
  · obtain ⟨parts, -, h⟩ := Except.bind_eq_ok_iff.mp h
    dsimp only at h
    split at h
    · cases h
    · intro o ho
      obtain ⟨part, -, hpart⟩ := Except.mem_of_mapM_ok h o ho
      exact validate_of_parseStaticOverlay hpart

theorem valid_of_validateStaticRequest {validateAddlayer : AddLayer → Except IngressError Unit} {positioning : Positioning}
    {width height : UInt16} {beforeLayer : Option String} {padding : Padding} {addlayer : Option AddLayer}
    {scale : Scale}
    (h : validateStaticRequest codec validateAddlayer positioning width height overlays beforeLayer padding addlayer scale =
      .ok ()) :
    Valid codec overlays := by
  unfold validateStaticRequest at h
  obtain ⟨_, -, h⟩ := Except.bind_eq_ok_iff.mp h
  dsimp only at h
  split at h
  · cases h
  · obtain ⟨_, hoverlays, -⟩ := Except.bind_eq_ok_iff.mp h
    intro o ho
    have hmapped := Except.forM_eq_ok_iff.mp hoverlays o ho
    cases hvalid : validateStaticOverlay codec o with
    | ok u => rfl
    | error e =>
      rw [hvalid] at hmapped
      cases hmapped

/-- A static request that is accepted: from a peer, or from a public path. -/
inductive AcceptedStatic (codec : OverlayCodec) (positioning : Positioning) (overlays : List StaticOverlay) : Prop where
  | peer (validateAddlayer : AddLayer → Except IngressError Unit) (width height : UInt16) (beforeLayer : Option String)
      (padding : Padding)
      (addlayer : Option AddLayer) (scale : Scale)
      (accepted :
        validateStaticRequest codec validateAddlayer positioning width height overlays beforeLayer padding addlayer scale =
          .ok ())
  | path (parts : List (List Char)) (staticIndex : Nat) (styleId : StyleId) (beforeLayer : Option String)
      (padding : Option Padding)
      (addlayer : Option AddLayer) (catalog : StyleCatalog) (taskId : UInt64) (requestId : RequestId) (spec : TaskSpec)
      (accepted : parseStaticPath codec parts staticIndex styleId beforeLayer padding addlayer catalog taskId requestId =
        .ok spec)
      (width height : UInt16) (padding' : Padding)
      (request : spec.request = .staticImage positioning width height overlays beforeLayer padding' addlayer)

theorem AcceptedStatic.valid {positioning : Positioning} (h : AcceptedStatic codec positioning overlays) :
    Valid codec overlays := by
  cases h with
  | peer validateAddlayer width height beforeLayer padding addlayer scale accepted =>
      exact valid_of_validateStaticRequest accepted
  | path parts staticIndex styleId beforeLayer padding addlayer catalog taskId requestId spec accepted width height padding'
      request =>
    obtain ⟨overlays', position, sizeFormat, _, _, _, _, _, _, hcomponents, -, -, -, -, rfl⟩ :=
      parseStaticPath_eq_ok_iff.mp accepted
    cases request
    rcases staticComponents_eq_ok_iff.mp hcomponents with ⟨-, rfl⟩ | ⟨overlay, -, hoverlays⟩
    · exact nofun
    · exact valid_of_parseStaticOverlays hoverlays

/-- The geometry that was validated is the geometry that is used. -/
structure GeometryUsed (codec : OverlayCodec) (overlays : List StaticOverlay) : Prop where
  /-- The camera goes through the points of the paths and pins and the positions that were range-checked. -/
  positions : visitedPositions codec overlays = overlays.flatMap (checkedPositions codec)
  inRange : ∀ p ∈ visitedPositions codec overlays, InRange p
  /-- A document has as many positions as were counted in its features, and no more than the limit. -/
  counted : ∀ geojson, .geoJson geojson ∈ overlays →
    ∃ positions, validateGeojson codec geojson.featureCollection = .ok (positions.length, positions) ∧
      checkedPositions codec (.geoJson geojson) = positions ∧
      positions.length = ((geojsonFeatures geojson).map coordinateCount).sum ∧ positions.length ≤ maxGeojsonCoordinates
  bounds : (visitedPositions codec overlays = [] ∧ overlayBounds codec overlays = none) ∨
    ∃ bounds, overlayBounds codec overlays = some bounds ∧ IsBounds bounds (visitedPositions codec overlays)
  /-- The union has the geometries of the overlays' features, and no position but these. -/
  union : ∃ features, buildUnionFeatures codec overlays = some features ∧
    features.map (·.get "geometry") = (overlays.flatMap (overlayToFeatures codec)).map (·.get "geometry") ∧
    ∃ collection, buildUnionFeatureCollection codec overlays = some collection ∧
      ∀ p, p ∈ collectGeojsonBounds codec (fun seen point => seen ++ [point]) collection [] ↔ p ∈ visitedPositions codec overlays

/-- The features of the entries, without their slots. -/
theorem map_slotEntries (overlays : List StaticOverlay) :
    (slotEntries codec overlays).map (fun e => e.2.2) = overlays.flatMap (overlayToFeatures codec) := by
  have hgroups : ∀ entries : List (List StaticOverlay × Nat),
      (entries.flatMap fun (group, slot) => group.flatMap fun overlay =>
          (overlayToFeatures codec overlay).map fun feature => ((slot, overlay, feature) : Nat × StaticOverlay × Json)).map
            (fun e => e.2.2) =
        (entries.map Prod.fst).flatten.flatMap (overlayToFeatures codec) := by
    intro entries
    induction entries with
    | nil => rfl
    | cons entry entries ih =>
      rw [List.flatMap_cons, List.map_append, ih, List.map_cons, List.flatten_cons, List.flatMap_append, List.map_flatMap]
      simp [Function.comp_def]
  unfold slotEntries
  rw [hgroups, List.zipIdx_map_fst, flatten_overlaySlotGroups]

theorem foldl_collect_map_stamped {entries : List (Nat × StaticOverlay × Json)} (h : ∀ e ∈ entries, IsFeature e.2.2) {σ : Type}
    (visit : σ → LngLat → σ) (s : σ) :
    (entries.map fun e => stamped e.1 e.2.2).foldl (fun s f => collectGeojsonBounds codec visit f s) s =
      (entries.map fun e => e.2.2).foldl (fun s f => collectGeojsonBounds codec visit f s) s := by
  induction entries generalizing s with
  | nil => rfl
  | cons e entries ih =>
    rw [List.map_cons, List.foldl_cons, collectGeojsonBounds_stamped (h e List.mem_cons_self),
      ih fun e' he' => h e' (List.mem_cons_of_mem _ he')]
    rfl

theorem foldl_features (hexact : codec.Exact) (h : Valid codec overlays) {σ : Type} (visit : σ → LngLat → σ) (s : σ) :
    (overlays.flatMap (overlayToFeatures codec)).foldl (fun s f => collectGeojsonBounds codec visit f s) s =
      (overlays.flatMap (featurePositions codec)).foldl visit s := by
  induction overlays generalizing s with
  | nil => rfl
  | cons o overlays ih =>
    rw [List.flatMap_cons, List.foldl_append, foldl_overlayToFeatures hexact (h o List.mem_cons_self),
      ih fun o' ho' => h o' (List.mem_cons_of_mem _ ho'), List.flatMap_cons, List.foldl_append]

theorem isFeature_of_valid (h : Valid codec overlays) :
    ∀ o ∈ overlays, ∀ f ∈ overlayToFeatures codec o, IsFeature f :=
  fun o ho => isFeature_of_validateStaticOverlay (h o ho)

theorem isFeature_of_mem_slotEntries (h : Valid codec overlays) :
    ∀ e ∈ slotEntries codec overlays, IsFeature e.2.2 := by
  intro e he
  have hmem : e.2.2 ∈ (slotEntries codec overlays).map fun e => e.2.2 := List.mem_map.mpr ⟨e, he, rfl⟩
  rw [map_slotEntries] at hmem
  obtain ⟨o, ho, hf⟩ := List.mem_flatMap.mp hmem
  exact isFeature_of_valid h o ho _ hf

theorem GeometryUsed.of_valid (hexact : codec.Exact) (h : Valid codec overlays) :
    GeometryUsed codec overlays where
  positions := visitedPositions_eq h
  inRange := by
    rw [visitedPositions_eq h]
    intro p hp
    obtain ⟨o, ho, hp⟩ := List.mem_flatMap.mp hp
    exact inRange_of_validateStaticOverlay (h o ho) p hp
  counted := by
    intro geojson hmem
    obtain ⟨⟨n, positions⟩, hvalid⟩ := of_discard (h _ hmem)
    obtain ⟨haccounted, hsum, -, -⟩ := accounted_geojson hvalid
    have hlength : n = positions.length := by simpa using haccounted.counted
    subst hlength
    exact ⟨positions, hvalid, checkedPositions_geoJson hvalid, hsum, haccounted.bounded (Nat.zero_le _)⟩
  bounds := by
    have hbounds : overlayBounds codec overlays = (visitedPositions codec overlays).foldl includeBounds none := by
      rw [visitedPositions_eq h]
      exact foldl_visitOverlay h includeBounds none
    rw [hbounds]
    refine isBounds_of_foldl ?_
    rw [visitedPositions_eq h]
    intro p hp
    obtain ⟨o, ho, hp⟩ := List.mem_flatMap.mp hp
    exact inRange_of_validateStaticOverlay (h o ho) p hp
  union := by
    have hunion := buildUnionFeatures_eq (isFeature_of_valid h)
    have hentries := isFeature_of_mem_slotEntries h
    have hcollection : buildUnionFeatureCollection codec overlays = some (.object [("features",
        .array ((slotEntries codec overlays).map fun e => stamped e.1 e.2.2)), ("type", .string "FeatureCollection")]) := by
      unfold buildUnionFeatureCollection
      rw [hunion]
      rfl
    refine ⟨_, hunion, ?_, _, hcollection, fun p => ?_⟩
    · rw [← map_slotEntries, List.map_map, List.map_map]
      exact List.map_congr_left fun e he => get_stamped (hentries e he).1 e.1 (by decide)
    · rw [collectGeojsonBounds_collection rfl rfl, foldl_collect_map_stamped hentries, map_slotEntries, foldl_features hexact h,
        foldl_snoc,
        List.nil_append, visitedPositions_eq h, List.mem_flatMap, List.mem_flatMap]
      simp only [mem_featurePositions]

/-- An overlay that has geometry: a path, a pin, or a document in one of whose features coordinates are counted. -/
def HasGeometry : StaticOverlay → Prop
  | .path _ => True
  | .pin _ => True
  | .geoJson geojson => ∃ f ∈ geojsonFeatures geojson, 0 < coordinateCount f

theorem checkedPositions_ne_nil_iff {overlay : StaticOverlay} (h : validateStaticOverlay codec overlay = .ok ()) :
    checkedPositions codec overlay ≠ [] ↔ HasGeometry overlay := by
  cases overlay with
  | path path => exact iff_of_true (inRange_of_validatePathOverlay h).1 trivial
  | pin pin => exact iff_of_true (List.cons_ne_nil _ _) trivial
  | geoJson geojson =>
    obtain ⟨⟨n, positions⟩, hvalid⟩ := of_discard h
    obtain ⟨-, hsum, -, -⟩ := accounted_geojson hvalid
    rw [checkedPositions_geoJson hvalid, ← List.length_pos_iff, hsum]
    rw [List.sum_pos_iff_exists_pos_nat]
    constructor
    · rintro ⟨count, hcount, hpos⟩
      obtain ⟨f, hf, rfl⟩ := List.mem_map.mp hcount
      exact ⟨f, hf, hpos⟩
    · rintro ⟨f, hf, hpos⟩
      exact ⟨_, List.mem_map.mpr ⟨f, hf, rfl⟩, hpos⟩

/-- The overlays of an accepted request keep their geometry throughout, and with auto positioning there is something to fit the
camera to exactly when some overlay has geometry. -/
theorem geometry_used_iff (codec : OverlayCodec) (hexact : codec.Exact) :
    (∀ overlays, (Valid codec overlays ∨ ∃ text, parseStaticOverlays codec text = .ok overlays) → GeometryUsed codec overlays) ∧
      ∀ positioning overlays, AcceptedStatic codec positioning overlays →
        ((GeometryUsed codec overlays ∧ (positioning = .auto → visitedPositions codec overlays ≠ [])) ↔
          (positioning = .auto → ∃ o ∈ overlays, HasGeometry o)) := by
  constructor
  · rintro overlays (hvalid | ⟨text, htext⟩)
    · exact .of_valid hexact hvalid
    · exact .of_valid hexact (valid_of_parseStaticOverlays htext)
  · intro positioning overlays haccepted
    have hvalid := haccepted.valid
    have hsome : visitedPositions codec overlays ≠ [] ↔ ∃ o ∈ overlays, HasGeometry o := by
      rw [visitedPositions_eq hvalid, Ne, List.flatMap_eq_nil_iff]
      push Not
      exact exists_congr fun o => and_congr_right fun ho => checkedPositions_ne_nil_iff (hvalid o ho)
    rw [hsome]
    exact and_iff_right (.of_valid hexact hvalid)

end

/-! ## A request with geometry, and one without -/

/-- Numbers of which zero, as a float and as an integer, is written and read as it is. -/
def zeroCodec : OverlayCodec where
  parseF32 := fun _ => none
  parseF64 := fun text => if text = ['0'] then some ⟨0⟩ else none
  degrees := fun n => ⟨UInt64.ofNat n.toNat⟩
  fromStr := fun _ => none
  asF64 := fun n => if n.text = "0.0" then some ⟨0⟩ else (parseUnsigned (2 ^ 64) n.text.toList).map fun bits =>
    ⟨UInt64.ofNat bits⟩
  ofF64 := fun x => if x.bits = 0 then ⟨"0.0", by decide⟩ else ⟨x.bits.toNat.repr, isNumberText_repr _⟩
  ofF32 := fun x => ⟨x.bits.toNat.repr, isNumberText_repr _⟩

theorem exact_zeroCodec : zeroCodec.Exact := by
  intro x hx
  by_cases hzero : x.bits = 0
  · have hx : x = ⟨0⟩ := congrArg F64.mk hzero
    rw [hx]
    rfl
  · have hwritten : zeroCodec.ofF64 x = ⟨x.bits.toNat.repr, isNumberText_repr _⟩ := if_neg hzero
    have htext : x.bits.toNat.repr ≠ "0.0" := by
      intro heq
      have hdot : '.' ∈ x.bits.toNat.repr.toList := by
        rw [heq]
        decide
      rw [Nat.toList_repr] at hdot
      exact absurd (Nat.isDigit_of_mem_toDigits (by decide) (by decide) hdot) (by decide)
    have hread : zeroCodec.asF64 (zeroCodec.ofF64 x) =
        (parseUnsigned (2 ^ 64) x.bits.toNat.repr.toList).map fun bits => ⟨UInt64.ofNat bits⟩ := by
      rw [hwritten]
      exact if_neg htext
    rw [hread, parseUnsigned_repr x.bits.toNat_lt]
    simp

def zeroNumber : Json := .ofNat 0

/-- A pin at zero, and a document with one point at zero. -/
def zeroOverlays : List StaticOverlay :=
  [.pin ⟨.small, none, "9ed4bd", ⟨⟨0⟩, ⟨0⟩⟩⟩,
    .geoJson ⟨.object [("geometry", .object [("coordinates", .array [zeroNumber, zeroNumber]), ("type", .string "Point")]),
      ("properties", .null), ("type", .string "Feature")]⟩]

theorem accepted_zeroOverlays : AcceptedStatic zeroCodec .auto zeroOverlays :=
  .peer (fun _ => .ok ()) 320 240 none ⟨0, 0, 0, 0⟩ none .x1 (by decide +kernel)

theorem geometry_used_zero : GeometryUsed zeroCodec zeroOverlays ∧ visitedPositions zeroCodec zeroOverlays ≠ [] := by
  have h := (geometry_used_iff zeroCodec exact_zeroCodec).2 .auto zeroOverlays accepted_zeroOverlays
  have hkept := h.mpr fun _ => ⟨_, List.mem_cons_self, trivial⟩
  exact ⟨hkept.1, hkept.2 rfl⟩

/-- A feature without geometry. -/
def emptyOverlays : List StaticOverlay :=
  [.geoJson ⟨.object [("geometry", .null), ("properties", .null), ("type", .string "Feature")]⟩]

/-- It is accepted with auto positioning, and the camera has nothing to fit. -/
theorem auto_without_geometry :
    AcceptedStatic zeroCodec .auto emptyOverlays ∧ visitedPositions zeroCodec emptyOverlays = [] ∧
      overlayBounds zeroCodec emptyOverlays = none := by
  have haccepted : AcceptedStatic zeroCodec .auto emptyOverlays :=
    .peer (fun _ => .ok ()) 320 240 none ⟨0, 0, 0, 0⟩ none .x1 (by decide +kernel)
  refine ⟨haccepted, ?_, ?_⟩
  · rw [visitedPositions_eq haccepted.valid]
    rfl
  · exact (foldl_visitOverlay haccepted.valid includeBounds none).trans rfl

end Biei
