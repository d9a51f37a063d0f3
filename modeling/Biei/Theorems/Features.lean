import Biei.Lemmas.ForwardResponse
import Biei.Theorems.Geometry

/-!
# The layers that draw a feature

A document's own properties can carry the mark of a pin, and then its point is drawn as one.
-/

namespace Biei

/-! ## Slots -/

/-- The members of numbered groups, each with the number of its group. -/
def numberedFrom {α : Type} (base : Nat) (groups : List (List α)) : List (α × Nat) :=
  (groups.zipIdx base).flatMap fun (group, slot) => group.map fun a => (a, slot)

/-- The overlays, each with its slot. -/
def slottedOverlays (overlays : List StaticOverlay) : List (StaticOverlay × Nat) := numberedFrom 0 (overlaySlotGroups overlays)

section

variable {α : Type}

theorem numberedFrom_cons (base : Nat) (group : List α) (groups : List (List α)) :
    numberedFrom base (group :: groups) = group.map (fun a => (a, base)) ++ numberedFrom (base + 1) groups := by
  unfold numberedFrom
  rw [List.zipIdx_cons, List.flatMap_cons]

theorem map_fst_numberedFrom (base : Nat) (groups : List (List α)) :
    (numberedFrom base groups).map Prod.fst = groups.flatten := by
  induction groups generalizing base with
  | nil => rfl
  | cons group groups ih =>
    rw [numberedFrom_cons, List.map_append, ih, List.map_map, List.flatten_cons]
    simp [Function.comp_def]

theorem lt_of_mem_numberedFrom {base : Nat} {groups : List (List α)} {e : α × Nat} (h : e ∈ numberedFrom base groups) :
    e.2 < base + groups.length := by
  unfold numberedFrom at h
  obtain ⟨⟨group, slot⟩, hmem, he⟩ := List.mem_flatMap.mp h
  obtain ⟨a, -, rfl⟩ := List.mem_map.mp he
  exact List.snd_lt_add_of_mem_zipIdx hmem

/-- One number more from a member to the next, unless the two go together. -/
def Numbered (together : α → α → Bool) (l : List (α × Nat)) : Prop :=
  l.IsChain fun a b => b.2 = a.2 + if together a.1 b.1 then 0 else 1

/-- Numbers do not fall, and are equal exactly when all that lies between goes together. -/
theorem Numbered.between {together : α → α → Bool} {l : List (α × Nat)} (h : Numbered together l) {i j : Nat} (hij : i ≤ j)
    (hj : j < l.length) :
    l[i].2 ≤ l[j].2 ∧ (l[i].2 = l[j].2 ↔ ∀ k, i ≤ k → ∀ hk : k < j, together l[k].1 l[k + 1].1 = true) := by
  induction j, hij using Nat.le_induction with
  | base => exact ⟨Nat.le_refl _, iff_of_true rfl fun k hik hki => absurd hki (Nat.not_lt.mpr hik)⟩
  | succ j hij ih =>
    obtain ⟨hle, hiff⟩ := ih (by omega)
    have hstep : l[j + 1].2 = l[j].2 + if together l[j].1 l[j + 1].1 then 0 else 1 := List.isChain_iff_getElem.mp h j hj
    by_cases htogether : together l[j].1 l[j + 1].1 = true
    · have hsame : l[j + 1].2 = l[j].2 := hstep.trans (by rw [if_pos htogether, Nat.add_zero])
      rw [hsame]
      refine ⟨hle, hiff.trans ⟨fun hall k hik hk => ?_, fun hall k hik hk => hall k hik (by omega)⟩⟩
      rcases Nat.lt_succ_iff_lt_or_eq.mp hk with hlt | rfl
      · exact hall k hik hlt
      · exact htogether
    · have hnext : l[j + 1].2 = l[j].2 + 1 := hstep.trans (by rw [if_neg htogether])
      refine ⟨by omega, iff_of_false (by omega) fun hall => htogether (hall j hij (Nat.lt_succ_self j))⟩

end

/-- Two overlays that go together in one slot. -/
def shareSlot (a b : StaticOverlay) : Bool := isStrokeOnlyPath a && isStrokeOnlyPath b

/-- A group is a run of stroke-only paths, or one overlay. -/
theorem slotGroupsFrom_cons (rounds : Nat) (o : StaticOverlay) (overlays : List StaticOverlay) :
    slotGroupsFrom (rounds + 1) (o :: overlays) =
      if isStrokeOnlyPath o then
        (o :: overlays.takeWhile isStrokeOnlyPath) :: slotGroupsFrom rounds (overlays.dropWhile isStrokeOnlyPath)
      else [o] :: slotGroupsFrom rounds overlays := by
  have htake : overlays.take (overlays.takeWhile isStrokeOnlyPath).length = overlays.takeWhile isStrokeOnlyPath :=
    (List.prefix_iff_eq_take.mp (List.takeWhile_prefix isStrokeOnlyPath)).symm
  have hdrop : overlays.drop (overlays.takeWhile isStrokeOnlyPath).length = overlays.dropWhile isStrokeOnlyPath := by
    calc overlays.drop (overlays.takeWhile isStrokeOnlyPath).length
        = (overlays.takeWhile isStrokeOnlyPath ++ overlays.dropWhile isStrokeOnlyPath).drop
          (overlays.takeWhile isStrokeOnlyPath).length := by
          rw [List.takeWhile_append_dropWhile]
      _ = overlays.dropWhile isStrokeOnlyPath := List.drop_left
  have hgroups : slotGroupsFrom (rounds + 1) (o :: overlays) =
      (o :: overlays).take (max (strokeOnlyPathRunLen (o :: overlays)) 1) ::
        slotGroupsFrom rounds ((o :: overlays).drop (max (strokeOnlyPathRunLen (o :: overlays)) 1)) := if_neg (by simp)
  rw [hgroups]
  unfold strokeOnlyPathRunLen
  by_cases hpath : isStrokeOnlyPath o = true
  · rw [if_pos hpath, List.takeWhile_cons_of_pos hpath, List.length_cons, Nat.max_eq_left (by omega), List.take_succ_cons,
      List.drop_succ_cons, htake, hdrop]
  · rw [if_neg hpath, List.takeWhile_cons_of_neg hpath]
    rfl

theorem head?_numberedFrom_slotGroupsFrom {rounds : Nat} {overlays : List StaticOverlay} (h : overlays.length ≤ rounds)
    (base : Nat) :
    (numberedFrom base (slotGroupsFrom rounds overlays)).head? = overlays.head?.map fun o => (o, base) := by
  cases overlays with
  | nil =>
    cases rounds <;> rfl
  | cons o overlays =>
    cases rounds with
    | zero => cases h
    | succ rounds =>
      rw [slotGroupsFrom_cons]
      split
      · rw [numberedFrom_cons]
        rfl
      · rw [numberedFrom_cons]
        rfl

theorem numbered_slotGroupsFrom {rounds : Nat} {overlays : List StaticOverlay} (h : overlays.length ≤ rounds) (base : Nat) :
    Numbered shareSlot (numberedFrom base (slotGroupsFrom rounds overlays)) := by
  induction rounds generalizing overlays base with
  | zero => exact List.isChain_nil
  | succ rounds ih =>
    cases overlays with
    | nil => exact List.isChain_nil
    | cons o overlays =>
      have hlength : overlays.length ≤ rounds := Nat.le_of_succ_le_succ h
      -- the group is numbered alike, and what follows it does not go with its last member
      have hgroup : ∀ (group rest : List StaticOverlay), rest.length ≤ rounds → group.IsChain (fun a b => shareSlot a b = true) →
          (∀ a ∈ group.getLast?, ∀ b ∈ rest.head?, shareSlot a b = false) →
          Numbered shareSlot (numberedFrom base (group :: slotGroupsFrom rounds rest)) := by
        intro group rest hrest hwithin hbetween
        rw [numberedFrom_cons]
        refine List.IsChain.append ?_ (ih hrest (base + 1)) ?_
        · rw [List.isChain_map]
          exact hwithin.imp fun a b hab => by rw [if_pos hab, Nat.add_zero]
        · intro x hx y hy
          rw [head?_numberedFrom_slotGroupsFrom hrest] at hy
          rw [List.getLast?_map] at hx
          obtain ⟨a, ha, rfl⟩ := Option.map_eq_some_iff.mp hx
          obtain ⟨b, hb, rfl⟩ := Option.map_eq_some_iff.mp hy
          simp only
          rw [hbetween a ha b hb]
          rfl
      rw [slotGroupsFrom_cons]
      split
      · rename_i hpath
        have hall : ∀ a ∈ o :: overlays.takeWhile isStrokeOnlyPath, isStrokeOnlyPath a = true :=
          List.forall_mem_cons.mpr ⟨hpath, fun a ha => List.mem_takeWhile_imp ha⟩
        refine hgroup _ _ ((List.length_dropWhile_le _ _).trans hlength) ?_ ?_
        · refine List.Pairwise.isChain (List.pairwise_of_forall_mem_list ?_)
          intro a ha b hb
          unfold shareSlot
          rw [hall a ha, hall b hb]
          rfl
        · intro a _ b hb
          have hnot : isStrokeOnlyPath b = false := by
            have hhead := List.head?_dropWhile_not isStrokeOnlyPath overlays
            rw [hb] at hhead
            exact hhead
          unfold shareSlot
          rw [hnot, Bool.and_false]
      · rename_i hpath
        refine hgroup _ _ hlength (List.isChain_singleton _) ?_
        intro a ha b _
        obtain rfl : o = a := Option.some.inj ha
        unfold shareSlot
        rw [Bool.eq_false_iff.mpr hpath, Bool.false_and]

/-! ## Selection -/

theorem isIndex_ofNat (idx slot : Nat) : isIndex idx (some (.ofNat slot)) = decide (idx = slot) := by
  have hiff : slot.repr = idx.repr ↔ idx = slot := Nat.repr_inj.trans eq_comm
  show (slot.repr == idx.repr) = decide (idx = slot)
  rw [Bool.beq_eq_decide_eq]
  exact decide_eq_decide.mpr hiff

variable {feature : Json}

theorem propertiesOf_stamped (h : ∃ fields, feature = .object fields) (slot : Nat) :
    propertiesOf (stamped slot feature) = Fields.insert (propertiesOf feature) overlayIdxProperty (.ofNat slot) := by
  obtain ⟨fields, rfl⟩ := h
  have hget : (stamped slot (.object fields)).get "properties" =
      some (.object (Fields.insert (propertiesOf (.object fields)) overlayIdxProperty (.ofNat slot))) :=
    Fields.get_insert_self _ _ _
  unfold propertiesOf at hget ⊢
  rw [hget]

theorem geometryTypeOf_stamped (h : ∃ fields, feature = .object fields) (slot : Nat) :
    geometryTypeOf (stamped slot feature) = geometryTypeOf feature := by
  unfold geometryTypeOf
  rw [get_stamped h slot (by decide)]

/-- The layers that a geometry is drawn by, as a pin's or as any other. -/
def kindsOf (geometryType : Option String) (pin : Bool) : List LayerKind :=
  match geometryType with
  | some "Polygon" => [.fill, .line]
  | some "LineString" => [.line]
  | some "Point" => [if pin then .symbol else .circle]
  | _ => []

@[simp] theorem propertiesOf_featureJson (geometryType : String) (coordinates : Json) (properties : List (String × Json)) :
    propertiesOf (featureJson geometryType coordinates properties) = properties := rfl

theorem geometryTypeOf_cases (feature : Json) :
    geometryTypeOf feature = none ∨ geometryTypeOf feature = some "Point" ∨ geometryTypeOf feature = some "LineString" ∨
      geometryTypeOf feature = some "Polygon" := by
  unfold geometryTypeOf
  split <;> simp

/-- The feature bears the mark of a pin. -/
def isMarked (feature : Json) : Bool := isText pinKindValue (Fields.get (propertiesOf feature) pinKindProperty)

theorem selects_stamped (h : ∃ fields, feature = .object fields) (slot idx : Nat) (kind : LayerKind) :
    selects idx kind (stamped slot feature) = true ↔ idx = slot ∧ kind ∈ kindsOf (geometryTypeOf feature) (isMarked feature) := by
  have hidx : isIndex idx (Fields.get (propertiesOf (stamped slot feature)) overlayIdxProperty) = decide (idx = slot) := by
    rw [propertiesOf_stamped h, Fields.get_insert_self, isIndex_ofNat]
  have hmark : isText pinKindValue (Fields.get (propertiesOf (stamped slot feature)) pinKindProperty) = isMarked feature := by
    rw [propertiesOf_stamped h, Fields.get_insert_of_ne (by decide)]
    rfl
  unfold selects
  rw [geometryTypeOf_stamped h]
  rcases geometryTypeOf_cases feature with htype | htype | htype | htype
  · simp [htype, kindsOf]
  · cases hmarked : isMarked feature <;> cases kind <;>
      simp [htype, kindsOf, slotLayerFilter, Condition.holds, hidx, hmark, hmarked]
  · cases kind <;> simp [htype, kindsOf, slotLayerFilter, Condition.holds, hidx, hmark]
  · cases kind <;> simp [htype, kindsOf, slotLayerFilter, Condition.holds, hidx, hmark]

/-! ## Accepted overlays -/

/-- The layers of a slot that draw a feature of an overlay: a point is a pin's or not by its overlay. -/
def layersOf (overlay : StaticOverlay) (feature : Json) : List LayerKind :=
  kindsOf (geometryTypeOf feature) (match overlay with
    | .pin _ => true
    | .path _ => false
    | .geoJson _ => false)

section

variable {codec : OverlayCodec}

/-- Every feature is drawn by its own slot's own layer. -/
structure DrawnBySlots (codec : OverlayCodec) (overlays : List StaticOverlay) : Prop where
  /-- Every overlay has a slot. -/
  slotted : (slottedOverlays overlays).map Prod.fst = overlays
  /-- The union is the features of the overlays in order, each stamped with the slot of its overlay. -/
  union : buildUnionFeatures codec overlays = some ((slottedOverlays overlays).flatMap fun (overlay, slot) =>
    (overlayToFeatures codec overlay).map (stamped slot))
  stamps : ∀ e ∈ slottedOverlays overlays, ∀ f ∈ overlayToFeatures codec e.1,
    Fields.get (propertiesOf (stamped e.2 f)) overlayIdxProperty = some (.ofNat e.2)
  below : ∀ e ∈ slottedOverlays overlays, e.2 < overlaySlotCount overlays
  monotone : ∀ (i j : Nat) (_ : i ≤ j) (_ : j < (slottedOverlays overlays).length),
    (slottedOverlays overlays)[i].2 ≤ (slottedOverlays overlays)[j].2
  /-- Two overlays share a slot when these and all between them are paths without fill. -/
  shared : ∀ (i j : Nat) (_ : i < j) (_ : j < (slottedOverlays overlays).length),
    ((slottedOverlays overlays)[i].2 = (slottedOverlays overlays)[j].2 ↔
      ∀ (k : Nat) (_ : i ≤ k) (_ : k ≤ j), isStrokeOnlyPath (slottedOverlays overlays)[k].1 = true)
  drawn : ∀ e ∈ slottedOverlays overlays, ∀ f ∈ overlayToFeatures codec e.1, ∀ idx kind,
    (selects idx kind (stamped e.2 f) = true ↔ idx = e.2 ∧ kind ∈ layersOf e.1 f)

/-- All from one overlay to another are paths without fill when each goes with the next. -/
theorem forall_shareSlot_iff {overlays : List (StaticOverlay × Nat)} {i j : Nat} (hij : i < j) (hj : j < overlays.length) :
    (∀ k, i ≤ k → ∀ hk : k < j, shareSlot overlays[k].1 overlays[k + 1].1 = true) ↔
      ∀ k, i ≤ k → ∀ hk : k ≤ j, isStrokeOnlyPath overlays[k].1 = true := by
  have hshare : ∀ a b, shareSlot a b = true ↔ isStrokeOnlyPath a = true ∧ isStrokeOnlyPath b = true := fun a b =>
    Bool.and_eq_true_iff
  constructor
  · intro h k hik hkj
    rcases Nat.lt_or_eq_of_le hkj with hlt | rfl
    · exact ((hshare _ _).mp (h k hik hlt)).1
    · obtain ⟨k, rfl⟩ : ∃ m, k = m + 1 := ⟨k - 1, by omega⟩
      exact ((hshare _ _).mp (h k (Nat.le_of_lt_succ hij) (Nat.lt_succ_self k))).2
  · intro h k hik hkj
    exact (hshare _ _).mpr ⟨h k hik (Nat.le_of_lt hkj), h (k + 1) (Nat.le_succ_of_le hik) hkj⟩

/-- A document's point that bears the mark of a pin. -/
def MarkedPoint (feature : Json) : Prop := geometryTypeOf feature = some "Point" ∧ isMarked feature = true

theorem kindsOf_iff (geometryType : Option String) (marked pin : Bool) :
    kindsOf geometryType marked = kindsOf geometryType pin ↔ geometryType = some "Point" → marked = pin := by
  unfold kindsOf
  split
  · simp
  · simp
  · cases marked <;> cases pin <;> simp
  · rename_i h
    exact iff_of_true rfl fun hpoint => absurd hpoint h

/-- The features of paths and pins are drawn as their overlays say. -/
theorem kindsOf_isMarked {overlay : StaticOverlay} {feature : Json} (h : feature ∈ overlayToFeatures codec overlay)
    (hmarked : ∀ geojson, overlay = .geoJson geojson → ¬ MarkedPoint feature) :
    kindsOf (geometryTypeOf feature) (isMarked feature) = layersOf overlay feature := by
  unfold layersOf
  refine (kindsOf_iff _ _ _).mpr fun hpoint => ?_
  cases overlay with
  | path path =>
    unfold overlayToFeatures pathFeatures at h
    rcases List.mem_cons.mp h with rfl | h
    · exact absurd (show some "LineString" = some "Point" from hpoint) (by decide)
    · split at h
      · rw [List.mem_singleton.mp h] at hpoint
        exact absurd (show some "Polygon" = some "Point" from hpoint) (by decide)
      · cases h
  | pin pin =>
    rw [List.mem_singleton.mp h]
    unfold isMarked pinProperties
    rw [propertiesOf_featureJson, Fields.get_insert_of_ne (by decide), Fields.get_insert_of_ne (by decide),
      Fields.get_insert_self]
    rfl
  | geoJson geojson => exact Bool.eq_false_iff.mpr fun h => hmarked geojson rfl ⟨hpoint, h⟩

theorem slotEntries_eq (overlays : List StaticOverlay) :
    slotEntries codec overlays = (slottedOverlays overlays).flatMap fun (overlay, slot) =>
      (overlayToFeatures codec overlay).map fun feature => (slot, overlay, feature) := by
  unfold slotEntries slottedOverlays numberedFrom
  rw [List.flatMap_assoc]
  refine List.flatMap_congr fun entry _ => ?_
  rw [List.flatMap_map]

theorem features_drawn_iff (codec : OverlayCodec) (overlays : List StaticOverlay)
    (haccepted : Valid codec overlays ∨ ∃ text, parseStaticOverlays codec text = .ok overlays) :
    DrawnBySlots codec overlays ↔ ∀ geojson, .geoJson geojson ∈ overlays → ∀ f ∈ geojsonFeatures geojson, ¬ MarkedPoint f := by
  have hvalid : Valid codec overlays := haccepted.elim id fun ⟨_, htext⟩ => valid_of_parseStaticOverlays htext
  have hslotted : (slottedOverlays overlays).map Prod.fst = overlays :=
    (map_fst_numberedFrom 0 _).trans (flatten_overlaySlotGroups overlays)
  have hmem : ∀ e ∈ slottedOverlays overlays, e.1 ∈ overlays := by
    intro e he
    rw [← hslotted]
    exact List.mem_map_of_mem he
  have hobject : ∀ e ∈ slottedOverlays overlays, ∀ f ∈ overlayToFeatures codec e.1, ∃ fields, f = .object fields :=
    fun e he f hf => (isFeature_of_valid hvalid e.1 (hmem e he) f hf).1
  have hnumbered : Numbered shareSlot (slottedOverlays overlays) := numbered_slotGroupsFrom (Nat.le_refl _) 0
  constructor
  · intro h geojson hgeojson f hf hmarked
    rw [← hslotted] at hgeojson
    obtain ⟨e, he, heq⟩ := List.mem_map.mp hgeojson
    have hfeature : f ∈ overlayToFeatures codec e.1 := by
      rw [heq]
      exact hf
    have hselected : selects e.2 .symbol (stamped e.2 f) = true := by
      rw [selects_stamped (hobject e he f hfeature), hmarked.1, hmarked.2]
      exact ⟨rfl, List.mem_singleton_self _⟩
    have hlayer := ((h.drawn e he f hfeature e.2 .symbol).mp hselected).2
    unfold layersOf at hlayer
    rw [heq, hmarked.1] at hlayer
    have hkind : LayerKind.symbol = .circle := List.mem_singleton.mp hlayer
    cases hkind
  · intro h
    refine ⟨hslotted, ?_, ?_, ?_, ?_, ?_, ?_⟩
    · rw [buildUnionFeatures_eq (isFeature_of_valid hvalid), slotEntries_eq, List.map_flatMap]
      simp [Function.comp_def]
    · intro e he f hf
      rw [propertiesOf_stamped (hobject e he f hf), Fields.get_insert_self]
    · intro e he
      have hlt := lt_of_mem_numberedFrom he
      rwa [Nat.zero_add] at hlt
    · intro i j hij hj
      exact (hnumbered.between hij hj).1
    · intro i j hij hj
      exact (hnumbered.between hij.le hj).2.trans (forall_shareSlot_iff hij hj)
    · intro e he f hf idx kind
      rw [selects_stamped (hobject e he f hf), kindsOf_isMarked hf fun geojson heq => ?_]
      rw [heq] at hf
      exact h geojson (heq ▸ hmem e he) f hf

end

/-! ## A point drawn by the circle layer, and one drawn as a pin -/

theorem zero_drawn : DrawnBySlots zeroCodec zeroOverlays := by
  refine (features_drawn_iff zeroCodec zeroOverlays (Or.inl accepted_zeroOverlays.valid)).mpr ?_
  intro geojson hgeojson f hf hmarked
  rcases List.mem_cons.mp hgeojson with hpin | hgeojson
  · cases hpin
  · cases List.mem_singleton.mp hgeojson
    cases List.mem_singleton.mp hf
    exact absurd hmarked.2 (by decide +kernel)

/-- A document with one point, whose properties bear the mark of a pin. -/
def markedPoint : Json := featureJson "Point" (.array [zeroNumber, zeroNumber]) [(pinKindProperty, .string pinKindValue)]

def markedOverlays : List StaticOverlay := [.geoJson ⟨markedPoint⟩]

/-- The document is accepted, and its point is drawn by the layer for pins. -/
theorem document_point_as_pin :
    Valid zeroCodec markedOverlays ∧ buildUnionFeatures zeroCodec markedOverlays = some [stamped 0 markedPoint] ∧
      selects 0 .symbol (stamped 0 markedPoint) = true ∧ selects 0 .circle (stamped 0 markedPoint) = false := by
  refine ⟨?_, rfl, by decide +kernel, by decide +kernel⟩
  intro o ho
  rw [List.mem_singleton.mp ho]
  decide +kernel

end Biei
