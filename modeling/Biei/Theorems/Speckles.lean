import Biei.Lemmas.Speckles

/-! # Speckle removal -/

namespace Biei.Terrain

variable {width height : Nat} {labels : LabelGrid width height}

/-- The region of a cell, with the label that it is settled with. -/
theorem exists_settled (labels : LabelGrid width height) (i : Fin (width * height)) :
    ∃ id region, (regions labels)[id]? = some region ∧ i ∈ region.1.cells ∧ componentAt labels i = some id ∧
      (resolution labels)[id]? = some (some (removeSpeckles labels i)) := by
  obtain ⟨id, region, hregion, hi⟩ := exists_region labels i
  obtain ⟨label, hlabel⟩ := exists_resolution labels i hi
  exact ⟨id, region, hregion, ((isRegion_of_getElem? hregion).cells i).mpr hi,
    hi, by rw [removeSpeckles_apply hi hlabel]; exact hlabel⟩

/-- Only speckles change. -/
theorem removeSpeckles_of_not_speckle {i : Fin (width * height)} (h : ¬Speckle labels i) :
    removeSpeckles labels i = labels i := by
  obtain ⟨id, region, hregion, hmem, hi, hlabel⟩ := exists_settled labels i
  have hspec := isRegion_of_getElem? hregion
  have hstable : region.1.stable = true := by
    rw [← Bool.not_eq_false, hspec.stable i hmem]
    exact h
  rw [hspec.label i hmem]
  exact removeSpeckles_apply hi ((resolution_spec labels).1.stable id region hregion hstable)

/-- A speckle takes over what a cell next to it has in the end. -/
theorem removeSpeckles_of_speckle {i : Fin (width * height)} (h : Speckle labels i) :
    ∃ j ∈ cellNeighbors i, removeSpeckles labels i = removeSpeckles labels j := by
  obtain ⟨id, region, hregion, hmem, hi, hlabel⟩ := exists_settled labels i
  have hspec := isRegion_of_getElem? hregion
  obtain ⟨other, count, hcount, hother⟩ :=
    (resolution_spec labels).1.taken id region _ hregion ((hspec.stable i hmem).mpr h) hlabel
  obtain ⟨-, i', hi', j, hj, hcomponent⟩ := (hspec.adjacent other).mp ⟨count, hcount⟩
  have heq : i' = i := h.2 i' ((hspec.connected i hmem i').mp hi')
  exact ⟨j, heq ▸ hj, (removeSpeckles_apply hcomponent hother).symm⟩

/-- What remains of a grid has no speckles. -/
theorem not_speckle_removeSpeckles (labels : LabelGrid width height) (i : Fin (width * height)) :
    ¬Speckle (removeSpeckles labels) i := by
  rintro ⟨hinner, hsingle⟩
  have hjoined : ∃ j ∈ cellNeighbors i, removeSpeckles labels i = removeSpeckles labels j := by
    by_cases hspeckle : Speckle labels i
    · exact removeSpeckles_of_speckle hspeckle
    · -- a cell next to it is in the same component, and so has the same label in the end
      obtain ⟨j, hij, hne⟩ : ∃ j, Flood.Connected cellNeighbors labels i j ∧ j ≠ i := by
        by_contra hnone
        exact hspeckle ⟨hinner, fun j hij => by_contra fun hne => hnone ⟨j, hij, hne⟩⟩
      rcases Relation.ReflTransGen.cases_head hij with heq | ⟨k, hjoined, -⟩
      · exact absurd heq.symm hne
      · obtain ⟨id, region, hregion, hmem, hi, hlabel⟩ := exists_settled labels i
        have hk : componentAt labels k = some id :=
          (searched_components labels).1.closed cellNeighbors_symm ⟨cellNeighbors_symm i k hjoined.1, hjoined.2.symm⟩ hi
        exact ⟨k, hjoined.1, (removeSpeckles_apply hk hlabel).symm⟩
  obtain ⟨j, hj, hsame⟩ := hjoined
  have hji : j = i := hsingle j (Relation.ReflTransGen.single ⟨hj, hsame.symm⟩)
  rw [hji, mem_cellNeighbors] at hj
  omega

/-- What speckle removal does to any grid. -/
theorem removeSpeckles_spec (labels : LabelGrid width height) :
    (∀ i, removeSpeckles labels i ≠ labels i → Speckle labels i) ∧
      (∀ i, Speckle labels i → ∃ j ∈ cellNeighbors i, removeSpeckles labels i = removeSpeckles labels j) ∧
      (∀ i, ¬Speckle (removeSpeckles labels) i) ∧
      removeSpeckles (removeSpeckles labels) = removeSpeckles labels := by
  refine ⟨fun i hne => ?_, fun i => removeSpeckles_of_speckle, not_speckle_removeSpeckles labels, ?_⟩
  · by_contra hspeckle
    exact hne (removeSpeckles_of_not_speckle hspeckle)
  · funext i
    exact removeSpeckles_of_not_speckle (not_speckle_removeSpeckles labels i)

/-! ## Seams -/

/-- A speckle next to a cell of the outer edge changes: in the first round it takes over the label of a region that stays, and all
these have other labels. -/
theorem removeSpeckles_ne {i j : Fin (width * height)} (h : Speckle labels i) (hj : j ∈ cellNeighbors i)
    (hedge : touchesOuterEdge j = true) : removeSpeckles labels i ≠ labels i := by
  obtain ⟨id, region, hregion, hmem, hi, -⟩ := exists_settled labels i
  obtain ⟨other, region', hregion', hmem', hother, -⟩ := exists_settled labels j
  have hspec := isRegion_of_getElem? hregion
  have hspec' := isRegion_of_getElem? hregion'
  have hunstable : region.1.stable = false := (hspec.stable i hmem).mpr h
  have hstable : region'.1.stable = true := by
    rw [← Bool.not_eq_false, hspec'.stable j hmem']
    intro hspeckle
    rw [hspeckle.1] at hedge
    cases hedge
  have hne : other ≠ id := by
    rintro rfl
    rw [hregion] at hregion'
    cases hregion'
    rw [hunstable] at hstable
    cases hstable
  obtain ⟨count, hcount⟩ := (hspec.adjacent other).mpr ⟨hne, i, hmem, j, hj, hother⟩
  have hinit := resolution_init (regions labels)
  have hnone : ((regions labels).map fun region => if region.1.stable then some region.1.label else none)[id]? = some none := by
    rw [List.getElem?_map, hregion, Option.map_some, hunstable]
    rfl
  obtain ⟨label, hlabel⟩ := Option.isSome_iff_exists.mp (replacement_isSome hcount (hinit.stable other region' hregion' hstable))
  -- the regions that are settled at the start have other labels than the speckle
  have hdiffers : label ≠ labels i := by
    obtain ⟨other', count', hcount', hother'⟩ := replacement_eq_some hlabel
    obtain ⟨hne', i', hi', j', hj', hcomponent'⟩ := (hspec.adjacent other').mp ⟨count', hcount'⟩
    rw [h.2 i' ((hspec.connected i hmem i').mp hi')] at hj'
    obtain ⟨other'', region'', hregion'', hmem'', hcomponent'', -⟩ := exists_settled labels j'
    cases hcomponent'.symm.trans hcomponent''
    rw [List.getElem?_map, hregion'', Option.map_some] at hother'
    split at hother'
    · cases Option.some.inj hother'
      rw [← (isRegion_of_getElem? hregion'').label j' hmem'']
      intro hsame
      have hji : j' = i := h.2 j' (Relation.ReflTransGen.single ⟨hj', hsame⟩)
      rw [hji, hi] at hcomponent'
      exact hne' (Option.some.inj hcomponent').symm
    · cases hother'
  have hround : (id, label) ∈ settled (regions labels)
      ((regions labels).map fun region => if region.1.stable then some region.1.label else none) :=
    mem_settled.mpr ⟨region, hregion, hnone, hlabel⟩
  have hsettled := settle_settled_of_none hregion hnone
  rw [hlabel] at hsettled
  have hresolution : (resolution labels)[id]? = some (some label) := by
    unfold resolution resolve
    rw [dif_neg (List.ne_nil_of_mem hround)]
    exact hinit.settle.resolve.2.2 id label hsettled
  rw [removeSpeckles_apply hi hresolution]
  exact hdiffers

/-! ## Seams and speckles -/

/-- `GRID_BUFFER`. -/
def gridBuffer : Nat := 1

/-- `GRID_SIZE`. -/
def gridSize : Nat := 512

/-- The cells of a tile along each side, of `size` within it. -/
abbrev bufferedSize (size : Nat) : Nat := size + 2 * gridBuffer

/-- Where a cell of a tile is in the field. -/
def globalCell (size : Nat) (tile : ℤ × ℤ) (i : Fin (bufferedSize size * bufferedSize size)) : ℤ × ℤ :=
  (tile.1 * size - gridBuffer + (i % bufferedSize size : Nat), tile.2 * size - gridBuffer + (i / bufferedSize size : Nat))

/-- The labels of a tile. -/
def cutTile (field : ℤ × ℤ → ℤ) (size : Nat) (tile : ℤ × ℤ) : LabelGrid (bufferedSize size) (bufferedSize size) :=
  fun i => field (globalCell size tile i)

/-- What both tiles have of the field, they have with the same labels after the speckles are removed. -/
def SeamStable (field : ℤ × ℤ → ℤ) (size : Nat) (tile tile' : ℤ × ℤ) : Prop :=
  ∀ i j, globalCell size tile i = globalCell size tile' j →
    removeSpeckles (cutTile field size tile) i = removeSpeckles (cutTile field size tile') j

/-- A cell whose four neighbours have other labels. -/
def Isolated (field : ℤ × ℤ → ℤ) (x y : ℤ) : Prop :=
  field (x - 1, y) ≠ field (x, y) ∧ field (x + 1, y) ≠ field (x, y) ∧ field (x, y - 1) ≠ field (x, y) ∧
    field (x, y + 1) ≠ field (x, y)

variable {field : ℤ × ℤ → ℤ} {size : Nat} {tile : ℤ × ℤ} {x y : ℤ}

/-- The cell of a tile at a place inside. -/
theorem exists_cell (hx : tile.1 * size - 1 ≤ x ∧ x ≤ tile.1 * size + size)
    (hy : tile.2 * size - 1 ≤ y ∧ y ≤ tile.2 * size + size) : ∃ i, globalCell size tile i = (x, y) := by
  unfold globalCell
  generalize tile.1 * (size : ℤ) = left at hx ⊢
  generalize tile.2 * (size : ℤ) = top at hy ⊢
  obtain ⟨a, ha⟩ := Int.eq_ofNat_of_zero_le (show 0 ≤ x - (left - 1) by omega)
  obtain ⟨b, hb⟩ := Int.eq_ofNat_of_zero_le (show 0 ≤ y - (top - 1) by omega)
  have halt : a < bufferedSize size := by
    unfold bufferedSize gridBuffer
    omega
  have hblt : b < bufferedSize size := by
    unfold bufferedSize gridBuffer
    omega
  have hlt : b * bufferedSize size + a < bufferedSize size * bufferedSize size :=
    calc b * bufferedSize size + a < b * bufferedSize size + bufferedSize size := Nat.add_lt_add_left halt _
      _ = (b + 1) * bufferedSize size := (Nat.succ_mul b _).symm
      _ ≤ bufferedSize size * bufferedSize size := Nat.mul_le_mul_right _ hblt
  obtain ⟨hrow, hcolumn⟩ := (eq_index_iff halt).mp (rfl : b * bufferedSize size + a = _)
  refine ⟨⟨_, hlt⟩, ?_⟩
  dsimp only
  rw [hrow, hcolumn, ← ha, ← hb]
  unfold gridBuffer
  rw [Prod.mk.injEq]
  omega

theorem mem_cellNeighbors_iff {i j : Fin (bufferedSize size * bufferedSize size)} (hi : globalCell size tile i = (x, y)) :
    j ∈ cellNeighbors i ↔ globalCell size tile j = (x - 1, y) ∨ globalCell size tile j = (x + 1, y) ∨
      globalCell size tile j = (x, y - 1) ∨ globalCell size tile j = (x, y + 1) := by
  unfold globalCell at hi ⊢
  rw [mem_cellNeighbors]
  simp only [Prod.mk.injEq] at hi ⊢
  generalize i.val % bufferedSize size = a at hi ⊢
  generalize i.val / bufferedSize size = b at hi ⊢
  generalize j.val % bufferedSize size = c
  generalize j.val / bufferedSize size = d
  omega

variable {i : Fin (bufferedSize size * bufferedSize size)}

theorem touchesOuterEdge_iff (hi : globalCell size tile i = (x, y)) :
    touchesOuterEdge i = true ↔
      x = tile.1 * size - 1 ∨ x = tile.1 * size + size ∨ y = tile.2 * size - 1 ∨ y = tile.2 * size + size := by
  unfold globalCell at hi
  unfold touchesOuterEdge
  simp only [Prod.mk.injEq] at hi
  rw [decide_eq_true_eq]
  generalize i.val % bufferedSize size = a at hi ⊢
  generalize i.val / bufferedSize size = b at hi ⊢
  unfold bufferedSize gridBuffer at *
  omega

/-- Where the cells of a tile are. -/
theorem globalCell_bounds (hi : globalCell size tile i = (x, y)) :
    (tile.1 * size - 1 ≤ x ∧ x ≤ tile.1 * size + size) ∧ tile.2 * size - 1 ≤ y ∧ y ≤ tile.2 * size + size := by
  obtain ⟨ha, hb⟩ := cell_bounds i
  unfold globalCell at hi
  simp only [Prod.mk.injEq] at hi
  generalize i.val % bufferedSize size = a at hi ha
  generalize i.val / bufferedSize size = b at hi hb
  unfold bufferedSize gridBuffer at *
  omega

/-- A cell inside a tile is a speckle exactly when it is isolated in the field. -/
theorem speckle_cutTile (hi : globalCell size tile i = (x, y))
    (hinner : touchesOuterEdge i = false) : Speckle (cutTile field size tile) i ↔ Isolated field x y := by
  have hbounds := globalCell_bounds hi
  have hnot := (touchesOuterEdge_iff hi).not.mp (by rw [hinner]; exact Bool.false_ne_true)
  have hlabel : ∀ {j} {x' y' : ℤ}, globalCell size tile j = (x', y') → cutTile field size tile j = field (x', y') := by
    intro j x' y' hj
    unfold cutTile
    rw [hj]
  have hdiffer : Speckle (cutTile field size tile) i ↔
      ∀ j ∈ cellNeighbors i, cutTile field size tile j ≠ cutTile field size tile i := by
    constructor
    · rintro ⟨-, hsingle⟩ j hj hsame
      rw [hsingle j (Relation.ReflTransGen.single ⟨hj, hsame⟩), mem_cellNeighbors] at hj
      omega
    · exact fun h => ⟨hinner, fun j hij => (Flood.connected_iff_eq h).mp hij⟩
  rw [hdiffer]
  constructor
  · intro h
    have hplace : ∀ {x' y' : ℤ}, (x', y') = (x - 1, y) ∨ (x', y') = (x + 1, y) ∨ (x', y') = (x, y - 1) ∨ (x', y') = (x, y + 1) →
        field (x', y') ≠ field (x, y) := by
      intro x' y' hnext
      obtain ⟨j, hj⟩ : ∃ j, globalCell size tile j = (x', y') := by
        refine exists_cell ?_ ?_ <;> simp only [Prod.mk.injEq] at hnext <;> omega
      have hmem : j ∈ cellNeighbors i := (mem_cellNeighbors_iff hi).mpr (by rw [hj]; exact hnext)
      have hne := h j hmem
      rwa [hlabel hj, hlabel hi] at hne
    exact ⟨hplace (Or.inl rfl), hplace (Or.inr (Or.inl rfl)), hplace (Or.inr (Or.inr (Or.inl rfl))),
      hplace (Or.inr (Or.inr (Or.inr rfl)))⟩
  · rintro ⟨hleft, hright, hup, hdown⟩ j hj
    rw [hlabel hi]
    rcases (mem_cellNeighbors_iff hi).mp hj with hj | hj | hj | hj <;> rw [hlabel hj] <;> assumption

/-! ## One shared cell -/

/-- A cell keeps its label on the outer edge, and where it is not isolated. -/
theorem removeSpeckles_cutTile (hi : globalCell size tile i = (x, y))
    (h : touchesOuterEdge i = true ∨ ¬Isolated field x y) : removeSpeckles (cutTile field size tile) i = field (x, y) := by
  have hsame : removeSpeckles (cutTile field size tile) i = cutTile field size tile i := by
    refine removeSpeckles_of_not_speckle fun hspeckle => ?_
    rcases h with hedge | hisolated
    · rw [hspeckle.1] at hedge
      cases hedge
    · exact hisolated ((speckle_cutTile hi hspeckle.1).mp hspeckle)
  rw [hsame, cutTile, hi]

/-- An isolated cell inside, next to the outer edge, loses its label. -/
theorem removeSpeckles_cutTile_ne {i j : Fin (bufferedSize size * bufferedSize size)} (hi : globalCell size tile i = (x, y))
    (hinner : touchesOuterEdge i = false) (hisolated : Isolated field x y) (hj : j ∈ cellNeighbors i)
    (hedge : touchesOuterEdge j = true) : removeSpeckles (cutTile field size tile) i ≠ field (x, y) := by
  have hne := removeSpeckles_ne ((speckle_cutTile hi hinner).mpr hisolated) hj hedge
  rwa [cutTile, hi] at hne

variable {tile' : ℤ × ℤ}

theorem SeamStable.symm (h : SeamStable field size tile tile') : SeamStable field size tile' tile :=
  fun i j hij => (h j i hij.symm).symm

/-- A shared place where one tile has its outer edge, and the other one has it next to the place, is not isolated in a stable
seam. -/
theorem SeamStable.not_isolated {x y x' y' : ℤ} (h : SeamStable field size tile tile')
    (hnext : (x', y') = (x - 1, y) ∨ (x', y') = (x + 1, y) ∨ (x', y') = (x, y - 1) ∨ (x', y') = (x, y + 1))
    (hx : tile.1 * size - 1 ≤ x ∧ x ≤ tile.1 * size + size) (hy : tile.2 * size - 1 ≤ y ∧ y ≤ tile.2 * size + size)
    (hinner : x ≠ tile.1 * size - 1 ∧ x ≠ tile.1 * size + size ∧ y ≠ tile.2 * size - 1 ∧ y ≠ tile.2 * size + size)
    (hborder : x' = tile.1 * size - 1 ∨ x' = tile.1 * size + size ∨ y' = tile.2 * size - 1 ∨ y' = tile.2 * size + size)
    (hx' : tile'.1 * size - 1 ≤ x ∧ x ≤ tile'.1 * size + size) (hy' : tile'.2 * size - 1 ≤ y ∧ y ≤ tile'.2 * size + size)
    (hedge : x = tile'.1 * size - 1 ∨ x = tile'.1 * size + size ∨ y = tile'.2 * size - 1 ∨ y = tile'.2 * size + size) :
    ¬Isolated field x y := by
  intro hisolated
  obtain ⟨i, hi⟩ := exists_cell hx hy
  obtain ⟨j, hj⟩ := exists_cell hx' hy'
  obtain ⟨k, hk⟩ : ∃ k, globalCell size tile k = (x', y') := by
    refine exists_cell ?_ ?_ <;> simp only [Prod.mk.injEq] at hnext <;> omega
  have hi' : touchesOuterEdge i = false := by
    rw [← Bool.not_eq_true, touchesOuterEdge_iff hi]
    omega
  have hmem : k ∈ cellNeighbors i := (mem_cellNeighbors_iff hi).mpr (by rw [hk]; exact hnext)
  have hne := removeSpeckles_cutTile_ne hi hi' hisolated hmem ((touchesOuterEdge_iff hk).mpr hborder)
  rw [h i j (hi.trans hj.symm), removeSpeckles_cutTile hj (Or.inl ((touchesOuterEdge_iff hj).mpr hedge))] at hne
  exact hne rfl

/-- Where two tiles have a place in common, on the outer edge of both or not isolated, they have the same label there. -/
theorem seamStable_of_cells (h : ∀ x y i j, globalCell size tile i = (x, y) → globalCell size tile' j = (x, y) →
    Isolated field x y →
      touchesOuterEdge i = true ∧ touchesOuterEdge j = true) : SeamStable field size tile tile' := by
  intro i j hij
  have hi : globalCell size tile i = ((globalCell size tile i).1, (globalCell size tile i).2) := rfl
  have hj : globalCell size tile' j = ((globalCell size tile i).1, (globalCell size tile i).2) := hij.symm
  by_cases hisolated : Isolated field (globalCell size tile i).1 (globalCell size tile i).2
  · obtain ⟨hedge, hedge'⟩ := h _ _ i j hi hj hisolated
    rw [removeSpeckles_cutTile hi (Or.inl hedge), removeSpeckles_cutTile hj (Or.inl hedge')]
  · rw [removeSpeckles_cutTile hi (Or.inr hisolated), removeSpeckles_cutTile hj (Or.inr hisolated)]

/-- When adjacent tiles are left with the same labels: no cell of the shared columns, or rows, is isolated inside of both tiles'
other edges. -/
theorem seamStable_iff (field : ℤ × ℤ → ℤ) {size : Nat} (hsize : 0 < size) (tx ty : ℤ) :
    (SeamStable field size (tx, ty) (tx + 1, ty) ↔
      ∀ x y, x = (tx + 1) * size - 1 ∨ x = (tx + 1) * size → ty * size ≤ y → y < (ty + 1) * size → ¬Isolated field x y) ∧
      (SeamStable field size (tx, ty) (tx, ty + 1) ↔
        ∀ x y, y = (ty + 1) * size - 1 ∨ y = (ty + 1) * size → tx * size ≤ x → x < (tx + 1) * size → ¬Isolated field x y) := by
  have hx : (tx + 1) * (size : ℤ) = tx * size + size := by rw [Int.add_mul, Int.one_mul]
  have hy : (ty + 1) * (size : ℤ) = ty * size + size := by rw [Int.add_mul, Int.one_mul]
  refine ⟨⟨fun h x y hcolumn htop hbottom => ?_, fun h => seamStable_of_cells fun x y i j hi hj hisolated => ?_⟩,
    ⟨fun h x y hrow hleft hright => ?_, fun h => seamStable_of_cells fun x y i j hi hj hisolated => ?_⟩⟩
  · rw [hx] at hcolumn
    rw [hy] at hbottom
    rcases hcolumn with rfl | rfl
    · refine h.not_isolated (Or.inr (Or.inl rfl)) ?_ ?_ ?_ ?_ ?_ ?_ ?_ <;> dsimp only <;> omega
    · refine h.symm.not_isolated (Or.inl rfl) ?_ ?_ ?_ ?_ ?_ ?_ ?_ <;> dsimp only <;> omega
  · have hi' := globalCell_bounds hi
    have hj' := globalCell_bounds hj
    rw [touchesOuterEdge_iff hi, touchesOuterEdge_iff hj]
    dsimp only at hi' hj' ⊢
    rw [hx] at hj' ⊢
    have hisolated' := fun hcolumn htop hbottom => h x y hcolumn htop hbottom hisolated
    rw [hx, hy] at hisolated'
    by_contra hnot
    exact hisolated' (by omega) (by omega) (by omega)
  · rw [hy] at hrow
    rw [hx] at hright
    rcases hrow with rfl | rfl
    · refine h.not_isolated (Or.inr (Or.inr (Or.inr rfl))) ?_ ?_ ?_ ?_ ?_ ?_ ?_ <;> dsimp only <;> omega
    · refine h.symm.not_isolated (Or.inr (Or.inr (Or.inl rfl))) ?_ ?_ ?_ ?_ ?_ ?_ ?_ <;> dsimp only <;> omega
  · have hi' := globalCell_bounds hi
    have hj' := globalCell_bounds hj
    rw [touchesOuterEdge_iff hi, touchesOuterEdge_iff hj]
    dsimp only at hi' hj' ⊢
    rw [hy] at hj' ⊢
    have hisolated' := fun hrow hleft hright => h x y hrow hleft hright hisolated
    rw [hx, hy] at hisolated'
    by_contra hnot
    exact hisolated' (by omega) (by omega) (by omega)

/-- A field without speckles. -/
theorem seamStable_flat : 0 < gridSize ∧ SeamStable (fun _ => 0) gridSize (0, 0) (1, 0) := by
  refine ⟨by decide, (seamStable_iff (fun _ => 0) (by decide) 0 0).1.mpr fun x y _ _ _ hisolated => ?_⟩
  exact hisolated.1 rfl

/-- A single cell of another label, in the column before the seam. -/
def speckledField (place : ℤ × ℤ) : ℤ := if place = (511, 3) then 1 else 0

/-- The left tile merges the cell into what is around it, and the right tile keeps it. -/
theorem seam_unstable : ¬SeamStable speckledField gridSize (0, 0) (1, 0) := by
  intro h
  have hisolated : Isolated speckledField 511 3 := by
    unfold Isolated speckledField
    decide
  refine h.not_isolated (Or.inr (Or.inl rfl)) ?_ ?_ ?_ ?_ ?_ ?_ ?_ hisolated <;> decide

end Biei.Terrain
