import Biei.Lemmas.Stitching
import Biei.Lemmas.Simplify

/-!
# Lemmas on the seam of two contour tiles

Two adjacent tiles have two columns of cells in common, where their smoothed grids agree; there they have the same segments.
-/

namespace Biei.Terrain

/-! ## What a tile emits -/

/-- The features have the vertex on the level. -/
def Emits (features : List ContourFeature) (t : ℤ) (v : MvtCoord) : Prop :=
  ∃ feature ∈ features, feature.ele = t ∧ ∃ line ∈ feature.lines, v ∈ line

instance (features : List ContourFeature) (t : ℤ) (v : MvtCoord) : Decidable (Emits features t v) :=
  inferInstanceAs (Decidable (∃ feature ∈ features, feature.ele = t ∧ ∃ line ∈ feature.lines, v ∈ line))

/-- The interval of the levels that are generated. -/
def contourInterval (zoom : UInt8) : ℤ := (levelsForZoom zoom).headD 0

theorem contourInterval_pos (zoom : UInt8) : 0 < contourInterval zoom := by
  unfold contourInterval levelsForZoom
  split
  · decide
  · split
    · decide
    · split
      · decide
      · split <;> decide

namespace ElevationGrid

variable {grid : ElevationGrid}

/-- The polyline of the crossing has another vertex. -/
def Kept (grid : ElevationGrid) (t : ℤ) (k : EdgePoint) : Prop :=
  ∃ j, JoinedBy (grid.levelSegments t) k j ∧ grid.crossing t j ≠ grid.crossing t k

/-- A crossing that is kept is on a segment. -/
theorem Kept.exists_segment {t : ℤ} {k : EdgePoint} (h : grid.Kept t k) : ∃ p ∈ grid.levelSegments t, p.1 = k ∨ p.2 = k := by
  obtain ⟨j, hj, hne⟩ := h
  rcases Relation.ReflTransGen.cases_head hj with rfl | ⟨c, hlink, -⟩
  · exact absurd rfl hne
  · rcases hlink with he | he
    · exact ⟨_, he, Or.inl rfl⟩
    · exact ⟨_, he, Or.inr rfl⟩

/-- The vertices of the polylines that have more than one. -/
theorem exists_line_iff_kept {t : ℤ} {closed opened : List (List EdgePoint)} (h : Traced (grid.levelSegments t) closed opened)
    (v : MvtCoord) :
    (∃ l ∈ closed ++ opened, v ∈ l.map (grid.crossing t) ∧ ∃ u ∈ l.map (grid.crossing t), u ≠ v) ↔
      ∃ k, grid.Kept t k ∧ grid.crossing t k = v := by
  constructor
  · rintro ⟨l, hl, hv, u, hu, hne⟩
    obtain ⟨k, hk, rfl⟩ := List.mem_map.mp hv
    obtain ⟨j, hj, rfl⟩ := List.mem_map.mp hu
    exact ⟨k, ⟨j, (joined_of_mem hk hj).mono fun e he => h.mem_edges hl he, hne⟩, rfl⟩
  · rintro ⟨k, hkept, rfl⟩
    obtain ⟨p, hp, hpk⟩ := hkept.exists_segment
    obtain ⟨l, hl, hstep⟩ := List.mem_flatMap.mp (h.perm.symm.subset hp)
    have hk : k ∈ l := by
      rcases hpk with rfl | rfl
      · exact (mem_of_mem_steps hstep).1
      · exact (mem_of_mem_steps hstep).2
    obtain ⟨j, hj, hne⟩ := hkept
    have hjl := h.mem_of_joined (levelSegments_sources t) (levelSegments_targets t) hl hk hj
    exact ⟨l, hl, List.mem_map_of_mem hk, _, List.mem_map_of_mem hjl, hne⟩

end ElevationGrid

/-- The features that are made of the polylines of the levels. -/
theorem emits_contourFeatures {neighborhood : DemNeighborhood} {levels : List ℤ} (isolines : OrderedMap ℤ (List (List MvtCoord)))
    {t : ℤ}
    {v : MvtCoord} (hpinned : pinned neighborhood v = true) :
    Emits (isolines.toList.filterMap fun isoline => contourFeature neighborhood levels isoline.1 isoline.2) t v ↔
      ∃ lines, isolines.get? t = some lines ∧ ∃ line ∈ lines, v ∈ line ∧ ∃ u ∈ line, u ≠ v := by
  constructor
  · rintro ⟨feature, hfeature, rfl, line', hline', hv⟩
    obtain ⟨⟨t, lines⟩, hmem, hfeature⟩ := List.mem_filterMap.mp hfeature
    simp only [contourFeature] at hfeature
    split at hfeature
    · cases hfeature
    · cases hfeature
      obtain ⟨line, hline, hfinish⟩ := List.mem_filterMap.mp hline'
      exact ⟨lines, OrderedMap.get?_eq_some.mpr hmem, line, hline, (mem_finishLine hpinned).mp ⟨line', hfinish, hv⟩⟩
  · rintro ⟨lines, hlines, line, hline, hv⟩
    obtain ⟨line', hfinish, hv'⟩ := (mem_finishLine hpinned).mpr hv
    have hmem : line' ∈ lines.filterMap (finishLine neighborhood) := List.mem_filterMap.mpr ⟨line, hline, hfinish⟩
    have hne : ¬(lines.filterMap (finishLine neighborhood)).isEmpty = true := fun hempty => by
      rw [List.isEmpty_iff.mp hempty] at hmem
      cases hmem
    have hfeature : ∃ level, contourFeature neighborhood levels t lines =
      some ⟨t, level, lines.filterMap (finishLine neighborhood)⟩ :=
      ⟨_, if_neg hne⟩
    obtain ⟨level, hfeature⟩ := hfeature
    exact ⟨_, List.mem_filterMap.mpr ⟨(t, lines), OrderedMap.get?_eq_some.mp hlines, hfeature⟩, rfl, line', hmem, hv'⟩

/-- A tile is always generated, and near its edges it emits the crossings that are kept. -/
theorem generate_emits (neighborhood : DemNeighborhood) (zoom : UInt8) :
    ∃ features, generate neighborhood zoom = some features ∧
      ∀ t v, pinned neighborhood v = true →
        (Emits features t v ↔
          contourInterval zoom ∣ t ∧
            ∃ k, (ElevationGrid.smoothed neighborhood).Kept t k ∧ (ElevationGrid.smoothed neighborhood).crossing t k = v) := by
  obtain ⟨levels, hlevels, hstitched⟩ := (ElevationGrid.smoothed neighborhood).exists_stitched (contourInterval_pos zoom)
  refine ⟨_, by rw [generate, ← contourInterval, hlevels]; rfl, fun t v hpinned => ?_⟩
  rw [emits_contourFeatures _ hpinned]
  simp only [OrderedMap.get?_mapValues]
  by_cases hdvd : contourInterval zoom ∣ t
  · have hlevel := (hstitched t).1 hdvd
    rw [← ElevationGrid.exists_line_iff_kept hlevel.traced, ← hlevel.lines_eq]
    simp only [hdvd, true_and]
    constructor
    · rintro ⟨lines, hlines, line, hline, hv⟩
      obtain ⟨level, hget, rfl⟩ := Option.map_eq_some_iff.mp hlines
      obtain ⟨l, hl, rfl⟩ := List.mem_map.mp hline
      refine ⟨l, ?_, hv⟩
      rw [levelOf, hget]
      exact hl
    · rintro ⟨l, hl, hv⟩
      cases hget : levels.get? t with
      | none =>
        rw [levelOf, hget] at hl
        cases hl
      | some level =>
        rw [levelOf, hget] at hl
        exact ⟨_, rfl, _, List.mem_map_of_mem hl, hv⟩
  · rw [(hstitched t).2 hdvd]
    constructor
    · rintro ⟨lines, hlines, -⟩
      cases hlines
    · rintro ⟨h, -⟩
      exact absurd h hdvd

/-! ## Neighbourhoods that are cut from a field -/

theorem tileAxis_spec {value size : ℤ} (hlow : -size ≤ value) (hhigh : value < 2 * size) :
    ((tileAxis value size).1 = -1 ∨ (tileAxis value size).1 = 0 ∨ (tileAxis value size).1 = 1) ∧
      0 ≤ (tileAxis value size).2 ∧ (tileAxis value size).2 < size ∧
        value = (tileAxis value size).1 * size + (tileAxis value size).2 := by
  unfold tileAxis
  split
  · exact ⟨Or.inl rfl, by simp only; omega, by simp only; omega, by simp only; omega⟩
  · split
    · exact ⟨Or.inr (Or.inr rfl), by simp only; omega, by simp only; omega, by simp only; omega⟩
    · exact ⟨Or.inr (Or.inl rfl), by simp only; omega, by simp only; omega, by simp only; omega⟩

namespace DemNeighborhood

variable {neighborhood : DemNeighborhood} {field : ℤ → ℤ → Option ℚ}

/-- A neighbourhood that is cut from a field is read as the field, but for rows beyond its border. -/
theorem CutFrom.get_eq (h : neighborhood.CutFrom field) {x : ℤ} (hlow : -(neighborhood.width : ℤ) ≤ x)
    (hhigh : x < 2 * neighborhood.width)
    (y : ℤ) : neighborhood.get x y = field x (clamp y (-neighborhood.height) (2 * neighborhood.height - 1)) := by
  have hheight : 3 ≤ neighborhood.height := neighborhood.height_ge
  unfold get
  simp only
  have hx : clamp x (-(neighborhood.width : ℤ)) (2 * neighborhood.width - 1) = x := by
    unfold clamp
    omega
  generalize hy : clamp y (-(neighborhood.height : ℤ)) (2 * neighborhood.height - 1) = row
  have hrow : -(neighborhood.height : ℤ) ≤ row ∧ row < 2 * neighborhood.height := by
    unfold clamp at hy
    omega
  rw [hx]
  obtain ⟨hc, hc0, hcw, hceq⟩ := tileAxis_spec hlow hhigh
  obtain ⟨hr, hr0, hrh, hreq⟩ := tileAxis_spec hrow.1 hrow.2
  generalize (tileAxis x neighborhood.width).1 = column at *
  generalize (tileAxis x neighborhood.width).2 = px at *
  generalize (tileAxis row neighborhood.height).1 = line at *
  generalize (tileAxis row neighborhood.height).2 = py at *
  obtain ⟨tile, htile, helevations⟩ := h (Fin.ofNat 9 ((line + 1) * 3 + column + 1).toNat)
  rw [htile]
  simp only
  rw [helevations px.toNat (by omega) py.toNat (by omega)]
  have hcolumn : ((((Fin.ofNat 9 ((line + 1) * 3 + column + 1).toNat : Fin 9) : Nat) % 3 : Nat) : ℤ) - 1 = column := by
    rw [Fin.val_ofNat]
    omega
  have hline : ((((Fin.ofNat 9 ((line + 1) * 3 + column + 1).toNat : Fin 9) : Nat) / 3 : Nat) : ℤ) - 1 = line := by
    rw [Fin.val_ofNat]
    omega
  rw [hcolumn, hline, Int.toNat_of_nonneg hc0, Int.toNat_of_nonneg hr0, ← hceq, ← hreq]

end DemNeighborhood

/-- Two adjacent tiles of one field, of one size, the second to the right of the first. -/
structure Adjacent (field : ℤ → ℤ → Option ℚ) (left right : DemNeighborhood) : Prop where
  left_cut : left.CutFrom field
  right_cut : right.CutFrom fun x y => field (x + left.width) y
  width_eq : right.width = left.width
  height_eq : right.height = left.height

section

variable {field : ℤ → ℤ → Option ℚ} {left right : DemNeighborhood} {x : ℤ}

theorem Adjacent.gridElevation_eq (h : Adjacent field left right) (hlow : -2 ≤ x) (hhigh : x ≤ 2) (y : ℤ) :
    left.gridElevation (x + left.width) y = right.gridElevation x y := by
  have hwidth : 3 ≤ left.width := left.width_ge
  have hget : ∀ x y : ℤ, -3 ≤ x → x ≤ 2 → left.get (x + left.width) y = right.get x y := by
    intro x y h1 h2
    rw [h.left_cut.get_eq (by omega) (by omega), h.right_cut.get_eq (by rw [h.width_eq]; omega) (by rw [h.width_eq]; omega),
      h.height_eq]
  unfold DemNeighborhood.gridElevation
  have hshift : x + (left.width : ℤ) - 1 = x - 1 + left.width := by ring
  rw [hshift, hget (x - 1) (y - 1) (by omega) (by omega), hget x (y - 1) (by omega) (by omega),
    hget (x - 1) y (by omega) (by omega),
    hget x y (by omega) (by omega)]

/-- A pass that sees the same samples gives the same. -/
theorem binomialPass_congr {tile : Nat} {values values' : ℤ → Option ℚ} {lane lane' : ℤ} (hlane : -1 ≤ lane ∧ lane ≤ tile + 1)
    (hlane' : -1 ≤ lane' ∧ lane' ≤ tile + 1) (h : ∀ offset : ℤ, -1 ≤ offset → offset ≤ 1 →
      values (lane + offset) = values' (lane' + offset)) :
    binomialPass tile values lane = binomialPass tile values' lane' := by
  have hsamples : ([((-1 : ℤ), (1 : ℚ)), (0, 2), (1, 1)].filterMap fun w =>
        if lane + w.1 < -2 ∨ (tile : ℤ) + 2 < lane + w.1 then none else (values (lane + w.1)).map fun value =>
          (value * w.2, w.2)) =
      [((-1 : ℤ), (1 : ℚ)), (0, 2), (1, 1)].filterMap fun w =>
        if lane' + w.1 < -2 ∨ (tile : ℤ) + 2 < lane' + w.1 then none else (values' (lane' + w.1)).map fun value =>
          (value * w.2, w.2) := by
    refine List.filterMap_congr fun w hw => ?_
    have hoffset : -1 ≤ w.1 ∧ w.1 ≤ 1 := by
      simp only [List.mem_cons, List.not_mem_nil, or_false] at hw
      rcases hw with rfl | rfl | rfl <;> decide
    rw [if_neg (by omega), if_neg (by omega), h w.1 hoffset.1 hoffset.2]
  unfold binomialPass
  simp only [hsamples]

/-- In the columns of corners next to the seam the smoothed grids agree. -/
theorem Adjacent.smoothed_eq (h : Adjacent field left right) (hlow : -1 ≤ x) (hhigh : x ≤ 1) (y : ℤ) :
    (ElevationGrid.smoothed left).values (x + left.width) y = (ElevationGrid.smoothed right).values x y := by
  have hwidth : 3 ≤ left.width := left.width_ge
  unfold ElevationGrid.smoothed
  simp only [h.width_eq]
  congr 1
  funext y
  refine binomialPass_congr (by omega) (by omega) fun offset h1 h2 => ?_
  rw [show x + (left.width : ℤ) + offset = x + offset + left.width by ring]
  exact h.gridElevation_eq (by omega) (by omega) y

theorem Adjacent.value_eq (h : Adjacent field left right) (hlow : -1 ≤ x) (hhigh : x ≤ 1) (y : ℤ) :
    (ElevationGrid.smoothed left).value (x + left.width) y = (ElevationGrid.smoothed right).value x y := by
  rw [ElevationGrid.value, ElevationGrid.value, h.smoothed_eq hlow hhigh]

theorem Adjacent.scale_eq (h : Adjacent field left right) :
    (ElevationGrid.smoothed left).scale = (ElevationGrid.smoothed right).scale := by
  unfold ElevationGrid.scale ElevationGrid.smoothed
  rw [h.width_eq]

/-- A column to the right is as many units to the right. -/
theorem mul_scale_width (left : DemNeighborhood) (q : ℚ) :
    (q + left.width) * (ElevationGrid.smoothed left).scale = q * (ElevationGrid.smoothed left).scale + defaultExtent := by
  have hwidth : (left.width : ℚ) ≠ 0 := by
    have hge : 3 ≤ left.width := left.width_ge
    have hpos : 0 < left.width := by omega
    exact_mod_cast hpos.ne'
  unfold ElevationGrid.scale ElevationGrid.smoothed
  simp only
  rw [add_mul, mul_div_cancel₀ _ hwidth]

end

/-! ## Crossings on both sides -/

/-- `f64::round` goes with a shift, unless that takes a half from below zero to above. -/
theorem f64Round_add (n : ℤ) {q : ℚ} (h : ¬(q < 0 ∧ ∃ m : ℤ, q = m + 1 / 2)) (hn : 0 ≤ n) :
    f64Round (q + n) = f64Round q + n := by
  unfold f64Round
  by_cases hq : 0 ≤ q
  · have hn' : (0 : ℚ) ≤ n := by exact_mod_cast hn
    rw [if_pos hq, if_pos (add_nonneg hq hn'), add_right_comm, Int.floor_add_intCast]
  · rw [if_neg hq]
    split
    · rw [add_right_comm, Int.floor_add_intCast]
      congr 1
      -- A number that is not a half has one nearest integer.
      have hfloor : ((⌊q + 1 / 2⌋ : ℤ) : ℚ) ≤ q + 1 / 2 := Int.floor_le _
      have hlt : q + 1 / 2 < ⌊q + 1 / 2⌋ + 1 := Int.lt_floor_add_one _
      have hne : ((⌊q + 1 / 2⌋ : ℤ) : ℚ) ≠ q + 1 / 2 := fun heq => by
        refine h ⟨not_le.mp hq, ⌊q + 1 / 2⌋ - 1, ?_⟩
        push_cast
        rw [heq]
        ring
      symm
      rw [Int.ceil_eq_iff]
      have hstrict := lt_of_le_of_ne hfloor hne
      constructor <;> linarith
    · rw [add_sub_right_comm, Int.ceil_add_intCast]

/-- The same edge, as many columns further to the right. -/
def shiftKey (n : ℤ) (k : EdgePoint) : EdgePoint := toLex ((ofLex k).1 + 2 * n, (ofLex k).2)

theorem edgeKey_shift (n x y : ℤ) (e : CellEdge) : edgeKey (x + n) y e = shiftKey n (edgeKey x y e) := by
  unfold edgeKey shiftKey
  rw [ofLex_toLex]
  congr 2
  ring

theorem shiftKey_shiftKey (n : ℤ) (k : EdgePoint) : shiftKey n (shiftKey (-n) k) = k := by
  unfold shiftKey
  simp only [ofLex_toLex]
  rw [show (ofLex k).1 + 2 * -n + 2 * n = (ofLex k).1 by ring]
  rfl

theorem shiftKey_injective (n : ℤ) : Function.Injective (shiftKey n) := by
  intro j k h
  rw [← shiftKey_shiftKey (-n) j, ← shiftKey_shiftKey (-n) k, neg_neg, h]

namespace ElevationGrid

/-- The horizontal position of a crossing, before it is rounded. -/
def crossingX (grid : ElevationGrid) (t : ℤ) (k : EdgePoint) : ℚ :=
  let x := (ofLex k).1 / 2
  let y := (ofLex k).2 / 2
  if (ofLex k).1 % 2 = 0 then x * grid.scale
  else (x + (t - grid.value x y) / (grid.value (x + 1) y - grid.value x y)) * grid.scale

theorem crossing_x (grid : ElevationGrid) (t : ℤ) (k : EdgePoint) : (grid.crossing t k).x = f64Round (grid.crossingX t k) := by
  unfold crossing crossingX
  simp only
  split <;> rfl

/-- The level crosses the edge in a cell of the two columns from the given one on. -/
def CrossedIn (grid : ElevationGrid) (first t : ℤ) (k : EdgePoint) : Prop :=
  ∃ cell ∈ grid.cells, first ≤ cell.1 ∧ cell.1 ≤ first + 1 ∧ ∃ p ∈ grid.cellEdgesAt t cell, p.1 = k ∨ p.2 = k

/-- The polyline of the crossing has this one vertex only. -/
def Collapsed (grid : ElevationGrid) (t : ℤ) (k : EdgePoint) : Prop :=
  (∃ p ∈ grid.levelSegments t, p.1 = k ∨ p.2 = k) ∧ ∀ j, JoinedBy (grid.levelSegments t) k j →
    grid.crossing t j = grid.crossing t k

/-- The crossing is exactly between two units, to the left of the seam. -/
def TiedBefore (grid : ElevationGrid) (seam : ℚ) (t : ℤ) (k : EdgePoint) : Prop :=
  grid.crossingX t k < seam ∧ ∃ m : ℤ, grid.crossingX t k = m + 1 / 2

variable {grid : ElevationGrid} {k : EdgePoint}

/-- Where the edges of the two columns are. -/
theorem CrossedIn.bounds {first t : ℤ} (h : grid.CrossedIn first t k) :
    2 * first ≤ (ofLex k).1 ∧ (ofLex k).1 ≤ 2 * first + 4 := by
  obtain ⟨cell, -, hlow, hhigh, p, hp, hk⟩ := h
  obtain ⟨e, he, f, hf, -, rfl, -⟩ := of_mem_cellEdgesAt hp
  have hedge : ∀ e ∈ cellEdges, 2 * first ≤ (ofLex (edgeKey cell.1 cell.2 e)).1 ∧
    (ofLex (edgeKey cell.1 cell.2 e)).1 ≤ 2 * first + 4 := by
    intro e he
    have hside : 0 ≤ e.1 ∧ e.1 ≤ 2 := by
      simp only [cellEdges, List.mem_cons, List.not_mem_nil, or_false] at he
      rcases he with rfl | rfl | rfl | rfl <;> decide
    rw [edgeKey, ofLex_toLex]
    omega
  rcases hk with rfl | rfl
  · exact hedge e he
  · exact hedge f hf

theorem CrossedIn.exists_segment {first t : ℤ} (h : grid.CrossedIn first t k) :
    ∃ p ∈ grid.levelSegments t, p.1 = k ∨ p.2 = k := by
  obtain ⟨cell, hcell, -, -, p, hp, hk⟩ := h
  exact ⟨p, List.mem_flatMap.mpr ⟨cell, hcell, hp⟩, hk⟩

/-- What does not collapse is kept. -/
theorem kept_of_not_collapsed {t : ℤ} (h : ∃ p ∈ grid.levelSegments t, p.1 = k ∨ p.2 = k)
    (hnot : ¬grid.Collapsed t k) : grid.Kept t k := by
  by_contra hkept
  refine hnot ⟨h, fun j hj => ?_⟩
  by_contra hne
  exact hkept ⟨j, hj, hne⟩

theorem mem_axis {x : ℤ} : x ∈ grid.axis ↔ -1 ≤ x ∧ x ≤ grid.tile := by
  rw [axis, List.mem_map]
  constructor
  · rintro ⟨n, hn, rfl⟩
    rw [List.mem_range] at hn
    omega
  · rintro ⟨h1, h2⟩
    exact ⟨(x + 1).toNat, List.mem_range.mpr (by omega), by omega⟩

theorem mem_cells {cell : ℤ × ℤ} : cell ∈ grid.cells ↔ cell.1 ∈ grid.axis ∧ cell.2 ∈ grid.axis := by
  simp only [cells, List.mem_flatMap, List.mem_map]
  constructor
  · rintro ⟨y, hy, x, hx, rfl⟩
    exact ⟨hx, hy⟩
  · rintro ⟨hx, hy⟩
    exact ⟨cell.2, hy, cell.1, hx, rfl⟩

end ElevationGrid

section

variable {field : ℤ → ℤ → Option ℚ} {left right : DemNeighborhood}

open ElevationGrid

/-- The cells on both sides of the seam have the same corners. -/
theorem Adjacent.corners_eq (h : Adjacent field left right) {x : ℤ} (hlow : -1 ≤ x) (hhigh : x ≤ 0) (y : ℤ) :
    (smoothed left).corners (x + left.width) y = (smoothed right).corners x y := by
  unfold ElevationGrid.corners
  rw [show x + (left.width : ℤ) + 1 = x + 1 + left.width by ring, h.smoothed_eq hlow (by omega),
    h.smoothed_eq (by omega) (by omega),
    h.smoothed_eq (by omega) (by omega), h.smoothed_eq hlow (by omega)]

/-- So they have the same segments. -/
theorem Adjacent.cellEdgesAt_eq (h : Adjacent field left right) {x : ℤ} (hlow : -1 ≤ x) (hhigh : x ≤ 0) (y : ℤ) (t : ℚ) :
    (smoothed left).cellEdgesAt t (x + left.width, y) =
      ((smoothed right).cellEdgesAt t (x, y)).map (Prod.map (shiftKey left.width) (shiftKey left.width)) := by
  unfold cellEdgesAt
  simp only [h.corners_eq hlow hhigh]
  cases (smoothed right).corners x y with
  | none => rfl
  | some c => simp only [List.map_map, Function.comp_def, Prod.map, edgeKey_shift]

theorem Adjacent.mem_cells_iff (h : Adjacent field left right) {x y : ℤ} (hlow : -1 ≤ x) (hhigh : x ≤ 0) :
    (x + (left.width : ℤ), y) ∈ (smoothed left).cells ↔ (x, y) ∈ (smoothed right).cells := by
  have htile : (smoothed right).tile = (smoothed left).tile := h.width_eq
  have hwidth : (smoothed left).tile = left.width := rfl
  rw [mem_cells, mem_axis, mem_axis, mem_cells, mem_axis, mem_axis]
  simp only
  omega

/-- A crossing next to the seam is one of both tiles. -/
theorem Adjacent.crossedIn_iff (h : Adjacent field left right) (t : ℤ) (k : EdgePoint) :
    (smoothed left).CrossedIn (left.width - 1) t (shiftKey left.width k) ↔ (smoothed right).CrossedIn (-1) t k := by
  have hinj : ∀ {j : EdgePoint}, shiftKey left.width j = shiftKey left.width k ↔ j = k :=
    fun {j} => (shiftKey_injective left.width).eq_iff
  constructor
  · rintro ⟨⟨x, y⟩, hcell, hlow, hhigh, p, hp, hpk⟩
    simp only at hlow hhigh
    obtain ⟨x', rfl⟩ : ∃ x', x = x' + left.width := ⟨x - left.width, by ring⟩
    rw [h.mem_cells_iff (by omega) (by omega)] at hcell
    rw [h.cellEdgesAt_eq (by omega) (by omega)] at hp
    obtain ⟨q, hq, rfl⟩ := List.mem_map.mp hp
    exact ⟨(x', y), hcell, by simp only; omega, by simp only; omega, q, hq, hpk.imp hinj.mp hinj.mp⟩
  · rintro ⟨⟨x, y⟩, hcell, hlow, hhigh, p, hp, hpk⟩
    simp only at hlow hhigh
    refine ⟨(x + left.width, y), (h.mem_cells_iff hlow (by omega)).mpr hcell, by simp only; omega, by simp only; omega,
      Prod.map (shiftKey left.width) (shiftKey left.width) p, ?_, hpk.imp hinj.mpr hinj.mpr⟩
    rw [h.cellEdgesAt_eq hlow (by omega)]
    exact List.mem_map_of_mem hp

/-- The tiles see such a crossing at the same place. -/
theorem Adjacent.crossing_eq (h : Adjacent field left right) {t : ℤ} {k : EdgePoint} (hk : (smoothed right).CrossedIn (-1) t k) :
    (smoothed left).crossingX t (shiftKey left.width k) = (smoothed right).crossingX t k + defaultExtent ∧
      ((smoothed left).crossing t (shiftKey left.width k)).y = ((smoothed right).crossing t k).y := by
  obtain ⟨hlow, hhigh⟩ := hk.bounds
  have hhalf : ((ofLex k).1 + 2 * (left.width : ℤ)) / 2 = (ofLex k).1 / 2 + left.width := by omega
  have hparity : ((ofLex k).1 + 2 * (left.width : ℤ)) % 2 = (ofLex k).1 % 2 := by omega
  have hvalue := h.value_eq (x := (ofLex k).1 / 2) (by omega) (by omega)
  unfold crossingX crossing shiftKey
  simp only [ofLex_toLex, hhalf, hparity, hvalue, ← h.scale_eq, Int.cast_add, Int.cast_natCast]
  split
  · exact ⟨mul_scale_width left _, rfl⟩
  · have hnext := h.value_eq (x := (ofLex k).1 / 2 + 1) (by omega) (by omega)
    have hright : (ofLex k).1 / 2 + (left.width : ℤ) + 1 = (ofLex k).1 / 2 + 1 + left.width := by ring
    rw [hright, hnext, add_right_comm, mul_scale_width]
    exact ⟨rfl, rfl⟩

/-- And they round it to the same vertex, when it is not tied. -/
theorem Adjacent.vertex_eq (h : Adjacent field left right) {t : ℤ} {k : EdgePoint} (hk : (smoothed right).CrossedIn (-1) t k)
    (htied : ¬(smoothed right).TiedBefore 0 t k) :
    (smoothed left).crossing t (shiftKey left.width k) =
      ⟨((smoothed right).crossing t k).x + defaultExtent, ((smoothed right).crossing t k).y⟩ := by
  obtain ⟨hx, hy⟩ := h.crossing_eq hk
  have hround := f64Round_add defaultExtent htied (by decide)
  rw [← hx, ← crossing_x, ← crossing_x] at hround
  rw [← hround, ← hy]

end

/-! ## Slopes -/

/-- A pass preserves what is linear. -/
theorem binomialPass_linear {tile : Nat} {values : ℤ → Option ℚ} {lane : ℤ} (hlane : -1 ≤ lane ∧ lane ≤ tile + 1) {a b : ℚ}
    (h : ∀ offset : ℤ, -1 ≤ offset → offset ≤ 1 → values (lane + offset) = some (a * (lane + offset) + b)) :
    binomialPass tile values lane = some (a * lane + b) := by
  have hvalues : values (lane + -1) = some (a * (lane - 1) + b) ∧ values (lane + 0) = some (a * lane + b) ∧
      values (lane + 1) = some (a * (lane + 1) + b) := by
    refine ⟨?_, ?_, ?_⟩
    · rw [h (-1) le_rfl (by decide)]
      push_cast
      rw [sub_eq_add_neg]
    · rw [h 0 (by decide) (by decide)]
      push_cast
      rw [add_zero]
    · rw [h 1 (by decide) le_rfl]
      push_cast
      rfl
  have hinside : ∀ offset : ℤ, -1 ≤ offset → offset ≤ 1 → ¬(lane + offset < -2 ∨ (tile : ℤ) + 2 < lane + offset) := by omega
  unfold binomialPass
  simp only [List.filterMap_cons, List.filterMap_nil, if_neg (hinside (-1) le_rfl (by decide)),
    if_neg (hinside 0 (by decide) (by decide)), if_neg (hinside 1 (by decide) le_rfl), hvalues, Option.map_some, List.map_cons,
    List.map_nil, List.sum_cons, List.sum_nil]
  rw [if_neg (by norm_num)]
  congr 1
  ring

variable {neighborhood : DemNeighborhood} {a b : ℚ}

theorem gridElevation_slope (h : neighborhood.CutFrom fun x _ => some (a * x + b)) {x : ℤ} (hlow : -2 ≤ x)
    (hhigh : x ≤ neighborhood.width + 2) (y : ℤ) : neighborhood.gridElevation x y = some (a * x + (b - a / 2)) := by
  have hwidth : 3 ≤ neighborhood.width := neighborhood.width_ge
  unfold DemNeighborhood.gridElevation
  rw [h.get_eq (by omega) (by omega), h.get_eq (by omega) (by omega), h.get_eq (by omega) (by omega),
    h.get_eq (by omega) (by omega)]
  simp only [average, List.filterMap_cons, List.filterMap_nil, id, List.length_cons, List.length_nil, List.sum_cons, List.sum_nil]
  rw [if_neg (by decide)]
  congr 1
  push_cast
  ring

/-- The smoothing does not move the contours of a uniform slope. -/
theorem smoothed_slope (h : neighborhood.CutFrom fun x _ => some (a * x + b)) {x y : ℤ} (hx : -1 ≤ x ∧ x ≤ neighborhood.width + 1)
    (hy : -1 ≤ y ∧ y ≤ neighborhood.width + 1) : (ElevationGrid.smoothed neighborhood).values x y =
      some (a * x + (b - a / 2)) := by
  have hhorizontal : ∀ y, binomialPass neighborhood.width (fun x => neighborhood.gridElevation x y) x =
    some (a * x + (b - a / 2)) := by
    intro y
    refine binomialPass_linear hx fun offset h1 h2 => ?_
    rw [gridElevation_slope h (by omega) (by omega)]
    push_cast
    rfl
  have hvertical : binomialPass neighborhood.width (fun y =>
    binomialPass neighborhood.width (fun x => neighborhood.gridElevation x y) x) y =
      some (0 * y + (a * x + (b - a / 2))) := binomialPass_linear hy fun offset _ _ => by rw [hhorizontal, zero_mul, zero_add]
  rwa [zero_mul, zero_add] at hvertical

/-- Only the corners of the cells matter. -/
theorem ElevationGrid.marchingSquares_congr {grid grid' : ElevationGrid} (htile : grid.tile = grid'.tile)
    (h : ∀ cell ∈ grid.cells, grid.corners cell.1 cell.2 = grid'.corners cell.1 cell.2) (interval : ℤ) :
    grid.marchingSquares interval = grid'.marchingSquares interval := by
  have hcells : grid.cells = grid'.cells := by rw [cells, cells, axis, axis, htile]
  have hscale : grid.scale = grid'.scale := by rw [scale, scale, htile]
  unfold marchingSquares marchingSquaresWith
  rw [← hcells, ← hscale]
  congr 2
  refine List.flatMap_congr fun cell hcell => ?_
  unfold cellSegments
  rw [h cell hcell]

end Biei.Terrain
