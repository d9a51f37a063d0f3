import Biei.Lemmas.Seam

/-! # Contour lines lose and duplicate nothing -/

namespace Biei.Terrain

/-- What is guaranteed of the polylines of a level, as the edges that they cross. -/
structure ElevationGrid.StitchedAt (grid : ElevationGrid) (t : ℤ) (lines : List (List EdgePoint)) : Prop where
  /-- Their steps are the segments of the level. -/
  segments : (lines.flatMap steps).Perm (grid.levelSegments t)
  long : ∀ l ∈ lines, 2 ≤ l.length
  /-- A polyline is closed, or starts and ends on edges that only one cell with data has. -/
  ends : ∀ l ∈ lines, l.head? = l.getLast? ∨ ∃ a b, l.head? = some a ∧ l.getLast? = some b ∧ grid.AtBorder a ∧ grid.AtBorder b
  /-- No two could be joined. -/
  apart : lines.Pairwise fun l m => l.getLast? ≠ m.head? ∧ m.getLast? ≠ l.head?

/-- What is stitched of all segments of a level. -/
theorem Level.Stitched.stitchedAt {grid : ElevationGrid} {t : ℤ} {s : Level EdgePoint} (h : s.Stitched (grid.levelSegments t)) :
    grid.StitchedAt t s.lines := by
  have htraced := h.traced
  have hsources : ((grid.levelSegments t).map Prod.fst).Nodup := ElevationGrid.levelSegments_sources t
  have htargets : ((grid.levelSegments t).map Prod.snd).Nodup := ElevationGrid.levelSegments_targets t
  rw [h.lines_eq]
  refine ⟨htraced.perm, htraced.long, fun l hl => ?_, htraced.not_joinable hsources htargets⟩
  rcases List.mem_append.mp hl with hclosed | hopened
  · exact Or.inl (htraced.returns l hclosed)
  · obtain ⟨a, b, ha, hb⟩ := htraced.exists_ends hl
    obtain ⟨c, hc⟩ := exists_step_of_head ha (htraced.long l hl)
    obtain ⟨d, hd⟩ := exists_step_of_last hb (htraced.long l hl)
    have hsource : a ∈ (grid.levelSegments t).map Prod.fst := List.mem_map.mpr ⟨(a, c), htraced.mem_edges hl hc, rfl⟩
    have htarget : b ∈ (grid.levelSegments t).map Prod.snd := List.mem_map.mpr ⟨(d, b), htraced.mem_edges hl hd, rfl⟩
    refine Or.inr ⟨a, b, ha, hb, ?_, ?_⟩
    · exact ElevationGrid.atBorder_of_source hsource (htraced.head_not_entered hsources hopened ha)
    · exact ElevationGrid.atBorder_of_target htarget (htraced.last_not_left htargets hopened hb)

/-- Marching squares stitches every segment of every level exactly once, and its `expect` does not fail. -/
theorem contours_stitched (grid : ElevationGrid) {interval : ℤ} (hinterval : 0 < interval) :
    ∃ lines : OrderedMap ℤ (List (List EdgePoint)),
      grid.marchingSquares interval = some (lines.mapValues fun t ls => ls.map (List.map (grid.crossing t))) ∧
        ∀ t, (interval ∣ t → grid.StitchedAt t ((lines.get? t).getD [])) ∧ (¬interval ∣ t → lines.get? t = none) := by
  obtain ⟨levels, hlevels, hstitched⟩ := grid.exists_stitched hinterval
  refine ⟨levels.mapValues fun _ level => level.lines, ?_, fun t => ⟨fun hdvd => ?_, fun hdvd => ?_⟩⟩
  · rw [hlevels]
    refine congrArg some (OrderedMap.ext_get? fun t => ?_)
    simp only [OrderedMap.get?_mapValues, Option.map_map, Function.comp_def]
  · have hlines : ((levels.mapValues fun _ level => level.lines).get? t).getD [] = (levelOf levels t).lines := by
      rw [OrderedMap.get?_mapValues, levelOf]
      cases levels.get? t <;> rfl
    rw [hlines]
    exact ((hstitched t).1 hdvd).stitchedAt
  · rw [OrderedMap.get?_mapValues, (hstitched t).2 hdvd, Option.map_none]

namespace ContourExample

/-- One peak in a tile of two by two cells. -/
def peak : ElevationGrid := ⟨fun x y => some (if x = 1 ∧ y = 1 then 15 else 5), 2⟩

end ContourExample

open ContourExample in
/-- Around the peak there is one closed polyline. -/
theorem contours_stitched_peak :
    (peak.marchingSquares 10).map (fun lines => lines.toList) =
        some [(10, [[⟨3072, 2048⟩, ⟨2048, 1024⟩, ⟨1024, 2048⟩, ⟨2048, 3072⟩, ⟨3072, 2048⟩]])] ∧
      ∃ lines : OrderedMap ℤ (List (List EdgePoint)),
        peak.marchingSquares 10 = some (lines.mapValues fun t ls => ls.map (List.map (peak.crossing t))) ∧
          ∀ t, (10 ∣ t → peak.StitchedAt t ((lines.get? t).getD [])) ∧ (¬10 ∣ t → lines.get? t = none) :=
  ⟨by decide +kernel, contours_stitched peak (by decide)⟩

/-! ## The seam of two contour tiles -/

open ElevationGrid

/-- What the tiles emit within one source pixel of their common edge is the same, in the coordinates of the right one. -/
def SeamExact (left right : DemNeighborhood) (zoom : UInt8) : Prop :=
  ∃ lefts rights, generate left zoom = some lefts ∧ generate right zoom = some rights ∧
    ∀ t v, |v.x| ≤ pinMargin right → (Emits lefts t ⟨v.x + defaultExtent, v.y⟩ ↔ Emits rights t v)

/-- What can go wrong with a crossing of the right tile: no cell of the columns that both tiles have crosses it, it is exactly
between two units to the left of the seam, or its polyline collapses in the left tile. -/
def ExposedRight (left right : DemNeighborhood) (t : ℤ) (k : EdgePoint) : Prop :=
  ¬(smoothed right).CrossedIn (-1) t k ∨ (smoothed right).TiedBefore 0 t k ∨ (smoothed left).Collapsed t (shiftKey left.width k)

/-- And with one of the left tile. -/
def ExposedLeft (left right : DemNeighborhood) (t : ℤ) (k : EdgePoint) : Prop :=
  ¬(smoothed left).CrossedIn (left.width - 1) t k ∨ (smoothed left).TiedBefore defaultExtent t k ∨
    (smoothed right).Collapsed t (shiftKey (-left.width) k)

/-- Wherever something goes wrong with a crossing near the seam, the other tile has another crossing with its vertex. -/
structure SeamCovered (left right : DemNeighborhood) (t : ℤ) : Prop where
  of_right : ∀ k, (smoothed right).Kept t k → |((smoothed right).crossing t k).x| ≤ pinMargin right →
    ExposedRight left right t k →
    ∃ j, (smoothed left).Kept t j ∧
      (smoothed left).crossing t j = ⟨((smoothed right).crossing t k).x + defaultExtent, ((smoothed right).crossing t k).y⟩
  of_left : ∀ k, (smoothed left).Kept t k → |((smoothed left).crossing t k).x - defaultExtent| ≤ pinMargin right →
    ExposedLeft left right t k →
    ∃ j, (smoothed right).Kept t j ∧
      (smoothed right).crossing t j = ⟨((smoothed left).crossing t k).x - defaultExtent, ((smoothed left).crossing t k).y⟩

section

variable {field : ℤ → ℤ → Option ℚ} {left right : DemNeighborhood}

/-- Nothing goes wrong with a crossing of the right tile: the left one has it. -/
theorem Adjacent.kept_left (h : Adjacent field left right) {t : ℤ} {k : EdgePoint} (hexposed : ¬ExposedRight left right t k) :
    (smoothed left).Kept t (shiftKey left.width k) ∧
      (smoothed left).crossing t (shiftKey left.width k) =
        ⟨((smoothed right).crossing t k).x + defaultExtent, ((smoothed right).crossing t k).y⟩ := by
  obtain ⟨hcrossed, hexposed⟩ := not_or.mp hexposed
  obtain ⟨htied, hcollapsed⟩ := not_or.mp hexposed
  rw [not_not] at hcrossed
  refine ⟨kept_of_not_collapsed ?_ hcollapsed, h.vertex_eq hcrossed htied⟩
  exact ((h.crossedIn_iff t k).mpr hcrossed).exists_segment

/-- And nothing with one of the left tile: the right one has it. -/
theorem Adjacent.kept_right (h : Adjacent field left right) {t : ℤ} {k : EdgePoint} (hexposed : ¬ExposedLeft left right t k) :
    (smoothed right).Kept t (shiftKey (-left.width) k) ∧
      (smoothed right).crossing t (shiftKey (-left.width) k) =
        ⟨((smoothed left).crossing t k).x - defaultExtent, ((smoothed left).crossing t k).y⟩ := by
  obtain ⟨hcrossed, hexposed⟩ := not_or.mp hexposed
  obtain ⟨htied, hcollapsed⟩ := not_or.mp hexposed
  rw [not_not] at hcrossed
  have hk := shiftKey_shiftKey left.width k
  generalize shiftKey (-left.width) k = j at hk hcollapsed ⊢
  subst hk
  rw [h.crossedIn_iff] at hcrossed
  refine ⟨kept_of_not_collapsed hcrossed.exists_segment hcollapsed, ?_⟩
  have htied' : ¬(smoothed right).TiedBefore 0 t j := by
    rintro ⟨hbefore, m, hm⟩
    refine htied ⟨?_, m + defaultExtent, ?_⟩
    · rw [(h.crossing_eq hcrossed).1]
      linarith
    · rw [(h.crossing_eq hcrossed).1, hm]
      push_cast
      ring
  rw [h.vertex_eq hcrossed htied', add_sub_cancel_right]

/-- Near the seam a vertex is pinned, in both tiles. -/
theorem Adjacent.pinned_of_near (h : Adjacent field left right) {v : MvtCoord} (hnear : |v.x| ≤ pinMargin right) :
    pinned right v = true ∧ pinned left ⟨v.x + defaultExtent, v.y⟩ = true := by
  obtain ⟨hlow, hhigh⟩ := abs_le.mp hnear
  have hmargin : pinMargin left = pinMargin right := by rw [pinMargin, pinMargin, h.width_eq]
  unfold pinned
  rw [hmargin]
  refine ⟨?_, ?_⟩
  · rw [decide_eq_true hhigh]
    rfl
  · have hpin : defaultExtent - pinMargin right ≤ v.x + defaultExtent := by omega
    simp only [decide_eq_true hpin, Bool.or_true, Bool.true_or]

end

/-- Two adjacent tiles agree on their seam exactly when what goes wrong there is covered, on every level. -/
theorem seam_exact_iff_covered {field : ℤ → ℤ → Option ℚ} {left right : DemNeighborhood} (h : Adjacent field left right)
    (zoom : UInt8) :
    SeamExact left right zoom ↔ ∀ t, contourInterval zoom ∣ t → SeamCovered left right t := by
  obtain ⟨lefts, hlefts, hemits⟩ := generate_emits left zoom
  obtain ⟨rights, hrights, hemits'⟩ := generate_emits right zoom
  constructor
  · rintro ⟨lefts', rights', hlefts', hrights', hsame⟩ t hdvd
    cases hlefts.symm.trans hlefts'
    cases hrights.symm.trans hrights'
    refine ⟨fun k hkept hnear _ => ?_, fun k hkept hnear _ => ?_⟩
    · obtain ⟨hright, hleft⟩ := h.pinned_of_near hnear
      have hemitted := (hemits' t _ hright).mpr ⟨hdvd, k, hkept, rfl⟩
      exact ((hemits t _ hleft).mp ((hsame t _ hnear).mpr hemitted)).2
    · have hshifted : ∀ v : MvtCoord, (⟨v.x - defaultExtent + defaultExtent, v.y⟩ : MvtCoord) = v :=
        fun v => by rw [sub_add_cancel]
      obtain ⟨hright, hleft⟩ := h.pinned_of_near (v := ⟨((smoothed left).crossing t k).x - defaultExtent, _⟩) hnear
      have hemitted := (hemits t _ hleft).mpr ⟨hdvd, k, hkept, (hshifted _).symm⟩
      exact ((hemits' t _ hright).mp ((hsame t ⟨_, ((smoothed left).crossing t k).y⟩ hnear).mp hemitted)).2
  · intro hcovered
    refine ⟨lefts, rights, hlefts, hrights, fun t v hnear => ?_⟩
    obtain ⟨hright, hleft⟩ := h.pinned_of_near hnear
    rw [hemits t _ hleft, hemits' t _ hright]
    refine and_congr_right fun hdvd => ⟨?_, ?_⟩
    · rintro ⟨k, hkept, hk⟩
      have hx : ((smoothed left).crossing t k).x - defaultExtent = v.x := by rw [hk, add_sub_cancel_right]
      have hpartner : ∃ j, (smoothed right).Kept t j ∧
          (smoothed right).crossing t j = ⟨((smoothed left).crossing t k).x - defaultExtent,
            ((smoothed left).crossing t k).y⟩ := by
        by_cases hexposed : ExposedLeft left right t k
        · exact (hcovered t hdvd).of_left k hkept (by rw [hx]; exact hnear) hexposed
        · exact ⟨_, h.kept_right hexposed⟩
      obtain ⟨j, hj, hvertex⟩ := hpartner
      refine ⟨j, hj, ?_⟩
      rw [hvertex, hx, hk]
    · rintro ⟨k, hkept, rfl⟩
      by_cases hexposed : ExposedRight left right t k
      · exact (hcovered t hdvd).of_right k hkept hnear hexposed
      · exact ⟨_, h.kept_left hexposed⟩

namespace SeamExample

/-- A slope whose contour of level zero is one half unit to the left of the seam of two tiles of four by four pixels. -/
def slope (x _ : ℤ) : Option ℚ := some (8 * x + (1 / 256 - 28))

def left : DemNeighborhood := .cut 4 4 (by decide) (by decide) slope

def right : DemNeighborhood := .cut 4 4 (by decide) (by decide) fun x y => slope (x + 4) y

theorem adjacent : Adjacent slope left right := ⟨DemNeighborhood.cut_cutFrom _ _ _, DemNeighborhood.cut_cutFrom _ _ _, rfl, rfl⟩

/-- The smoothed grid of a slope. -/
def plane (c : ℚ) : ElevationGrid := ⟨fun x _ => some (8 * x + c), 4⟩

/-- A tile of a slope is that of its plane. -/
theorem generate_slope {neighborhood : DemNeighborhood} {b : ℚ} (h : neighborhood.CutFrom fun x _ => some (8 * x + b))
    (hwidth : neighborhood.width = 4) (zoom : UInt8) :
    generate neighborhood zoom =
      ((plane (b - 8 / 2)).marchingSquares (contourInterval zoom)).map fun isolines =>
        isolines.toList.filterMap fun isoline => contourFeature neighborhood (levelsForZoom zoom) isoline.1 isoline.2 := by
  have hcorners : ∀ cell ∈ (smoothed neighborhood).cells,
      (smoothed neighborhood).corners cell.1 cell.2 = (plane (b - 8 / 2)).corners cell.1 cell.2 := by
    intro cell hcell
    rw [mem_cells, mem_axis, mem_axis, show (smoothed neighborhood).tile = neighborhood.width from rfl] at hcell
    unfold ElevationGrid.corners
    rw [smoothed_slope h (by omega) (by omega), smoothed_slope h (by omega) (by omega), smoothed_slope h (by omega) (by omega),
      smoothed_slope h (by omega) (by omega)]
    rfl
  have hsquares : (smoothed neighborhood).marchingSquares (contourInterval zoom) = (plane (b - 8 / 2)).marchingSquares
    (contourInterval zoom) :=
    marchingSquares_congr hwidth hcorners (contourInterval zoom)
  rw [generate, ← contourInterval, hsquares]

theorem generate_left : generate left 10 =
    some [⟨0, 1, [[⟨4096, -1024⟩, ⟨4096, 0⟩, ⟨4096, 1024⟩, ⟨4096, 2048⟩, ⟨4096, 3072⟩, ⟨4096, 4096⟩,
    ⟨4096, 5120⟩]]⟩] := by
  rw [generate_slope adjacent.left_cut rfl]
  decide +kernel

theorem generate_right : generate right 10 = some [⟨0, 1, [[⟨-1, -1024⟩, ⟨-1, 0⟩, ⟨-1, 1024⟩, ⟨-1, 2048⟩, ⟨-1, 3072⟩, ⟨-1, 4096⟩,
    ⟨-1, 5120⟩]]⟩] := by
  have hfield : (fun x y => slope (x + (left.width : ℤ)) y) = fun (x _ : ℤ) => some (8 * (x : ℚ) + (1 / 256 + 4)) := by
    funext x y
    rw [slope, show (left.width : ℤ) = 4 from rfl]
    push_cast
    congr 1
    ring
  rw [generate_slope (hfield ▸ adjacent.right_cut) rfl]
  decide +kernel

end SeamExample

open SeamExample in
/-- The left tile has the contour on the seam, and the right one a unit to the left of it. -/
theorem seam_tie_rounds_apart :
    Adjacent slope left right ∧
      generate left 10 = some [⟨0, 1,
        [[⟨4096, -1024⟩, ⟨4096, 0⟩, ⟨4096, 1024⟩, ⟨4096, 2048⟩, ⟨4096, 3072⟩, ⟨4096, 4096⟩, ⟨4096, 5120⟩]]⟩] ∧
      generate right 10 = some [⟨0, 1, [[⟨-1, -1024⟩, ⟨-1, 0⟩, ⟨-1, 1024⟩, ⟨-1, 2048⟩, ⟨-1, 3072⟩, ⟨-1, 4096⟩, ⟨-1, 5120⟩]]⟩] ∧
      ¬SeamExact left right 10 := by
  refine ⟨adjacent, generate_left, generate_right, ?_⟩
  rintro ⟨lefts, rights, hlefts, hrights, hsame⟩
  cases generate_left.symm.trans hlefts
  cases generate_right.symm.trans hrights
  have hnear : |(-1 : ℤ)| ≤ pinMargin right := by decide
  exact absurd ((hsame 0 ⟨-1, 0⟩ hnear).mpr (by decide)) (by decide)

open SeamExample in
/-- The slope, at another zoom. -/
theorem seam_exact_iff_covered_slope :
    Adjacent slope left right ∧ (SeamExact left right 14 ↔ ∀ t, contourInterval 14 ∣ t → SeamCovered left right t) :=
  ⟨adjacent, seam_exact_iff_covered adjacent 14⟩

/-! ## `simplify_line` is the naive elimination -/

open Elimination

/-- Twice the area of a triangle, whatever the size of its coordinates. -/
def crossProduct (a b c : MvtCoord) : Nat := ((b.x - a.x) * (c.y - a.y) - (b.y - a.y) * (c.x - a.x)).natAbs

/-- The naive algorithm: of the vertices between two neighbours that are not pinned, the one goes whose triangle is least, and of
these the first, until none is less than `SIMPLIFY_MIN_CROSS`. -/
def naiveSimplifyLine (line : List MvtCoord) (pinned : MvtCoord → Bool) : List MvtCoord :=
  (eliminate (fun a b c => crossProduct (vertex line a) (vertex line b) (vertex line c)) (fun i => !pinned (vertex line i))
    simplifyMinCross (List.range line.length)).map (vertex line)

/-- The vertices of a line, as points. -/
def linePoints (line : List MvtCoord) : List Point := line.map fun v => (v.x, v.y)

variable {line : List MvtCoord}

/-- Where the differences fit, the code finds the areas of the triangles. -/
theorem cross_eq (hfits : FitsI32 (linePoints line)) {a b c : MvtCoord} (ha : a ∈ line) (hb : b ∈ line) (hc : c ∈ line) :
    cross a b c = crossProduct a b c := by
  have hmem : ∀ v ∈ line, (v.x, v.y) ∈ linePoints line := fun v hv => List.mem_map.mpr ⟨v, hv, rfl⟩
  obtain ⟨hba, hba'⟩ := hfits _ (hmem b hb) _ (hmem a ha)
  obtain ⟨hca, hca'⟩ := hfits _ (hmem c hc) _ (hmem a ha)
  rw [cross, i32Sub_eq hba, i32Sub_eq hca', i32Sub_eq hba', i32Sub_eq hca, crossProduct]

theorem map_vertex_range (line : List MvtCoord) : (List.range line.length).map (vertex line) = line := by
  refine List.ext_getElem (by simp) fun i hi _ => ?_
  rw [List.length_map, List.length_range] at hi
  simp [vertex, hi]

/-- With the vertices that may go given by their indices. -/
theorem naiveSimplifyLine_eq (hfits : FitsI32 (linePoints line)) (pinned : MvtCoord → Bool) :
    naiveSimplifyLine line pinned = (eliminate (span line) (Simplification.mayGo (line.map pinned)) simplifyMinCross
      (List.range line.length)).map (vertex line) := by
  have hvertex : ∀ i ∈ List.range line.length, vertex line i ∈ line := fun i hi => by
    have hlt := List.mem_range.mp hi
    simp [vertex, hlt]
  refine congrArg _ (eliminate_congr (fun a ha b hb c hc => ?_) fun i hi => ?_)
  · exact (cross_eq hfits (hvertex a ha) (hvertex b hb) (hvertex c hc)).symm
  · have hlt := List.mem_range.mp hi
    simp [Simplification.mayGo, vertex, hlt]

/-- Every triangle around a vertex that is not pinned is large. -/
def Simplified (line : List MvtCoord) (pinned : MvtCoord → Bool) : Prop :=
  ∀ a b c, (a, b, c) ∈ triples line → pinned b = false → simplifyMinCross ≤ crossProduct a b c

theorem simplified_naive (line : List MvtCoord) (pinned : MvtCoord → Bool) :
    Simplified (naiveSimplifyLine line pinned) pinned := by
  intro a b c htriple hpinned
  unfold naiveSimplifyLine at htriple
  rw [triples_map, List.mem_map] at htriple
  obtain ⟨⟨i, j, k⟩, htriple, heq⟩ := htriple
  obtain ⟨rfl, rfl, rfl⟩ : vertex line i = a ∧ vertex line j = b ∧ vertex line k = c := by simpa using heq
  exact heavy_eliminate _ i j k htriple (by rw [hpinned]; rfl)

theorem naive_of_simplified {pinned : MvtCoord → Bool} (h : Simplified line pinned) : naiveSimplifyLine line pinned = line := by
  have hheavy : Heavy (fun a b c => crossProduct (vertex line a) (vertex line b) (vertex line c))
    (fun i => !pinned (vertex line i))
      simplifyMinCross (List.range line.length) := by
    intro i j k htriple hunpinned
    refine h _ _ _ ?_ (by simpa using hunpinned)
    have hmap := triples_map (vertex line) (List.range line.length)
    rw [map_vertex_range] at hmap
    rw [hmap]
    exact List.mem_map.mpr ⟨(i, j, k), htriple, rfl⟩
  unfold naiveSimplifyLine
  rw [eliminate_of_heavy hheavy, map_vertex_range]

/-- The heap removes what the naive algorithm removes, where the differences fit `i32`; and what that leaves. -/
theorem simplifyLine_eq_naive (line : List MvtCoord) (hfits : FitsI32 (linePoints line)) (pinned : MvtCoord → Bool) :
    simplifyLine line pinned = naiveSimplifyLine line pinned ∧
      (simplifyLine line pinned).Sublist line ∧
      (simplifyLine line pinned).head? = line.head? ∧
      (simplifyLine line pinned).getLast? = line.getLast? ∧
      (simplifyLine line pinned).filter pinned = line.filter pinned ∧
      (∀ a b c, (a, b, c) ∈ triples (simplifyLine line pinned) → pinned b = false → simplifyMinCross ≤ crossProduct a b c) ∧
      simplifyLine (simplifyLine line pinned) pinned = simplifyLine line pinned := by
  have hnaive : ∀ line, FitsI32 (linePoints line) → simplifyLine line pinned = naiveSimplifyLine line pinned := by
    intro line hfits
    rw [simplifyLine_eq_eliminate, naiveSimplifyLine_eq hfits]
  have hnodup : (List.range line.length).Nodup := List.nodup_range
  refine ⟨hnaive line hfits, simplifyLine_sublist, ?_, ?_, ?_, ?_, ?_⟩
  · rw [hnaive line hfits, naiveSimplifyLine, List.head?_map, (ends_eliminate _ hnodup).1, ← List.head?_map, map_vertex_range]
  · rw [hnaive line hfits, naiveSimplifyLine, List.getLast?_map, (ends_eliminate _ hnodup).2, ← List.getLast?_map,
      map_vertex_range]
  · rw [hnaive line hfits, naiveSimplifyLine, List.filter_map, filter_eliminate _ hnodup]
    · rw [← List.filter_map, map_vertex_range]
    · intro i hi
      rw [Bool.not_eq_false']
      exact hi
  · rw [hnaive line hfits]
    exact simplified_naive line pinned
  · have hsub : (linePoints (simplifyLine line pinned)).Sublist (linePoints line) := simplifyLine_sublist.map _
    rw [hnaive _ fun p hp q hq => hfits p (hsub.subset hp) q (hsub.subset hq), hnaive line hfits]
    exact naive_of_simplified (simplified_naive line pinned)

/-- A line as wide as `i32`. -/
def wideLine : List MvtCoord := [⟨-2147483648, 0⟩, ⟨2147483647, 0⟩, ⟨0, 1⟩]

/-- A vertex is removed from it, though its triangle is large: the differences wrap around. -/
theorem simplifyLine_wraps_around :
    simplifyLine wideLine (fun _ => false) = [⟨-2147483648, 0⟩, ⟨0, 1⟩] ∧ naiveSimplifyLine wideLine (fun _ => false) = wideLine ∧
      simplifyLine wideLine (fun _ => false) ≠ naiveSimplifyLine wideLine (fun _ => false) := by
  have hcode : simplifyLine wideLine (fun _ => false) = [⟨-2147483648, 0⟩, ⟨0, 1⟩] := by
    rw [simplifyLine_eq_eliminate]
    decide +kernel
  have hnaive : naiveSimplifyLine wideLine (fun _ => false) = wideLine := by
    refine naive_of_simplified fun a b c htriple _ => ?_
    obtain ⟨rfl, rfl, rfl⟩ := by simpa [wideLine, triples] using htriple
    decide
  refine ⟨hcode, hnaive, ?_⟩
  rw [hcode, hnaive]
  decide

/-- A wiggle of one unit is flattened. -/
theorem simplifyLine_eq_naive_wiggle :
    simplifyLine [⟨0, 0⟩, ⟨8, 1⟩, ⟨32, 0⟩] (fun _ => false) = naiveSimplifyLine [⟨0, 0⟩, ⟨8, 1⟩, ⟨32, 0⟩] (fun _ => false) ∧
      simplifyLine [⟨0, 0⟩, ⟨8, 1⟩, ⟨32, 0⟩] (fun _ => false) = [⟨0, 0⟩, ⟨32, 0⟩] := by
  refine ⟨(simplifyLine_eq_naive _ (by decide) _).1, ?_⟩
  rw [simplifyLine_eq_eliminate]
  decide +kernel

/-- A pinned vertex stays on a small wiggle, where the others go. -/
example : simplifyLine [⟨0, 0⟩, ⟨8, 1⟩, ⟨16, 0⟩, ⟨24, 1⟩, ⟨32, 0⟩] (fun v => v.x = 8) = [⟨0, 0⟩, ⟨8, 1⟩, ⟨32, 0⟩] := by
  rw [simplifyLine_eq_eliminate]
  decide +kernel

end Biei.Terrain
