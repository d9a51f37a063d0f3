import Biei.Lib.OrderedMap
import Biei.Terrain.Dem
import Biei.Terrain.Topology

/-!
# Contour lines

`contours.rs`: marching squares over a grid of corner elevations, level by level, and the stitching of their segments into
polylines. Elevations are exact rationals, or missing; they are far inside the range of the machine's integers.
-/

namespace Biei.Terrain

/-- An edge of a cell, named by twice the coordinates of its middle; ordered as pairs are. -/
abbrev EdgePoint := ℤ ×ₗ ℤ

structure MvtCoord where
  x : ℤ
  y : ℤ
deriving DecidableEq

/-- `DEFAULT_EXTENT`. -/
def defaultExtent : ℤ := 4096

/-- `f64::round`: to the nearest integer, halves away from zero. -/
def f64Round (q : ℚ) : ℤ := if 0 ≤ q then ⌊q + 1 / 2⌋ else ⌈q - 1 / 2⌉

/-! ## Stitching -/

structure Fragment (P : Type) where
  start : EdgePoint
  stop : EdgePoint
  points : List P
deriving DecidableEq

/-- What the maps of `marching_squares` have for one level: the fragments by where they start, the starts by where they end, and
the polylines that are closed. -/
structure Level (P : Type) where
  starts : OrderedMap EdgePoint (Fragment P)
  ends : OrderedMap EdgePoint EdgePoint
  completed : List (List P)

def Level.empty {P : Type} : Level P := ⟨.empty, .empty, []⟩

/-- `stitch_segment` at one level; `none` when the `expect` fails. -/
def Level.stitchSegment {P : Type} (s : Level P) (startKey endKey : EdgePoint) (startPoint endPoint : P) : Option (Level P) :=
  match s.ends.get? startKey with
  | some fragmentStart =>
    let ends := s.ends.erase startKey
    match s.starts.get? fragmentStart with
    | none => none
    | some fragment =>
      let starts := s.starts.erase fragmentStart
      if fragment.start = endKey then some ⟨starts, ends, s.completed ++ [fragment.points ++ [endPoint]]⟩
      else
        match starts.get? endKey with
        | some other =>
          let fragment : Fragment P := ⟨fragment.start, other.stop, fragment.points ++ other.points⟩
          some
            ⟨(starts.erase endKey).insert fragment.start fragment, (ends.erase other.stop).insert fragment.stop fragment.start,
              s.completed⟩
        | none =>
          let fragment : Fragment P := ⟨fragment.start, endKey, fragment.points ++ [endPoint]⟩
          some ⟨starts.insert fragment.start fragment, ends.insert fragment.stop fragment.start, s.completed⟩
  | none =>
    match s.starts.get? endKey with
    | some fragment =>
      let fragment : Fragment P := ⟨startKey, fragment.stop, startPoint :: fragment.points⟩
      some ⟨(s.starts.erase endKey).insert fragment.start fragment, s.ends.insert fragment.stop fragment.start, s.completed⟩
    | none => some ⟨s.starts.insert startKey ⟨startKey, endKey, [startPoint, endPoint]⟩, s.ends.insert endKey startKey,
        s.completed⟩

/-- The polylines of a level: the closed ones, and then the open ones. -/
def Level.lines {P : Type} (s : Level P) : List (List P) :=
  s.completed ++ (s.starts.values.filter fun fragment => decide (2 ≤ fragment.points.length)).map Fragment.points

/-- A segment of a level, with the points that it runs between. -/
structure Segment (P : Type) where
  level : ℤ
  startKey : EdgePoint
  endKey : EdgePoint
  startPoint : P
  endPoint : P

/-- The call of `stitch_segment` for a segment. -/
def stitch {P : Type} (levels : OrderedMap ℤ (Level P)) (segment : Segment P) : Option (OrderedMap ℤ (Level P)) :=
  (((levels.get? segment.level).getD .empty).stitchSegment segment.startKey segment.endKey segment.startPoint
    segment.endPoint).map
    (levels.insert segment.level)

/-! ## Cells -/

/-- `A`, `B`, `C` and `D`: the edges of a cell. -/
abbrev CellEdge := ℤ × ℤ

def edgeA : CellEdge := (1, 0)

def edgeB : CellEdge := (2, 1)

def edgeC : CellEdge := (1, 2)

def edgeD : CellEdge := (0, 1)

/-- The elevations of a cell's corners. -/
structure Corners where
  tl : ℚ
  tr : ℚ
  br : ℚ
  bl : ℚ
deriving DecidableEq

def edgeKey (x y : ℤ) (point : CellEdge) : EdgePoint := toLex (x * 2 + point.1, y * 2 + point.2)

/-- Which corners are above the threshold, as `segments_for` reads it. -/
def caseOf (tl tr br bl : Bool) : Nat := tl.toNat * 8 + tr.toNat * 4 + br.toNat * 2 + bl.toNat

def segmentsFor (case : Nat) (saddleAbove : Bool) : List (CellEdge × CellEdge) :=
  match case with
  | 1 => [(edgeC, edgeD)]
  | 2 => [(edgeB, edgeC)]
  | 3 => [(edgeB, edgeD)]
  | 4 => [(edgeA, edgeB)]
  | 5 => if saddleAbove then [(edgeA, edgeD), (edgeC, edgeB)] else [(edgeC, edgeD), (edgeA, edgeB)]
  | 6 => [(edgeA, edgeC)]
  | 7 => [(edgeA, edgeD)]
  | 8 => [(edgeD, edgeA)]
  | 9 => [(edgeC, edgeA)]
  | 10 => if saddleAbove then [(edgeB, edgeA), (edgeD, edgeC)] else [(edgeD, edgeA), (edgeB, edgeC)]
  | 11 => [(edgeB, edgeA)]
  | 12 => [(edgeD, edgeB)]
  | 13 => [(edgeC, edgeB)]
  | 14 => [(edgeD, edgeC)]
  | _ => []

/-- `saddle_above`. -/
def Corners.saddleAbove (corners : Corners) (threshold : ℚ) : Bool :=
  let a := corners.tl - threshold
  let b := corners.tr - threshold
  let c := corners.br - threshold
  let d := corners.bl - threshold
  let denominator := a + c - b - d
  decide (denominator ≠ 0) && decide (0 < (a * c - b * d) / denominator)

/-- The segments of a cell at a threshold, between its edges. -/
def Corners.segments (corners : Corners) (threshold : ℚ) : List (CellEdge × CellEdge) :=
  segmentsFor
    (caseOf (decide (threshold < corners.tl)) (decide (threshold < corners.tr)) (decide (threshold < corners.br))
      (decide (threshold < corners.bl)))
    (corners.saddleAbove threshold)

def interpolate (x y : ℤ) (point : CellEdge) (threshold : ℚ) (corners : Corners) (scale : ℚ) : MvtCoord :=
  let ratio (a b : ℚ) : ℚ := (threshold - a) / (b - a)
  let p : ℚ × ℚ :=
    if point.1 = 0 then (x, y + ratio corners.tl corners.bl)
    else if point.1 = 2 then ((x : ℚ) + 1, y + ratio corners.tr corners.br)
    else if point.2 = 0 then (x + ratio corners.tl corners.tr, y)
    else (x + ratio corners.bl corners.br, (y : ℚ) + 1)
  ⟨f64Round (p.1 * scale), f64Round (p.2 * scale)⟩

/-- The thresholds of a cell: the multiples of the interval from its lowest corner to its highest. -/
def Corners.thresholds (corners : Corners) (interval : ℤ) : List ℤ :=
  let minimum := min (min (min corners.tl corners.tr) corners.br) corners.bl
  let maximum := max (max (max corners.tl corners.tr) corners.br) corners.bl
  let start := ⌈minimum / interval⌉ * interval
  let stop := ⌊maximum / interval⌋ * interval
  (List.range ((stop - start) / interval + 1).toNat).map fun (k : Nat) => start + k * interval

/-! ## Marching squares -/

/-- Grid-corner elevations, `none` where there is no data; `x` and `y` from `-2` to `tile + 2`. -/
structure ElevationGrid where
  values : ℤ → ℤ → Option ℚ
  tile : Nat

namespace ElevationGrid

/-- The corners of a cell, when all of them have data. -/
def corners (grid : ElevationGrid) (x y : ℤ) : Option Corners := do
  let tl ← grid.values x y
  let tr ← grid.values (x + 1) y
  let br ← grid.values (x + 1) (y + 1)
  let bl ← grid.values x (y + 1)
  some ⟨tl, tr, br, bl⟩

/-- From `-1` to the width or height of the tile. -/
def axis (grid : ElevationGrid) : List ℤ := (List.range (grid.tile + 2)).map fun (k : Nat) => (k : ℤ) - 1

/-- The cells, in the order of the scan. -/
def cells (grid : ElevationGrid) : List (ℤ × ℤ) := grid.axis.flatMap fun y => grid.axis.map fun x => (x, y)

/-- What is stitched for a cell, when `point` gives the points of its edges at a threshold. -/
def cellSegments {P : Type} (grid : ElevationGrid) (interval : ℤ) (point : ℤ → ℤ → CellEdge → ℤ → Corners → P) (cell : ℤ × ℤ) :
    List (Segment P) :=
  match grid.corners cell.1 cell.2 with
  | none => []
  | some corners =>
    (corners.thresholds interval).flatMap fun (threshold : ℤ) =>
      (corners.segments threshold).map fun segment =>
        ⟨threshold, edgeKey cell.1 cell.2 segment.1, edgeKey cell.1 cell.2 segment.2,
          point cell.1 cell.2 segment.1 threshold corners, point cell.1 cell.2 segment.2 threshold corners⟩

/-- `marching_squares` for any kind of points; `none` when the `expect` in `stitch_segment` fails. -/
def marchingSquaresWith {P : Type} (grid : ElevationGrid) (interval : ℤ) (point : ℤ → ℤ → CellEdge → ℤ → Corners → P) :
    Option (OrderedMap ℤ (List (List P))) :=
  ((grid.cells.flatMap (grid.cellSegments interval point)).foldlM stitch .empty).map (.mapValues fun _ level => level.lines)

/-- How many units of the tile a cell is wide. -/
def scale (grid : ElevationGrid) : ℚ := (defaultExtent : ℚ) / grid.tile

def marchingSquares (grid : ElevationGrid) (interval : ℤ) : Option (OrderedMap ℤ (List (List MvtCoord))) :=
  grid.marchingSquaresWith interval fun x y point threshold corners => interpolate x y point threshold corners grid.scale

end ElevationGrid

/-! ## Contour tiles

The rest of `contours.rs`: the smoothed grid of a neighbourhood, the simplification of the polylines, and `generate` up to the
encoding of its features. -/

/-- `levels_for_zoom`: the interval that is generated, and the one of the major lines. -/
def levelsForZoom (zoom : UInt8) : List ℤ :=
  if zoom ≤ 10 then [250, 500]
  else if zoom = 11 then [100, 500]
  else if zoom = 12 then [50, 200]
  else if zoom = 13 then [20, 100]
  else [10, 50]

/-! ## The smoothed grid -/

/-- `binomial_pass` at one place of a line that goes from `-2` to `tile + 2`. -/
def binomialPass (tile : Nat) (values : ℤ → Option ℚ) (lane : ℤ) : Option ℚ :=
  let samples : List (ℚ × ℚ) := [((-1 : ℤ), (1 : ℚ)), (0, 2), (1, 1)].filterMap fun w =>
    if lane + w.1 < -2 ∨ (tile : ℤ) + 2 < lane + w.1 then none else (values (lane + w.1)).map fun value => (value * w.2, w.2)
  let weight := (samples.map Prod.snd).sum
  if weight = 0 then none else some ((samples.map Prod.fst).sum / weight)

/-- `ElevationGrid::smoothed`. -/
def ElevationGrid.smoothed (neighborhood : DemNeighborhood) : ElevationGrid :=
  let tile := neighborhood.width
  let horizontal (x y : ℤ) : Option ℚ := binomialPass tile (fun x => neighborhood.gridElevation x y) x
  ⟨fun x y => binomialPass tile (horizontal x) y, tile⟩

/-! ## Simplification -/

/-- `SIMPLIFY_MIN_CROSS`. -/
def simplifyMinCross : Nat := 64

/-- `cross`: twice the area of the triangle. The products of differences in `i32` fit `i64`. -/
def cross (a b c : MvtCoord) : Nat :=
  (i32Sub b.x a.x * i32Sub c.y a.y - i32Sub b.y a.y * i32Sub c.x a.x).natAbs

/-- An entry of the heap: the area that a vertex spans, the vertex, and its stamp when it was entered; the heap pops the least. -/
abbrev HeapEntry := Nat ×ₗ Nat ×ₗ Nat

def heapEntry (area index version : Nat) : HeapEntry := toLex (area, toLex (index, version))

/-- What `simplify_line` changes: which vertices are left, how they are linked, their stamps, and the heap, least entry first. -/
structure Simplification where
  previous : List Nat
  next : List Nat
  alive : List Bool
  stamp : List Nat
  heap : List HeapEntry

namespace Simplification

section

variable (line : List MvtCoord) (keepAlways : List Bool)

/-- The area that a vertex spans with its neighbours. -/
def area (s : Simplification) (index : Nat) : Nat :=
  let point (i : Nat) : MvtCoord := line.getD i ⟨0, 0⟩
  cross (point (s.previous.getD index 0)) (point index) (point (s.next.getD index 0))

/-- A vertex that may be removed enters the heap anew when one of its neighbours is gone. -/
def touch (s : Simplification) (neighbor : Nat) : Simplification :=
  if 0 < neighbor ∧ neighbor < line.length - 1 ∧ s.alive.getD neighbor false = true ∧ keepAlways.getD neighbor false = false then
    let version := s.stamp.getD neighbor 0 + 1
    { s with
      stamp := s.stamp.set neighbor version
      heap := s.heap.orderedInsert (· ≤ ·) (heapEntry (s.area line neighbor) neighbor version) }
  else s

/-- A vertex is removed. -/
def remove (s : Simplification) (index : Nat) : Simplification :=
  let before := s.previous.getD index 0
  let after := s.next.getD index 0
  let s : Simplification :=
    { s with alive := s.alive.set index false, next := s.next.set before after, previous := s.previous.set after before }
  (s.touch line keepAlways before).touch line keepAlways after

/-- A touched neighbour adds one entry at most. -/
theorem length_touch (s : Simplification) (neighbor : Nat) :
    (s.touch line keepAlways neighbor).heap.length ≤ s.heap.length + 1 ∧ (s.touch line keepAlways neighbor).alive = s.alive := by
  unfold touch
  split
  · exact ⟨(List.orderedInsert_length _ _ _).le, rfl⟩
  · exact ⟨Nat.le_succ _, rfl⟩

/-- A removal adds two entries at most and takes one point. -/
theorem length_remove (s : Simplification) (index : Nat) :
    (s.remove line keepAlways index).heap.length ≤ s.heap.length + 2 ∧
      (s.remove line keepAlways index).alive = s.alive.set index false := by
  unfold remove
  simp only
  generalize hs' : ({ s with
    alive := s.alive.set index false
    next := s.next.set (s.previous.getD index 0) (s.next.getD index 0)
    previous := s.previous.set (s.next.getD index 0) (s.previous.getD index 0) } : Simplification) = s'
  have hheap : s'.heap = s.heap := by rw [← hs']
  have halive : s'.alive = s.alive.set index false := by rw [← hs']
  obtain ⟨h1, h2⟩ := length_touch line keepAlways s' (s.previous.getD index 0)
  obtain ⟨h3, h4⟩ := length_touch line keepAlways (s'.touch line keepAlways (s.previous.getD index 0)) (s.next.getD index 0)
  rw [hheap] at h1
  exact ⟨by omega, by rw [h4, h2, halive]⟩

/-- Removing a vertex that is there leaves one less. -/
theorem count_set_lt {alive : List Bool} {index : Nat} (h : alive.getD index false = true) :
    (alive.set index false).count true + 1 = alive.count true := by
  induction alive generalizing index with
  | nil => simp at h
  | cons b alive ih =>
    cases index with
    | zero =>
      have hb : b = true := by simpa using h
      simp [hb]
    | succ index =>
      have hrest : (alive.set index false).count true + 1 = alive.count true := ih (by simpa using h)
      simp only [List.set_cons_succ, List.count_cons]
      omega

/-- The loop of `simplify_line`, until the heap is empty or its least area is large enough. -/
def run (s : Simplification) : Simplification :=
  match hheap : s.heap with
  | [] => s
  | entry :: heap =>
    let area := (ofLex entry).1
    let index := (ofLex (ofLex entry).2).1
    let version := (ofLex (ofLex entry).2).2
    let s' := { s with heap := heap }
    if hlive : s.alive.getD index false = true ∧ version = s.stamp.getD index 0 then
      if simplifyMinCross ≤ area then s' else run (s'.remove line keepAlways index)
    else run s'
termination_by 2 * s.alive.count true + s.heap.length
decreasing_by
  · obtain ⟨hlength, halive⟩ := length_remove line keepAlways { s with heap := heap } (ofLex (ofLex entry).2).1
    have hcount : (s.alive.set (ofLex (ofLex entry).2).1 false).count true + 1 = s.alive.count true := count_set_lt hlive.1
    rw [halive, hheap, List.length_cons]
    simp only at hlength ⊢
    omega
  · rw [hheap, List.length_cons]
    omega

/-- Where the loop starts: every vertex but the ends and those to keep is in the heap. -/
def init : Simplification :=
  let n := line.length
  let s : Simplification := ⟨(List.range n).map (· - 1), (List.range n).map (· + 1), List.replicate n true,
    List.replicate n 0, []⟩
  let entries := (((List.range n).drop 1).dropLast.filter fun index => !keepAlways.getD index false).map fun index =>
    heapEntry (s.area line index) index 0
  { s with heap := entries.insertionSort (· ≤ ·) }

end

end Simplification

/-- `simplify_line`. -/
def simplifyLine (line : List MvtCoord) (pinned : MvtCoord → Bool) : List MvtCoord :=
  if line.length ≤ 2 then line
  else
    let keepAlways := line.map pinned
    let s := (Simplification.init line keepAlways).run line keepAlways
    ((line.zip s.alive).filter Prod.snd).map Prod.fst

/-! ## Generation -/

structure ContourFeature where
  /-- The tag `ele`. -/
  ele : ℤ
  /-- The tag `level`. -/
  level : Nat
  lines : List (List MvtCoord)
deriving DecidableEq

/-- `pin_margin`. -/
def pinMargin (neighborhood : DemNeighborhood) : ℤ := defaultExtent / neighborhood.width

/-- The vertices within one source pixel of the tile's edge. -/
def pinned (neighborhood : DemNeighborhood) (point : MvtCoord) : Bool :=
  decide (point.x ≤ pinMargin neighborhood) || decide (point.y ≤ pinMargin neighborhood) ||
    decide (defaultExtent - pinMargin neighborhood ≤ point.x) || decide (defaultExtent - pinMargin neighborhood ≤ point.y)

/-- What becomes of a polyline: nothing, when no two vertices are left. -/
def finishLine (neighborhood : DemNeighborhood) (line : List MvtCoord) : Option (List MvtCoord) :=
  let line := simplifyLine (line.destutter (· ≠ ·)) (pinned neighborhood)
  if 2 ≤ line.length then some line else none

/-- The feature of a level, when a line is left. -/
def contourFeature (neighborhood : DemNeighborhood) (levels : List ℤ) (elevation : ℤ) (lines : List (List MvtCoord)) :
    Option ContourFeature :=
  let lines := lines.filterMap (finishLine neighborhood)
  if lines.isEmpty then none
  else
    let level := (levels.zipIdx.filterMap fun interval =>
      if elevation % interval.1 = 0 then some interval.2 else none).max?.getD 0
    some ⟨elevation, level, lines⟩

/-- `generate`, up to the encoding of the features; `none` when the `expect` in `stitch_segment` fails. -/
def generate (neighborhood : DemNeighborhood) (zoom : UInt8) : Option (List ContourFeature) :=
  let levels := levelsForZoom zoom
  ((ElevationGrid.smoothed neighborhood).marchingSquares (levels.headD 0)).map fun isolines =>
    isolines.toList.filterMap fun isoline => contourFeature neighborhood levels isoline.1 isoline.2

end Biei.Terrain
