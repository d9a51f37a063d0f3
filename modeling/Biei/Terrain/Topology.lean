import Mathlib.Data.List.Destutter
import Mathlib.Algebra.Order.Ring.Rat

/-!
# Arcs of the shared topology

The geometry the traced arcs go through before rings are assembled of them: `remove_collinear` drops, pass after pass, the
vertices that span no area with their neighbours, and `limit_penalties` replaces stretches that stay close to a line.

The vertices of the model carry a position, so that a vertex can be followed through the passes even where another one stands at
the same place, and the area is a parameter; `removeCollinear` is the code's function, on positions alone and with
`triangle_area`.
-/

namespace Biei.Terrain

/-- `Point`: a vertex on the output grid. -/
abbrev Point := ℤ × ℤ

/-- The result of an operation on `i32`, which wraps around where it does not fit. -/
def wrapI32 (z : ℤ) : ℤ := (Int32.ofInt z).toInt

/-- A number in range does not wrap. -/
theorem wrapI32_eq {z : ℤ} (h : |z| < 2 ^ 31) : wrapI32 z = z := by
  obtain ⟨hlow, hhigh⟩ := abs_lt.mp h
  rw [wrapI32, Int32.toInt_ofInt]
  exact Int.bmod_eq_of_le (by simp only [Int32.size]; omega) (by simp only [Int32.size]; omega)

/-- A difference of coordinates. -/
def i32Sub (a b : ℤ) : ℤ := wrapI32 (a - b)

/-- A difference in range does not wrap. -/
theorem i32Sub_eq {a b : ℤ} (h : |a - b| < 2 ^ 31) : i32Sub a b = a - b := wrapI32_eq h

/-- The differences of any two points fit `i32`. -/
def FitsI32 (points : List Point) : Prop :=
  ∀ p ∈ points, ∀ q ∈ points, |p.1 - q.1| < 2 ^ 31 ∧ |p.2 - q.2| < 2 ^ 31

instance : DecidablePred FitsI32 := fun points => inferInstanceAs (Decidable (∀ p ∈ points, _))

/-- `triangle_area`: twice the area of a triangle, with its sign. The products of differences in `i32` fit `i64`. -/
def triangleArea (a b c : Point) : ℤ :=
  i32Sub b.1 a.1 * i32Sub c.2 a.2 - i32Sub c.1 a.1 * i32Sub b.2 a.2

section RemoveCollinear

variable {α : Type} (area : Point → Point → Point → ℤ) (position : α → Point)

/-- The flag `keep[index]` of a pass. The ends of an open line are not looked at; the neighbours in a closed one wrap around. -/
def keeps (closed : Bool) (points : List α) (index : ℕ) : Bool :=
  if closed || (decide (1 ≤ index) && decide (index < points.length - 1)) then
    let previous := if index = 0 then points.length - 1 else index - 1
    let next := (index + 1) % points.length
    match points[previous]?, points[index]?, points[next]? with
    | some a, some b, some c => area (position a) (position b) (position c) != 0
    | _, _, _ => true
  else true

/-- One pass: `points.retain`. -/
def collinearPass (closed : Bool) (points : List α) : List α :=
  (points.zipIdx.filter fun p => keeps area position closed points p.2).map Prod.fst

/-- A pass that drops a vertex shortens the line. -/
theorem collinearPass_length_lt {closed : Bool} {points : List α}
    (h : (List.range points.length).all (keeps area position closed points) = false) :
    (collinearPass area position closed points).length < points.length := by
  obtain ⟨index, hindex, hdrop⟩ := List.all_eq_false.mp h
  have hlt := List.mem_range.mp hindex
  have hmem : (points[index], index) ∈ points.zipIdx := by simp [List.mem_zipIdx_iff_getElem?]
  rw [collinearPass, List.length_map, ← List.length_zipIdx (l := points) (i := 0)]
  refine List.length_filter_lt_length_iff_exists.mpr ⟨_, hmem, hdrop⟩

/-- The loop of `remove_collinear`: pass after pass, until too few vertices are left or a pass keeps them all. -/
def collinearLoop (closed : Bool) (points : List α) : List α :=
  if points.length ≤ (if closed then 3 else 2) then points
  else if h : (List.range points.length).all (keeps area position closed points) then points
  else collinearLoop closed (collinearPass area position closed points)
termination_by points.length
decreasing_by exact collinearPass_length_lt area position (by simpa using h)

/-- A pass only takes points away. -/
theorem collinearPass_sublist (closed : Bool) (points : List α) : (collinearPass area position closed points).Sublist points := by
  have h := (List.filter_sublist (p := fun p => keeps area position closed points p.2) (l := points.zipIdx)).map Prod.fst
  rwa [List.zipIdx_map_fst] at h

/-- The passes only take points away. -/
theorem collinearLoop_sublist (closed : Bool) (points : List α) : (collinearLoop area position closed points).Sublist points := by
  fun_induction collinearLoop area position closed points with
  | case1 points hlength => exact List.Sublist.refl _
  | case2 points hlength hkeeps => exact List.Sublist.refl _
  | case3 points hlength hkeeps ih => exact ih.trans (collinearPass_sublist area position closed points)

/-- `remove_collinear`, of vertices with a position, by the area that they span: the repeated end of a closed line is taken off
and, at last, put back. -/
def removeCollinearBy (points : List α) (closed : Bool) : List α :=
  let ring := if closed && decide (points.head?.map position = points.getLast?.map position) then points.dropLast else points
  let kept := collinearLoop area position closed ring
  if closed then kept ++ kept.head?.toList else kept

end RemoveCollinear

/-- `remove_collinear`. -/
def removeCollinear (points : List Point) (closed : Bool) : List Point :=
  removeCollinearBy triangleArea id points closed

end Biei.Terrain
