import Biei.Lib.Flood
import Biei.Lib.OrderedMap
import Biei.Lib.Selection

/-!
# Speckles

`remove_speckles` of `hillshade.rs`: in a grid of labels, a region of a single cell away from the outer edge is merged into what
is around it. Regions that stay are settled; of the others, those next to a settled one are settled in rounds.
-/

namespace Biei.Terrain

/-- The labels of a grid, row by row. -/
abbrev LabelGrid (width height : Nat) := Fin (width * height) → ℤ

/-- `neighbors4`. -/
def neighbors4 (x y width height : Nat) : List (Option Nat) :=
  [if 0 < y then some ((y - 1) * width + x) else none,
    if x + 1 < width then some (y * width + x + 1) else none,
    if y + 1 < height then some ((y + 1) * width + x) else none,
    if 0 < x then some (y * width + x - 1) else none]

/-- The cells next to a cell. -/
def cellNeighbors {width height : Nat} (index : Fin (width * height)) : List (Fin (width * height)) :=
  (neighbors4 (index % width) (index / width) width height).reduceOption.filterMap fun neighbor =>
    if h : neighbor < width * height then some ⟨neighbor, h⟩ else none

def touchesOuterEdge {width height : Nat} (index : Fin (width * height)) : Bool :=
  let x := index % width
  let y := index / width
  x = 0 ∨ y = 0 ∨ x + 1 = width ∨ y + 1 = height

/-! ## Regions -/

/-- `MIN_REGION_CELLS`. -/
def minRegionCells : Nat := 2

structure Component (width height : Nat) where
  label : ℤ
  cells : List (Fin (width * height))
  touchesOuterEdge : Bool

/-- A region that stays as it is. -/
def Component.stable {width height : Nat} (component : Component width height) : Bool :=
  decide (minRegionCells ≤ component.cells.length) || component.touchesOuterEdge

section

variable {width height : Nat} (labels : LabelGrid width height)

/-- The component of each cell, and the first cell and all cells of each component. -/
def searchComponents : (Fin (width * height) → Option Nat) × List (Fin (width * height) × List (Fin (width * height))) :=
  Flood.search cellNeighbors labels (List.finRange (width * height)) (fun _ => none) []

def componentAt : Fin (width * height) → Option Nat := (searchComponents labels).1

def components : List (Component width height) :=
  (searchComponents labels).2.map fun found => ⟨labels found.1, found.2, found.2.any touchesOuterEdge⟩

/-- A side of a component is counted for the one beyond it. -/
def countSide (id : Nat) (counts : OrderedMap Nat Nat) (neighbor : Fin (width * height)) : OrderedMap Nat Nat :=
  match componentAt labels neighbor with
  | some other => if other ≠ id then counts.insert other ((counts.get? other).getD 0 + 1) else counts
  | none => counts

/-- How many sides a component has in common with each other one. -/
def adjacency (id : Nat) (component : Component width height) : OrderedMap Nat Nat :=
  (component.cells.flatMap cellNeighbors).foldl (countSide labels id) OrderedMap.empty

/-- The components, each with its neighbours. -/
def regions : List (Component width height × OrderedMap Nat Nat) :=
  (components labels).zipIdx.map fun component => (component.1, adjacency labels component.2 component.1)

end

/-! ## Rounds -/

/-- What makes a label the better replacement: many sides, a label close to the old one, a label close to zero, and a small
label. -/
def replacementKey (label : ℤ) (candidate : ℤ × Nat) : ℕ ×ₗ ℕᵒᵈ ×ₗ ℕᵒᵈ ×ₗ ℤᵒᵈ :=
  toLex (candidate.2, toLex (OrderDual.toDual (candidate.1 - label).natAbs,
    toLex (OrderDual.toDual candidate.1.natAbs, OrderDual.toDual candidate.1)))

/-- The label that a component takes over from those next to it that are settled. -/
def replacement {width height : Nat} (resolved : List (Option ℤ)) (region : Component width height × OrderedMap Nat Nat) :
    Option ℤ :=
  let candidates := region.2.toList.filterMap fun entry => (resolved.getD entry.1 none).map fun label => (label, entry.2)
  (maxByKey? (replacementKey region.1.label) candidates).map Prod.fst

/-- What is settled in one round. -/
def settled {width height : Nat} (regions : List (Component width height × OrderedMap Nat Nat)) (resolved : List (Option ℤ)) :
    List (Nat × ℤ) :=
  (regions.zip resolved).zipIdx.filterMap fun entry =>
    if entry.1.2.isSome then none else (replacement resolved entry.1.1).map fun label => (entry.2, label)

/-- The end of a round. -/
def settle (round : List (Nat × ℤ)) (resolved : List (Option ℤ)) : List (Option ℤ) :=
  round.foldl (fun resolved entry => resolved.set entry.1 (some entry.2)) resolved

/-- A round settles the regions in their places. -/
theorem length_settle (round : List (Nat × ℤ)) (resolved : List (Option ℤ)) :
    (settle round resolved).length = resolved.length := by
  induction round generalizing resolved with
  | nil => rfl
  | cons entry round ih => exact (ih _).trans List.length_set

/-- The settled regions are those with a label. -/
theorem mem_settled {width height : Nat} {regions : List (Component width height × OrderedMap Nat Nat)}
    {resolved : List (Option ℤ)}
    {id : Nat} {label : ℤ} : (id, label) ∈ settled regions resolved ↔
      ∃ region, regions[id]? = some region ∧ resolved[id]? = some none ∧ replacement resolved region = some label := by
  unfold settled
  rw [List.mem_filterMap]
  constructor
  · rintro ⟨⟨⟨region, now⟩, id'⟩, hmem, hsome⟩
    have hzip := List.mem_zipIdx_iff_getElem?.mp hmem
    dsimp only at hzip hsome
    split at hsome
    · cases hsome
    · rename_i hnone
      obtain ⟨label', hlabel, heq⟩ := Option.map_eq_some_iff.mp hsome
      cases heq
      obtain ⟨hregion, hnow⟩ := List.getElem?_zip_eq_some.mp hzip
      rw [Option.not_isSome_iff_eq_none] at hnone
      exact ⟨region, hregion, hnone ▸ hnow, hlabel⟩
  · rintro ⟨region, hregion, hnow, hlabel⟩
    refine ⟨((region, none), id), List.mem_zipIdx_iff_getElem?.mpr (List.getElem?_zip_eq_some.mpr ⟨hregion, hnow⟩), ?_⟩
    simp [hlabel]

/-- A round leaves less to settle. -/
theorem count_settle_lt {round : List (Nat × ℤ)} {resolved : List (Option ℤ)} (hsome : round ≠ [])
    (hround : ∀ entry ∈ round, resolved[entry.1]? = some none) : (settle round resolved).count none < resolved.count none := by
  have hset : ∀ (resolved : List (Option ℤ)) (entry : Nat × ℤ),
    (resolved.set entry.1 (some entry.2)).count none ≤ resolved.count none := by
    intro resolved entry
    by_cases hlt : entry.1 < resolved.length
    · rw [List.count_set hlt]
      simp
    · rw [List.set_eq_of_length_le (Nat.not_lt.mp hlt)]
  have hle : ∀ (round : List (Nat × ℤ)) (resolved : List (Option ℤ)),
    (settle round resolved).count none ≤ resolved.count none := by
    intro round
    induction round with
    | nil => exact fun _ => Nat.le_refl _
    | cons entry round ih => exact fun resolved => (ih _).trans (hset resolved entry)
  rcases round with _ | ⟨entry, round⟩
  · exact absurd rfl hsome
  · refine lt_of_le_of_lt (hle round _) ?_
    obtain ⟨hlt, hnone⟩ := List.getElem?_eq_some_iff.mp (hround entry List.mem_cons_self)
    have hpos : 0 < resolved.count none := List.count_pos_iff.mpr (hnone ▸ List.getElem_mem hlt)
    rw [List.count_set hlt, hnone, if_pos (beq_self_eq_true none), if_neg (by nofun)]
    omega

/-- The rounds, until nothing is settled any more. -/
def resolve {width height : Nat} (regions : List (Component width height × OrderedMap Nat Nat)) (resolved : List (Option ℤ)) :
    List (Option ℤ) :=
  if _h : settled regions resolved = [] then resolved else resolve regions (settle (settled regions resolved) resolved)
termination_by resolved.count none
decreasing_by
  refine count_settle_lt _h fun entry hentry => ?_
  obtain ⟨-, -, hnone, -⟩ := mem_settled.mp hentry
  exact hnone

/-! ## Relabelling -/

/-- The cells of a component that does not stay get the label that this has taken over. -/
def takeOver {width height : Nat} (labels : LabelGrid width height) (entry : Component width height × Option ℤ) :
    LabelGrid width height :=
  if entry.1.stable then labels
  else
    match entry.2 with
    | some replacement => entry.1.cells.foldl (fun labels index => Function.update labels index replacement) labels
    | none => labels

/-- `remove_speckles`. -/
def removeSpeckles {width height : Nat} (labels : LabelGrid width height) : LabelGrid width height :=
  let regions := regions labels
  let resolved := resolve regions (regions.map fun region => if region.1.stable then some region.1.label else none)
  ((components labels).zip resolved).foldl takeOver labels

end Biei.Terrain
