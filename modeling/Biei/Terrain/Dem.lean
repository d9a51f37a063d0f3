import Mathlib.Algebra.Order.Field.Rat

/-!
# Elevation tiles

`dem.rs`: decoded elevation tiles and the neighbourhood of nine of them that a derived tile is made from. An elevation is an exact
rational, or missing where the source has no finite value.
-/

namespace Biei.Terrain

structure DemTile where
  width : Nat
  height : Nat
  /-- By column and row, inside the tile. -/
  elevations : Nat → Nat → Option ℚ

/-- A centre tile and its neighbours, row by row; the centre is there and large enough, and all have its size. -/
structure DemNeighborhood where
  tiles : Fin 9 → Option DemTile
  center : DemTile
  tiles_center : tiles 4 = some center
  width_ge : 3 ≤ center.width
  height_ge : 3 ≤ center.height
  equal : ∀ i tile, tiles i = some tile → tile.width = center.width ∧ tile.height = center.height

/-- `tile_axis`: which tile a coordinate falls in, and where. -/
def tileAxis (value size : ℤ) : ℤ × ℤ :=
  if value < 0 then (-1, value + size) else if size ≤ value then (1, value - size) else (0, value)

/-- `i32::clamp`. -/
def clamp (value low high : ℤ) : ℤ := max low (min value high)

/-- The average of what there is, and nothing when there is none. -/
def average (values : List ℚ) : Option ℚ := if values.length = 0 then none else some (values.sum / values.length)

namespace DemNeighborhood

/-- The first tile of another size than the centre's. -/
def mismatched (tiles : Fin 9 → Option DemTile) (width height : Nat) : Option DemTile :=
  ((List.finRange 9).filterMap tiles).find? fun tile => decide (tile.width ≠ width ∨ tile.height ≠ height)

/-- `from_tiles`. -/
def fromTiles (tiles : Fin 9 → Option DemTile) : Except String DemNeighborhood :=
  match hcenter : tiles 4 with
  | none => .error "center DEM tile is missing"
  | some center =>
    if hsize : center.width < 3 ∨ center.height < 3 then
      .error (s!"DEM tile is too small: {center.width}x{center.height}")
    else
      match hmismatched : mismatched tiles center.width center.height with
      | some tile =>
        .error
          (s!"DEM neighborhood dimensions differ: expected {center.width}x{center.height}, got {tile.width}x{tile.height}")
      | none =>
        .ok
          { tiles := tiles
            center := center
            tiles_center := hcenter
            width_ge := by omega
            height_ge := by omega
            equal := by
              intro i tile htile
              have hmem : tile ∈ (List.finRange 9).filterMap tiles := List.mem_filterMap.mpr ⟨i, List.mem_finRange i, htile⟩
              have hequal := List.find?_eq_none.mp hmismatched tile hmem
              simp only [decide_eq_true_eq] at hequal
              omega }

variable (neighborhood : DemNeighborhood)

def width : Nat := neighborhood.center.width

def height : Nat := neighborhood.center.height

/-- `get`: reads beyond the neighbourhood are those of its border, and those of a missing neighbour are of the centre's edge. -/
def get (x y : ℤ) : Option ℚ :=
  let width : ℤ := neighborhood.width
  let height : ℤ := neighborhood.height
  let x := clamp x (-width) (2 * width - 1)
  let y := clamp y (-height) (2 * height - 1)
  let column := tileAxis x width
  let row := tileAxis y height
  match neighborhood.tiles (Fin.ofNat 9 ((row.1 + 1) * 3 + column.1 + 1).toNat) with
  | some tile => tile.elevations column.2.toNat row.2.toNat
  | none => neighborhood.center.elevations (clamp x 0 (width - 1)).toNat (clamp y 0 (height - 1)).toNat

/-- `grid_elevation`: the elevation of a corner between four pixels. -/
def gridElevation (x y : ℤ) : Option ℚ :=
  average ([neighborhood.get (x - 1) (y - 1), neighborhood.get x (y - 1), neighborhood.get (x - 1) y,
    neighborhood.get x y].filterMap id)

/-- All nine tiles hold what the field says, with the centre's first pixel at the origin. -/
def CutFrom (field : ℤ → ℤ → Option ℚ) : Prop :=
  ∀ i : Fin 9, ∃ tile, neighborhood.tiles i = some tile ∧
    ∀ x < neighborhood.width, ∀ y < neighborhood.height,
      tile.elevations x y =
        field ((((i : Nat) % 3 : Nat) - 1 : ℤ) * neighborhood.width + x)
          ((((i : Nat) / 3 : Nat) - 1 : ℤ) * neighborhood.height + y)

/-- `synthetic`, for a tile of any size: the neighbourhood that is cut from a field. -/
def cut (width height : Nat) (hwidth : 3 ≤ width) (hheight : 3 ≤ height) (field : ℤ → ℤ → Option ℚ) : DemNeighborhood :=
  let tile (i : Fin 9) : DemTile :=
    ⟨width, height, fun x y =>
      field ((((i : Nat) % 3 : Nat) - 1 : ℤ) * width + x) ((((i : Nat) / 3 : Nat) - 1 : ℤ) * height + y)⟩
  { tiles := fun i => some (tile i)
    center := tile 4
    tiles_center := rfl
    width_ge := hwidth
    height_ge := hheight
    equal := by
      intro i t ht
      cases ht
      exact ⟨rfl, rfl⟩ }

/-- A cut tile is cut from its field. -/
theorem cut_cutFrom {width height : Nat} (hwidth : 3 ≤ width) (hheight : 3 ≤ height) (field : ℤ → ℤ → Option ℚ) :
    (cut width height hwidth hheight field).CutFrom field :=
  fun _ => ⟨_, rfl, fun _ _ _ _ => rfl⟩

end DemNeighborhood

end Biei.Terrain
