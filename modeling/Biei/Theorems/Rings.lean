import Biei.Lemmas.Rings

/-!
# Tracing the shared topology

Slots are laid out in output coordinates, and looked up in grid coordinates.
-/

namespace Biei.Terrain

/-! ## Boundaries -/

namespace EdgeGrid

variable (grid : EdgeGrid) (tileSize : ℤ) (pair : LabelPair)

/-- Two edges go on into each other where they meet at a point that ends no arc. -/
def Continues (edge edge' : Edge) : Prop :=
  ∃ p, isArcEndpoint grid tileSize pair p = false ∧ edge ∈ grid.pairEdges p pair ∧ edge' ∈ grid.pairEdges p pair

/-- The edges of the boundary that an edge lies on. -/
def boundary (edge : Edge) : Set Edge := {edge' | Relation.ReflTransGen (grid.Continues tileSize pair) edge edge'}

end EdgeGrid

/-! ## The boundary of an arc -/

variable {grid : EdgeGrid} {tileSize : ℤ} {pair : LabelPair} {edge : Edge} {points : List Point} {taken : List Edge}

namespace TracedArc

variable {first last : Point}

end TracedArc

/-- The points of a grid and the crossings on it are not far out, in output coordinates. -/
structure EdgeGrid.Fits (grid : EdgeGrid) : Prop where
  inGrid : grid.InGrid
  scale : 0 < grid.outputScale
  points : ∀ edge pair p, edge ∈ grid.pairEdges p pair → |p.1 * grid.outputScale| < 2 ^ 30 ∧ |p.2 * grid.outputScale| < 2 ^ 30
  crossings : ∀ edge info, grid.info edge = some info → |info.crossing.1| < 2 ^ 30 ∧ |info.crossing.2| < 2 ^ 30

namespace EdgeGrid.Fits

variable (h : grid.Fits)

include h

end EdgeGrid.Fits

/-! ## Rings -/

end Biei.Terrain
