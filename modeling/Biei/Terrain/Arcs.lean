import Biei.Terrain.Contours
import Biei.Terrain.Speckles

/-!
# The boundary graph

`EdgeGrid` and `boundary_graph` of `topology.rs`: the grid edges that separate two labels, each with the labels on its two sides
and the point where the tone field crosses the threshold between them. Outside of the grid the label is 0 and there is no tone.

An edge is named by its canonical start and its kind, as the code numbers the edges; a tone that is not finite is missing.
-/

namespace Biei.Terrain

/-- `VERTICAL` and `HORIZONTAL`: an edge runs down or to the right from its vertex. -/
inductive EdgeKind where
  | vertical
  | horizontal
deriving DecidableEq

structure Edge where
  vertex : Point
  kind : EdgeKind
deriving DecidableEq

/-- `LabelPair`: the labels on both sides of an edge, the smaller one first. -/
abbrev LabelPair := ℤ × ℤ

structure EdgeInfo where
  right : ℤ
  left : ℤ
  crossing : Point

/-- `EdgeInfo::labels`. -/
def EdgeInfo.labels (info : EdgeInfo) : LabelPair :=
  if info.right < info.left then (info.right, info.left) else (info.left, info.right)

structure EdgeGrid where
  origin : ℤ
  vertexWidth : ℕ
  vertexHeight : ℕ
  outputScale : ℤ
  info : Edge → Option EdgeInfo

namespace EdgeGrid

/-- `edge_id`: an edge of a vertex in the grid. -/
def edgeId (grid : EdgeGrid) (vertex : Point) (kind : EdgeKind) : Option Edge :=
  let x := vertex.1 - grid.origin
  let y := vertex.2 - grid.origin
  if x < 0 ∨ y < 0 ∨ grid.vertexWidth ≤ x ∨ grid.vertexHeight ≤ y then none else some ⟨vertex, kind⟩

/-- All edges, by their number. -/
def edges (grid : EdgeGrid) : List Edge :=
  (List.range grid.vertexWidth).flatMap fun (x : ℕ) => (List.range grid.vertexHeight).flatMap fun (y : ℕ) =>
    [⟨(grid.origin + x, grid.origin + y), .vertical⟩, ⟨(grid.origin + x, grid.origin + y), .horizontal⟩]

end EdgeGrid

/-- `endpoints`. -/
def Edge.endpoints (edge : Edge) : Point × Point :=
  match edge.kind with
  | .vertical => (edge.vertex, (edge.vertex.1, edge.vertex.2 + 1))
  | .horizontal => (edge.vertex, (edge.vertex.1 + 1, edge.vertex.2))

namespace EdgeGrid

/-- `incident_ids`. -/
def incidentIds (grid : EdgeGrid) (point : Point) : List (Option Edge) :=
  [grid.edgeId (point.1, point.2 - 1) .vertical, grid.edgeId point .vertical, grid.edgeId (point.1 - 1, point.2) .horizontal,
    grid.edgeId point .horizontal]

/-- `pair_edges`: the incident edges that separate exactly these labels. -/
def pairEdges (grid : EdgeGrid) (point : Point) (pair : LabelPair) : List Edge :=
  (grid.incidentIds point).reduceOption.filter fun edge => (grid.info edge).any fun info => decide (info.labels = pair)

end EdgeGrid

/-! ## Crossings -/

section

variable {width height : ℕ} (labels : LabelGrid width height) (tones : Fin (width * height) → Option ℚ) (origin outputScale : ℤ)

end

/-! ## Shared arcs

`build_arcs` of `topology.rs`: the edges of the boundary graph are strung together into arcs, each along one pair of labels and as
far as the next junction or tile anchor, or around a loop. An arc keeps the topological points it ends at; its own points are the
crossings on its edges, simplified. -/

structure SharedArc where
  points : List Point
  topologyStart : Point
  topologyEnd : Point
  sharedRenderEndpoints : Bool
  right : ℤ
  left : ℤ
  startDirection : ℤ
  endDirection : ℤ

section Extend

variable (grid : EdgeGrid) (tileSize : ℤ) (pair : LabelPair)

/-- `is_tile_anchor`. -/
def isTileAnchor (point : Point) : Bool :=
  let onX := point.1 = 0 ∨ point.1 = tileSize
  let onY := point.2 = 0 ∨ point.2 = tileSize
  if onX ∧ onY then true
  else if onX then (grid.pairEdges point pair).any fun edge => decide (edge.kind = .horizontal)
  else if onY then (grid.pairEdges point pair).any fun edge => decide (edge.kind = .vertical)
  else false

/-- `is_arc_endpoint`. -/
def isArcEndpoint (point : Point) : Bool :=
  isTileAnchor grid tileSize pair point || decide ((grid.pairEdges point pair).length ≠ 2)

/-- The other end of an edge. -/
def Edge.other (edge : Edge) (point : Point) : Point :=
  if edge.endpoints.1 = point then edge.endpoints.2 else edge.endpoints.1

end Extend

end Biei.Terrain
