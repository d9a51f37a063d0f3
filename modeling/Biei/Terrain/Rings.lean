import Biei.Lib.Update
import Biei.Terrain.Arcs

/-!
# Rings

`assemble_rings` of `topology.rs`: for each label, the arcs that have it on their right, turned around where it is on their left,
are chained to rings. The arcs that start at a point wait in a slot of their own; the slots are laid out for the points the arcs
are drawn between, and looked up by the points of the topology.
-/

namespace Biei.Terrain

/-- An arc in one of its directions, named by its index. -/
structure DirectedArc (count : ℕ) where
  id : Fin count
  reversed : Bool
deriving DecidableEq

/-- The order derived for directed arcs. -/
def DirectedArc.key {count : ℕ} (directed : DirectedArc count) : Fin count ×ₗ Bool :=
  toLex (directed.id, directed.reversed)

section Directed

variable (arcs : List SharedArc)

/-- `directed_points`. -/
def directedPoints (directed : DirectedArc arcs.length) : List Point :=
  if directed.reversed then (arcs.get directed.id).points.reverse else (arcs.get directed.id).points

/-- `directed_end`. -/
def directedEnd (directed : DirectedArc arcs.length) : Point :=
  if directed.reversed then (arcs.get directed.id).topologyStart else (arcs.get directed.id).topologyEnd

/-- `directed_end_direction`. -/
def directedEndDirection (directed : DirectedArc arcs.length) : ℤ :=
  if directed.reversed then ((arcs.get directed.id).startDirection + 2) % 4 else (arcs.get directed.id).endDirection

end Directed

/-! ## Slots -/

/-- The box of the points the arcs are drawn between. -/
structure SlotBounds where
  minX : ℤ
  minY : ℤ
  maxX : ℤ
  maxY : ℤ

namespace SlotBounds

def slotHeight (bounds : SlotBounds) : ℕ :=
  (bounds.maxY - bounds.minY + 1).toNat

def slotCount (bounds : SlotBounds) : ℕ :=
  (bounds.maxX - bounds.minX + 1).toNat * bounds.slotHeight

/-- `slot_index`, and the look-up in the slots: `none` where a difference is negative or past `i32`, or the index out of range. -/
def slotIndex (bounds : SlotBounds) (point : Point) : Option ℕ :=
  if bounds.minX ≤ point.1 ∧ bounds.minY ≤ point.2 ∧ point.1 - bounds.minX < 2 ^ 31 ∧ point.2 - bounds.minY < 2 ^ 31 then
    let index := (point.1 - bounds.minX).toNat * bounds.slotHeight + (point.2 - bounds.minY).toNat
    if index < bounds.slotCount then some index else none
  else none

end SlotBounds

section Chain

variable (arcs : List SharedArc) (bounds : SlotBounds)

/-- The slots: the directed arcs that wait at each index. -/
abbrev Slots (arcs : List SharedArc) := ℕ → List (DirectedArc arcs.length)

/-- A ring on the way: the arcs taken so far, the first of them first, and whether it is closed. -/
structure ChainState where
  slots : Slots arcs
  taken : List (DirectedArc arcs.length)
  current : Point
  incoming : ℤ
  closed : Bool

/-- The state after an arc is taken. -/
def ChainState.take (start : Point) (slots : Slots arcs) (taken : List (DirectedArc arcs.length))
    (next : DirectedArc arcs.length) :
    ChainState arcs :=
  ⟨slots, taken ++ [next], directedEnd arcs next, directedEndDirection arcs next, decide (directedEnd arcs next = start)⟩

/-- The ring a chain of arcs draws. Arcs that do not share their ends as they are drawn are put one after the other in full. -/
def ringPoints (taken : List (DirectedArc arcs.length)) : List Point :=
  match taken with
  | [] => []
  | first :: rest =>
    rest.foldl
      (fun ring next => ring ++ (directedPoints arcs next).drop (if (arcs.get next.id).sharedRenderEndpoints then 1 else 0))
      (directedPoints arcs first)

/-- The ring of a closed chain, ended where it began. -/
def closedRing (taken : List (DirectedArc arcs.length)) : List Point :=
  let ring := ringPoints arcs taken
  if ring.head? ≠ ring.getLast? then ring ++ ring.head?.toList else ring

end Chain

end Biei.Terrain
