import Biei.Lemmas.Arcs
import Biei.Terrain.Rings

/-!
# Chains and slots

A chain looks up the slot of its start and of every arc that it takes.
-/

namespace Biei.Terrain

variable {arcs : List SharedArc} {bounds : SlotBounds} {start : Point} {slots : Slots arcs} {index : ℕ}

/-! ## Chains -/

/-- The end of every arc that waits has a slot. -/
def Ready (arcs : List SharedArc) (bounds : SlotBounds) (slots : Slots arcs) : Prop :=
  ∀ index, ∀ directed ∈ slots index, (bounds.slotIndex (directedEnd arcs directed)).isSome

theorem Ready.update (h : Ready arcs bounds slots) {list : List (DirectedArc arcs.length)}
    (hlist : ∀ directed ∈ list, (bounds.slotIndex (directedEnd arcs directed)).isSome) :
    Ready arcs bounds (Function.update slots index list) := by
  intro other directed hdirected
  by_cases heq : other = index
  · subst heq
    rw [Function.update_self] at hdirected
    exact hlist directed hdirected
  · rw [Function.update_of_ne heq] at hdirected
    exact h other directed hdirected

variable {directedArcs : List (DirectedArc arcs.length)}

end Biei.Terrain
