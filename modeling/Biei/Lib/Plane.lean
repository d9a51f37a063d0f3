import Mathlib.Algebra.Module.Torsion.Prod
import Mathlib.LinearAlgebra.Ray
import Mathlib.Tactic.Linarith

/-!
# Directions in the plane

Whether two vectors of the plane point the same way is told by their cross and dot products, over any ordered ring.
-/

namespace Plane

section Direction

variable {R : Type*} [CommRing R] {u v w : R × R}

/-- Twice the area two vectors span, with its sign. -/
def cross (u v : R × R) : R :=
  u.1 * v.2 - v.1 * u.2

/-- The dot product of two vectors. -/
def dot (u v : R × R) : R :=
  u.1 * v.1 + u.2 * v.2

theorem cross_add (u v w : R × R) : cross u (v + w) = cross u v + cross u w := by
  simp only [cross, Prod.fst_add, Prod.snd_add]
  ring

theorem cross_self (u : R × R) : cross u u = 0 := by
  simp only [cross, sub_self]

theorem cross_smul (r : R) (u v : R × R) : cross u (r • v) = r * cross u v := by
  simp only [cross, Prod.smul_fst, Prod.smul_snd, smul_eq_mul]
  ring

theorem dot_smul (r : R) (u v : R × R) : dot u (r • v) = r * dot u v := by
  simp only [dot, Prod.smul_fst, Prod.smul_snd, smul_eq_mul]
  ring

theorem cross_comm (u v : R × R) : cross u v = -cross v u := by
  simp only [cross, neg_sub]

variable [LinearOrder R] [IsStrictOrderedRing R]

theorem dot_self_pos (h : u ≠ 0) : 0 < dot u u := by
  unfold dot
  by_cases h1 : u.1 = 0
  · have h2 : u.2 ≠ 0 := fun h2 => h (Prod.ext h1 h2)
    rw [h1, mul_zero, zero_add]
    exact mul_self_pos.mpr h2
  · have hpos : 0 < u.1 * u.1 := mul_self_pos.mpr h1
    have hnonneg : 0 ≤ u.2 * u.2 := mul_self_nonneg _
    linarith

/-- Vectors without area between them are multiples of one another. -/
theorem dot_smul_of_cross_eq_zero (h : cross u v = 0) : dot u v • u = dot u u • v := by
  unfold cross at h
  ext
  · simp only [dot, Prod.smul_fst, smul_eq_mul]
    linear_combination u.2 * h
  · simp only [dot, Prod.smul_snd, smul_eq_mul]
    linear_combination -u.1 * h

/-- Two vectors point the same way when they span no area and do not point against each other. -/
theorem sameRay_iff : SameRay R u v ↔ cross u v = 0 ∧ 0 ≤ dot u v := by
  constructor
  · rintro (rfl | rfl | ⟨r₁, r₂, h₁, h₂, heq⟩)
    · simp [cross, dot]
    · simp [cross, dot]
    · constructor
      · have hcross : r₂ * cross u v = 0 := by rw [← cross_smul, ← heq, cross_smul, cross_self, mul_zero]
        exact (mul_eq_zero.mp hcross).resolve_left h₂.ne'
      · by_cases hu : u = 0
        · simp [hu, dot]
        · have hdot : r₂ * dot u v = r₁ * dot u u := by rw [← dot_smul, ← heq, dot_smul]
          have hpos : 0 < r₂ * dot u v := hdot ▸ mul_pos h₁ (dot_self_pos hu)
          exact ((mul_pos_iff_of_pos_left h₂).mp hpos).le
  · rintro ⟨hcross, hdot⟩
    by_cases hu : u = 0
    · exact Or.inl hu
    · rcases hdot.eq_or_lt with hzero | hpos
      · have hsmul := dot_smul_of_cross_eq_zero hcross
        rw [← hzero, zero_smul] at hsmul
        have hne := (dot_self_pos hu).ne'
        refine Or.inr (Or.inl (Prod.ext ?_ ?_))
        · exact (mul_eq_zero.mp (congrArg Prod.fst hsmul).symm).resolve_left hne
        · exact (mul_eq_zero.mp (congrArg Prod.snd hsmul).symm).resolve_left hne
      · exact Or.inr (Or.inr ⟨_, _, hpos, dot_self_pos hu, dot_smul_of_cross_eq_zero hcross⟩)

/-- Vectors that span no area and do not point against each other point the same way. -/
theorem sameRay_of_cross_eq_zero (hcross : cross u v = 0) (h : ¬SameRay R u (-v)) : SameRay R u v := by
  rw [sameRay_iff] at h ⊢
  refine ⟨hcross, ?_⟩
  by_contra hdot
  apply h
  have hneg : (-v : R × R) = (-1 : R) • v := by rw [neg_one_smul]
  rw [hneg, cross_smul, dot_smul, hcross]
  constructor
  · exact mul_zero _
  · linarith

/-- Seen from a third, two vectors that point the same way span area together. -/
theorem cross_eq_zero_iff (h : SameRay R u v) (hu : u ≠ 0) (hv : v ≠ 0) : cross w u = 0 ↔ cross w v = 0 := by
  obtain ⟨r₁, r₂, h₁, h₂, heq⟩ := h.exists_pos hu hv
  have hcross : r₁ * cross w u = r₂ * cross w v := by rw [← cross_smul, heq, cross_smul]
  constructor
  · intro hw
    rw [hw, mul_zero] at hcross
    exact (mul_eq_zero.mp hcross.symm).resolve_left h₂.ne'
  · intro hw
    rw [hw, mul_zero] at hcross
    exact (mul_eq_zero.mp hcross).resolve_left h₁.ne'

/-- Vectors that span no area with a third span none together. -/
theorem cross_eq_zero_of_common (hw : w ≠ 0) (hu : cross u w = 0) (hv : cross v w = 0) : cross u v = 0 := by
  have hidentity : dot w w * cross u v = cross u w * dot w v - dot u w * cross v w := by
    unfold cross dot
    ring
  rw [hu, hv, zero_mul, mul_zero, sub_zero] at hidentity
  exact (mul_eq_zero.mp hidentity).resolve_left (dot_self_pos hw).ne'

/-- Vectors that point the same way do not cancel. -/
theorem add_ne_zero_of_sameRay (h : SameRay R u v) (hu : u ≠ 0) : u + v ≠ 0 := by
  intro hsum
  rw [eq_neg_of_add_eq_zero_right hsum] at h
  exact hu (eq_zero_of_sameRay_self_neg h)

end Direction

end Plane
