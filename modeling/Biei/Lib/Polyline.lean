import Mathlib.Algebra.Module.Torsion.Prod
import Mathlib.Analysis.Convex.Basic

/-!
# Straightened polylines

A polyline is a list of vertices. Leaving vertices out straightens it where each vertex left out lies on the way between the
vertices kept before and after it: then the polyline passes through the same points as before. Vertices carry a position, so that
two vertices at one place can be told apart.
-/

namespace Polyline

section Between

variable {R M : Type*} [CommRing R] [LinearOrder R] [IsStrictOrderedRing R] [AddCommGroup M] [Module R M] {a b v x : M}

/-- `x` lies on the way from `a` to `b`. -/
def Between (R : Type*) {M : Type*} [CommRing R] [LinearOrder R] [IsStrictOrderedRing R] [AddCommGroup M] [Module R M]
    (a x b : M) : Prop :=
  SameRay R (x - a) (b - x)

theorem between_left (a b : M) : Between R a a b := by
  unfold Between
  rw [sub_self]
  exact SameRay.zero_left _

theorem between_right (a b : M) : Between R a b b := by
  unfold Between
  rw [sub_self]
  exact SameRay.zero_right _

/-- What lies between a point on the way and the end lies on the way. -/
theorem Between.trans [Module.IsTorsionFree R M] (hv : Between R a v b) (hx : Between R v x b) : Between R a x b := by
  unfold Between at hv hx ⊢
  have hbv : b - v = (x - v) + (b - x) := by abel
  have hxa : x - a = (v - a) + (x - v) := by abel
  by_cases hzero : b - v = 0
  · rw [hbv, add_comm, add_eq_zero_iff_eq_neg] at hzero
    rw [hzero] at hx ⊢
    rw [eq_zero_of_sameRay_self_neg hx, neg_zero]
    exact SameRay.zero_right _
  · have hstep : SameRay R (b - v) (x - v) := hbv ▸ SameRay.rfl.add_left hx.symm
    have hlast : SameRay R (b - v) (b - x) := hbv ▸ hx.add_left SameRay.rfl
    rw [hxa]
    exact (hv.trans hlast (fun h => absurd h hzero)).add_left hx

end Between

section Straightened

variable {R M α : Type*} [CommRing R] [LinearOrder R] [IsStrictOrderedRing R] [AddCommGroup M] [Module R M] {position : α → M}

/-- The vertices kept cut the polyline into legs, and every vertex left out of a leg lies on the way between its two ends. The
first and the last vertex are kept. -/
inductive Straightened (R : Type*) {M α : Type*} [CommRing R] [LinearOrder R] [IsStrictOrderedRing R] [AddCommGroup M]
    [Module R M]
    (position : α → M) : List α → List α → Prop
  | nil : Straightened R position [] []
  | last (z : α) : Straightened R position [z] [z]
  | leg {a b : α} {between rest kept : List α} (hleg : ∀ x ∈ between, Between R (position a) (position x) (position b))
      (hrest : Straightened R position (b :: rest) (b :: kept)) :
      Straightened R position (a :: (between ++ b :: rest)) (a :: b :: kept)

variable {L K : List α}

theorem Straightened.sublist (h : Straightened R position L K) : K.Sublist L := by
  induction h with
  | nil => exact List.Sublist.refl _
  | last z => exact List.Sublist.refl _
  | leg _ _ ih => exact (ih.trans (List.sublist_append_right _ _)).cons_cons _

/-- Nothing left out of a polyline leaves it straightened. -/
theorem Straightened.refl (L : List α) : Straightened R position L L := by
  induction L with
  | nil => exact .nil
  | cons a L ih =>
    cases L with
    | nil => exact .last a
    | cons b L => exact .leg (fun x hx => absurd hx (List.not_mem_nil)) ih

theorem Straightened.imp {R' M' : Type*} [CommRing R'] [LinearOrder R'] [IsStrictOrderedRing R'] [AddCommGroup M'] [Module R' M']
    {position' : α → M'} (h : Straightened R position L K)
    (himp : ∀ a x b, Between R (position a) (position x) (position b) → Between R' (position' a) (position' x) (position' b)) :
    Straightened R' position' L K := by
  induction h with
  | nil => exact .nil
  | last z => exact .last z
  | leg hleg _ ih => exact .leg (fun x hx => himp _ _ _ (hleg x hx)) ih

theorem Straightened.head?_eq (h : Straightened R position L K) : K.head? = L.head? := by
  cases h <;> rfl

theorem Straightened.getLast?_eq (h : Straightened R position L K) : K.getLast? = L.getLast? := by
  induction h with
  | nil => rfl
  | last z => rfl
  | leg _ _ ih => rw [List.getLast?_cons_cons, ih, ← List.cons_append, List.getLast?_append_of_ne_nil _ (List.cons_ne_nil _ _)]

/-- A vertex before the first one, which lies on the way to the next one kept, takes its place. -/
theorem Straightened.extend [Module.IsTorsionFree R M] {p v b : α} (h : Straightened R position (v :: L) (v :: b :: K))
    (hv : Between R (position p) (position v) (position b)) : Straightened R position (p :: v :: L) (p :: b :: K) := by
  cases h with
  | @leg _ _ between rest _ hleg hrest =>
    have hlonger : ∀ x ∈ v :: between, Between R (position p) (position x) (position b) := by
      intro x hx
      rcases List.mem_cons.mp hx with rfl | hx
      · exact hv
      · exact hv.trans (hleg x hx)
    exact .leg hlonger hrest

/-- A list that begins with `b` and ends with `y` still begins with `b` when it goes on after `y`. -/
theorem exists_cons_of_concat {b y : α} {rest L : List α} (h : b :: rest = L ++ [y]) (M' : List α) :
    ∃ rest', L ++ y :: M' = b :: rest' := by
  cases L with
  | nil =>
    cases h
    exact ⟨M', rfl⟩
  | cons c L =>
    cases h
    exact ⟨L ++ y :: M', rfl⟩

/-- Straightened polylines that meet in a vertex kept by both make one. -/
theorem Straightened.join {y : α} {L K M' N : List α} (h : Straightened R position (L ++ [y]) (K ++ [y]))
    (h' : Straightened R position (y :: M') (y :: N)) : Straightened R position (L ++ y :: M') (K ++ y :: N) := by
  generalize hL : L ++ [y] = L₀ at h
  generalize hK : K ++ [y] = K₀ at h
  induction h generalizing L K with
  | nil => simp at hL
  | last z =>
    obtain ⟨rfl, -⟩ := List.append_eq_singleton_iff.mp hL |>.resolve_right (by simp)
    obtain ⟨rfl, -⟩ := List.append_eq_singleton_iff.mp hK |>.resolve_right (by simp)
    exact h'
  | @leg a b between rest kept hleg hrest ih =>
    obtain ⟨L', y', hL'⟩ := (List.eq_nil_or_concat' (b :: rest)).resolve_left (by simp)
    obtain ⟨K', y'', hK'⟩ := (List.eq_nil_or_concat' (b :: kept)).resolve_left (by simp)
    rw [hL', ← List.append_assoc, ← List.cons_append] at hL
    rw [hK', ← List.cons_append] at hK
    obtain ⟨rfl, hy⟩ := List.append_inj' hL rfl
    obtain ⟨rfl, hy'⟩ := List.append_inj' hK rfl
    obtain rfl := (List.cons.inj hy).1
    obtain rfl := (List.cons.inj hy').1
    have hjoined := ih hL'.symm hK'.symm
    obtain ⟨rest', hrest'⟩ := exists_cons_of_concat hL' M'
    obtain ⟨kept', hkept'⟩ := exists_cons_of_concat hK' N
    rw [hrest', hkept'] at hjoined
    rw [List.cons_append, List.append_assoc, hrest', List.cons_append, hkept']
    exact .leg hleg hjoined

/-- Vertices left out in a row lie, with the vertices around them, between two points. -/
theorem Straightened.exists_between {a b : α} {L K before run after : List α} (h : Straightened R position L K)
    (hL : L = before ++ a :: (run ++ b :: after)) (hne : run ≠ []) (hrun : ∀ x ∈ run, x ∉ K) :
    ∃ c d, ∀ x ∈ a :: (run ++ [b]), Between R (position c) (position x) (position d) := by
  induction h generalizing before with
  | nil => simp at hL
  | last z =>
    have hlength := congrArg List.length hL
    have := List.length_pos_iff.mpr hne
    simp at hlength
    omega
  | @leg c d between rest kept hleg hrest ih =>
    have hd : d ∉ run := fun hmem => hrun d hmem (by simp)
    rw [← List.singleton_append (l := run ++ b :: after), ← List.append_assoc, ← List.cons_append] at hL
    rcases List.append_eq_append_iff.mp hL with ⟨middle, hbefore, hrest'⟩ | ⟨middle, hbetween, hrest'⟩
    · -- the row stands after the leg's end
      rcases List.eq_nil_or_concat' middle with rfl | ⟨middle', a', rfl⟩
      · obtain ⟨r, run', rfl⟩ := List.exists_cons_of_ne_nil hne
        exact absurd (List.mem_cons.mpr (Or.inl (List.cons.inj hrest').1)) hd
      · rw [← List.append_assoc] at hbefore
        obtain ⟨-, ha⟩ := List.append_inj' hbefore rfl
        obtain rfl := (List.cons.inj ha).1
        have hlater : d :: rest = middle' ++ a :: (run ++ b :: after) := by
          rw [hrest', List.append_assoc, List.singleton_append]
        exact ih hlater (fun x hx hmem => hrun x hx (List.mem_cons_of_mem _ hmem))
    · -- it begins in the leg, and its end is not in the row
      have hends : ∀ x, x = c ∨ x ∈ between ∨ x = d → Between R (position c) (position x) (position d) := by
        rintro x (rfl | hx | rfl)
        · exact between_left _ _
        · exact hleg x hx
        · exact between_right _ _
      have hin : ∀ x ∈ before ++ [a] ++ middle, x = c ∨ x ∈ between ∨ x = d := by
        intro x hx
        rw [← hbetween, List.mem_cons] at hx
        exact hx.imp_right Or.inl
      refine ⟨c, d, fun x hx => hends x ?_⟩
      rcases List.append_eq_append_iff.mp hrest' with ⟨middle', hmiddle, hafter⟩ | ⟨middle', hrun', hafter⟩
      · rcases List.mem_cons.mp hx with rfl | hx
        · exact hin _ (by simp)
        · rcases List.mem_append.mp hx with hx | hx
          · exact hin _ (by rw [hmiddle]; simp [hx])
          · obtain rfl := List.mem_singleton.mp hx
            cases middle' with
            | nil => exact Or.inr (Or.inr (List.cons.inj hafter).1)
            | cons m middle' =>
              obtain rfl := (List.cons.inj hafter).1
              exact hin _ (by rw [hmiddle]; simp)
      · rcases middle' with _ | ⟨m, middle'⟩
        · rw [List.append_nil] at hrun'
          rcases List.mem_cons.mp hx with rfl | hx
          · exact hin _ (by simp)
          · rcases List.mem_append.mp hx with hx | hx
            · exact hin _ (by rw [← hrun']; simp [hx])
            · obtain rfl := List.mem_singleton.mp hx
              exact Or.inr (Or.inr (List.cons.inj hafter).1.symm)
        · obtain rfl := (List.cons.inj hafter).1
          exact absurd (by rw [hrun']; simp) hd

end Straightened

section Traced

variable {𝕜 E : Type*} [Field 𝕜] [LinearOrder 𝕜] [IsStrictOrderedRing 𝕜] [AddCommGroup E] [Module 𝕜 E]

/-- The points a polyline passes through. -/
def traced (𝕜 : Type*) {E : Type*} [Field 𝕜] [LinearOrder 𝕜] [IsStrictOrderedRing 𝕜] [AddCommGroup E] [Module 𝕜 E] :
    List E → Set E
  | [] => ∅
  | [p] => {p}
  | p :: q :: rest => segment 𝕜 p q ∪ traced 𝕜 (q :: rest)

theorem traced_append (L : List E) (y : E) (M' : List E) :
    traced 𝕜 (L ++ y :: M') = traced 𝕜 (L ++ [y]) ∪ traced 𝕜 (y :: M') := by
  induction L with
  | nil =>
    cases M' with
    | nil => simp [traced]
    | cons z M' =>
      simp only [List.nil_append, traced]
      have hy : {y} ⊆ segment 𝕜 y z ∪ traced 𝕜 (z :: M') :=
        Set.singleton_subset_iff.mpr (Set.mem_union_left _ (left_mem_segment 𝕜 y z))
      rw [Set.union_eq_right.mpr hy]
  | cons p L ih =>
    cases L with
    | nil =>
      simp only [List.nil_append, List.cons_append, traced] at ih ⊢
      rw [Set.union_assoc, ← ih]
    | cons q L =>
      simp only [List.cons_append, traced] at ih ⊢
      rw [ih, Set.union_assoc]

/-- A closed polyline passes through the same points, whichever vertex it is read from. -/
theorem traced_rotate (before : List E) (k : E) (after : List E) :
    traced 𝕜 (k :: (after ++ before ++ [k])) = traced 𝕜 (before ++ k :: after ++ (before ++ k :: after).head?.toList) := by
  cases before with
  | nil => simp
  | cons first before =>
    have hfirst : k :: (after ++ (first :: before) ++ [k]) = (k :: after) ++ first :: (before ++ [k]) := by simp
    have hsecond : first :: before ++ k :: after ++ (first :: before ++ k :: after).head?.toList =
        (first :: before) ++ k :: (after ++ [first]) := by simp
    rw [hfirst, hsecond, traced_append, traced_append (first :: before), Set.union_comm]
    rfl

/-- A polyline whose vertices stay in a convex set stays in it. -/
theorem traced_subset {S : Set E} (hS : Convex 𝕜 S) {L : List E} (hL : ∀ x ∈ L, x ∈ S) : traced 𝕜 L ⊆ S := by
  induction L with
  | nil => exact Set.empty_subset _
  | cons p L ih =>
    cases L with
    | nil => simpa [traced] using hL
    | cons q L =>
      have hrest := ih fun x hx => hL x (List.mem_cons_of_mem _ hx)
      exact Set.union_subset (hS.segment_subset (hL p (by simp)) (hL q (by simp))) hrest

/-- On a segment the way from a point to another is covered by the ways over any third. -/
theorem segment_subset_union {a b p q r : E} (hp : p ∈ segment 𝕜 a b) (hq : q ∈ segment 𝕜 a b) (hr : r ∈ segment 𝕜 a b) :
    segment 𝕜 p r ⊆ segment 𝕜 p q ∪ segment 𝕜 q r := by
  rw [segment_eq_image_lineMap] at hp hq hr
  obtain ⟨s, -, rfl⟩ := hp
  obtain ⟨t, -, rfl⟩ := hq
  obtain ⟨u, -, rfl⟩ := hr
  rw [← image_segment, ← image_segment, ← image_segment, ← Set.image_union]
  refine Set.image_mono ?_
  simp only [segment_eq_uIcc]
  exact Set.uIcc_subset_uIcc_union_uIcc

/-- A polyline that stays on a segment covers the way from its first vertex to its last. -/
theorem segment_subset_traced {a b z : E} (hz : z ∈ segment 𝕜 a b) {p : E} {between : List E} (hp : p ∈ segment 𝕜 a b)
    (hbetween : ∀ x ∈ between, x ∈ segment 𝕜 a b) : segment 𝕜 p z ⊆ traced 𝕜 (p :: (between ++ [z])) := by
  induction between generalizing p with
  | nil => exact Set.subset_union_left
  | cons q between ih =>
    have hq := hbetween q (by simp)
    intro x hx
    rcases segment_subset_union hp hq hz hx with hx | hx
    · exact Or.inl hx
    · exact Or.inr (ih hq (fun y hy => hbetween y (List.mem_cons_of_mem _ hy)) hx)

/-- A straightened polyline passes through the same points. -/
theorem Straightened.traced_eq {α : Type*} {position : α → E} {L K : List α} (h : Straightened 𝕜 position L K) :
    traced 𝕜 (L.map position) = traced 𝕜 (K.map position) := by
  induction h with
  | nil => rfl
  | last z => rfl
  | @leg a b between rest kept hleg hrest ih =>
    have hmem : ∀ x ∈ between.map position, x ∈ segment 𝕜 (position a) (position b) := by
      intro x hx
      obtain ⟨v, hv, rfl⟩ := List.mem_map.mp hx
      exact mem_segment_iff_sameRay.mpr (hleg v hv)
    have hway : traced 𝕜 (position a :: (between.map position ++ [position b])) = segment 𝕜 (position a) (position b) := by
      refine Set.Subset.antisymm (traced_subset (convex_segment _ _) ?_)
        (segment_subset_traced (right_mem_segment 𝕜 _ _) (left_mem_segment 𝕜 _ _) hmem)
      intro x hx
      rcases List.mem_cons.mp hx with rfl | hx
      · exact left_mem_segment 𝕜 _ _
      · rcases List.mem_append.mp hx with hx | hx
        · exact hmem x hx
        · exact List.mem_singleton.mp hx ▸ right_mem_segment 𝕜 _ _
    simp only [List.map_cons, List.map_append] at ih ⊢
    rw [← List.cons_append, traced_append, List.cons_append, hway, ih]
    rfl

end Traced

end Polyline
