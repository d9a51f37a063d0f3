import Biei.Lemmas.Collinear

/-!
# Collinear removal

In one pass the code leaves out every vertex that spans no area with its neighbours; where two vertices coincide at a corner, both
go.
-/

namespace Biei.Terrain

open Plane Polyline

/-! ## Following a vertex through the passes -/

section Position

variable {α : Type} (area : Point → Point → Point → ℤ) (position : α → Point)

theorem keeps_map (closed : Bool) (points : List α) (index : ℕ) :
    keeps area id closed (points.map position) index = keeps area position closed points index := by
  simp only [keeps, List.length_map, List.getElem?_map]
  generalize points[if index = 0 then points.length - 1 else index - 1]? = previous
  generalize points[index]? = current
  generalize points[(index + 1) % points.length]? = next
  cases previous <;> cases current <;> cases next <;> rfl

theorem collinearPass_map (closed : Bool) (points : List α) :
    collinearPass area id closed (points.map position) = (collinearPass area position closed points).map position := by
  unfold collinearPass
  rw [List.zipIdx_map, List.filter_map, List.map_map, List.map_map]
  refine congrArg₂ List.map rfl (List.filter_congr fun p _ => ?_)
  exact keeps_map area position closed points p.2

theorem collinearLoop_map (closed : Bool) (points : List α) :
    collinearLoop area id closed (points.map position) = (collinearLoop area position closed points).map position := by
  have hflags : ∀ points : List α, (List.range points.length).all (keeps area id closed (points.map position)) =
      (List.range points.length).all (keeps area position closed points) :=
    fun points => congrArg (List.all (List.range points.length)) (funext (keeps_map area position closed points))
  fun_induction collinearLoop area position closed points with
  | case1 points hlength =>
    rw [dite_eq_ite] at hlength
    rw [collinearLoop, List.length_map, if_pos hlength]
  | case2 points hlength hkeeps =>
    rw [dite_eq_ite] at hlength
    rw [collinearLoop, List.length_map, if_neg hlength, hflags, dif_pos hkeeps]
  | case3 points hlength hkeeps ih =>
    rw [dite_eq_ite] at hlength
    rw [collinearLoop, List.length_map, if_neg hlength, hflags, dif_neg hkeeps, collinearPass_map, ih]

/-- What is followed through `remove_collinear` with a position is what the code computes from the positions. -/
theorem removeCollinearBy_map (points : List α) (closed : Bool) :
    removeCollinear (points.map position) closed = (removeCollinearBy triangleArea position points closed).map position := by
  have hends : ((points.map position).head?.map id = (points.map position).getLast?.map id) =
      (points.head?.map position = points.getLast?.map position) := by
    simp only [List.head?_map, List.getLast?_map, Option.map_id_fun, id_eq]
  have hring : (if closed && decide (points.head?.map position = points.getLast?.map position) then (points.map position).dropLast
      else points.map position) =
      (if closed && decide (points.head?.map position = points.getLast?.map position) then points.dropLast else points).map
        position := by
    split
    · rw [List.map_dropLast]
    · rfl
  unfold removeCollinear removeCollinearBy
  simp only [hends, hring, collinearLoop_map]
  generalize collinearLoop triangleArea position closed _ = kept
  cases closed with
  | false => rfl
  | true => cases kept <;> simp

variable {area position} {area' : Point → Point → Point → ℤ} {points : List α}

/-- Only the areas that the vertices of a line span matter. -/
theorem keeps_congr (h : ∀ a ∈ points, ∀ b ∈ points, ∀ c ∈ points,
    area (position a) (position b) (position c) = area' (position a) (position b) (position c)) (closed : Bool) :
    keeps area position closed points = keeps area' position closed points := by
  funext index
  unfold keeps
  dsimp only
  split
  · cases hprevious : points[if index = 0 then points.length - 1 else index - 1]? with
    | none => rfl
    | some a =>
      cases hcurrent : points[index]? with
      | none => rfl
      | some b =>
        cases hnext : points[(index + 1) % points.length]? with
        | none => rfl
        | some c =>
          simp only [h a (List.mem_of_getElem? hprevious) b (List.mem_of_getElem? hcurrent) c (List.mem_of_getElem? hnext)]
  · rfl

theorem collinearLoop_congr (closed : Bool) (h : ∀ a ∈ points, ∀ b ∈ points, ∀ c ∈ points,
    area (position a) (position b) (position c) = area' (position a) (position b) (position c)) :
    collinearLoop area position closed points = collinearLoop area' position closed points := by
  fun_induction collinearLoop area position closed points with
  | case1 points hlength =>
    rw [dite_eq_ite] at hlength
    rw [collinearLoop, if_pos hlength]
  | case2 points hlength hkeeps =>
    rw [dite_eq_ite] at hlength
    rw [collinearLoop, if_neg hlength, ← keeps_congr h, dif_pos hkeeps]
  | case3 points hlength hkeeps ih =>
    rw [dite_eq_ite] at hlength
    have hsub : ∀ a ∈ collinearPass area position closed points, a ∈ points := by
      intro a ha
      obtain ⟨p, hp, rfl⟩ := List.mem_map.mp ha
      exact List.fst_mem_of_mem_zipIdx (List.mem_of_mem_filter hp)
    have hpass : collinearPass area position closed points = collinearPass area' position closed points := by
      rw [collinearPass, collinearPass, keeps_congr h]
    rw [ih fun a ha b hb c hc => h a (hsub a ha) b (hsub b hb) c (hsub c hc), hpass]
    conv_rhs => rw [collinearLoop, if_neg hlength, ← keeps_congr h, dif_neg hkeeps]

end Position

/-! ## What the removal preserves -/

/-- The line handed to `remove_collinear`: of a closed one the first vertex is repeated at the end. -/
def polyline (closed : Bool) (vertices : List Point) : List Point :=
  if closed then vertices ++ vertices.head?.toList else vertices

/-- What `remove_collinear` keeps of a line, each vertex with its place in the line. -/
def keptVertices (closed : Bool) (vertices : List Point) : List (Point × ℕ) :=
  removeCollinearBy triangleArea Prod.fst (polyline closed vertices).zipIdx closed

/-- A vertex as a point of the plane. -/
def toPlane (p : Point) : ℚ × ℚ :=
  (p.1, p.2)

/-- The removal preserves an open line: what it returns is a subsequence with the same ends, every vertex left out lies on the
segment between the nearest ones kept, and the line passes through the same points. -/
structure OpenPreserved (vertices : List Point) : Prop where
  sublist : (keptVertices false vertices).Sublist vertices.zipIdx
  first : (keptVertices false vertices).head? = vertices.zipIdx.head?
  last : (keptVertices false vertices).getLast? = vertices.zipIdx.getLast?
  straightened : Straightened ℤ Prod.fst vertices.zipIdx (keptVertices false vertices)
  traced_eq : traced ℚ ((removeCollinear vertices false).map toPlane) = traced ℚ (vertices.map toPlane)

/-- The removal preserves a closed line: the same, with the vertices nearest around the line. -/
structure ClosedPreserved (vertices : List Point) : Prop where
  straightened : ∃ kept, keptVertices true vertices = kept ++ kept.head?.toList ∧ kept.Sublist vertices.zipIdx ∧
    RingStraightened Prod.fst vertices.zipIdx kept
  traced_eq : traced ℚ ((removeCollinear (polyline true vertices) true).map toPlane) = traced ℚ
    ((polyline true vertices).map toPlane)

/-- On the segment over the integers is on the segment. -/
theorem between_toPlane {a x b : Point} (h : Between ℤ a x b) : Between ℚ (toPlane a) (toPlane x) (toPlane b) := by
  unfold Between at h ⊢
  rw [sameRay_iff] at h ⊢
  obtain ⟨hcross, hdot⟩ := h
  simp only [Plane.cross, dot, toPlane, Prod.fst_sub, Prod.snd_sub] at hcross hdot ⊢
  exact ⟨by exact_mod_cast hcross, by exact_mod_cast hdot⟩

/-- A straightened line passes through the same points of the plane. -/
theorem traced_toPlane_eq {line kept : List (Point × ℕ)} (h : Straightened ℤ Prod.fst line kept) :
    traced ℚ ((line.map Prod.fst).map toPlane) = traced ℚ ((kept.map Prod.fst).map toPlane) := by
  rw [List.map_map, List.map_map]
  exact (h.imp fun a x b hbetween => between_toPlane hbetween : Straightened ℚ (toPlane ∘ Prod.fst) line kept).traced_eq

theorem keptVertices_map (closed : Bool) (vertices : List Point) :
    (keptVertices closed vertices).map Prod.fst = removeCollinear (polyline closed vertices) closed := by
  have h := removeCollinearBy_map Prod.fst (polyline closed vertices).zipIdx closed
  rw [List.zipIdx_map_fst] at h
  exact h.symm

variable {vertices : List Point}

/-- Where the differences fit, the loop finds the areas of the triangles. -/
theorem FitsI32.collinearLoop_eq (h : FitsI32 vertices) (closed : Bool) :
    collinearLoop triangleArea Prod.fst closed vertices.zipIdx = collinearLoop orientedArea Prod.fst closed vertices.zipIdx := by
  refine collinearLoop_congr closed fun a ha b hb c hc => ?_
  replace ha := List.fst_mem_of_mem_zipIdx ha
  obtain ⟨hba, hba'⟩ := h _ (List.fst_mem_of_mem_zipIdx hb) _ ha
  obtain ⟨hca, hca'⟩ := h _ (List.fst_mem_of_mem_zipIdx hc) _ ha
  rw [triangleArea, i32Sub_eq hba, i32Sub_eq hca', i32Sub_eq hca, i32Sub_eq hba', orientedArea]

theorem keptVertices_open (h : FitsI32 vertices) :
    keptVertices false vertices = collinearLoop orientedArea Prod.fst false vertices.zipIdx :=
  h.collinearLoop_eq false

theorem keptVertices_closed (hne : vertices ≠ []) (h : FitsI32 vertices) :
    keptVertices true vertices = collinearLoop orientedArea Prod.fst true vertices.zipIdx ++
      (collinearLoop orientedArea Prod.fst true vertices.zipIdx).head?.toList := by
  rw [← h.collinearLoop_eq true]
  clear h
  obtain ⟨first, rest, rfl⟩ := List.exists_cons_of_ne_nil hne
  have hzip : (first :: rest ++ [first]).zipIdx = (first :: rest).zipIdx ++ [(first, rest.length + 1)] := by
    rw [List.zipIdx_append]
    simp
  have hends : ((first :: rest).zipIdx ++ [(first, rest.length + 1)]).head?.map Prod.fst =
      ((first :: rest).zipIdx ++ [(first, rest.length + 1)]).getLast?.map Prod.fst := by
    rw [List.getLast?_concat]
    rfl
  unfold keptVertices polyline removeCollinearBy
  simp only [if_true, List.head?_cons, Option.toList_some, hzip, hends, decide_true, Bool.and_self, List.dropLast_concat]

theorem nodup_zipIdx (vertices : List Point) : vertices.zipIdx.Nodup :=
  List.Nodup.of_map Prod.snd (List.nodup_zipIdx_map_snd vertices)

theorem neverReverses_zipIdx {line : List (Point × ℕ)} (hline : line.map Prod.fst = vertices) :
    NeverReverses Prod.fst line ↔ NeverReverses id vertices := by
  subst hline
  simp only [NeverReverses, Turn.map_iff]

theorem singleCorners_zipIdx {line : List (Point × ℕ)} (hline : line.map Prod.fst = vertices) :
    SingleCorners Prod.fst line ↔ SingleCorners id vertices := by
  subst hline
  simp only [SingleCorners, Turn.map_iff]

theorem rounds_zipIdx (vertices : List Point) : (rounds vertices.zipIdx).map Prod.fst = rounds vertices := by
  simp only [rounds, List.map_append, List.zipIdx_map_fst]

theorem append_head?_inj {α : Type} {first second : List α} (h : first ++ first.head?.toList = second ++ second.head?.toList) :
    first = second := by
  cases first with
  | nil => cases second with
    | nil => rfl
    | cons b second => simp at h
  | cons a first => cases second with
    | nil => simp at h
    | cons b second => exact (List.append_inj' h (by simp)).1

theorem openPreserved_iff (hfits : FitsI32 vertices) (hreverse : NeverReverses id vertices) :
    OpenPreserved vertices ↔ SingleCorners id vertices := by
  rw [← singleCorners_zipIdx (List.zipIdx_map_fst 0 vertices),
    ← straightened_iff (nodup_zipIdx vertices) ((neverReverses_zipIdx (List.zipIdx_map_fst 0 vertices)).mpr hreverse),
      ← keptVertices_open hfits]
  constructor
  · exact OpenPreserved.straightened
  · intro h
    refine ⟨h.sublist, h.head?_eq, h.getLast?_eq, h, ?_⟩
    have htraced := traced_toPlane_eq h
    rw [List.zipIdx_map_fst, keptVertices_map] at htraced
    exact htraced.symm

theorem closedPreserved_iff (hfits : FitsI32 vertices) (hne : vertices ≠ []) (hreverse : NeverReverses id (rounds vertices)) :
    ClosedPreserved vertices ↔
      vertices.length ≤ 3 ∨ (∃ p ∈ vertices, ∃ q ∈ vertices, p ≠ q) ∧ SingleCorners id (rounds vertices) := by
  have hring : vertices.zipIdx ≠ [] := by simpa using hne
  have hplaces : (∃ x ∈ vertices.zipIdx, ∃ y ∈ vertices.zipIdx, x.1 ≠ y.1) ↔ ∃ p ∈ vertices, ∃ q ∈ vertices, p ≠ q := by
    constructor
    · rintro ⟨x, hx, y, hy, hxy⟩
      exact ⟨x.1, List.fst_mem_of_mem_zipIdx hx, y.1, List.fst_mem_of_mem_zipIdx hy, hxy⟩
    · rintro ⟨p, hp, q, hq, hpq⟩
      rw [← List.zipIdx_map_fst 0 vertices, List.mem_map] at hp hq
      obtain ⟨x, hx, rfl⟩ := hp
      obtain ⟨y, hy, rfl⟩ := hq
      exact ⟨x, hx, y, hy, hpq⟩
  have hiff := ringStraightened_iff hring (nodup_zipIdx vertices) ((neverReverses_zipIdx (rounds_zipIdx vertices)).mpr hreverse)
  rw [hplaces, List.length_zipIdx, singleCorners_zipIdx (rounds_zipIdx vertices)] at hiff
  rw [← hiff]
  constructor
  · rintro ⟨⟨kept, hkept, -, hstraight⟩, -⟩
    rw [keptVertices_closed hne hfits] at hkept
    rwa [append_head?_inj hkept]
  · intro h
    refine ⟨⟨_, keptVertices_closed hne hfits, collinearLoop_sublist orientedArea _ _ _, h⟩, ?_⟩
    obtain ⟨before, k, after, rest, hvertices, hkept, hstraight⟩ := h
    have htraced := traced_toPlane_eq hstraight
    have hline : (polyline true vertices).map toPlane =
        ((before ++ k :: after).map Prod.fst).map toPlane ++
          (((before ++ k :: after).map Prod.fst).map toPlane).head?.toList := by
      rw [← hvertices, List.zipIdx_map_fst]
      cases vertices <;> simp [polyline]
    have hresult : removeCollinear (polyline true vertices) true = (k :: (rest ++ [k])).map Prod.fst := by
      rw [← keptVertices_map, keptVertices_closed hne hfits, hkept]
      simp
    rw [hresult, ← htraced, hline]
    simp only [List.map_cons, List.map_append, List.map_nil]
    exact traced_rotate _ _ _

/-- The vertices as one passes them: round a closed line one comes back. -/
def walk (closed : Bool) (vertices : List Point) : List Point :=
  if closed then rounds vertices else vertices

/-- The removal preserves a line. A closed line has a vertex. -/
def Preserved : Bool → List Point → Prop
  | false, vertices => OpenPreserved vertices
  | true, vertices => vertices ≠ [] → ClosedPreserved vertices

/-- No corner of a line is doubled; of a closed line with more than three vertices, not all are at one place. -/
def CornersKept : Bool → List Point → Prop
  | false, vertices => SingleCorners id vertices
  | true, vertices => vertices.length ≤ 3 ∨ (∃ p ∈ vertices, ∃ q ∈ vertices, p ≠ q) ∧ SingleCorners id (rounds vertices)

/-- On a line that never turns back at a vertex, with differences that fit `i32`, `remove_collinear` comes to an end, and what it
returns preserves the line exactly when no corner of the line is doubled and a closed line of more than three vertices does not
stay at one place. -/
theorem removeCollinear_preserves_iff (closed : Bool) (vertices : List Point) (hfits : FitsI32 vertices)
    (hreverse : NeverReverses id (walk closed vertices)) :
    (keptVertices closed vertices).map Prod.fst = removeCollinear (polyline closed vertices) closed ∧
      (Preserved closed vertices ↔ CornersKept closed vertices) := by
  refine ⟨keptVertices_map closed vertices, ?_⟩
  cases closed with
  | false => exact openPreserved_iff hfits hreverse
  | true =>
    by_cases hne : vertices = []
    · subst hne
      exact iff_of_true (fun h => absurd rfl h) (Or.inl (by simp))
    · refine Iff.trans ?_ (closedPreserved_iff hfits hne hreverse)
      exact ⟨fun h => h hne, fun h _ => h⟩

/-- A line that only goes up and to the right never turns back. -/
theorem neverReverses_of_monotone {line : List Point} (h : line.Pairwise fun p q => p.1 ≤ q.1 ∧ p.2 ≤ q.2) :
    NeverReverses id line := by
  rintro p v n copies ⟨before, a, run, b, after, rfl, hrun, rfl, hcopies, rfl, hp, rfl, hn⟩ hray
  obtain ⟨x, hx⟩ := List.exists_mem_of_length_pos hcopies
  obtain rfl : x = v := hrun x hx
  have hline := (List.pairwise_append.mp h).2.1
  obtain ⟨ha, hrest⟩ := List.pairwise_cons.mp hline
  obtain ⟨h1, h2⟩ := ha x (by simp [hx])
  obtain ⟨h3, h4⟩ := (List.pairwise_append.mp hrest).2.2 x hx b (by simp)
  obtain ⟨hcross, hdot⟩ := sameRay_iff.mp hray
  simp only [id_eq, Plane.cross, dot, Prod.fst_sub, Prod.snd_sub] at hp hn hcross hdot
  have hfirst : (x.1 - a.1) * (x.1 - b.1) ≤ 0 := mul_nonpos_of_nonneg_of_nonpos (by omega) (by omega)
  have hsecond : (x.2 - a.2) * (x.2 - b.2) ≤ 0 := mul_nonpos_of_nonneg_of_nonpos (by omega) (by omega)
  rcases h1.lt_or_eq with hlt | heq
  · -- the line comes from the left, so it leaves upwards
    have hx1 := (mul_eq_zero.mp (by linarith : (x.1 - a.1) * (x.1 - b.1) = 0)).resolve_left (by omega)
    have hx2 : b.2 ≠ x.2 := fun hx2 => hn (Prod.ext (by omega) hx2)
    have harea : (x.1 - a.1) * (x.2 - b.2) < 0 := mul_neg_of_pos_of_neg (by omega) (by omega)
    rw [hx1, zero_mul] at hcross
    linarith
  · -- it comes from below, so it leaves to the right
    have ha2 : a.2 ≠ x.2 := fun ha2 => hp (Prod.ext heq ha2)
    have hx2 := (mul_eq_zero.mp (by linarith : (x.2 - a.2) * (x.2 - b.2) = 0)).resolve_left (by omega)
    have hx1 : b.1 ≠ x.1 := fun hx1 => hn (Prod.ext hx1 (by omega))
    have harea : (x.1 - b.1) * (x.2 - a.2) < 0 := mul_neg_of_neg_of_pos (by omega) (by omega)
    rw [hx2, mul_zero] at hcross
    linarith

/-- A line without repeated vertices has single corners. -/
theorem singleCorners_of_nodup {line : List Point} (h : line.Nodup) : SingleCorners id line := by
  rintro p v n copies ⟨before, a, run, b, after, rfl, hrun, rfl, hcopies, -⟩ -
  have hnodup : run.Nodup := by
    have htail := (List.nodup_append.mp h).2.1
    exact (List.nodup_append.mp (List.nodup_cons.mp htail).2).1
  rw [List.eq_replicate_of_mem hrun, List.nodup_replicate] at hnodup
  omega

/-- The middle one of three vertices in a row is left out, and nothing is lost. -/
theorem removeCollinear_preserves_row :
    removeCollinear [(0, 0), (1, 0), (2, 0)] false = [(0, 0), (2, 0)] ∧ Preserved false [(0, 0), (1, 0), (2, 0)] := by
  refine ⟨by decide +kernel, ?_⟩
  refine (removeCollinear_preserves_iff false [(0, 0), (1, 0), (2, 0)] (by decide) (neverReverses_of_monotone (by decide))).2.mpr
    ?_
  exact singleCorners_of_nodup (by decide)

/-- A line with a doubled corner loses it: both its vertices are left out in the first pass. -/
theorem removeCollinear_loses_corner :
    ∃ vertices : List Point, NeverReverses id vertices ∧ removeCollinear vertices false = [(0, 0), (1, 1)] ∧
      ¬Preserved false vertices := by
  refine ⟨[(0, 0), (1, 0), (1, 0), (1, 1)], neverReverses_of_monotone (by decide), by decide +kernel, ?_⟩
  intro h
  have hreverse : NeverReverses id [(0, 0), (1, 0), (1, 0), (1, 1)] := neverReverses_of_monotone (by decide)
  have hcopies := (openPreserved_iff (by decide) hreverse).mp h (0, 0) (1, 0) (1, 1) 2
    ⟨[], (0, 0), [(1, 0), (1, 0)], (1, 1), [], rfl, by simp, rfl, by omega, rfl, by decide, rfl, by decide⟩ (by decide)
  omega

end Biei.Terrain
