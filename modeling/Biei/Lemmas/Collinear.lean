import Biei.Lib.Plane
import Biei.Lib.Polyline
import Biei.Terrain.Topology
import Mathlib

/-!
# What a pass of the collinear removal keeps

A pass keeps the corners of a line, so the vertices left out lie between the corners kept and a second pass finds the same
corners.
-/

namespace Biei.Terrain

open Plane Polyline

variable {α : Type} {position : α → Point}

/-- Twice the area of a triangle, with its sign, whatever the size of its coordinates. -/
def orientedArea (a b c : Point) : ℤ :=
  (b.1 - a.1) * (c.2 - a.2) - (c.1 - a.1) * (b.2 - a.2)

theorem orientedArea_eq_cross (a b c : Point) : orientedArea a b c = Plane.cross (b - a) (c - b) := by
  simp only [orientedArea, Plane.cross, Prod.fst_sub, Prod.snd_sub]
  ring

theorem orientedArea_left (a c : Point) : orientedArea a a c = 0 := by
  simp [orientedArea]

theorem orientedArea_right (a b : Point) : orientedArea a b b = 0 := by
  simp [orientedArea]

/-- What lies between two points spans no area with the way between them. -/
theorem cross_eq_zero_of_between {c d x : Point} (h : Between ℤ c x d) : Plane.cross (x - c) (d - c) = 0 := by
  have hsum : d - c = (d - x) + (x - c) := by abel
  rw [hsum, cross_add, Plane.cross_self, (sameRay_iff.mp h).1, add_zero]

/-- Points on the way from one point to another span no area. -/
theorem orientedArea_eq_zero_of_between {c d p v n : Point} (hp : Between ℤ c p d) (hv : Between ℤ c v d) (hn : Between ℤ c n d) :
    orientedArea p v n = 0 := by
  by_cases hcd : d - c = 0
  · obtain rfl := sub_eq_zero.mp hcd
    have hsame : ∀ x, Between ℤ d x d → x = d := by
      intro x hx
      unfold Between at hx
      rw [← neg_sub x d] at hx
      exact sub_eq_zero.mp (eq_zero_of_sameRay_self_neg hx)
    rw [hsame p hp, hsame v hv, orientedArea_left]
  · have hpv := cross_eq_zero_of_common hcd (cross_eq_zero_of_between hp) (cross_eq_zero_of_between hv)
    have hpn := cross_eq_zero_of_common hcd (cross_eq_zero_of_between hp) (cross_eq_zero_of_between hn)
    have hvn := cross_eq_zero_of_common hcd (cross_eq_zero_of_between hv) (cross_eq_zero_of_between hn)
    simp only [Plane.cross, Prod.fst_sub, Prod.snd_sub] at hpv hpn hvn
    unfold orientedArea
    linear_combination hpv - hpn + hvn

/-! ## Turns -/

/-- The line comes from a vertex at `p` to a place `v`, where it stays for `copies` vertices, and leaves for one at `n`. -/
def Turn (position : α → Point) (line : List α) (p v n : Point) (copies : ℕ) : Prop :=
  ∃ before a run b after, line = before ++ a :: (run ++ b :: after) ∧ (∀ x ∈ run, position x = v) ∧ run.length = copies ∧
    0 < copies ∧
    position a = p ∧ p ≠ v ∧ position b = n ∧ n ≠ v

/-- At no vertex does the line turn back the way it came. -/
def NeverReverses (position : α → Point) (line : List α) : Prop :=
  ∀ p v n copies, Turn position line p v n copies → ¬SameRay ℤ (v - p) (v - n)

/-- Where the line turns off, it has one vertex. -/
def SingleCorners (position : α → Point) (line : List α) : Prop :=
  ∀ p v n copies, Turn position line p v n copies → orientedArea p v n ≠ 0 → copies = 1

variable {line line' : List α}

theorem Turn.of_stretch {p v n : Point} {copies : ℕ} (h : Turn position line p v n copies) (hwithin : line <:+: line') :
    Turn position line' p v n copies := by
  obtain ⟨before, a, run, b, after, rfl, hrest⟩ := h
  obtain ⟨before', after', rfl⟩ := hwithin
  exact ⟨before' ++ before, a, run, b, after ++ after', by simp, hrest⟩

theorem NeverReverses.of_stretch (h : NeverReverses position line') (hwithin : line <:+: line') :
    NeverReverses position line :=
  fun p v n copies hturn => h p v n copies (hturn.of_stretch hwithin)

theorem SingleCorners.of_stretch (h : SingleCorners position line') (hwithin : line <:+: line') :
    SingleCorners position line :=
  fun p v n copies hturn => h p v n copies (hturn.of_stretch hwithin)

theorem Turn.map_iff {line : List α} {p v n : Point} {copies : ℕ} :
    Turn id (line.map position) p v n copies ↔ Turn position line p v n copies := by
  constructor
  · rintro ⟨before, a, run, b, after, heq, hrun, hrest⟩
    obtain ⟨before', line₁, rfl, rfl, h₁⟩ := List.map_eq_append_iff.mp heq
    obtain ⟨a', line₂, rfl, rfl, h₂⟩ := List.map_eq_cons_iff.mp h₁
    obtain ⟨run', line₃, rfl, rfl, h₃⟩ := List.map_eq_append_iff.mp h₂
    obtain ⟨b', after', rfl, rfl, rfl⟩ := List.map_eq_cons_iff.mp h₃
    refine ⟨before', a', run', b', after', rfl, ?_, by simpa using hrest⟩
    intro x hx
    exact hrun _ (List.mem_map_of_mem hx)
  · rintro ⟨before, a, run, b, after, rfl, hrun, hrest⟩
    refine ⟨before.map position, position a, run.map position, position b, after.map position, by simp, ?_, by simpa using hrest⟩
    intro x hx
    obtain ⟨y, hy, rfl⟩ := List.mem_map.mp hx
    exact hrun y hy

/-! ## Corners -/

/-- The vertices of a stretch that span area with their neighbours; `prev` and `next` are the neighbours of its ends. -/
def corners (position : α → Point) (prev : α) : List α → α → List α
  | [], _ => []
  | v :: rest, next =>
    if orientedArea (position prev) (position v) (position (rest.headD next)) = 0 then corners position v rest next
    else v :: corners position v rest next

theorem corners_sublist (prev : α) (stretch : List α) (next : α) : (corners position prev stretch next).Sublist stretch := by
  induction stretch generalizing prev with
  | nil => exact List.Sublist.refl _
  | cons v rest ih =>
    unfold corners
    split
    · exact (ih v).cons v
    · exact (ih v).cons_cons v

theorem corners_append (prev : α) (first second : List α) (next : α) :
    corners position prev (first ++ second) next =
      corners position prev first (second.headD next) ++ corners position (first.getLastD prev) second next := by
  induction first generalizing prev with
  | nil => rfl
  | cons v rest ih =>
    have hhead : (rest ++ second).headD next = rest.headD (second.headD next) := by cases rest <;> rfl
    have hlast : (v :: rest).getLastD prev = rest.getLastD v := by cases rest <;> simp [List.getLastD]
    rw [List.cons_append, corners, corners, ih v, hhead, hlast]
    split <;> rfl

variable {stretch : List α} {next : α}

/-- The corners do not depend on what comes before the stretch, when the way into the first of them has the same direction. -/
theorem corners_congr {prev prev' : α}
    (h : ∀ x, Plane.cross (position (stretch.headD next) - position prev) x = 0 ↔
      Plane.cross (position (stretch.headD next) - position prev') x = 0) :
    corners position prev stretch next = corners position prev' stretch next := by
  cases stretch with
  | nil => rfl
  | cons v rest =>
    simp only [List.headD_cons] at h
    simp only [corners, orientedArea_eq_cross, h]

/-- A stretch that stays at one place has no corner. -/
theorem corners_eq_nil {prev : α} (h : ∀ x ∈ stretch, position x = position prev) :
    corners position prev stretch next = [] := by
  induction stretch generalizing prev with
  | nil => rfl
  | cons v rest ih =>
    have hv : position v = position prev := h v (by simp)
    rw [corners, hv, orientedArea_left, if_pos rfl]
    exact ih fun x hx => (h x (by simp [hx])).trans hv.symm

/-- Along a stretch the line stays at the place of the vertex before it, or it leaves in the direction of a vertex `target`. -/
def Departs (position : α → Point) (prev : α) (stretch : List α) (target : α) : Prop :=
  (∀ x ∈ stretch, position x = position prev) ∨
    ∃ run w after, stretch = run ++ w :: after ∧ (∀ x ∈ run, position x = position prev) ∧ position w ≠ position prev ∧
      position target ≠ position prev ∧ SameRay ℤ (position w - position prev) (position target - position prev)

/-- A stretch is settled when its corners straighten it, a second pass finds the same corners, and the line leaves in the
direction of the first of them. -/
structure Settled (position : α → Point) (prev : α) (stretch : List α) (next : α) : Prop where
  straightened : Straightened ℤ position (prev :: (stretch ++ [next])) (prev :: (corners position prev stretch next ++ [next]))
  stable : corners position prev (corners position prev stretch next) next = corners position prev stretch next
  departs : Departs position prev (stretch ++ [next]) ((corners position prev stretch next).headD next)

theorem concat_eq_headD_cons (l : List α) (next : α) : ∃ rest, l ++ [next] = l.headD next :: rest := by
  cases l with
  | nil => exact ⟨[], rfl⟩
  | cons v rest => exact ⟨rest ++ [next], rfl⟩

variable {rest : List α} {prev v next : α}

/-- A vertex without area before a settled stretch is left out, and its neighbour takes its place. -/
theorem Settled.cons_of_between (h : Settled position v rest next)
    (harea : orientedArea (position prev) (position v) (position (rest.headD next)) = 0)
    (hbetween : Between ℤ (position prev) (position v) (position ((corners position v rest next).headD next)))
    (hstable : corners position prev (corners position v rest next) next = corners position v rest next)
    (hdeparts : Departs position prev (v :: rest ++ [next]) ((corners position v rest next).headD next)) :
    Settled position prev (v :: rest) next := by
  have hcorners : corners position prev (v :: rest) next = corners position v rest next := by rw [corners, if_pos harea]
  refine ⟨?_, ?_, ?_⟩
  · obtain ⟨kept, hkept⟩ := concat_eq_headD_cons (corners position v rest next) next
    have hlegs := h.straightened
    rw [hcorners]
    rw [hkept] at hlegs ⊢
    exact hlegs.extend hbetween
  · rw [hcorners]
    exact hstable
  · rw [hcorners]
    exact hdeparts

/-- A vertex at the place of the one before it changes nothing. -/
theorem Settled.cons_of_eq (h : Settled position v rest next) (hv : position v = position prev) :
    Settled position prev (v :: rest) next := by
  refine h.cons_of_between (by rw [hv, orientedArea_left]) (by rw [hv]; exact between_left _ _) ?_ ?_
  · have hcongr : corners position prev (corners position v rest next) next = corners position v (corners position v rest next)
      next :=
      corners_congr fun x => by rw [hv]
    rw [hcongr]
    exact h.stable
  · rcases h.departs with hstays | ⟨run, w, after, hpath, hrun, hw, htarget, hray⟩
    · refine Or.inl fun x hx => ?_
      rcases List.mem_cons.mp hx with rfl | hx
      · exact hv
      · exact (hstays x hx).trans hv
    · rw [hv] at hrun hw htarget hray
      refine Or.inr ⟨v :: run, w, after, by rw [List.cons_append, hpath, List.cons_append], ?_, hw, htarget, hray⟩
      intro x hx
      rcases List.mem_cons.mp hx with rfl | hx
      · exact hv
      · exact hrun x hx

/-- A vertex the line passes straight through. -/
theorem Settled.cons_of_straight (h : Settled position v rest next) (hv : position v ≠ position prev)
    (harea : orientedArea (position prev) (position v) (position (rest.headD next)) = 0)
    (hray : SameRay ℤ (position v - position prev) (position ((corners position v rest next).headD next) - position v))
    (htarget : position ((corners position v rest next).headD next) ≠ position v) :
    Settled position prev (v :: rest) next := by
  have hstep : position v - position prev ≠ 0 := sub_ne_zero.mpr hv
  have hleave : position ((corners position v rest next).headD next) - position v ≠ 0 := sub_ne_zero.mpr htarget
  have hsum : position ((corners position v rest next).headD next) - position prev =
      (position v - position prev) + (position ((corners position v rest next).headD next) - position v) := by abel
  have hwhole : position ((corners position v rest next).headD next) - position prev ≠ 0 :=
    hsum ▸ add_ne_zero_of_sameRay hray hstep
  refine h.cons_of_between harea hray ?_ (Or.inr ⟨[], v, rest ++ [next], rfl, by simp, hv, sub_ne_zero.mp hwhole, ?_⟩)
  · have hsame : SameRay ℤ (position ((corners position v rest next).headD next) - position prev)
        (position ((corners position v rest next).headD next) - position v) := hsum ▸ hray.add_left SameRay.rfl
    have hcongr : corners position prev (corners position v rest next) next = corners position v (corners position v rest next)
      next := by
      refine corners_congr fun x => ?_
      rw [cross_comm, neg_eq_zero, cross_comm _ x, neg_eq_zero]
      exact cross_eq_zero_iff hsame hwhole hleave
    rw [hcongr]
    exact h.stable
  · exact hsum ▸ SameRay.rfl.add_right hray

/-- A vertex that spans area is kept: the line leaves it towards the next corner, which spans the same area with it. -/
theorem Settled.cons_of_corner (h : Settled position v rest next)
    (harea : orientedArea (position prev) (position v) (position (rest.headD next)) ≠ 0) :
    Settled position prev (v :: rest) next := by
  have hcorners : corners position prev (v :: rest) next = v :: corners position v rest next := by rw [corners, if_neg harea]
  have hv : position v ≠ position prev := by
    intro hv
    exact harea (by rw [hv, orientedArea_left])
  have hhead : position (rest.headD next) ≠ position v := by
    intro hhead
    exact harea (by rw [hhead, orientedArea_right])
  obtain ⟨after, hafter⟩ := concat_eq_headD_cons rest next
  refine ⟨?_, ?_, ?_⟩
  · rw [hcorners]
    exact .leg (fun x hx => absurd hx List.not_mem_nil) h.straightened
  · rcases h.departs with hstays | ⟨run, w, after', hpath, hrun, hw, htarget, hray⟩
    · exact absurd (hstays _ (by rw [hafter]; simp)) hhead
    · rw [hafter] at hpath
      cases run with
      | cons r run =>
        obtain ⟨hr, -⟩ := List.cons.inj hpath
        exact absurd (hrun _ (by rw [hr]; simp)) hhead
      | nil =>
        obtain ⟨hw', -⟩ := List.cons.inj hpath
        rw [orientedArea_eq_cross, hw', Ne, cross_eq_zero_iff hray (sub_ne_zero.mpr hw) (sub_ne_zero.mpr htarget),
          ← orientedArea_eq_cross] at harea
        rw [hcorners, corners, if_neg harea, h.stable]
  · rw [hcorners]
    exact Or.inr ⟨[], v, rest ++ [next], rfl, by simp, hv, hv, SameRay.rfl⟩

/-- Every stretch of a line that never turns back and has single corners is settled. -/
theorem settled_of_singleCorners {prev : α} (hreverse : NeverReverses position (prev :: (stretch ++ [next])))
    (hsingle : SingleCorners position (prev :: (stretch ++ [next]))) : Settled position prev stretch next := by
  induction stretch generalizing prev with
  | nil =>
    refine ⟨.leg (fun x hx => absurd hx List.not_mem_nil) (.last next), rfl, ?_⟩
    by_cases hnext : position next = position prev
    · exact Or.inl (by simpa using hnext)
    · exact Or.inr ⟨[], next, [], rfl, by simp, hnext, hnext, SameRay.rfl⟩
  | cons v rest ih =>
    have htail : v :: (rest ++ [next]) <:+: prev :: (v :: rest ++ [next]) := (List.suffix_cons _ _).isInfix
    have h := ih (hreverse.of_stretch htail) (hsingle.of_stretch htail)
    by_cases hv : position v = position prev
    · exact h.cons_of_eq hv
    by_cases harea : orientedArea (position prev) (position v) (position (rest.headD next)) = 0
    · rcases h.departs with hstays | ⟨run, w, after, hpath, hrun, hw, htarget, hray⟩
      · -- the line ends where it is
        have hnil : corners position v rest next = [] := corners_eq_nil fun x hx => hstays x (by simp [hx])
        have hnext : position next = position v := hstays next (by simp)
        refine h.cons_of_between harea ?_ ?_ ?_
        · rw [hnil, List.headD_nil, hnext]
          exact between_right _ _
        · rw [hnil]
          rfl
        · rw [hnil, List.headD_nil]
          refine Or.inr ⟨[], v, rest ++ [next], rfl, by simp, hv, hnext ▸ hv, ?_⟩
          rw [hnext]
      · -- it leaves for `w`, straight on
        have hturn : Turn position (prev :: (v :: rest ++ [next])) (position prev) (position v) (position w) (run.length + 1) :=
          ⟨[], prev, v :: run, w, after, by rw [List.cons_append, hpath]; simp, by simpa using hrun, by simp, by omega, rfl,
            Ne.symm hv, rfl, hw⟩
        have hzero : orientedArea (position prev) (position v) (position w) = 0 := by
          by_contra hcorner
          have hrun' := hsingle _ _ _ _ hturn hcorner
          obtain rfl := List.length_eq_zero_iff.mp (by omega : run.length = 0)
          obtain ⟨after', hafter⟩ := concat_eq_headD_cons rest next
          rw [hafter] at hpath
          exact hcorner ((List.cons.inj hpath).1 ▸ harea)
        have hon : SameRay ℤ (position v - position prev) (position w - position v) := by
          refine sameRay_of_cross_eq_zero ((orientedArea_eq_cross _ _ _).symm.trans hzero) ?_
          rw [neg_sub]
          exact hreverse _ _ _ _ hturn
        exact h.cons_of_straight hv harea (hon.trans hray fun hzero => absurd hzero (sub_ne_zero.mpr hw)) htarget
    · exact h.cons_of_corner harea

/-! ## The passes -/

/-- Inside a line a vertex is kept when it spans area with its neighbours. -/
theorem keeps_interior (closed : Bool) (before : List α) (q x r : α) (after : List α) :
    keeps orientedArea position closed (before ++ q :: x :: r :: after) (before.length + 1) =
      (orientedArea (position q) (position x) (position r) != 0) := by
  have hmod : (before.length + 1 + 1) % (before ++ q :: x :: r :: after).length = before.length + 2 :=
    Nat.mod_eq_of_lt (by simp; omega)
  rw [keeps, hmod]
  simp

/-- Of the vertices inside a line a pass keeps the corners. -/
theorem filter_interior (position : α → Point) (closed : Bool) (before : List α) (q : α) (stretch : List α) (n : α)
    (after : List α) :
    ((stretch.zipIdx (before.length + 1)).filter fun p =>
      keeps orientedArea position closed (before ++ q :: (stretch ++ n :: after)) p.2).map Prod.fst =
      corners position q stretch n := by
  induction stretch generalizing before q with
  | nil => rfl
  | cons v rest ih =>
    have hrest : ∃ after', rest ++ n :: after = rest.headD n :: after' := by
      cases rest with
      | nil => exact ⟨after, rfl⟩
      | cons r rest => exact ⟨rest ++ n :: after, rfl⟩
    obtain ⟨after', hafter'⟩ := hrest
    have hkeeps : keeps orientedArea position closed (before ++ q :: (v :: rest ++ n :: after)) (before.length + 1) =
        (orientedArea (position q) (position v) (position (rest.headD n)) != 0) := by
      rw [List.cons_append, hafter']
      exact keeps_interior closed before q v _ after'
    have hlater := ih (before ++ [q]) v
    rw [List.length_append, List.length_singleton, List.append_assoc, List.singleton_append] at hlater
    rw [List.zipIdx_cons, corners]
    by_cases harea : orientedArea (position q) (position v) (position (rest.headD n)) = 0
    · rw [List.filter_cons_of_neg (by rw [hkeeps]; simpa using harea), if_pos harea]
      exact hlater
    · rw [List.filter_cons_of_pos (by rw [hkeeps]; simpa using harea), if_neg harea, List.map_cons]
      exact congrArg (v :: ·) hlater

/-- A pass over an open line keeps its ends and the corners between them. -/
theorem collinearPass_open (a : α) (stretch : List α) (z : α) :
    collinearPass orientedArea position false (a :: (stretch ++ [z])) = a :: (corners position a stretch z ++ [z]) := by
  have hinside := filter_interior position false [] a stretch z []
  have hlast : keeps orientedArea position false (a :: (stretch ++ [z])) (stretch.length + 1) = true := by simp [keeps]
  have hfirst : keeps orientedArea position false (a :: (stretch ++ [z])) 0 = true := by simp [keeps]
  simp only [List.nil_append, List.length_nil, zero_add] at hinside
  rw [collinearPass, List.zipIdx_cons, List.zipIdx_append, List.filter_cons_of_pos (by exact hfirst), List.filter_append,
    List.map_cons,
    List.map_append, zero_add, hinside, add_comm 1]
  simp [hlast]

/-! ### Going round a closed line -/

/-- Three rounds of a closed line show every vertex with what comes before and after it. -/
def rounds (ring : List α) : List α :=
  ring ++ ring ++ ring

theorem getElem?_rounds (ring : List α) {index : ℕ} (h : index < 3 * ring.length) :
    (rounds ring)[index]? = ring[index % ring.length]? := by
  unfold rounds
  by_cases h1 : index < ring.length
  · rw [List.append_assoc, List.getElem?_append_left h1, Nat.mod_eq_of_lt h1]
  · by_cases h2 : index < 2 * ring.length
    · rw [List.getElem?_append_left (by simp; omega), List.getElem?_append_right (by omega), Nat.mod_eq_sub_mod (by omega),
        Nat.mod_eq_of_lt (by omega)]
    · rw [List.getElem?_append_right (by simp; omega), Nat.mod_eq_sub_mod (by omega), Nat.mod_eq_sub_mod (by omega),
        Nat.mod_eq_of_lt (by omega), List.length_append, Nat.sub_sub]

/-- The vertex before one in three rounds is the one before it in the ring. -/
theorem previous_mod (index : ℕ) {length : ℕ} (h : 0 < length) :
    (if index = 0 then 3 * length - 1 else index - 1) % length = if index % length = 0 then length - 1 else index %
      length - 1 := by
  have hsplit := Nat.div_add_mod index length
  have hlt := Nat.mod_lt index h
  generalize index / length = round at hsplit
  generalize index % length = place at hsplit hlt
  rcases Nat.eq_zero_or_pos place with rfl | hplace
  · rw [if_pos rfl]
    cases round with
    | zero =>
      have hlast : 3 * length - 1 = length * 2 + (length - 1) := by omega
      rw [if_pos (by simpa using hsplit.symm), hlast, Nat.mul_add_mod, Nat.mod_eq_of_lt (by omega)]
    | succ round =>
      rw [Nat.mul_succ] at hsplit
      have hlast : index - 1 = length * round + (length - 1) := by omega
      rw [if_neg (by omega), hlast, Nat.mul_add_mod, Nat.mod_eq_of_lt (by omega)]
  · have hlast : index - 1 = length * round + (place - 1) := by omega
    rw [if_neg (by omega), if_neg (by omega), hlast, Nat.mul_add_mod, Nat.mod_eq_of_lt (by omega)]

/-- The flag of a vertex is the same in every round. -/
theorem keeps_rounds (ring : List α) {index : ℕ} (h : index < 3 * ring.length) :
    keeps orientedArea position true (rounds ring) index = keeps orientedArea position true ring (index % ring.length) := by
  have hlength : (rounds ring).length = 3 * ring.length := by
    simp only [rounds, List.length_append]
    omega
  have hpos : 0 < ring.length := by omega
  have hnext : (index + 1) % (3 * ring.length) % ring.length = (index % ring.length + 1) % ring.length := by
    rw [Nat.mod_mul_left_mod, Nat.mod_add_mod]
  have hprevious := previous_mod index hpos
  have hprevious_lt : (if index = 0 then 3 * ring.length - 1 else index - 1) < 3 * ring.length := by
    split <;> omega
  simp only [keeps, hlength, Bool.true_or, if_true]
  rw [getElem?_rounds ring hprevious_lt, getElem?_rounds ring h, getElem?_rounds ring (Nat.mod_lt _ (by omega)), hprevious, hnext]

/-- A pass over a closed line keeps its corners. -/
theorem collinearPass_closed (first : α) (rest : List α) :
    collinearPass orientedArea position true (first :: rest) = corners position (rest.getLastD first) (first :: rest) first := by
  obtain ⟨before, last, hlast⟩ := (List.eq_nil_or_concat' (first :: rest)).resolve_left (by simp)
  have hlastD : rest.getLastD first = last := by
    have h := congrArg List.getLast? hlast
    rw [List.getLast?_cons, List.getLast?_concat] at h
    rw [List.getLastD_eq_getLast?]
    exact Option.some.inj h
  have hrounds : before ++ last :: (first :: rest ++ first :: rest) = rounds (first :: rest) := by
    rw [rounds, List.append_assoc]
    nth_rewrite 3 [hlast]
    simp
  have hlength : before.length + 1 = (first :: rest).length := by rw [hlast, List.length_append, List.length_singleton]
  have hinside := filter_interior position true before last (first :: rest) first rest
  rw [hrounds, hlength, List.zipIdx_eq_map_add, List.filter_map, List.map_map] at hinside
  rw [hlastD, ← hinside, collinearPass]
  refine congrArg₂ List.map rfl (List.filter_congr ?_)
  rintro ⟨x, index⟩ hx
  have hindex : index < (first :: rest).length := (List.getElem?_eq_some_iff.mp (List.mem_zipIdx_iff_getElem?.mp hx)).1
  have hround : (first :: rest).length + index < 3 * (first :: rest).length := by omega
  have hkeeps : keeps orientedArea position true (rounds (first :: rest)) _ = _ := keeps_rounds (first :: rest) hround
  rw [Nat.add_mod_left, Nat.mod_eq_of_lt hindex] at hkeeps
  exact hkeeps.symm

/-! ### What a pass leaves out -/

variable {closed : Bool} {points : List α}

theorem mem_collinearPass_iff {x : α} :
    x ∈ collinearPass orientedArea position closed points ↔ ∃ index, points[index]? = some x ∧
      keeps orientedArea position closed points index = true := by
  simp only [collinearPass, List.mem_map, List.mem_filter, Prod.exists, exists_and_right, exists_eq_right,
    List.mem_zipIdx_iff_getElem?]

/-- Where all flags are set the pass changes nothing. -/
theorem collinearPass_eq_self (h : (List.range points.length).all (keeps orientedArea position closed points) = true) :
    collinearPass orientedArea position closed points = points := by
  have hall : points.zipIdx.filter (fun p => keeps orientedArea position closed points p.2) = points.zipIdx := by
    refine List.filter_eq_self.mpr ?_
    rintro ⟨x, index⟩ hx
    exact List.all_eq_true.mp h index (List.mem_range.mpr (List.getElem?_eq_some_iff.mp (List.mem_zipIdx_iff_getElem?.mp hx)).1)
  rw [collinearPass, hall, List.zipIdx_map_fst]

/-- A line that a pass does not change is not changed by the loop. -/
theorem collinearLoop_of_stable (h : collinearPass orientedArea position closed points = points) :
    collinearLoop orientedArea position closed points = points := by
  rw [collinearLoop]
  by_cases hlength : points.length ≤ if closed then 3 else 2
  · rw [if_pos hlength]
  · rw [if_neg hlength]
    split
    · rfl
    · rename_i hkeeps
      have hlt := collinearPass_length_lt orientedArea position (Bool.eq_false_iff.mpr hkeeps)
      rw [h] at hlt
      exact absurd hlt (lt_irrefl _)

/-- The loop is over after one pass when a second would change nothing. -/
theorem collinearLoop_eq_pass (hlength : (if closed then 3 else 2) < points.length)
    (h : collinearPass orientedArea position closed (collinearPass orientedArea position closed points) = collinearPass
      orientedArea position closed points) :
    collinearLoop orientedArea position closed points = collinearPass orientedArea position closed points := by
  rw [collinearLoop, if_neg (by omega)]
  split
  · rename_i hkeeps
    exact (collinearPass_eq_self hkeeps).symm
  · exact collinearLoop_of_stable h

/-- What the first pass of a long line leaves out is left out. -/
theorem collinearLoop_sublist_pass (hlength : (if closed then 3 else 2) < points.length) :
    (collinearLoop orientedArea position closed points).Sublist (collinearPass orientedArea position closed points) := by
  rw [collinearLoop, if_neg (by omega)]
  split
  · rename_i hkeeps
    rw [collinearPass_eq_self hkeeps]
  · exact collinearLoop_sublist orientedArea position closed _

/-- An index of a list without repetition is told by what stands there. -/
theorem index_eq_of_nodup (hnodup : points.Nodup) {i j : ℕ} {x : α} (hi : points[i]? = some x) (hj : points[j]? = some x) :
    i = j :=
  (List.getElem?_inj (List.getElem?_eq_some_iff.mp hi).1 hnodup).mp (hi.trans hj.symm)

/-- A vertex of an open line that spans no area with its neighbours is left out. -/
theorem not_mem_collinearPass_open (hnodup : points.Nodup) {before after : List α} {q x r : α}
    (hpoints : points = before ++ q :: x :: r :: after) (harea : orientedArea (position q) (position x) (position r) = 0) :
    x ∉ collinearPass orientedArea position false points := by
  intro hmem
  obtain ⟨index, hindex, hkeeps⟩ := mem_collinearPass_iff.mp hmem
  have hplace : points[before.length + 1]? = some x := by rw [hpoints]; simp
  obtain rfl := index_eq_of_nodup hnodup hindex hplace
  rw [hpoints, keeps_interior, harea] at hkeeps
  exact absurd hkeeps (by decide)

variable {ring : List α}

/-- A vertex of a closed line that spans no area with its neighbours is left out. -/
theorem not_mem_collinearPass_closed (hnodup : ring.Nodup) {before after : List α} {q x r : α}
    (hrounds : rounds ring = before ++ q :: x :: r :: after) (harea : orientedArea (position q) (position x) (position r) = 0) :
    x ∉ collinearPass orientedArea position true ring := by
  intro hmem
  obtain ⟨index, hindex, hkeeps⟩ := mem_collinearPass_iff.mp hmem
  have hlength : before.length + 1 < 3 * ring.length := by
    have h := congrArg List.length hrounds
    simp only [rounds, List.length_append, List.length_cons] at h
    omega
  have hplace : (rounds ring)[before.length + 1]? = some x := by rw [hrounds]; simp
  rw [getElem?_rounds ring hlength] at hplace
  obtain rfl := index_eq_of_nodup hnodup hindex hplace
  rw [← keeps_rounds ring hlength, hrounds, keeps_interior, harea] at hkeeps
  exact absurd hkeeps (by decide)

/-- Each of several vertices at one place has a neighbour there, so it spans no area. -/
theorem exists_flat_neighbours {before run after : List α} {a b x : α} {v : Point} (hrun : ∀ y ∈ run, position y = v)
    (hlength : 2 ≤ run.length) (hx : x ∈ run) :
    ∃ before' q r after', before ++ a :: (run ++ b :: after) = before' ++ q :: x :: r :: after' ∧
      orientedArea (position q) (position x) (position r) = 0 := by
  obtain ⟨first, second, rfl⟩ := List.append_of_mem hx
  cases second with
  | cons r second =>
    obtain ⟨before', q, hq⟩ := (List.eq_nil_or_concat' (a :: first)).resolve_left (by simp)
    refine ⟨before ++ before', q, r, second ++ b :: after, ?_, ?_⟩
    · have hsplit : before ++ a :: (first ++ x :: r :: second ++ b :: after) =
          before ++ (a :: first) ++ x :: r :: (second ++ b :: after) := by simp
      rw [hsplit, hq]
      simp
    · rw [hrun x (by simp), hrun r (by simp), orientedArea_right]
  | nil =>
    have hne : first ≠ [] := by
      rintro rfl
      simp at hlength
    obtain ⟨before', q, rfl⟩ := (List.eq_nil_or_concat' first).resolve_left hne
    refine ⟨before ++ a :: before', q, b, after, by simp, ?_⟩
    rw [hrun x (by simp), hrun q (by simp), orientedArea_left]

/-- A line of which the vertices at some place between two others are all left out passes straight through that place. -/
theorem orientedArea_eq_zero_of_straightened {line kept before run after : List α} {a b : α} {v : Point}
    (h : Straightened ℤ position line kept) (hline : line = before ++ a :: (run ++ b :: after)) (hrun : ∀ x ∈ run, position x = v)
    (hne : run ≠ []) (hleft : ∀ x ∈ run, x ∉ kept) : orientedArea (position a) v (position b) = 0 := by
  obtain ⟨c, d, hbetween⟩ := h.exists_between hline hne hleft
  obtain ⟨x, hx⟩ := List.exists_mem_of_ne_nil run hne
  rw [← hrun x hx]
  exact orientedArea_eq_zero_of_between (hbetween a (by simp)) (hbetween x (by simp [hx])) (hbetween b (by simp))

/-! ## Open lines -/

/-- The collinear removal straightens an open line that never turns back exactly when the line has single corners. -/
theorem straightened_iff (hnodup : points.Nodup) (hreverse : NeverReverses position points) :
    Straightened ℤ position points (collinearLoop orientedArea position false points) ↔ SingleCorners position points := by
  constructor
  · rintro hstraight p v n copies ⟨before, a, run, b, after, hpoints, hrun, rfl, hcopies, rfl, -, rfl, -⟩ harea
    by_contra hmany
    have hlength : 2 < points.length := by
      rw [hpoints]
      simp
      omega
    have hkept_pass : (collinearLoop orientedArea position false points).Sublist
      (collinearPass orientedArea position false points) :=
      collinearLoop_sublist_pass hlength
    refine harea (orientedArea_eq_zero_of_straightened hstraight hpoints hrun (List.length_pos_iff.mp hcopies) ?_)
    intro x hx hkept
    obtain ⟨before', q, r, after', hneighbours, hflat⟩ := exists_flat_neighbours hrun (by omega) hx
    exact not_mem_collinearPass_open hnodup (hpoints.trans hneighbours) hflat (hkept_pass.subset hkept)
  · intro hsingle
    by_cases hlength : 2 < points.length
    · obtain ⟨a, rest, rfl⟩ := List.exists_cons_of_length_pos (by omega : 0 < points.length)
      obtain ⟨stretch, z, rfl⟩ := (List.eq_nil_or_concat' rest).resolve_left (by rintro rfl; simp at hlength)
      have h := settled_of_singleCorners hreverse hsingle
      have hstable : collinearPass orientedArea position false
        (collinearPass orientedArea position false (a :: (stretch ++ [z]))) =
          collinearPass orientedArea position false (a :: (stretch ++ [z])) := by
        rw [collinearPass_open, collinearPass_open, h.stable]
      rw [collinearLoop_eq_pass (by simpa using hlength) hstable, collinearPass_open]
      exact h.straightened
    · rw [collinearLoop, if_pos (by simpa using hlength)]
      exact Straightened.refl _

/-! ## Closed lines -/

/-- What is kept of a closed line straightens it, read once round from the first vertex kept. -/
def RingStraightened (position : α → Point) (ring kept : List α) : Prop :=
  ∃ before k after rest, ring = before ++ k :: after ∧ kept = k :: rest ∧
    Straightened ℤ position (k :: (after ++ before ++ [k])) (k :: (rest ++ [k]))

theorem headD_append (first second : List α) (next : α) : (first ++ second).headD next = first.headD (second.headD next) := by
  cases first <;> rfl

theorem getLastD_append_cons (first second : List α) (k prev : α) : (first ++ k :: second).getLastD prev = second.getLastD k := by
  simp [List.getLastD_eq_getLast?, List.getLast?_append, List.getLast?_cons]

theorem getLastD_append (first second : List α) (prev : α) :
    (first ++ second).getLastD prev = second.getLastD (first.getLastD prev) := by
  cases second with
  | nil => simp
  | cons k second => rw [getLastD_append_cons]; cases second <;> simp [List.getLastD]

/-- The first corner of a stretch, with what comes before and after it. -/
theorem corners_eq_cons {prev k next : α} {stretch rest : List α} (h : corners position prev stretch next = k :: rest) :
    ∃ before after, stretch = before ++ k :: after ∧ corners position prev before k = [] ∧ corners position k after next = rest ∧
      orientedArea (position (before.getLastD prev)) (position k) (position (after.headD next)) ≠ 0 := by
  induction stretch generalizing prev with
  | nil => exact absurd h (by simp [corners])
  | cons v stretch ih =>
    rw [corners] at h
    by_cases harea : orientedArea (position prev) (position v) (position (stretch.headD next)) = 0
    · rw [if_pos harea] at h
      obtain ⟨before, after, rfl, hbefore, hafter, hk⟩ := ih h
      refine ⟨v :: before, after, rfl, ?_, hafter, ?_⟩
      · rw [headD_append, List.headD_cons] at harea
        rw [corners, if_pos harea, hbefore]
      · rwa [show v :: before = [] ++ v :: before from rfl, getLastD_append_cons]
    · rw [if_neg harea] at h
      obtain ⟨rfl, hrest⟩ := List.cons.inj h
      exact ⟨[], stretch, rfl, rfl, hrest, harea⟩

/-- A closed line that never turns back, with vertices at two places, has a corner. -/
theorem corners_ne_nil {first : α} (hreverse : NeverReverses position (rounds (first :: rest)))
    (hsingle : SingleCorners position (rounds (first :: rest)))
    (hplaces : ∃ x ∈ first :: rest, ∃ y ∈ first :: rest, position x ≠ position y) (prev : α) :
    corners position prev (first :: rest) first ≠ [] := by
  intro hnil
  have hrest : corners position first rest first = [] := by
    rw [corners] at hnil
    split at hnil
    · exact hnil
    · exact absurd hnil (List.cons_ne_nil _ _)
  have hwithin : first :: (rest ++ [first]) <:+: rounds (first :: rest) := ⟨[], rest ++ (first :: rest), by simp [rounds]⟩
  rcases (settled_of_singleCorners (hreverse.of_stretch hwithin) (hsingle.of_stretch hwithin)).departs with hstays | ⟨-, w, -, -,
    -, -, htarget, -⟩
  · obtain ⟨x, hx, y, hy, hxy⟩ := hplaces
    have hfirst : ∀ z ∈ first :: rest, position z = position first := by
      intro z hz
      rcases List.mem_cons.mp hz with rfl | hz
      · rfl
      · exact hstays z (by simp [hz])
    exact hxy ((hfirst x hx).trans (hfirst y hy).symm)
  · rw [hrest] at htarget
    exact htarget rfl

/-- The pass over a closed line that never turns back and has single corners straightens it, and a second pass changes nothing. -/
theorem collinearPass_ring {first : α} (hreverse : NeverReverses position (rounds (first :: rest)))
    (hsingle : SingleCorners position (rounds (first :: rest)))
    (hplaces : ∃ x ∈ first :: rest, ∃ y ∈ first :: rest, position x ≠ position y) :
    RingStraightened position (first :: rest) (collinearPass orientedArea position true (first :: rest)) ∧
      collinearPass orientedArea position true (collinearPass orientedArea position true (first :: rest)) = collinearPass
        orientedArea position true (first :: rest) := by
  obtain ⟨k, kept, hpass⟩ := List.exists_cons_of_ne_nil (corners_ne_nil hreverse hsingle hplaces (rest.getLastD first))
  obtain ⟨before, after, hring, hbefore, hafter, hk⟩ := corners_eq_cons hpass
  rw [collinearPass_closed, hpass]
  -- where the ring begins and ends, seen from `k`
  have hfirst : first = before.headD k := by
    have h := congrArg (List.headD · first) hring
    rwa [headD_append] at h
  have hlast : rest.getLastD first = after.getLastD k := by
    have h := congrArg (List.getLastD · first) hring
    rwa [getLastD_append_cons, show first :: rest = [] ++ first :: rest from rfl, getLastD_append_cons] at h
  rw [hlast] at hbefore hk
  have hround : corners position k (after ++ before) k = kept := by
    rw [corners_append, ← hfirst, hafter, hbefore, List.append_nil]
  have hcorner : corners position ((after ++ before).getLastD k) (k :: (after ++ before)) k = k :: kept := by
    rw [getLastD_append, corners, headD_append, ← hfirst, if_neg hk, hround]
  have htwice : corners position k ((after ++ before) ++ k :: (after ++ before)) k = kept ++ k :: kept := by
    rw [corners_append, List.headD_cons, hround, hcorner]
  have hwithin : k :: ((after ++ before) ++ k :: (after ++ before) ++ [k]) <:+: rounds (first :: rest) :=
    ⟨before, after, by rw [hring]; simp [rounds]⟩
  have honce : k :: ((after ++ before) ++ [k]) <:+: rounds (first :: rest) :=
    List.IsInfix.trans ⟨[], after ++ before ++ [k], by simp⟩ hwithin
  constructor
  · have h := (settled_of_singleCorners (hreverse.of_stretch honce) (hsingle.of_stretch honce)).straightened
    rw [hround] at h
    exact ⟨before, k, after, kept, hring, rfl, h⟩
  · -- the second round of two repeats the first
    have h := (settled_of_singleCorners (hreverse.of_stretch hwithin) (hsingle.of_stretch hwithin)).stable
    rw [htwice, corners_append, List.headD_cons] at h
    have hlengths := congrArg List.length h
    have hle₁ : (corners position k kept k).length ≤ kept.length := (corners_sublist k kept k).length_le
    have hle₂ : (corners position (kept.getLastD k) (k :: kept) k).length ≤ (k :: kept).length :=
      (corners_sublist _ _ _).length_le
    rw [List.length_append, List.length_append] at hlengths
    rw [collinearPass_closed]
    exact (List.append_inj h (by omega)).2

/-- A closed line at one place loses all its vertices. -/
theorem collinearPass_eq_nil (h : ∀ x ∈ ring, ∀ y ∈ ring, position x = position y) :
    collinearPass orientedArea position true ring = [] := by
  cases ring with
  | nil => rfl
  | cons first rest =>
    have hlast : rest.getLastD first ∈ first :: rest := by
      rcases List.eq_nil_or_concat' rest with rfl | ⟨rest', last, rfl⟩
      · simp
      · simp
    rw [collinearPass_closed]
    exact corners_eq_nil fun x hx => h x hx _ hlast

/-- The collinear removal straightens a closed line that never turns back exactly when the line has at most three vertices, or
vertices at two places and single corners. -/
theorem ringStraightened_iff (hne : ring ≠ []) (hnodup : ring.Nodup) (hreverse : NeverReverses position (rounds ring)) :
    RingStraightened position ring (collinearLoop orientedArea position true ring) ↔
      ring.length ≤ 3 ∨ (∃ x ∈ ring, ∃ y ∈ ring, position x ≠ position y) ∧ SingleCorners position (rounds ring) := by
  obtain ⟨first, rest, rfl⟩ := List.exists_cons_of_ne_nil hne
  by_cases hlength : (first :: rest).length ≤ 3
  · rw [collinearLoop, if_pos (by simpa using hlength)]
    simp only [hlength, true_or, iff_true]
    exact ⟨[], first, rest, rest, rfl, rfl, by simpa using Straightened.refl _⟩
  simp only [hlength, false_or]
  have hkept_pass : (collinearLoop orientedArea position true (first :: rest)).Sublist
    (collinearPass orientedArea position true (first :: rest)) :=
    collinearLoop_sublist_pass (by rw [if_pos rfl]; omega)
  constructor
  · rintro ⟨before, k, after, kept, hring, hkept, hstraight⟩
    constructor
    · by_contra hplaces
      have hsame : ∀ x ∈ first :: rest, ∀ y ∈ first :: rest, position x = position y := by
        intro x hx y hy
        by_contra hxy
        exact hplaces ⟨x, hx, y, hy, hxy⟩
      rw [hkept, collinearPass_eq_nil hsame] at hkept_pass
      exact absurd (List.sublist_nil.mp hkept_pass) (List.cons_ne_nil _ _)
    · -- four rounds from the first vertex kept hold three from the first vertex
      have hround : ∀ {M' N : List α}, Straightened ℤ position (k :: M') (k :: N) →
          Straightened ℤ position (k :: (after ++ before ++ k :: M')) (k :: (kept ++ k :: N)) := by
        intro M' N h
        exact Straightened.join (L := k :: (after ++ before)) (K := k :: kept) hstraight h
      have hfour := hround (hround (hround hstraight))
      rintro p v n copies ⟨before', a, run, b, after', hrounds, hrun, rfl, hcopies, rfl, -, rfl, -⟩ harea
      by_contra hmany
      have hline : k :: (after ++ before ++ k :: (after ++ before ++ k :: (after ++ before ++ k :: (after ++ before ++ [k])))) =
          (k :: after ++ before') ++ a :: (run ++ b :: (after' ++ before ++ [k])) := by
        have hthree : (k :: after) ++ rounds (first :: rest) ++ (before ++ [k]) = _ :=
          congrArg (fun line => (k :: after) ++ line ++ (before ++ [k])) hrounds
        rw [hring] at hthree
        simpa [rounds] using hthree
      refine harea (orientedArea_eq_zero_of_straightened hfour hline hrun (List.length_pos_iff.mp hcopies) ?_)
      intro x hx hmem
      have hx_kept : x ∈ collinearLoop orientedArea position true (first :: rest) := by
        simp only [List.mem_cons, List.mem_append, List.not_mem_nil, or_false] at hmem
        rw [hkept, List.mem_cons]
        grind
      obtain ⟨before'', q, r, after'', hneighbours, hflat⟩ := exists_flat_neighbours hrun (by omega) hx
      exact not_mem_collinearPass_closed hnodup (hrounds.trans hneighbours) hflat (hkept_pass.subset hx_kept)
  · rintro ⟨hplaces, hsingle⟩
    obtain ⟨hstraight, hstable⟩ := collinearPass_ring hreverse hsingle hplaces
    rw [collinearLoop_eq_pass (by rw [if_pos rfl]; omega) hstable]
    exact hstraight

end Biei.Terrain
