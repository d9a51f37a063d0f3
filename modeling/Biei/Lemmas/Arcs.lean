import Biei.Lib.Fallible
import Biei.Terrain.Arcs

/-!
# What the arcs are made of

Every arc is a chain of edges with labels, so nothing `build_arcs` expects is missing.
-/

namespace Biei.Terrain

/-! ## Edges -/

/-- The edges with labels are edges of the grid. -/
def EdgeGrid.InGrid (grid : EdgeGrid) : Prop :=
  ∀ edge info, grid.info edge = some info → grid.edgeId edge.vertex edge.kind = some edge

variable {grid : EdgeGrid} {edge : Edge}

theorem edgeId_eq_some_iff {vertex : Point} {kind : EdgeKind} :
    grid.edgeId vertex kind = some edge ↔ ⟨vertex, kind⟩ = edge ∧ grid.origin ≤ vertex.1 ∧ grid.origin ≤ vertex.2 ∧
      vertex.1 < grid.origin + grid.vertexWidth ∧ vertex.2 < grid.origin + grid.vertexHeight := by
  unfold EdgeGrid.edgeId
  simp only
  split
  · rename_i hout
    simp only [reduceCtorEq, false_iff]
    rintro ⟨-, h1, h2, h3, h4⟩
    omega
  · rename_i hin
    simp only [not_or, not_lt, not_le] at hin
    obtain ⟨h1, h2, h3, h4⟩ := hin
    simp only [Option.some.injEq]
    exact ⟨fun h => ⟨h, by omega, by omega, by omega, by omega⟩, fun h => h.1⟩

/-- Two points are linked along a pair of labels when an edge with these labels lies between them. -/
def Linked (grid : EdgeGrid) (pair : LabelPair) (edge : Edge) (a b : Point) : Prop :=
  (∃ info, grid.info edge = some info ∧ info.labels = pair) ∧ (edge.endpoints = (a, b) ∨ edge.endpoints = (b, a))

variable {pair : LabelPair}

theorem Linked.symm {a b : Point} (h : Linked grid pair edge a b) :
    Linked grid pair edge b a :=
  ⟨h.1, h.2.symm⟩

/-- The incident edges of a point that separate a pair of labels. -/
theorem mem_pairEdges_iff (hgrid : grid.InGrid) {point : Point} :
    edge ∈ grid.pairEdges point pair ↔
      (∃ info, grid.info edge = some info ∧ info.labels = pair) ∧ (edge.endpoints.1 = point ∨ edge.endpoints.2 = point) := by
  have hinfo : ((grid.info edge).any fun info => decide (info.labels = pair)) = true ↔
      ∃ info, grid.info edge = some info ∧ info.labels = pair := by
    cases grid.info edge <;> simp
  rw [EdgeGrid.pairEdges, List.mem_filter, hinfo, and_comm]
  refine and_congr_right ?_
  rintro ⟨info, hedge, -⟩
  have hid := hgrid edge info hedge
  rw [List.reduceOption_mem_iff]
  obtain ⟨⟨vx, vy⟩, kind⟩ := edge
  simp only [EdgeGrid.incidentIds, List.mem_cons, List.not_mem_nil, or_false, eq_comm (a := some _), edgeId_eq_some_iff]
  rw [edgeId_eq_some_iff] at hid
  obtain ⟨-, h1, h2, h3, h4⟩ := hid
  obtain ⟨px, py⟩ := point
  cases kind with
  | vertical =>
    simp only [Edge.endpoints, Edge.mk.injEq, Prod.mk.injEq, reduceCtorEq, and_false, false_and, and_true, or_false]
      at h1 h2 h3 h4 ⊢
    omega
  | horizontal =>
    simp only [Edge.endpoints, Edge.mk.injEq, Prod.mk.injEq, reduceCtorEq, and_false, false_and, and_true, false_or]
      at h1 h2 h3 h4 ⊢
    omega

/-- Points strung on edges of one pair of labels. -/
inductive Strung (grid : EdgeGrid) (pair : LabelPair) : List Point → List Edge → Prop
  | single (p : Point) : Strung grid pair [p] []
  | cons {a b : Point} {edge : Edge} {points : List Point} {edges : List Edge} (hlinked : Linked grid pair edge a b)
      (hrest : Strung grid pair (b :: points) edges) : Strung grid pair (a :: b :: points) (edge :: edges)

/-- Strung points that end where others begin are strung together. -/
theorem Strung.append {first second : List Point} {p : Point} {edges edges' : List Edge}
    (h : Strung grid pair (first ++ [p]) edges) (h' : Strung grid pair (p :: second) edges') :
    Strung grid pair (first ++ p :: second) (edges ++ edges') := by
  induction first generalizing edges with
  | nil =>
    cases h with
    | single => exact h'
  | cons a first ih =>
    cases first with
    | nil =>
      cases h with
      | cons hlinked hrest => exact .cons hlinked (ih hrest)
    | cons b first =>
      cases h with
      | cons hlinked hrest => exact .cons hlinked (ih hrest)

variable {points : List Point}

/-- The same points in the other direction. -/
theorem Strung.reverse {edges : List Edge} (h : Strung grid pair points edges) :
    Strung grid pair points.reverse edges.reverse := by
  induction h with
  | single p => exact .single p
  | @cons a b edge points edges hlinked hrest ih =>
    rw [List.reverse_cons (a := b)] at ih
    have hlast : Strung grid pair [b, a] [edge] := .cons hlinked.symm (.single a)
    have hjoined := ih.append hlast
    simpa using hjoined

/-- The edges of a point, along a pair of labels, that remain. -/
def remainingAt (grid : EdgeGrid) (remaining : List Edge) (pair : LabelPair) (point : Point) : List Edge :=
  (grid.pairEdges point pair).filter fun edge => decide (edge ∈ remaining)

theorem nodup_pairEdges (grid : EdgeGrid) (point : Point) (pair : LabelPair) : (grid.pairEdges point pair).Nodup := by
  obtain ⟨x, y⟩ := point
  refine List.Nodup.filter _ ?_
  unfold EdgeGrid.incidentIds EdgeGrid.edgeId
  simp only
  split_ifs <;> simp [List.reduceOption]

theorem remainingAt_erase {remaining : List Edge} (hnodup : remaining.Nodup) (edge : Edge) (pair : LabelPair) (point : Point) :
    remainingAt grid (remaining.erase edge) pair point = (remainingAt grid remaining pair point).erase edge := by
  unfold remainingAt
  rw [((nodup_pairEdges grid point pair).filter _).erase_eq_filter, List.filter_filter]
  refine List.filter_congr fun e _ => ?_
  rw [Bool.eq_iff_iff]
  simp [hnodup.mem_erase_iff]

/-- Away from the ends of arcs, the number of a point's edges that remain has a parity. -/
def Remains (grid : EdgeGrid) (tileSize : ℤ) (parity : ℕ) (remaining : List Edge) (pair : LabelPair) (point : Point) : Prop :=
  isArcEndpoint grid tileSize pair point = true ∨ (remainingAt grid remaining pair point).length % 2 = parity

section Erase

variable {remaining : List Edge} {tileSize : ℤ} {parity : ℕ} {p : LabelPair} {q : Point}

/-- An edge that goes changes nothing at the points where it is not. -/
theorem Remains.erase_of_not_mem (h : Remains grid tileSize parity remaining p q) (hnodup : remaining.Nodup)
    (hedge : edge ∉ grid.pairEdges q p) :
    Remains grid tileSize parity (remaining.erase edge) p q := by
  have hat : edge ∉ remainingAt grid remaining p q := fun hat => hedge (List.mem_of_mem_filter hat)
  unfold Remains
  rwa [remainingAt_erase hnodup, List.erase_of_not_mem hat]

/-- At its ends it changes the parity. -/
theorem Remains.erase (h : Remains grid tileSize parity remaining p q) (hnodup : remaining.Nodup) (hmem : edge ∈ remaining)
    (hedge : edge ∈ grid.pairEdges q p) : Remains grid tileSize (1 - parity) (remaining.erase edge) p q := by
  refine h.imp_right fun hparity => ?_
  have hat : edge ∈ remainingAt grid remaining p q := List.mem_filter.mpr ⟨hedge, by simpa using hmem⟩
  rw [remainingAt_erase hnodup, List.length_erase_of_mem hat]
  have := List.length_pos_of_mem hat
  omega

end Erase

theorem Edge.endpoints_ne (edge : Edge) : edge.endpoints.1 ≠ edge.endpoints.2 := by
  obtain ⟨⟨x, y⟩, kind⟩ := edge
  cases kind <;> simp [Edge.endpoints]

theorem Linked.ne {a b : Point} (h : Linked grid pair edge a b) : a ≠ b := by
  have hne := edge.endpoints_ne
  rcases h.2 with hends | hends
  · rw [hends] at hne
    exact hne
  · rw [hends] at hne
    exact hne.symm

/-- The points where the edge between two linked points is found. -/
theorem Linked.mem_pairEdges_iff (hgrid : grid.InGrid) {a b : Point} (h : Linked grid pair edge a b) {p : LabelPair} {q : Point} :
    edge ∈ grid.pairEdges q p ↔ p = pair ∧ (q = a ∨ q = b) := by
  obtain ⟨⟨info, hinfo, rfl⟩, hends⟩ := h
  rw [Biei.Terrain.mem_pairEdges_iff hgrid]
  have hlabels : (∃ info', grid.info edge = some info' ∧ info'.labels = p) ↔ p = info.labels := by
    simp [hinfo, eq_comm]
  rw [hlabels]
  refine and_congr_right fun _ => ?_
  rcases hends with hends | hends
  · rw [hends, eq_comm, eq_comm (a := q) (b := b)]
  · rw [hends, or_comm, eq_comm, eq_comm (a := b)]

/-- Where a walk stands: an odd number of edges remains at the point it has come to and at its `home`, and an even one
elsewhere. -/
structure Underway (grid : EdgeGrid) (tileSize : ℤ) (pair : LabelPair) (home : Option Point) (current : Point)
    (remaining : List Edge) :
    Prop where
  nodup : remaining.Nodup
  current_odd : Remains grid tileSize 1 remaining pair current
  home_odd : ∀ q, home = some q → q ≠ current ∧ Remains grid tileSize 1 remaining pair q
  balanced : ∀ p q, (p = pair → q ≠ current ∧ home ≠ some q) → Remains grid tileSize 0 remaining p q

section Underway

variable {tileSize : ℤ} {home : Option Point} {current neighbor : Point} {remaining : List Edge}

/-- One step of a walk that does not come home. -/
theorem Underway.next (h : Underway grid tileSize pair home current remaining) (hgrid : grid.InGrid)
    (hlinked : Linked grid pair edge current neighbor) (hmem : edge ∈ remaining) (hhome : home ≠ some neighbor) :
    Underway grid tileSize pair home neighbor (remaining.erase edge) := by
  have hmem_iff := fun p q => hlinked.mem_pairEdges_iff hgrid (p := p) (q := q)
  refine ⟨h.nodup.erase _, ?_, fun q hq => ?_, fun p q hpq => ?_⟩
  · refine (h.balanced pair neighbor fun _ => ⟨hlinked.ne.symm, hhome⟩).erase h.nodup hmem ((hmem_iff _ _).mpr ⟨rfl, Or.inr rfl⟩)
  · obtain ⟨hne, hodd⟩ := h.home_odd q hq
    have hnext : q ≠ neighbor := fun heq => hhome (heq ▸ hq)
    refine ⟨hnext, hodd.erase_of_not_mem h.nodup fun hedge => ?_⟩
    exact ((hmem_iff _ _).mp hedge).2.elim hne hnext
  · by_cases hedge : edge ∈ grid.pairEdges q p
    · obtain ⟨rfl, hq⟩ := (hmem_iff p q).mp hedge
      obtain rfl := hq.resolve_right (hpq rfl).1
      exact h.current_odd.erase h.nodup hmem hedge
    · refine (h.balanced p q fun hp => ⟨?_, (hpq hp).2⟩).erase_of_not_mem h.nodup hedge
      rintro rfl
      exact hedge ((hmem_iff _ _).mpr ⟨hp, Or.inl rfl⟩)

/-- The step of a walk that comes home. -/
theorem Underway.close (h : Underway grid tileSize pair home current remaining) (hgrid : grid.InGrid)
    (hlinked : Linked grid pair edge current neighbor) (hmem : edge ∈ remaining) (hhome : home = some neighbor) (p : LabelPair)
      (q : Point) :
    Remains grid tileSize 0 (remaining.erase edge) p q := by
  have hmem_iff := hlinked.mem_pairEdges_iff hgrid (p := p) (q := q)
  by_cases hedge : edge ∈ grid.pairEdges q p
  · obtain ⟨rfl, rfl | rfl⟩ := hmem_iff.mp hedge
    · exact h.current_odd.erase h.nodup hmem hedge
    · exact (h.home_odd q hhome).2.erase h.nodup hmem hedge
  · refine (h.balanced p q fun hp => ⟨?_, ?_⟩).erase_of_not_mem h.nodup hedge
    · rintro rfl
      exact hedge (hmem_iff.mpr ⟨hp, Or.inl rfl⟩)
    · rw [hhome]
      rintro hq
      exact hedge (hmem_iff.mpr ⟨hp, Or.inr (Option.some.inj hq).symm⟩)

end Underway

variable {taken : List Edge} {tileSize : ℤ}

section Simplify

variable (points : List Point) (tolerance : ℚ)

end Simplify

/-! ## Drawing an arc -/

end Biei.Terrain
