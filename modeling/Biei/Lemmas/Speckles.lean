import Biei.Terrain.Speckles

/-!
# Lemmas on speckles

From the outer edge on, every component is reached, and settled by its own label or that of a component next to it.
-/

namespace Biei.Terrain

variable {width height : Nat}

/-! ## Cells -/

theorem eq_index_iff {j x y : Nat} (hx : x < width) : j = y * width + x ↔ j / width = y ∧ j % width = x := by
  constructor
  · rintro rfl
    rw [Nat.mul_comm, Nat.mul_add_div (Nat.zero_lt_of_lt hx), Nat.div_eq_of_lt hx, Nat.mul_add_mod, Nat.mod_eq_of_lt hx]
    exact ⟨rfl, rfl⟩
  · rintro ⟨rfl, rfl⟩
    exact (Nat.div_add_mod' j width).symm

theorem cell_bounds (i : Fin (width * height)) : i % width < width ∧ i / width < height := by
  have hcells : 0 < width * height := Nat.zero_lt_of_lt i.isLt
  have hpos : 0 < width := Nat.pos_of_ne_zero fun h => by simp [h] at hcells
  exact ⟨Nat.mod_lt _ hpos, Nat.div_lt_of_lt_mul i.isLt⟩

theorem mem_neighbors4 {x y x' y' : Nat} (hx : x < width) (hx' : x' < width) (hy' : y' < height) :
    some (y' * width + x') ∈ neighbors4 x y width height ↔
      x' = x ∧ (y' + 1 = y ∨ y' = y + 1) ∨ y' = y ∧ (x' + 1 = x ∨ x' = x + 1) := by
  have hindex : ∀ {x₁ y₁ : Nat}, x₁ < width → (y' * width + x' = y₁ * width + x₁ ↔ y' = y₁ ∧ x' = x₁) := by
    intro x₁ y₁ hx₁
    obtain ⟨hrow, hcolumn⟩ := (eq_index_iff hx').mp (rfl : y' * width + x' = _)
    rw [eq_index_iff hx₁, hrow, hcolumn]
  have hsome : ∀ {p : Prop} [Decidable p] {k : Nat}, some (y' * width + x') = (if p then some k else none) ↔
      p ∧ y' * width + x' = k := by
    intro p _ k
    split <;> simp_all
  have hright : (x + 1 < width ∧ y' * width + x' = y * width + x + 1) ↔ y' = y ∧ x' = x + 1 := by
    constructor
    · rintro ⟨hlt, heq⟩
      exact (hindex hlt).mp heq
    · rintro ⟨rfl, rfl⟩
      exact ⟨hx', rfl⟩
  have hleft : (0 < x ∧ y' * width + x' = y * width + x - 1) ↔ y' = y ∧ x' + 1 = x := by
    constructor
    · rintro ⟨hpos, heq⟩
      rw [Nat.add_sub_assoc hpos] at heq
      obtain ⟨hrow, hcolumn⟩ := (hindex (by omega)).mp heq
      omega
    · rintro ⟨rfl, rfl⟩
      exact ⟨Nat.succ_pos _, rfl⟩
  rw [neighbors4]
  simp only [List.mem_cons, List.not_mem_nil, or_false, hsome, hright, hleft, hindex hx]
  omega

/-- Cells are next to each other when they differ by one in one coordinate. -/
theorem mem_cellNeighbors {i j : Fin (width * height)} : j ∈ cellNeighbors i ↔
    j % width = i % width ∧ (j / width + 1 = i / width ∨ j / width = i / width + 1) ∨
      j / width = i / width ∧ (j % width + 1 = i % width ∨ j % width = i % width + 1) := by
  obtain ⟨hx, -⟩ := cell_bounds i
  obtain ⟨hx', hy'⟩ := cell_bounds j
  rw [← mem_neighbors4 hx hx' hy', Nat.div_add_mod']
  unfold cellNeighbors
  rw [List.mem_filterMap]
  constructor
  · rintro ⟨k, hk, hsome⟩
    split at hsome
    · cases hsome
      exact List.reduceOption_mem_iff.mp hk
    · cases hsome
  · intro hj
    exact ⟨j, List.reduceOption_mem_iff.mpr hj, dif_pos j.isLt⟩

theorem cellNeighbors_symm (i j : Fin (width * height)) (h : j ∈ cellNeighbors i) : i ∈ cellNeighbors j := by
  rw [mem_cellNeighbors] at h ⊢
  tauto

/-! ## Components -/

section

variable (labels : LabelGrid width height)

theorem searched_components : Flood.Searched cellNeighbors labels (componentAt labels) (searchComponents labels).2 ∧
    ∀ i, componentAt labels i ≠ none := by
  have hnil : Flood.Searched cellNeighbors labels (fun _ => none) [] := Flood.searched_nil
  obtain ⟨hsearched, -, hmet⟩ := hnil.search cellNeighbors_symm (List.finRange (width * height))
  exact ⟨hsearched, fun i => hmet i (List.mem_finRange i)⟩

/-- A one-cell component off the outer edge. -/
def Speckle (i : Fin (width * height)) : Prop :=
  touchesOuterEdge i = false ∧ ∀ j, Flood.Connected cellNeighbors labels i j → j = i

/-- The region with a number. -/
structure IsRegion (id : Nat) (region : Component width height × OrderedMap Nat Nat) : Prop where
  cells : ∀ i, i ∈ region.1.cells ↔ componentAt labels i = some id
  connected : ∀ i ∈ region.1.cells, ∀ j, j ∈ region.1.cells ↔ Flood.Connected cellNeighbors labels i j
  label : ∀ i ∈ region.1.cells, labels i = region.1.label
  stable : ∀ i ∈ region.1.cells, region.1.stable = false ↔ Speckle labels i
  adjacent : ∀ other, (∃ count, (other, count) ∈ region.2.toList) ↔
    other ≠ id ∧ ∃ i ∈ region.1.cells, ∃ j ∈ cellNeighbors i, componentAt labels j = some other

variable {labels} {id other : Nat}

theorem mem_countSide {counts : OrderedMap Nat Nat} {j : Fin (width * height)} :
    (∃ count, (other, count) ∈ (countSide labels id counts j).toList) ↔
      (∃ count, (other, count) ∈ counts.toList) ∨ other ≠ id ∧ componentAt labels j = some other := by
  unfold countSide
  cases hj : componentAt labels j with
  | none => simp
  | some other' =>
    dsimp only
    by_cases hid : other' = id
    · rw [if_neg (not_not.mpr hid)]
      simp only [Option.some.injEq]
      constructor
      · exact Or.inl
      · rintro (h | ⟨hne, rfl⟩)
        · exact h
        · exact absurd hid hne
    · rw [if_pos hid]
      simp only [OrderedMap.mem_insert, Prod.mk.injEq, Option.some.injEq]
      by_cases ho : other = other'
      · subst ho
        simp [hid]
      · simp [ho, Ne.symm ho]

theorem mem_foldl_countSide (l : List (Fin (width * height))) (counts : OrderedMap Nat Nat) :
    (∃ count, (other, count) ∈ (l.foldl (countSide labels id) counts).toList) ↔
      (∃ count, (other, count) ∈ counts.toList) ∨ other ≠ id ∧ ∃ j ∈ l, componentAt labels j = some other := by
  induction l generalizing counts with
  | nil => simp
  | cons j l ih =>
    rw [List.foldl_cons, ih, mem_countSide]
    simp only [List.mem_cons, exists_eq_or_imp]
    tauto

theorem mem_adjacency {component : Component width height} :
    (∃ count, (other, count) ∈ (adjacency labels id component).toList) ↔
      other ≠ id ∧ ∃ i ∈ component.cells, ∃ j ∈ cellNeighbors i, componentAt labels j = some other := by
  unfold adjacency
  rw [mem_foldl_countSide]
  simp only [OrderedMap.empty, List.not_mem_nil, exists_false, false_or, List.mem_flatMap]
  constructor
  · rintro ⟨hne, j, ⟨i, hi, hj⟩, hcomponent⟩
    exact ⟨hne, i, hi, j, hj, hcomponent⟩
  · rintro ⟨hne, i, hi, j, hj, hcomponent⟩
    exact ⟨hne, j, ⟨i, hi, hj⟩, hcomponent⟩

/-- What the regions are. -/
theorem isRegion_of_getElem? {id : Nat} {region : Component width height × OrderedMap Nat Nat}
    (h : (regions labels)[id]? = some region) :
    IsRegion labels id region := by
  obtain ⟨hsearched, -⟩ := searched_components labels
  unfold regions components at h
  rw [List.getElem?_map] at h
  obtain ⟨⟨component, id'⟩, hzip, rfl⟩ := Option.map_eq_some_iff.mp h
  rw [List.getElem?_zipIdx] at hzip
  obtain ⟨component', hcomponent, heq⟩ := Option.map_eq_some_iff.mp hzip
  cases heq
  rw [List.getElem?_map] at hcomponent
  obtain ⟨found, hfound, rfl⟩ := Option.map_eq_some_iff.mp hcomponent
  obtain ⟨hnodup, hwhole⟩ := hsearched.whole found (List.mem_of_getElem? hfound)
  rw [Nat.zero_add] at *
  have hconnected : ∀ i ∈ found.2, ∀ j, j ∈ found.2 ↔ Flood.Connected cellNeighbors labels i j := by
    intro i hi j
    have hstart := (hwhole i).mp hi
    rw [hwhole j]
    exact ⟨fun hj => (hstart.symm cellNeighbors_symm).trans hj, fun hij => hstart.trans hij⟩
  refine ⟨fun i => ?_, hconnected, fun i hi => ((hwhole i).mp hi).label_eq, fun i hi => ?_, fun other => mem_adjacency⟩
  · rw [hsearched.found i id]
    constructor
    · exact fun hi => ⟨found, hfound, hi⟩
    · rintro ⟨found', hfound', hi⟩
      rw [hfound] at hfound'
      cases hfound'
      exact hi
  · have hi : i ∈ found.2 := hi
    change (decide (minRegionCells ≤ found.2.length) || found.2.any touchesOuterEdge) = false ↔ Speckle labels i
    rw [Bool.or_eq_false_iff, decide_eq_false_iff_not, Nat.not_le]
    constructor
    · rintro ⟨hsmall, hinner⟩
      have hsingle : found.2 = [i] := by
        obtain ⟨a, ha⟩ := List.length_eq_one_iff.mp (Nat.le_antisymm (Nat.le_of_lt_succ hsmall) (List.length_pos_of_mem hi))
        rw [ha, List.mem_singleton] at hi
        rw [ha, hi]
      rw [hsingle] at hinner
      refine ⟨by simpa using hinner, fun j hj => ?_⟩
      rw [← hconnected i hi, hsingle] at hj
      exact List.mem_singleton.mp hj
    · rintro ⟨hinner, hsingle⟩
      have hall : ∀ j ∈ found.2, j = i := fun j hj => hsingle j ((hconnected i hi j).mp hj)
      constructor
      · by_contra hlarge
        obtain ⟨a, b, l, hl⟩ : ∃ a b l, found.2 = a :: b :: l := by
          rcases hcells : found.2 with _ | ⟨a, _ | ⟨b, l⟩⟩
          · simp [hcells, minRegionCells] at hlarge
          · simp [hcells, minRegionCells] at hlarge
          · exact ⟨a, b, l, rfl⟩
        rw [hl] at hnodup hall
        have hab : a = b := (hall a (by simp)).trans (hall b (by simp)).symm
        simp [hab] at hnodup
      · rw [List.any_eq_false]
        intro j hj
        rw [hall j hj, hinner]
        exact Bool.false_ne_true

/-- Every cell is in a region. -/
theorem exists_region (labels : LabelGrid width height) (i : Fin (width * height)) :
    ∃ id region, (regions labels)[id]? = some region ∧ componentAt labels i = some id := by
  obtain ⟨hsearched, hall⟩ := searched_components labels
  obtain ⟨id, hid⟩ := Option.ne_none_iff_exists'.mp (hall i)
  obtain ⟨found, hfound, -⟩ := (hsearched.found i id).mp hid
  have hlt : id < (regions labels).length := by
    unfold regions components
    rw [List.length_map, List.length_zipIdx, List.length_map]
    exact (List.getElem?_eq_some_iff.mp hfound).1
  exact ⟨id, (regions labels)[id], List.getElem?_eq_getElem hlt, hid⟩

end

/-! ## Rounds -/

section

variable {all : List (Component width height × OrderedMap Nat Nat)} {region : Component width height × OrderedMap Nat Nat}
  {resolved : List (Option ℤ)} {id : Nat} {label : ℤ}

theorem settle_of_not_mem {round : List (Nat × ℤ)} (h : ∀ label, (id, label) ∉ round) :
    (settle round resolved)[id]? = resolved[id]? := by
  induction round generalizing resolved with
  | nil => rfl
  | cons entry round ih =>
    have hne : entry.1 ≠ id := by
      rintro rfl
      exact h entry.2 List.mem_cons_self
    have hrest : ∀ label, (id, label) ∉ round := fun label hmem => h label (List.mem_cons_of_mem _ hmem)
    exact (ih hrest).trans (List.getElem?_set_ne hne)

theorem settle_of_mem {round : List (Nat × ℤ)} (hmem : (id, label) ∈ round)
    (hunique : ∀ label', (id, label') ∈ round → label' = label)
    (hlt : id < resolved.length) : (settle round resolved)[id]? = some (some label) := by
  induction round generalizing resolved with
  | nil => cases hmem
  | cons entry round ih =>
    by_cases hrest : (id, label) ∈ round
    · exact ih hrest (fun label' hmem' => hunique label' (List.mem_cons_of_mem _ hmem')) (List.length_set.symm ▸ hlt)
    · have hnot : ∀ label', (id, label') ∉ round := by
        intro label' hmem'
        rw [hunique label' (List.mem_cons_of_mem _ hmem')] at hmem'
        exact hrest hmem'
      rcases List.mem_cons.mp hmem with rfl | hmem
      · exact (settle_of_not_mem hnot).trans (List.getElem?_set_self hlt)
      · exact absurd hmem hrest

/-- What is settled stays. -/
theorem settle_settled_of_some (h : resolved[id]? = some (some label)) :
    (settle (settled all resolved) resolved)[id]? = some (some label) := by
  refine (settle_of_not_mem fun label' hmem => ?_).trans h
  obtain ⟨-, -, hnone, -⟩ := mem_settled.mp hmem
  rw [h] at hnone
  cases hnone

/-- What is not settled yet is settled when there is a replacement. -/
theorem settle_settled_of_none (hregion : all[id]? = some region) (h : resolved[id]? = some none) :
    (settle (settled all resolved) resolved)[id]? = some (replacement resolved region) := by
  have hmem : ∀ label, (id, label) ∈ settled all resolved ↔ replacement resolved region = some label := by
    intro label
    rw [mem_settled]
    constructor
    · rintro ⟨region', hregion', -, hlabel⟩
      rw [hregion] at hregion'
      cases hregion'
      exact hlabel
    · exact fun hlabel => ⟨region, hregion, h, hlabel⟩
  cases hreplacement : replacement resolved region with
  | none =>
    refine (settle_of_not_mem fun label hlabel => ?_).trans h
    rw [hmem, hreplacement] at hlabel
    cases hlabel
  | some label =>
    refine settle_of_mem ((hmem label).mpr hreplacement) (fun label' hlabel => ?_) (List.getElem?_eq_some_iff.mp h).1
    rw [hmem, hreplacement] at hlabel
    exact (Option.some.inj hlabel).symm

theorem mem_candidates_replacement {counts : List (Nat × Nat)} {count : Nat} :
    (label, count) ∈ (counts.filterMap fun entry => (resolved.getD entry.1 none).map fun label => (label, entry.2)) ↔
      ∃ other, (other, count) ∈ counts ∧ resolved[other]? = some (some label) := by
  have hget : ∀ other, resolved.getD other none = some label ↔ resolved[other]? = some (some label) := by
    intro other
    rw [List.getD_eq_getElem?_getD]
    cases resolved[other]? <;> simp
  rw [List.mem_filterMap]
  constructor
  · rintro ⟨⟨other, count'⟩, hmem, hsome⟩
    obtain ⟨label', hlabel, heq⟩ := Option.map_eq_some_iff.mp hsome
    cases heq
    exact ⟨other, hmem, (hget other).mp hlabel⟩
  · rintro ⟨other, hmem, hother⟩
    exact ⟨(other, count), hmem, by rw [(hget other).mpr hother]; rfl⟩

/-- A replacement is the label of a component next to the region that is settled. -/
theorem replacement_eq_some (h : replacement resolved region = some label) :
    ∃ other count, (other, count) ∈ region.2.toList ∧ resolved[other]? = some (some label) := by
  unfold replacement at h
  obtain ⟨⟨label', count⟩, hmax, rfl⟩ := Option.map_eq_some_iff.mp h
  obtain ⟨other, hmem, hother⟩ := mem_candidates_replacement.mp (mem_of_maxByKey?_eq_some hmax)
  exact ⟨other, count, hmem, hother⟩

/-- There is one as soon as a component next to the region is settled. -/
theorem replacement_isSome {other count : Nat} (hmem : (other, count) ∈ region.2.toList)
    (hother : resolved[other]? = some (some label)) :
    (replacement resolved region).isSome = true := by
  unfold replacement
  rw [Option.isSome_map, Option.isSome_iff_ne_none]
  intro hnone
  rw [maxByKey?_eq_none_iff] at hnone
  have hcandidate := mem_candidates_replacement.mpr ⟨other, hmem, hother⟩
  rw [hnone] at hcandidate
  cases hcandidate

/-- The labels that are settled: a region that stays has its own, another one that of a component next to it. -/
structure Resolution (all : List (Component width height × OrderedMap Nat Nat)) (resolved : List (Option ℤ)) : Prop where
  length_eq : resolved.length = all.length
  stable : ∀ (id : Nat) (region : Component width height × OrderedMap Nat Nat), all[id]? = some region → region.1.stable = true →
    resolved[id]? = some (some region.1.label)
  taken : ∀ (id : Nat) (region : Component width height × OrderedMap Nat Nat) (label : ℤ), all[id]? = some region →
    region.1.stable = false →
    resolved[id]? = some (some label) → ∃ other count, (other, count) ∈ region.2.toList ∧ resolved[other]? = some (some label)

/-- Where the rounds start. -/
theorem resolution_init (all : List (Component width height × OrderedMap Nat Nat)) :
    Resolution all (all.map fun region => if region.1.stable then some region.1.label else none) := by
  refine ⟨List.length_map _, fun id region hregion hstable => ?_, fun id region label hregion hstable hlabel => ?_⟩
  · rw [List.getElem?_map, hregion, Option.map_some, if_pos hstable]
  · rw [List.getElem?_map, hregion, Option.map_some, hstable] at hlabel
    cases hlabel

/-- One round. -/
theorem Resolution.settle (h : Resolution all resolved) : Resolution all (settle (settled all resolved) resolved) := by
  refine ⟨(length_settle _ _).trans h.length_eq, fun id region hregion hstable => ?_,
    fun id region label hregion hstable hlabel => ?_⟩
  · exact settle_settled_of_some (h.stable id region hregion hstable)
  · have hlt : id < resolved.length := by
      rw [h.length_eq]
      exact (List.getElem?_eq_some_iff.mp hregion).1
    have hkept : ∀ {other count : Nat}, (other, count) ∈ region.2.toList → resolved[other]? = some (some label) →
        ∃ other count, (other, count) ∈ region.2.toList ∧
          (Terrain.settle (settled all resolved) resolved)[other]? = some (some label) :=
      fun hmem hother => ⟨_, _, hmem, settle_settled_of_some hother⟩
    cases hnow : resolved[id] with
    | none =>
      have hnone : resolved[id]? = some none := by rw [List.getElem?_eq_getElem hlt, hnow]
      rw [settle_settled_of_none hregion hnone] at hlabel
      obtain ⟨other, count, hmem, hother⟩ := replacement_eq_some (Option.some.inj hlabel)
      exact hkept hmem hother
    | some label' =>
      have hsome : resolved[id]? = some (some label') := by rw [List.getElem?_eq_getElem hlt, hnow]
      rw [settle_settled_of_some hsome] at hlabel
      obtain rfl := Option.some.inj (Option.some.inj hlabel)
      obtain ⟨other, count, hmem, hother⟩ := h.taken id region label' hregion hstable hsome
      exact hkept hmem hother

/-- All rounds: nothing is left that could be settled, and what was settled stays. -/
theorem Resolution.resolve (h : Resolution all resolved) : Resolution all (Terrain.resolve all resolved) ∧
    settled all (Terrain.resolve all resolved) = [] ∧
    ∀ (id : Nat) (label : ℤ), resolved[id]? = some (some label) → (Terrain.resolve all resolved)[id]? = some (some label) := by
  fun_induction Terrain.resolve all resolved with
  | case1 resolved hnone => exact ⟨h, hnone, fun _ _ hlabel => hlabel⟩
  | case2 resolved hsome ih =>
    obtain ⟨hresolution, hnone, hkept⟩ := ih h.settle
    exact ⟨hresolution, hnone, fun id label hlabel => hkept id label (settle_settled_of_some hlabel)⟩

end

/-! ## Labels in the end -/

theorem foldl_update (cells : List (Fin (width * height))) (label : ℤ) (labels : LabelGrid width height)
    (i : Fin (width * height)) :
    cells.foldl (fun labels index => Function.update labels index label) labels i = if i ∈ cells then label else labels i := by
  induction cells generalizing labels with
  | nil => rfl
  | cons cell cells ih =>
    rw [List.foldl_cons, ih]
    by_cases hcell : i = cell
    · simp [hcell]
    · simp [hcell]

theorem takeOver_apply (labels : LabelGrid width height) (component : Component width height) (label : ℤ)
    (i : Fin (width * height)) :
    takeOver labels (component, some label) i = if i ∈ component.cells ∧ component.stable = false then label else labels i := by
  unfold takeOver
  cases hstable : component.stable with
  | true => simp
  | false => simp [foldl_update]

theorem takeOver_of_not_mem {labels : LabelGrid width height} {entry : Component width height × Option ℤ}
    {i : Fin (width * height)}
    (h : i ∉ entry.1.cells) : takeOver labels entry i = labels i := by
  obtain ⟨component, _ | label⟩ := entry
  · unfold takeOver
    split <;> rfl
  · rw [takeOver_apply, if_neg fun hi => h hi.1]

theorem foldl_takeOver_of_not_mem {entries : List (Component width height × Option ℤ)} {labels : LabelGrid width height}
    {i : Fin (width * height)} (h : ∀ entry ∈ entries, i ∉ entry.1.cells) : entries.foldl takeOver labels i = labels i := by
  induction entries generalizing labels with
  | nil => rfl
  | cons entry entries ih =>
    rw [List.foldl_cons, ih fun e he => h e (List.mem_cons_of_mem _ he)]
    exact takeOver_of_not_mem (h entry List.mem_cons_self)

section

variable (labels : LabelGrid width height)

/-- What the rounds settle for a grid. -/
def resolution : List (Option ℤ) :=
  resolve (regions labels) ((regions labels).map fun region => if region.1.stable then some region.1.label else none)

theorem resolution_spec : Resolution (regions labels) (resolution labels) ∧ settled (regions labels) (resolution labels) = [] :=
  have h := (resolution_init (regions labels)).resolve
  ⟨h.1, h.2.1⟩

/-- Every region is settled: the one of a cell at the left edge, and then that of the cell to its right, and so on. -/
theorem exists_resolution (i : Fin (width * height)) {id : Nat} (hi : componentAt labels i = some id) :
    ∃ label, (resolution labels)[id]? = some (some label) := by
  induction hx : i.val % width using Nat.strong_induction_on generalizing i id with
  | _ x ih =>
    obtain ⟨hresolution, hdone⟩ := resolution_spec labels
    obtain ⟨id', region, hregion, hi'⟩ := exists_region labels i
    cases hi.symm.trans hi'
    have hspec := isRegion_of_getElem? hregion
    have hmem : i ∈ region.1.cells := (hspec.cells i).mpr hi
    cases hstable : region.1.stable with
    | true => exact ⟨_, hresolution.stable id region hregion hstable⟩
    | false =>
      obtain ⟨hinner, hsingle⟩ := (hspec.stable i hmem).mp hstable
      have hpos : 0 < i.val % width := by
        rw [Nat.pos_iff_ne_zero]
        intro hzero
        simp [touchesOuterEdge, hzero] at hinner
      -- the cell to the left
      obtain ⟨hcolumn, hrow⟩ := cell_bounds i
      have hindex := Nat.div_add_mod' i.val width
      have hj : i.val - 1 < width * height := lt_of_le_of_lt (Nat.sub_le _ _) i.isLt
      have hbefore : i.val - 1 = i.val / width * width + (i.val % width - 1) := by rw [← Nat.add_sub_assoc hpos, hindex]
      obtain ⟨hdiv, hmod⟩ := (eq_index_iff (lt_of_le_of_lt (Nat.sub_le _ 1) hcolumn)).mp hbefore
      have hleft : (⟨i.val - 1, hj⟩ : Fin (width * height)) ∈ cellNeighbors i :=
        mem_cellNeighbors.mpr (Or.inr ⟨hdiv, Or.inl (by dsimp only; omega)⟩)
      obtain ⟨other, region', hregion', hother⟩ := exists_region labels ⟨i.val - 1, hj⟩
      obtain ⟨label, hlabel⟩ := ih (i.val % width - 1) (by omega) ⟨i.val - 1, hj⟩ hother hmod
      have hne : other ≠ id := by
        rintro rfl
        have hback : i.val - 1 = i.val := by
          have hself := hsingle ⟨i.val - 1, hj⟩ (Relation.ReflTransGen.single ⟨hleft, ?_⟩)
          · exact congrArg Fin.val hself
          · rw [hspec.label i hmem, hspec.label _ ((hspec.cells _).mpr hother)]
        omega
      obtain ⟨count, hcount⟩ := (hspec.adjacent other).mpr ⟨hne, i, hmem, _, hleft, hother⟩
      -- nothing can be settled any more, so that this region is
      have hlt : id < (resolution labels).length := by
        rw [hresolution.length_eq]
        exact (List.getElem?_eq_some_iff.mp hregion).1
      cases hnow : (resolution labels)[id] with
      | some label' => exact ⟨label', by rw [List.getElem?_eq_getElem hlt, hnow]⟩
      | none =>
        obtain ⟨label', hlabel'⟩ := Option.isSome_iff_exists.mp (replacement_isSome hcount hlabel)
        have hround : (id, label') ∈ settled (regions labels) (resolution labels) :=
          mem_settled.mpr ⟨region, hregion, by rw [List.getElem?_eq_getElem hlt, hnow], hlabel'⟩
        rw [hdone] at hround
        cases hround

variable {labels}

/-- A cell gets the label that its region is settled with. -/
theorem removeSpeckles_apply {i : Fin (width * height)} {id : Nat} {label : ℤ} (hi : componentAt labels i = some id)
    (hlabel : (resolution labels)[id]? = some (some label)) : removeSpeckles labels i = label := by
  obtain ⟨id', region, hregion, hi'⟩ := exists_region labels i
  cases hi.symm.trans hi'
  have hcomponents : components labels = (regions labels).map Prod.fst := by
    unfold regions
    rw [List.map_map]
    exact (List.zipIdx_map_fst 0 _).symm
  have hget : ((components labels).zip (resolution labels))[id]? = some (region.1, some label) := by
    rw [List.getElem?_zip_eq_some, hcomponents, List.getElem?_map, hregion]
    exact ⟨rfl, hlabel⟩
  have hother : ∀ k entry, ((components labels).zip (resolution labels))[k]? = some entry → k ≠ id → i ∉ entry.1.cells := by
    intro k entry hentry hk hmem
    obtain ⟨hcomponent, -⟩ := List.getElem?_zip_eq_some.mp hentry
    rw [hcomponents, List.getElem?_map] at hcomponent
    obtain ⟨region', hregion', heq⟩ := Option.map_eq_some_iff.mp hcomponent
    rw [← heq, (isRegion_of_getElem? hregion').cells i, hi] at hmem
    exact hk (Option.some.inj hmem).symm
  obtain ⟨hlt, hentry⟩ := List.getElem?_eq_some_iff.mp hget
  have hbefore : ∀ entry ∈ ((components labels).zip (resolution labels)).take id, i ∉ entry.1.cells := by
    intro entry hmem
    obtain ⟨k, hk, rfl⟩ := List.mem_take_iff_getElem.mp hmem
    exact hother k _ (List.getElem?_eq_getElem (by omega)) (by omega)
  have hafter : ∀ entry ∈ ((components labels).zip (resolution labels)).drop (id + 1), i ∉ entry.1.cells := by
    intro entry hmem
    obtain ⟨k, hk, rfl⟩ := List.mem_drop_iff_getElem.mp hmem
    exact hother (id + 1 + k) _ (List.getElem?_eq_getElem (by omega)) (by omega)
  change ((components labels).zip (resolution labels)).foldl takeOver labels i = label
  rw [← List.take_append_drop id ((components labels).zip (resolution labels)), List.foldl_append, List.drop_eq_getElem_cons hlt,
    hentry,
    List.foldl_cons, foldl_takeOver_of_not_mem hafter, takeOver_apply, foldl_takeOver_of_not_mem hbefore]
  have hspec := isRegion_of_getElem? hregion
  have hmem : i ∈ region.1.cells := (hspec.cells i).mpr hi
  cases hstable : region.1.stable with
  | false => simp [hmem]
  | true =>
    have hown := (resolution_spec labels).1.stable id region hregion hstable
    rw [hlabel] at hown
    rw [hspec.label i hmem, Option.some.inj (Option.some.inj hown)]
    simp

end

end Biei.Terrain
