import Mathlib

/-!
# Binary search

The search of a list by how its elements compare, as the standard library of the source does it: a window is halved until one
element is left, which tells whether it was found or where it would have to stand. Nothing here asks for the list to be sorted,
except where it is said.
-/

namespace BinarySearch

variable {α : Type*} (compare : α → Ordering) (xs : List α)

/-- The element at the place is not above what is looked for. -/
def NotAbove (i : Nat) : Prop := ∃ x, xs[i]? = some x ∧ compare x ≠ .gt

/-- The halving of a window of `size` elements from `base` on, in as many turns as there is fuel for. -/
def window : Nat → Nat → Nat → Nat
  | 0, _, base => base
  | fuel + 1, size, base =>
    if 1 < size then
      let mid := base + size / 2
      window fuel (size - size / 2) (if (xs[mid]?).any (compare · == .gt) then base else mid)
    else base

/-- The place of an element that is equal, or the one where it would have to stand. -/
def binarySearchBy : Except Nat Nat :=
  let base := window compare xs xs.length xs.length 0
  match (xs[base]?).map compare with
  | some .eq => .ok base
  | some .lt => .error (base + 1)
  | some .gt => .error base
  | none => .error base

variable {compare xs}

/-- The window stays within the list, and where it was moved to is not above. -/
theorem window_spec (compare : α → Ordering) (fuel : Nat) {size base : Nat} (hsize : 0 < size) (hfits : base + size ≤ xs.length) :
    window compare xs fuel size base < xs.length ∧
      (window compare xs fuel size base = base ∨ NotAbove compare xs (window compare xs fuel size base)) := by
  induction fuel generalizing size base with
  | zero => exact ⟨by rw [window]; omega, Or.inl rfl⟩
  | succ fuel ih =>
    rw [window]
    split
    · rename_i hmany
      have hmid : base + size / 2 < xs.length := by omega
      dsimp only
      split
      · exact ih (by omega) (by omega)
      · rename_i hnot
        obtain ⟨hlt, heq | habove⟩ := @ih (size - size / 2) (base + size / 2) (by omega) (by omega)
        · refine ⟨hlt, Or.inr ?_⟩
          rw [heq]
          refine ⟨xs[base + size / 2], List.getElem?_eq_getElem hmid, fun hgt => hnot ?_⟩
          simp [List.getElem?_eq_getElem hmid, hgt]
        · exact ⟨hlt, Or.inr habove⟩
    · exact ⟨by omega, Or.inl rfl⟩

/-- What was found is equal. -/
theorem of_binarySearchBy_ok {i : Nat} (h : binarySearchBy compare xs = .ok i) : ∃ x, xs[i]? = some x ∧ compare x = .eq := by
  unfold binarySearchBy at h
  dsimp only at h
  split at h
  · rename_i heq
    cases h
    exact Option.map_eq_some_iff.mp heq
  all_goals cases h

/-- Before the place where it would have to stand is one that is below. -/
theorem of_binarySearchBy_error_succ {i : Nat} (h : binarySearchBy compare xs = .error (i + 1)) :
    ∃ x, xs[i]? = some x ∧ compare x = .lt := by
  unfold binarySearchBy at h
  dsimp only at h
  split at h
  · cases h
  · rename_i heq
    obtain rfl := Nat.succ.inj (Except.error.inj h)
    exact Option.map_eq_some_iff.mp heq
  · -- the window was moved, so what it came to is not above
    rename_i heq
    have hbase := Except.error.inj h
    obtain ⟨x, hx, hgt⟩ := Option.map_eq_some_iff.mp heq
    have hpos : 0 < xs.length := Nat.lt_of_le_of_lt (Nat.zero_le _) (List.getElem?_eq_some_iff.mp hx).1
    rcases (window_spec compare xs.length hpos (Nat.le_of_eq (Nat.zero_add _))).2 with hzero | ⟨y, hy, hne⟩
    · omega
    · cases hx.symm.trans hy
      exact absurd hgt hne
  · rename_i hnone
    have hbase := Except.error.inj h
    rw [Option.map_eq_none_iff, List.getElem?_eq_none_iff] at hnone
    rcases Nat.eq_zero_or_pos xs.length with hzero | hpos
    · rw [hzero, window] at hbase
      omega
    · have hlt := (window_spec compare xs.length hpos (Nat.le_of_eq (Nat.zero_add _))).1
      omega

/-! ## Sorted lists -/

/-- What is above what is looked for stays so, and what is below it was. -/
def Ascending (compare : α → Ordering) (xs : List α) : Prop :=
  xs.Pairwise fun x y => (compare x = .gt → compare y = .gt) ∧ (compare y = .lt → compare x = .lt)

variable (h : Ascending compare xs)
include h

variable {i j : Nat}

theorem Ascending.gt_of_le {x y : α} (hx : xs[i]? = some x) (hy : xs[j]? = some y) (hij : i ≤ j) (hgt : compare x = .gt) :
    compare y = .gt := by
  rcases Nat.eq_or_lt_of_le hij with rfl | hlt
  · cases hx.symm.trans hy
    exact hgt
  · obtain ⟨hi, rfl⟩ := List.getElem?_eq_some_iff.mp hx
    obtain ⟨hj, rfl⟩ := List.getElem?_eq_some_iff.mp hy
    exact (List.pairwise_iff_getElem.mp h i j hi hj hlt).1 hgt

theorem Ascending.lt_of_le {x y : α} (hx : xs[i]? = some x) (hy : xs[j]? = some y) (hij : i ≤ j) (hlt : compare y = .lt) :
    compare x = .lt := by
  rcases Nat.eq_or_lt_of_le hij with rfl | hij
  · cases hx.symm.trans hy
    exact hlt
  · obtain ⟨hi, rfl⟩ := List.getElem?_eq_some_iff.mp hx
    obtain ⟨hj, rfl⟩ := List.getElem?_eq_some_iff.mp hy
    exact (List.pairwise_iff_getElem.mp h i j hi hj hij).2 hlt

/-- What the window leaves behind is above. -/
theorem Ascending.window_above {fuel size base j : Nat} {y : α} (hsize : 0 < size) (hfuel : size ≤ fuel + 1)
    (habove : ∀ j y, base + size ≤ j → xs[j]? = some y → compare y = .gt) (hfits : base + size ≤ xs.length)
    (hj : window compare xs fuel size base < j) (hy : xs[j]? = some y) : compare y = .gt := by
  induction fuel generalizing size base with
  | zero =>
    rw [window] at hj
    exact habove j y (by omega) hy
  | succ fuel ih =>
    rw [window] at hj
    split at hj
    · have hmid : base + size / 2 < xs.length := by omega
      dsimp only at hj
      split at hj
      · rename_i hgt
        have hgt : compare xs[base + size / 2] = .gt := by simpa [List.getElem?_eq_getElem hmid] using hgt
        refine ih (by omega) (by omega) (fun k z hk hz => ?_) (by omega) hj
        exact h.gt_of_le (List.getElem?_eq_getElem hmid) hz (by omega) hgt
      · exact ih (by omega) (by omega) (fun k z hk hz => habove k z (by omega) hz) (by omega) hj
    · exact habove j y (by omega) hy

/-- In a sorted list all that stands at or after the place is above, when nothing is equal. -/
theorem Ascending.above_of_error {y : α} (herror : binarySearchBy compare xs = .error i) (hij : i ≤ j) (hy : xs[j]? = some y) :
    compare y = .gt := by
  have hpos : 0 < xs.length := Nat.lt_of_le_of_lt (Nat.zero_le _) (List.getElem?_eq_some_iff.mp hy).1
  have hafter : ∀ {k z}, window compare xs xs.length xs.length 0 < k → xs[k]? = some z → compare z = .gt := by
    intro k z hk hz
    refine h.window_above hpos (Nat.le_succ _) (fun m w hm hw => ?_) (Nat.le_of_eq (Nat.zero_add _)) hk hz
    have hlt := (List.getElem?_eq_some_iff.mp hw).1
    omega
  unfold binarySearchBy at herror
  dsimp only at herror
  split at herror
  · cases herror
  · cases herror
    exact hafter (by omega) hy
  · rename_i heq
    cases herror
    obtain ⟨x, hx, hgt⟩ := Option.map_eq_some_iff.mp heq
    exact h.gt_of_le hx hy hij hgt
  · rename_i hnone
    rw [Option.map_eq_none_iff, List.getElem?_eq_none_iff] at hnone
    have hlt := (window_spec compare xs.length hpos (Nat.le_of_eq (Nat.zero_add _))).1
    omega

/-- In a sorted list what is there is found. -/
theorem Ascending.isOk_binarySearchBy : (binarySearchBy compare xs).isOk = true ↔ ∃ x ∈ xs, compare x = .eq := by
  constructor
  · intro hok
    cases hfound : binarySearchBy compare xs with
    | error i =>
      rw [hfound] at hok
      cases hok
    | ok i =>
      obtain ⟨x, hx, heq⟩ := of_binarySearchBy_ok hfound
      exact ⟨x, List.mem_of_getElem? hx, heq⟩
  · rintro ⟨x, hx, heq⟩
    cases hfound : binarySearchBy compare xs with
    | ok i => rfl
    | error i =>
      -- what is equal stands neither after the place nor before it
      obtain ⟨j, hj⟩ := List.getElem?_of_mem hx
      rcases Nat.lt_or_ge j i with hlt | hge
      · obtain ⟨k, rfl⟩ := Nat.exists_eq_succ_of_ne_zero (Nat.ne_of_gt (Nat.lt_of_le_of_lt (Nat.zero_le j) hlt))
        obtain ⟨y, hy, hbelow⟩ := of_binarySearchBy_error_succ hfound
        have hbelow : compare x = .lt := h.lt_of_le hj hy (Nat.lt_succ_iff.mp hlt) hbelow
        rw [heq] at hbelow
        cases hbelow
      · have habove := h.above_of_error hfound hge hj
        rw [heq] at habove
        cases habove

omit h in
/-- A strictly ascending list is sorted for every search by the order of its elements. -/
theorem ascending_of_pairwise {β : Type*} [LinearOrder β] {ys : List β} (hsorted : ys.Pairwise (· < ·)) (b : β) :
    Ascending (Ord.compare · b) ys := by
  refine hsorted.imp fun {x y} hxy => ⟨fun hgt => ?_, fun hlt => ?_⟩
  · exact compare_gt_iff_gt.mpr (lt_trans (compare_gt_iff_gt.mp hgt) hxy)
  · exact compare_lt_iff_lt.mpr (lt_trans hxy (compare_lt_iff_lt.mp hlt))

end BinarySearch
