import Mathlib.Data.List.Destutter
import Mathlib.Data.List.Sort

/-!
# Ordered sets

A finite set kept as a strictly ascending list, the shape of a B-tree set: membership, insertion, removal and filtering, and an
iteration order that is the order of the elements.
-/

/-- A finite set of a linear order, as the strictly ascending list of its elements. -/
structure OrderedSet (α : Type*) [LinearOrder α] where
  toList : List α
  sorted : toList.Pairwise (· < ·)

namespace OrderedSet

variable {α : Type*} [LinearOrder α]

/-- Two ordered sets with the same elements in order are equal. -/
@[ext]
theorem ext_toList {s t : OrderedSet α} (h : s.toList = t.toList) : s = t := by
  cases s
  cases t
  simpa using h

instance : DecidableEq (OrderedSet α) := fun s t =>
  decidable_of_iff (s.toList = t.toList) ⟨ext_toList, fun h => h ▸ rfl⟩

instance : Membership α (OrderedSet α) := ⟨fun s a => a ∈ s.toList⟩

instance (a : α) (s : OrderedSet α) : Decidable (a ∈ s) := inferInstanceAs (Decidable (a ∈ s.toList))

variable {s : OrderedSet α} {a : α}

theorem mem_def : a ∈ s ↔ a ∈ s.toList := Iff.rfl

/-- The empty set. -/
def empty : OrderedSet α := ⟨[], List.Pairwise.nil⟩

/-- Whether the set has no element. -/
def isEmpty (s : OrderedSet α) : Bool := s.toList.isEmpty

/-- The elements that satisfy `p`. -/
def filter (p : α → Bool) (s : OrderedSet α) : OrderedSet α := ⟨s.toList.filter p, s.sorted.filter p⟩

/-- Insertion into an ascending list, without a duplicate. -/
def insertList (a : α) : List α → List α
  | [] => [a]
  | b :: l => if a < b then a :: b :: l else if a = b then b :: l else b :: insertList a l

variable {l : List α} {a x : α}

theorem mem_insertList : x ∈ insertList a l ↔ x = a ∨ x ∈ l := by
  induction l with
  | nil => simp [insertList]
  | cons b l ih =>
    simp only [insertList]
    split
    · simp
    · split
      · rename_i hab
        subst hab
        simp
      · simp only [List.mem_cons, ih]
        tauto

theorem pairwise_insertList (h : l.Pairwise (· < ·)) : (insertList a l).Pairwise (· < ·) := by
  induction l with
  | nil => simp [insertList]
  | cons b l ih =>
    obtain ⟨hb, hl⟩ := List.pairwise_cons.mp h
    simp only [insertList]
    split
    · rename_i hab
      refine List.pairwise_cons.mpr ⟨fun x hx => ?_, h⟩
      rcases List.mem_cons.mp hx with rfl | hx
      · exact hab
      · exact hab.trans (hb x hx)
    · split
      · exact h
      · rename_i h1 h2
        refine List.pairwise_cons.mpr ⟨fun x hx => ?_, ih hl⟩
        rcases mem_insertList.mp hx with rfl | hx
        · exact lt_of_le_of_ne (not_lt.mp h1) (Ne.symm h2)
        · exact hb x hx

/-- The set with one element more. -/
def insert (a : α) (s : OrderedSet α) : OrderedSet α := ⟨insertList a s.toList, pairwise_insertList s.sorted⟩

/-- The set without an element. -/
def erase (a : α) (s : OrderedSet α) : OrderedSet α := s.filter (· ≠ a)

/-- The set with the elements of a list added, in order. -/
def extend (s : OrderedSet α) (l : List α) : OrderedSet α := l.foldl (fun t a => t.insert a) s

/-- The set with the elements of a list taken out, in order. -/
def eraseAll (s : OrderedSet α) (l : List α) : OrderedSet α := l.foldl (fun t a => t.erase a) s

@[simp]
theorem not_mem_empty (a : α) : a ∉ (empty : OrderedSet α) := by
  simp [mem_def, empty]

@[simp]
theorem mem_insert : x ∈ s.insert a ↔ x = a ∨ x ∈ s := mem_insertList

variable {x : α}

@[simp]
theorem mem_filter {p : α → Bool} : x ∈ s.filter p ↔ x ∈ s ∧ p x = true := List.mem_filter

@[simp]
theorem mem_erase : x ∈ s.erase a ↔ x ∈ s ∧ x ≠ a := by
  simp [erase]

@[simp]
theorem mem_extend : x ∈ s.extend l ↔ x ∈ s ∨ x ∈ l := by
  induction l generalizing s with
  | nil => simp [extend]
  | cons a l ih =>
    rw [show s.extend (a :: l) = (s.insert a).extend l from rfl, ih, mem_insert, List.mem_cons]
    tauto

@[simp]
theorem mem_eraseAll : x ∈ s.eraseAll l ↔ x ∈ s ∧ x ∉ l := by
  induction l generalizing s with
  | nil => simp [eraseAll]
  | cons a l ih =>
    rw [show s.eraseAll (a :: l) = (s.erase a).eraseAll l from rfl, ih, mem_erase, List.mem_cons]
    tauto

/-- A set is empty exactly when nothing is in it. -/
theorem isEmpty_iff : s.isEmpty = true ↔ ∀ a, a ∉ s := by
  simp [isEmpty, mem_def, List.eq_nil_iff_forall_not_mem]

/-- Two ordered sets with the same elements are equal. -/
theorem ext_mem {s t : OrderedSet α} (h : ∀ a, a ∈ s ↔ a ∈ t) : s = t := by
  refine ext_toList (List.Perm.eq_of_pairwise (fun a b _ _ hab hba => absurd hab (lt_asymm hba)) s.sorted t.sorted ?_)
  rw [List.perm_ext_iff_of_nodup (s.sorted.imp ne_of_lt) (t.sorted.imp ne_of_lt)]
  exact h

/-- A set is made of its elements. -/
theorem extend_toList (s : OrderedSet α) : (empty : OrderedSet α).extend s.toList = s := by
  refine ext_mem fun a => ?_
  rw [mem_extend]
  exact ⟨fun h => h.elim (fun h => absurd h (not_mem_empty a)) id, Or.inr⟩

/-! ## Sorted vectors -/

theorem mem_destutter'_ne {a b : α} : a ∈ l.destutter' (· ≠ ·) b ↔ a = b ∨ a ∈ l := by
  induction l generalizing b with
  | nil => simp
  | cons c l ih =>
    rw [List.destutter'_cons]
    split
    · rw [List.mem_cons, ih, List.mem_cons]
    · rename_i heq
      rw [ih, List.mem_cons, not_not.mp heq]
      tauto

/-- To drop what repeats the one before it drops no element altogether. -/
theorem mem_destutter_ne : a ∈ l.destutter (· ≠ ·) ↔ a ∈ l := by
  cases l with
  | nil => simp
  | cons b l => rw [List.destutter_cons', mem_destutter'_ne, List.mem_cons]

theorem isChain_lt (hle : l.IsChain (· ≤ ·)) (hne : l.IsChain (· ≠ ·)) : l.IsChain (· < ·) := by
  induction l with
  | nil => exact List.IsChain.nil
  | cons a l ih =>
    rw [List.isChain_cons] at hle hne ⊢
    exact ⟨fun b hb => lt_of_le_of_ne (hle.1 b hb) (hne.1 b hb), ih hle.2 hne.2⟩

/-- A vector that is sorted, and then freed of what repeats the one before it, is the ordered set of its elements. -/
theorem toList_extend_empty (l : List α) :
    ((empty : OrderedSet α).extend l).toList = (l.mergeSort fun a b => decide (a ≤ b)).destutter (· ≠ ·) := by
  have hsorted : (l.mergeSort fun a b => decide (a ≤ b)).Pairwise (· ≤ ·) := by
    have h : (l.mergeSort fun a b => decide (a ≤ b)).Pairwise fun a b => decide (a ≤ b) = true := by
      refine List.pairwise_mergeSort (fun a b c hab hbc => ?_) (fun a b => ?_) l
      · exact decide_eq_true (le_trans (of_decide_eq_true hab) (of_decide_eq_true hbc))
      · simpa using le_total a b
    exact h.imp fun hab => of_decide_eq_true hab
  have hchain : ((l.mergeSort fun a b => decide (a ≤ b)).destutter (· ≠ ·)).IsChain (· < ·) := by
    have hle := (hsorted.sublist (List.destutter_sublist (· ≠ ·) _)).isChain
    exact isChain_lt hle (List.isChain_destutter (· ≠ ·) _)
  have hset : (empty : OrderedSet α).extend l = ⟨_, List.isChain_iff_pairwise.mp hchain⟩ := by
    refine ext_mem fun a => ?_
    have hmem : a ∈ (l.mergeSort fun a b => decide (a ≤ b)).destutter (· ≠ ·) ↔ a ∈ l := by
      rw [mem_destutter_ne, List.mem_mergeSort]
    rw [mem_extend]
    exact ⟨fun h => hmem.mpr (h.elim (fun h => absurd h (not_mem_empty a)) id), fun h => Or.inr (hmem.mp h)⟩
  rw [hset]

end OrderedSet
