import Mathlib.Algebra.BigOperators.Group.Finset.Piecewise
import Mathlib.Data.Fintype.Basic

/-!
# What a fold has written last

A fold whose steps each write a part of the state, or leave it alone: at the end the part is what the last step that wrote it has
written.
-/

/-- `part` is what the last writing element of the list has written, or as it was when none has. -/
theorem foldl_last {σ α β : Type*} {step : σ → α → σ} (part : σ → β) {writes : α → Prop} {written : α → β}
    (hset : ∀ s a, writes a → part (step s a) = written a) (hkeep : ∀ s a, ¬writes a → part (step s a) = part s) (l : List α)
    (s : σ) :
    ((∀ a ∈ l, ¬writes a) ∧ part (l.foldl step s) = part s) ∨ ∃ a ∈ l, writes a ∧ part (l.foldl step s) = written a := by
  induction l using List.reverseRecOn with
  | nil => exact Or.inl ⟨fun a ha => absurd ha List.not_mem_nil, rfl⟩
  | append_singleton l a ih =>
    rw [List.foldl_append, List.foldl_cons, List.foldl_nil]
    by_cases ha : writes a
    · exact Or.inr ⟨a, List.mem_append_right l List.mem_cons_self, ha, hset _ a ha⟩
    · rw [hkeep _ a ha]
      rcases ih with ⟨hnone, hsame⟩ | ⟨b, hb, hwrites, hwritten⟩
      · refine Or.inl ⟨fun b hb => ?_, hsame⟩
        rcases List.mem_append.mp hb with hb | hb
        · exact hnone b hb
        · rw [List.mem_singleton.mp hb]
          exact ha
      · exact Or.inr ⟨b, List.mem_append_left _ hb, hwrites, hwritten⟩

/-! ## Counting the places of a value

How many indices of a finite table hold a value, and how the number changes when one entry is replaced. -/

variable {ι α : Type*} [Fintype ι] [DecidableEq α]

/-- How many indices hold the value. -/
def tally (f : ι → α) (a : α) : Nat := (Finset.univ.filter fun i => f i = a).card

theorem tally_eq_sum (f : ι → α) (a : α) : tally f a = ∑ i, if f i = a then 1 else 0 := Finset.card_filter _ _

/-- A value has a place exactly when its tally is positive. -/
theorem tally_pos {f : ι → α} {a : α} : 0 < tally f a ↔ ∃ i, f i = a := by
  simp [tally, Finset.card_pos, Finset.Nonempty]

/-- A value that no index holds. -/
theorem tally_eq_zero {f : ι → α} {a : α} (h : ∀ i, f i ≠ a) : tally f a = 0 := by
  refine Nat.eq_zero_of_not_pos fun hpos => ?_
  obtain ⟨i, hi⟩ := tally_pos.mp hpos
  exact h i hi

/-- Replacing one entry takes the old value from its tally and adds the new one to its own. -/
theorem tally_update [DecidableEq ι] (f : ι → α) (i : ι) (b a : α) :
    tally (Function.update f i b) a + (if f i = a then 1 else 0) = tally f a + if b = a then 1 else 0 := by
  have hrest : ∀ g : ι → α, tally g a = (if g i = a then 1 else 0) + ∑ j ∈ Finset.univ.erase i, if g j = a then 1 else 0 := by
    intro g
    rw [tally_eq_sum, ← Finset.add_sum_erase _ _ (Finset.mem_univ i)]
  have hsame : (∑ j ∈ Finset.univ.erase i, if Function.update f i b j = a then 1 else 0) =
      ∑ j ∈ Finset.univ.erase i, if f j = a then 1 else 0 := by
    refine Finset.sum_congr rfl fun j hj => ?_
    rw [Function.update_of_ne (Finset.ne_of_mem_erase hj)]
  rw [hrest (Function.update f i b), hrest f, hsame, Function.update_self]
  omega
