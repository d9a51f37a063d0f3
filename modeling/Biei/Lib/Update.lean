import Mathlib.Data.List.Basic

/-!
# Maps and lists with one entry replaced

A partial map is a function into `Option`; replacing or removing one entry is `Function.update`. A list is a table of its
positions; an entry is replaced by `set` and added at the end. These lemmas read an entry of the new map or list back: it is the
replaced one, or it was there before.
-/

section Map

variable {α β : Type*} [DecidableEq α] {f : α → Option β} {a x : α} {o : Option β}

/-- An entry that is there after one was replaced. -/
theorem update_eq_some {b : β} (h : Function.update f a o x = some b) : (x = a ∧ o = some b) ∨ (x ≠ a ∧ f x = some b) := by
  by_cases hx : x = a
  · subst hx
    rw [Function.update_self] at h
    exact Or.inl ⟨rfl, h⟩
  · rw [Function.update_of_ne hx] at h
    exact Or.inr ⟨hx, h⟩

/-- An entry that is missing after one was replaced. -/
theorem update_eq_none (h : Function.update f a o x = none) : (x = a ∧ o = none) ∨ (x ≠ a ∧ f x = none) := by
  by_cases hx : x = a
  · subst hx
    rw [Function.update_self] at h
    exact Or.inl ⟨rfl, h⟩
  · rw [Function.update_of_ne hx] at h
    exact Or.inr ⟨hx, h⟩

/-- An entry that is there after one was removed. -/
theorem update_none_eq_some {b : β} (h : Function.update f a none x = some b) : x ≠ a ∧ f x = some b := by
  rcases update_eq_some h with ⟨-, hnone⟩ | h
  · cases hnone
  · exact h

end Map

section Table

variable {α : Type*} {l : List α} {i j : Nat} {a b c : α}

/-- An entry that is there after one was replaced. -/
theorem getElem?_set_cases (hi : l[i]? = some a) (h : (l.set i b)[j]? = some c) :
    (j = i ∧ c = b) ∨ (j ≠ i ∧ l[j]? = some c) := by
  have hlt : i < l.length := (List.getElem?_eq_some_iff.mp hi).1
  by_cases hji : j = i
  · subst hji
    rw [List.getElem?_set_self hlt] at h
    exact Or.inl ⟨rfl, (Option.some.inj h).symm⟩
  · rw [List.getElem?_set_ne (Ne.symm hji)] at h
    exact Or.inr ⟨hji, h⟩

/-- The replaced entry. -/
theorem getElem?_set_of_some (hi : l[i]? = some a) (b : α) : (l.set i b)[i]? = some b :=
  List.getElem?_set_self (List.getElem?_eq_some_iff.mp hi).1

/-- An entry that is there after one was added. -/
theorem getElem?_concat_cases (h : (l ++ [a])[i]? = some b) : (i = l.length ∧ b = a) ∨ l[i]? = some b := by
  rcases Nat.lt_trichotomy i l.length with hlt | heq | hgt
  · rw [List.getElem?_append_left hlt] at h
    exact Or.inr h
  · subst heq
    rw [List.getElem?_concat_length] at h
    exact Or.inl ⟨rfl, (Option.some.inj h).symm⟩
  · rw [List.getElem?_eq_none (by simp only [List.length_append, List.length_singleton]; omega)] at h
    cases h

/-- An entry stays when one is added. -/
theorem getElem?_concat_of_some (h : l[i]? = some b) (a : α) : (l ++ [a])[i]? = some b := by
  rw [List.getElem?_append_left (List.getElem?_eq_some_iff.mp h).1]
  exact h

/-- What is looked up through the entries, after one was replaced. -/
theorem bind_getElem?_set {β : Type*} (f : α → Option β) (hi : l[i]? = some a) (b : α) :
    (fun j => (l.set i b)[j]?.bind f) = Function.update (fun j => l[j]?.bind f) i (f b) := by
  funext j
  by_cases hj : j = i
  · subst hj
    rw [getElem?_set_of_some hi, Function.update_self, Option.bind_some]
  · rw [List.getElem?_set_ne (Ne.symm hj), Function.update_of_ne hj]

/-- What is looked up through the entries, after one was added. -/
theorem bind_getElem?_concat {β : Type*} (f : α → Option β) (l : List α) (a : α) :
    (fun j => (l ++ [a])[j]?.bind f) = Function.update (fun j => l[j]?.bind f) l.length (f a) := by
  funext j
  by_cases hj : j = l.length
  · subst hj
    rw [List.getElem?_concat_length, Function.update_self, Option.bind_some]
  · rw [Function.update_of_ne hj]
    rcases Nat.lt_or_gt_of_ne hj with hlt | hgt
    · rw [List.getElem?_append_left hlt]
    · rw [List.getElem?_eq_none (by rw [List.length_append, List.length_singleton]; omega), List.getElem?_eq_none (by omega)]

/-- Replacing an entry takes the old one from the count and adds the new one to it. -/
theorem countP_set_add (f : α → Bool) (hi : l[i]? = some a) (b : α) :
    (l.set i b).countP f + (if f a then 1 else 0) = l.countP f + if f b then 1 else 0 := by
  obtain ⟨hlt, rfl⟩ := List.getElem?_eq_some_iff.mp hi
  have hle := List.boole_getElem_le_countP (p := f) hlt
  rw [List.countP_set hlt]
  omega

/-- Two entries at different positions are counted twice. -/
theorem two_le_countP {p : α → Bool} (hij : i ≠ j) (hi : l[i]? = some a) (hj : l[j]? = some b) (ha : p a = true)
    (hb : p b = true) :
    2 ≤ l.countP p := by
  induction l generalizing i j with
  | nil => simp at hi
  | cons x xs ih =>
    cases i with
    | zero =>
      cases j with
      | zero => exact absurd rfl hij
      | succ j =>
        obtain rfl : x = a := by simpa using hi
        have hpos : 0 < xs.countP p := List.countP_pos_iff.mpr ⟨b, List.mem_of_getElem? (by simpa using hj), hb⟩
        rw [List.countP_cons_of_pos ha]
        omega
    | succ i =>
      cases j with
      | zero =>
        obtain rfl : x = b := by simpa using hj
        have hpos : 0 < xs.countP p := List.countP_pos_iff.mpr ⟨a, List.mem_of_getElem? (by simpa using hi), ha⟩
        rw [List.countP_cons_of_pos hb]
        omega
      | succ j =>
        have hxs := ih (i := i) (j := j) (fun h => hij (congrArg _ h)) (by simpa using hi) (by simpa using hj)
        rw [List.countP_cons]
        omega

end Table
