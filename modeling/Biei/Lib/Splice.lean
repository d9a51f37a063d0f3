import Mathlib.Data.List.Perm.Basic

/-!
# Lists with elements put in directly before a named one

A stack that is written bottom to top takes new elements directly below an element it is given, or on top when it is given none or
one that is not there. Said of lists over any type: how such insertions compose, what filtering does to them, and that nothing but
the new elements changes.
-/

section Splice

variable {α : Type*} [DecidableEq α]

/-- The elements `xs` put in directly before the first `b`, or at the end when there is none. -/
def spliceAt (b : α) (xs : List α) : List α → List α
  | [] => xs
  | a :: l => if a = b then xs ++ a :: l else a :: spliceAt b xs l

/-- The elements `xs` put in before the named element, or at the end when none is named. -/
def splice (before : Option α) (xs l : List α) : List α :=
  match before with
  | none => l ++ xs
  | some b => spliceAt b xs l

variable {before : Option α} {xs ys l : List α}

@[simp]
theorem splice_nil : splice before [] l = l := by
  cases before with
  | none => simp [splice]
  | some b =>
    induction l with
    | nil => rfl
    | cons a l ih =>
      simp only [splice, spliceAt] at ih ⊢
      split
      · rfl
      · rw [ih]

/-- Nothing is lost and only the new elements come in. -/
theorem splice_perm : (splice before xs l).Perm (xs ++ l) := by
  cases before with
  | none => exact List.perm_append_comm
  | some b =>
    induction l with
    | nil => simp [splice, spliceAt]
    | cons a l ih =>
      simp only [splice, spliceAt] at ih ⊢
      split
      · exact List.Perm.refl _
      · exact (ih.cons a).trans List.perm_middle.symm

@[simp]
theorem mem_splice {a : α} : a ∈ splice before xs l ↔ a ∈ xs ∨ a ∈ l := by
  rw [splice_perm.mem_iff, List.mem_append]

theorem nodup_splice (hx : xs.Nodup) (hl : l.Nodup) (hd : ∀ a ∈ xs, a ∉ l) : (splice before xs l).Nodup := by
  refine splice_perm.nodup_iff.mpr (List.nodup_append.mpr ⟨hx, hl, ?_⟩)
  intro a ha b hb hab
  exact hd a ha (hab ▸ hb)

theorem spliceAt_append_left {b : α} (h : b ∉ xs) : spliceAt b ys (xs ++ l) = xs ++ spliceAt b ys l := by
  induction xs with
  | nil => rfl
  | cons x xs ih =>
    rw [List.mem_cons, not_or] at h
    simp only [List.cons_append, spliceAt, if_neg (Ne.symm h.1), ih h.2]

/-- Two insertions at one place are one insertion, the later elements after the earlier. -/
theorem splice_splice (h : ∀ b ∈ before, b ∉ xs) : splice before ys (splice before xs l) = splice before (xs ++ ys) l := by
  cases before with
  | none => simp [splice]
  | some b =>
    have hb : b ∉ xs := h b rfl
    induction l with
    | nil =>
      have happ : spliceAt b ys (xs ++ []) = xs ++ spliceAt b ys [] := spliceAt_append_left hb
      simpa [splice, spliceAt] using happ
    | cons a l ih =>
      simp only [splice, spliceAt] at ih ⊢
      by_cases hab : a = b
      · subst hab
        simp only [if_true]
        rw [spliceAt_append_left hb, spliceAt, if_pos rfl, List.append_assoc]
      · simp only [if_neg hab, spliceAt, ih]

variable {p : α → Bool}

/-- Filtering keeps the place, as long as it does not drop the element that names it. -/
theorem filter_splice (h : ∀ b ∈ before, b ∈ l → p b = true) :
    (splice before xs l).filter p = splice before (xs.filter p) (l.filter p) := by
  cases before with
  | none => simp [splice]
  | some b =>
    induction l with
    | nil => rfl
    | cons a l ih =>
      have ih := ih fun c hc hmem => h c hc (List.mem_cons_of_mem a hmem)
      simp only [splice, spliceAt] at ih ⊢
      by_cases hab : a = b
      · subst hab
        have hp : p a = true := h a rfl List.mem_cons_self
        simp [hp, spliceAt]
      · rw [if_neg hab, List.filter_cons, List.filter_cons]
        split
        · rw [spliceAt, if_neg hab, ih]
        · exact ih

/-- Filtering the new elements away leaves what was there before, wherever they were put. -/
theorem filter_splice_of_drop (h : ∀ x ∈ xs, p x = false) : (splice before xs l).filter p = l.filter p := by
  have hxs : xs.filter p = [] := List.filter_eq_nil_iff.mpr fun x hx => by simp [h x hx]
  cases before with
  | none => simp [splice, hxs]
  | some b =>
    induction l with
    | nil => simpa [splice, spliceAt] using hxs
    | cons a l ih =>
      simp only [splice, spliceAt] at ih ⊢
      split
      · simp [hxs]
      · rw [List.filter_cons, List.filter_cons, ih]

/-- What was put in can be read back from where it was put. -/
theorem splice_left_injective (h : splice before xs l = splice before ys l) : xs = ys := by
  cases before with
  | none => exact List.append_cancel_left h
  | some b =>
    induction l with
    | nil => exact h
    | cons a l ih =>
      simp only [splice, spliceAt] at ih h
      split at h
      · exact List.append_cancel_right h
      · exact ih (List.cons.inj h).2

/-- The elements `xs` put in one after the other. One of them may be the element the later ones go before. -/
def spliceEach (before : Option α) (xs l : List α) : List α := xs.foldl (fun l x => splice before [x] l) l

@[simp]
theorem spliceEach_nil : spliceEach before [] l = l := rfl

@[simp]
theorem spliceEach_cons {x : α} : spliceEach before (x :: xs) l = spliceEach before xs (splice before [x] l) := rfl

theorem spliceEach_append : spliceEach before (xs ++ ys) l = spliceEach before ys (spliceEach before xs l) := by
  simp [spliceEach]

/-- Elements that do not name the place go in together. -/
theorem spliceEach_eq_splice (h : ∀ b ∈ before, b ∉ xs) : spliceEach before xs l = splice before xs l := by
  induction xs generalizing l with
  | nil => simp
  | cons x xs ih =>
    have hxs : ∀ b ∈ before, b ∉ xs := fun b hb hmem => h b hb (List.mem_cons_of_mem x hmem)
    have hx : ∀ b ∈ before, b ∉ [x] := fun b hb hmem => h b hb (List.mem_singleton.mp hmem ▸ List.mem_cons_self)
    rw [spliceEach_cons, ih hxs, splice_splice hx]
    rfl

@[simp]
theorem mem_spliceEach {a : α} : a ∈ spliceEach before xs l ↔ a ∈ xs ∨ a ∈ l := by
  induction xs generalizing l with
  | nil => simp
  | cons x xs ih =>
    rw [spliceEach_cons, ih, mem_splice, List.mem_singleton, List.mem_cons]
    tauto

theorem nodup_spliceEach (hx : xs.Nodup) (hl : l.Nodup) (hd : ∀ a ∈ xs, a ∉ l) : (spliceEach before xs l).Nodup := by
  induction xs generalizing l with
  | nil => exact hl
  | cons x xs ih =>
    obtain ⟨hnx, hxs⟩ := List.nodup_cons.mp hx
    have hx1 : (splice before [x] l).Nodup :=
      nodup_splice (List.pairwise_singleton _ x) hl fun a ha => List.mem_singleton.mp ha ▸ hd x List.mem_cons_self
    refine ih hxs hx1 fun a ha hmem => ?_
    rcases mem_splice.mp hmem with h | h
    · exact hnx (List.mem_singleton.mp h ▸ ha)
    · exact hd a (List.mem_cons_of_mem x ha) h

/-- Filtering keeps the place, as long as it does not drop the element that names it. -/
theorem filter_spliceEach (h : ∀ b ∈ before, p b = true) :
    (spliceEach before xs l).filter p = spliceEach before (xs.filter p) (l.filter p) := by
  induction xs generalizing l with
  | nil => rfl
  | cons x xs ih =>
    rw [spliceEach_cons, ih, filter_splice fun b hb _ => h b hb, List.filter_cons]
    by_cases hx : p x = true
    · simp [hx]
    · simp [hx]

/-- Filtering the new elements away leaves what was there before, wherever they were put. -/
theorem filter_spliceEach_of_drop (h : ∀ x ∈ xs, p x = false) :
    (spliceEach before xs l).filter p = l.filter p := by
  induction xs generalizing l with
  | nil => rfl
  | cons x xs ih =>
    rw [spliceEach_cons, ih fun y hy => h y (List.mem_cons_of_mem x hy)]
    exact filter_splice_of_drop fun y hy => List.mem_singleton.mp hy ▸ h x List.mem_cons_self

end Splice
