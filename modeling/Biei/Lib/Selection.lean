import Mathlib.Data.List.Sort
import Mathlib.Data.Prod.Lex

/-!
# The first of a sorted list

The first entries of a list that is stably sorted: how they can be kept up while the list is read, and how little they change when
entries of the list come or go. Everything is about any relation that is total and transitive, ties included.
-/

variable {α : Type*} (r : α → α → Prop) [DecidableRel r]

/-- The first `k` entries of the list, stably sorted. -/
def topK (k : Nat) (l : List α) : List α := (l.insertionSort r).take k

/-- An entry is put after all that may stand before it. -/
def insertAfter (a : α) : List α → List α
  | [] => [a]
  | b :: l => if r b a then b :: insertAfter a l else a :: b :: l

/-! ## Keeping them up -/

theorem take_cons_take (b : α) (k : Nat) (l : List α) : (b :: l.take k).take k = (b :: l).take k := by
  cases k with
  | zero => rfl
  | succ k => rw [List.take_succ_cons, List.take_succ_cons, List.take_take, Nat.min_eq_left (Nat.le_succ k)]

/-- What is cut off plays no part in where an entry is put. -/
theorem take_orderedInsert (a : α) (k : Nat) (l : List α) :
    (l.orderedInsert r a).take k = ((l.take k).orderedInsert r a).take k := by
  induction l generalizing k with
  | nil => simp
  | cons b l ih =>
    cases k with
    | zero => simp
    | succ k =>
      rw [List.take_succ_cons, List.orderedInsert_cons, List.orderedInsert_cons]
      by_cases hab : r a b
      · rw [if_pos hab, if_pos hab, List.take_succ_cons, List.take_succ_cons, take_cons_take]
      · rw [if_neg hab, if_neg hab, List.take_succ_cons, List.take_succ_cons, ih k]

theorem take_insertAfter (a : α) (k : Nat) (l : List α) : (insertAfter r a l).take k = (insertAfter r a (l.take k)).take k := by
  induction l generalizing k with
  | nil => simp
  | cons b l ih =>
    cases k with
    | zero => simp
    | succ k =>
      rw [List.take_succ_cons]
      unfold insertAfter
      by_cases hba : r b a
      · rw [if_pos hba, if_pos hba, List.take_succ_cons, List.take_succ_cons, ih k]
      · rw [if_neg hba, if_neg hba, List.take_succ_cons, List.take_succ_cons, take_cons_take]

/-- Inserting one by one, cutting each time. -/
theorem foldl_orderedInsert_take (k : Nat) (top l : List α) :
    l.foldl (fun top a => (top.orderedInsert r a).take k) (top.take k) = (l.foldl (fun top a => top.orderedInsert r a) top).take
      k := by
  induction l generalizing top with
  | nil => rfl
  | cons a l ih => rw [List.foldl_cons, List.foldl_cons, ← take_orderedInsert, ih]

theorem foldl_insertAfter_take (k : Nat) (top l : List α) :
    l.foldl (fun top a => (insertAfter r a top).take k) (top.take k) = (l.foldl (fun top a => insertAfter r a top) top).take
      k := by
  induction l generalizing top with
  | nil => rfl
  | cons a l ih => rw [List.foldl_cons, List.foldl_cons, ← take_insertAfter, ih]

/-- Inserting one by one before what is tied sorts the list from its end. -/
theorem foldl_orderedInsert (l : List α) : l.foldl (fun top a => top.orderedInsert r a) [] = l.reverse.insertionSort r := by
  rw [List.insertionSort, List.foldr_reverse]

variable {l : List α}

/-- An entry that goes before the rest of a sorted list. -/
theorem orderedInsert_of_forall {a : α} (h : ∀ b ∈ l, r a b) : l.orderedInsert r a = a :: l := by
  cases l with
  | nil => rfl
  | cons b l => exact List.orderedInsert_cons_of_le r l (h b List.mem_cons_self)

/-- Sorting what a list is mapped to, by what the map makes of the order. -/
theorem topK_map {β : Type*} (s : β → β → Prop) [DecidableRel s] (f : α → β) (hrs : ∀ a b, r a b ↔ s (f a) (f b)) (k : Nat)
    (l : List α) :
    topK s k (l.map f) = (topK r k l).map f := by
  unfold topK
  rw [← List.map_insertionSort r s f l fun a _ b _ => hrs a b, List.map_take]

/-- The first entries are some of the list. -/
theorem topK_subperm (k : Nat) (l : List α) : (topK r k l).Subperm l :=
  (List.take_sublist k _).subperm.trans (List.perm_insertionSort r l).subperm

theorem mem_of_mem_topK {k : Nat} {a : α} (h : a ∈ topK r k l) : a ∈ l := (topK_subperm r k l).subset h

theorem length_topK (k : Nat) (l : List α) : (topK r k l).length = min k l.length := by
  rw [topK, List.length_take, List.length_insertionSort]

/-- Inserting into a sorted list, of which some entries are left. -/
theorem filter_orderedInsert [IsTrans α r] (p : α → Bool) (a : α) (hl : l.Pairwise r) :
    (l.orderedInsert r a).filter p = if p a then (l.filter p).orderedInsert r a else l.filter p := by
  induction l with
  | nil => by_cases ha : p a <;> simp [ha]
  | cons b l ih =>
    obtain ⟨hb, hl⟩ := List.pairwise_cons.mp hl
    rw [List.orderedInsert_cons]
    by_cases hab : r a b
    · rw [if_pos hab, List.filter_cons]
      by_cases ha : p a = true
      · -- all that is left of the list is after `b`, and so after `a`
        rw [if_pos ha, if_pos ha, orderedInsert_of_forall]
        intro c hc
        rcases List.mem_cons.mp (List.mem_of_mem_filter hc) with rfl | hc
        · exact hab
        · exact trans_of r hab (hb c hc)
      · rw [if_neg ha, if_neg ha]
    · rw [if_neg hab, List.filter_cons, List.filter_cons, ih hl]
      by_cases hb : p b = true <;> by_cases ha : p a = true <;> simp [ha, hb, hab]

section

variable [Std.Total r] [IsTrans α r]

/-- It is the same to put `a` before what it may precede and then `b` after what may precede it, or the other way round. -/
theorem insertAfter_orderedInsert (a b : α) (l : List α) :
    insertAfter r b (l.orderedInsert r a) = (insertAfter r b l).orderedInsert r a := by
  induction l with
  | nil =>
    by_cases hab : r a b
    · simp [insertAfter, hab]
    · simp [insertAfter, hab]
  | cons c l ih =>
    by_cases hac : r a c
    · by_cases hcb : r c b
      · have hab : r a b := trans_of r hac hcb
        simp [insertAfter, hac, hcb, hab]
      · by_cases hab : r a b
        · simp [insertAfter, hac, hcb, hab]
        · simp [insertAfter, hac, hcb, hab]
    · have hca : r c a := (total_of r a c).resolve_left hac
      by_cases hcb : r c b
      · simp [insertAfter, hac, hcb, ih]
      · have hab : ¬r a b := fun hab => hcb (trans_of r hca hab)
        simp [insertAfter, hac, hcb, hab]

/-- Inserting one by one after what is tied is the stable sort. -/
theorem foldl_insertAfter (l : List α) : l.foldl (fun top a => insertAfter r a top) [] = l.insertionSort r := by
  have hfront : ∀ (a : α) (top l : List α), l.foldl (fun top a => insertAfter r a top) (top.orderedInsert r a) =
      (l.foldl (fun top a => insertAfter r a top) top).orderedInsert r a := by
    intro a top l
    induction l generalizing top with
    | nil => rfl
    | cons b l ih => rw [List.foldl_cons, List.foldl_cons, insertAfter_orderedInsert, ih]
  induction l with
  | nil => rfl
  | cons a l ih =>
    have hone : insertAfter r a [] = ([] : List α).orderedInsert r a := rfl
    rw [List.foldl_cons, hone, hfront, ih, List.insertionSort_cons]

/-! ## When entries come or go -/

/-- Sorting what is left of a list. -/
theorem insertionSort_filter (p : α → Bool) (l : List α) : (l.filter p).insertionSort r = (l.insertionSort r).filter p := by
  induction l with
  | nil => rfl
  | cons a l ih =>
    rw [List.insertionSort_cons, filter_orderedInsert r p a (List.pairwise_insertionSort r l), List.filter_cons]
    by_cases ha : p a = true
    · rw [if_pos ha, if_pos ha, List.insertionSort_cons, ih]
    · rw [if_neg ha, if_neg ha, ih]

theorem topK_pairwise (k : Nat) (l : List α) : (topK r k l).Pairwise r :=
  (List.pairwise_insertionSort r l).sublist (List.take_sublist k _)

/-- What is not among the first is after all of them. -/
theorem mem_topK_or {k : Nat} {l : List α} {a : α} (h : a ∈ l) : a ∈ topK r k l ∨ ∀ b ∈ topK r k l, r b a := by
  have hmem : a ∈ l.insertionSort r := (List.mem_insertionSort r).mpr h
  have hsorted := List.pairwise_insertionSort r l
  rw [← List.take_append_drop k (l.insertionSort r)] at hmem hsorted
  rcases List.mem_append.mp hmem with hmem | hmem
  · exact Or.inl hmem
  · exact Or.inr fun b hb => (List.pairwise_append.mp hsorted).2.2 b hb a hmem

/-- What an entry of the first may not precede is one of them, and earlier. -/
theorem topK_getElem?_of_not {k i : Nat} {l : List α} {a b : α} (ha : (topK r k l)[i]? = some a) (hb : b ∈ l) (hab : ¬r a b) :
    ∃ j < i, (topK r k l)[j]? = some b := by
  have hik : i < k := by
    by_contra hki
    rw [topK, List.getElem?_take_eq_none (Nat.not_lt.mp hki)] at ha
    cases ha
  rw [topK, List.getElem?_take_of_lt hik] at ha
  obtain ⟨j, hj⟩ := List.mem_iff_getElem?.mp ((List.mem_insertionSort r).mpr hb)
  obtain ⟨hilt, ha⟩ := List.getElem?_eq_some_iff.mp ha
  obtain ⟨hjlt, hj'⟩ := List.getElem?_eq_some_iff.mp hj
  have hsorted := List.pairwise_iff_getElem.mp (List.pairwise_insertionSort r l)
  have hji : j < i := by
    rcases Nat.lt_trichotomy j i with hji | rfl | hij
    · exact hji
    · obtain rfl : a = b := ha.symm.trans hj'
      exact absurd ((total_of r a a).elim id id) hab
    · exact absurd (ha ▸ hj' ▸ hsorted i j hilt hjlt hij) hab
  refine ⟨j, hji, ?_⟩
  rw [topK, List.getElem?_take_of_lt (hji.trans hik)]
  exact hj

/-- Of the first entries those that are left stay, in their order, and at most as many come after them as are gone. -/
theorem topK_filter (p : α → Bool) (k : Nat) (l : List α) :
    ∃ added, topK r k (l.filter p) = (topK r k l).filter p ++ added ∧ added.length ≤ (topK r k l).countP fun a => !p a := by
  unfold topK
  rw [insertionSort_filter]
  have hsplit : (l.insertionSort r).filter p = ((l.insertionSort r).take k).filter p ++ ((l.insertionSort r).drop k).filter
    p := by
    rw [← List.filter_append, List.take_append_drop]
  have hcount := List.length_eq_countP_add_countP p (l := (l.insertionSort r).take k)
  rw [List.countP_eq_length_filter] at hcount
  refine ⟨(((l.insertionSort r).drop k).filter p).take (k - (((l.insertionSort r).take k).filter p).length), ?_, ?_⟩
  · rw [hsplit, List.take_append, List.take_of_length_le]
    exact (List.length_filter_le _ _).trans (List.length_take_le k _)
  · rw [List.length_take]
    by_cases hk : k ≤ (l.insertionSort r).length
    · rw [List.length_take_of_le hk] at hcount
      simp only [decide_not, Bool.decide_eq_true] at hcount
      omega
    · rw [List.drop_of_length_le (by omega)]
      simp

/-- When no two entries are tied, the order of the list does not matter. -/
theorem topK_perm {k : Nat} {l l' : List α} (h : l.Perm l') (hties : ∀ a ∈ l, ∀ b ∈ l, r a b → r b a → a = b) :
    topK r k l = topK r k l' := by
  have hperm : (l.insertionSort r).Perm (l'.insertionSort r) :=
    (List.perm_insertionSort r l).trans (h.trans (List.perm_insertionSort r l').symm)
  unfold topK
  rw [List.Perm.eq_of_pairwise ?_ (List.pairwise_insertionSort r l) (List.pairwise_insertionSort r l') hperm]
  intro a b ha hb
  exact hties a ((List.mem_insertionSort r).mp ha) b (h.mem_iff.mpr ((List.mem_insertionSort r).mp hb))

end

/-! ## Comparing by several keys -/

section

variable {β : Type*} {a a' : α} {b b' : β} {first rest : Ordering}

/-- Comparing by one key and then by the rest is comparing in the lexicographic order. -/
theorem then_ne_gt_iff [LT α] [LE β] (hlt : first = .lt ↔ a < a')
    (heq : first = .eq ↔ a = a') (hrest : rest ≠ .gt ↔ b ≤ b') : first.then rest ≠ .gt ↔ toLex (a, b) ≤ toLex (a', b') := by
  rw [Prod.Lex.toLex_le_toLex, ← hrest, ← hlt, ← heq]
  cases first <;> cases rest <;> simp

theorem then_eq_lt_iff [LT α] [LT β] (hlt : first = .lt ↔ a < a') (heq : first = .eq ↔ a = a') (hrest : rest = .lt ↔ b < b') :
    first.then rest = .lt ↔ toLex (a, b) < toLex (a', b') := by
  rw [Prod.Lex.toLex_lt_toLex, ← hrest, ← hlt, ← heq, Ordering.then_eq_lt]

end

/-! ## The last of the greatest -/

section

variable {κ : Type*} [LinearOrder κ]

/-- The last of the elements with the greatest key. -/
def maxByKey? (key : α → κ) : List α → Option α
  | [] => none
  | a :: l =>
    match maxByKey? key l with
    | some b => if key b < key a then some a else some b
    | none => some a

theorem mem_of_maxByKey?_eq_some {key : α → κ} {l : List α} {a : α} (h : maxByKey? key l = some a) : a ∈ l := by
  induction l generalizing a with
  | nil => cases h
  | cons b l ih =>
    unfold maxByKey? at h
    split at h
    · rename_i c hc
      split at h
      · cases h
        exact List.mem_cons_self
      · cases h
        exact List.mem_cons_of_mem _ (ih hc)
    · cases h
      exact List.mem_cons_self

theorem maxByKey?_eq_none_iff {key : α → κ} {l : List α} : maxByKey? key l = none ↔ l = [] := by
  refine ⟨fun h => ?_, fun h => h ▸ rfl⟩
  rcases l with _ | ⟨a, l⟩
  · rfl
  · unfold maxByKey? at h
    split at h
    · split at h <;> cases h
    · cases h

end
