import Mathlib.Data.List.Infix
import Mathlib.Data.Prod.Lex

/-!
# Greedy elimination

A list is thinned out: again and again, of the elements between two neighbours that may go, the one goes that weighs least between
its present neighbours, and of these the first in order, until none weighs less than a bound. What is left is heavy, and thinning
it out again changes nothing.
-/

namespace Elimination

variable {α : Type*}

/-- Three elements in a row. -/
def triples : List α → List (α × α × α)
  | a :: b :: c :: rest => (a, b, c) :: triples (b :: c :: rest)
  | _ => []

variable {l : List α} {a b c : α}

/-- The triples of a list are the three in a row it has. -/
theorem mem_triples_iff : (a, b, c) ∈ triples l ↔ ∃ before after, l = before ++ a :: b :: c :: after := by
  induction l with
  | nil => simp [triples]
  | cons x l ih =>
    rcases l with _ | ⟨y, _ | ⟨z, l⟩⟩
    · simp [triples, List.cons_eq_append_iff]
    · simp [triples, List.cons_eq_append_iff]
    · rw [triples, List.mem_cons, ih]
      constructor
      · rintro (heq | ⟨before, after, heq⟩)
        · obtain ⟨rfl, rfl, rfl⟩ := by simpa using heq
          exact ⟨[], l, rfl⟩
        · exact ⟨x :: before, after, by rw [heq, List.cons_append]⟩
      · rintro ⟨before, after, heq⟩
        rcases before with _ | ⟨x', before⟩
        · obtain ⟨rfl, rfl, rfl, rfl⟩ := by simpa using heq
          exact Or.inl rfl
        · exact Or.inr ⟨before, after, (List.cons.inj heq).2⟩

theorem mem_triples_iff_getElem? :
    (a, b, c) ∈ triples l ↔ ∃ i, l[i]? = some a ∧ l[i + 1]? = some b ∧ l[i + 2]? = some c := by
  rw [mem_triples_iff]
  constructor
  · rintro ⟨before, after, rfl⟩
    refine ⟨before.length, ?_, ?_, ?_⟩ <;> simp
  · rintro ⟨i, ha, hb, hc⟩
    obtain ⟨hi, rfl⟩ := List.getElem?_eq_some_iff.mp ha
    obtain ⟨hi', rfl⟩ := List.getElem?_eq_some_iff.mp hb
    obtain ⟨hi'', rfl⟩ := List.getElem?_eq_some_iff.mp hc
    refine ⟨l.take i, l.drop (i + 3), ?_⟩
    rw [← List.drop_eq_getElem_cons, ← List.drop_eq_getElem_cons, ← List.drop_eq_getElem_cons, List.take_append_drop]

theorem triples_map {β : Type*} (f : α → β) (l : List α) :
    triples (l.map f) = (triples l).map fun t => (f t.1, f t.2.1, f t.2.2) := by
  induction l with
  | nil => rfl
  | cons a l ih =>
    rcases l with _ | ⟨b, _ | ⟨c, l⟩⟩
    · rfl
    · rfl
    · simp only [List.map_cons, triples, List.cons.injEq, true_and]
      exact ih

/-- A row of three of an appended list is one of a part, or its middle is where the parts meet. -/
theorem mem_triples_append {l₁ l₂ : List α} (h : (a, b, c) ∈ triples (l₁ ++ l₂)) :
    (a, b, c) ∈ triples l₁ ∨ (a, b, c) ∈ triples l₂ ∨ l₁.getLast? = some b ∨ l₂.head? = some b := by
  obtain ⟨before, after, heq⟩ := mem_triples_iff.mp h
  rcases List.append_eq_append_iff.mp heq with ⟨middle, hbefore, hmiddle⟩ | ⟨middle, hl₁, hmiddle⟩
  · exact Or.inr (Or.inl (mem_triples_iff.mpr ⟨middle, after, hmiddle⟩))
  · rcases middle with _ | ⟨x, _ | ⟨y, _ | ⟨z, middle⟩⟩⟩
    · exact Or.inr (Or.inl (mem_triples_iff.mpr ⟨[], after, hmiddle.symm⟩))
    · simp only [List.cons_append, List.nil_append, List.cons.injEq] at hmiddle
      exact Or.inr (Or.inr (Or.inr (by rw [← hmiddle.2]; rfl)))
    · simp only [List.cons_append, List.nil_append, List.cons.injEq] at hmiddle
      exact Or.inr (Or.inr (Or.inl (by rw [hl₁, hmiddle.2.1]; simp)))
    · simp only [List.cons_append, List.cons.injEq] at hmiddle
      obtain ⟨hx, hy, hz, -⟩ := hmiddle
      exact Or.inl (mem_triples_iff.mpr ⟨before, middle, by rw [hl₁, hx, hy, hz]⟩)

theorem mem_triples_of_left {l₁ : List α} {t : α × α × α} (h : t ∈ triples l₁) (l₂ : List α) : t ∈ triples (l₁ ++ l₂) := by
  obtain ⟨a, b, c⟩ := t
  obtain ⟨before, after, rfl⟩ := mem_triples_iff.mp h
  exact mem_triples_iff.mpr ⟨before, after ++ l₂, by simp⟩

theorem mem_triples_of_right {l₂ : List α} {t : α × α × α} (h : t ∈ triples l₂) (l₁ : List α) : t ∈ triples (l₁ ++ l₂) := by
  obtain ⟨a, b, c⟩ := t
  obtain ⟨before, after, rfl⟩ := mem_triples_iff.mp h
  exact mem_triples_iff.mpr ⟨l₁ ++ before, after, by simp⟩

/-- When an element in the middle is taken out, the rows of three around elements other than it and its neighbours stay. -/
theorem mem_triples_middle_iff {before after : List α} {a b c x y z : α} (ha : y ≠ a) (hb : y ≠ b) (hc : y ≠ c) :
    (x, y, z) ∈ triples (before ++ a :: c :: after) ↔ (x, y, z) ∈ triples (before ++ a :: b :: c :: after) := by
  have hnew : before ++ a :: c :: after = (before ++ [a]) ++ c :: after := by simp
  have hold : before ++ a :: b :: c :: after = (before ++ [a]) ++ ([b] ++ c :: after) := by simp
  have hlast : (before ++ [a]).getLast? = some y → False := fun h => ha (by simpa using h.symm)
  rw [hnew, hold]
  constructor
  · intro h
    rcases mem_triples_append h with h | h | h | h
    · exact mem_triples_of_left h _
    · exact mem_triples_of_right (mem_triples_of_right h [b]) _
    · exact (hlast h).elim
    · exact absurd (Option.some.inj h).symm hc
  · intro h
    rcases mem_triples_append h with h | h | h | h
    · exact mem_triples_of_left h _
    · rcases mem_triples_append h with h | h | h | h
      · simp [triples] at h
      · exact mem_triples_of_right h _
      · exact absurd (Option.some.inj h).symm hb
      · exact absurd (Option.some.inj h).symm hc
    · exact (hlast h).elim
    · exact absurd (Option.some.inj h).symm hb

/-- An element in the middle is taken out. -/
theorem erase_middle [DecidableEq α] {before after : List α} (h : (before ++ a :: b :: c :: after).Nodup) :
    (before ++ a :: b :: c :: after).erase b = before ++ a :: c :: after := by
  have hperm : (before ++ a :: b :: c :: after) = (before ++ [a]) ++ b :: (c :: after) := by simp
  have hnot : b ∉ before ++ [a] := by
    rw [hperm, List.nodup_append] at h
    intro hmem
    exact h.2.2 b hmem b List.mem_cons_self rfl
  rw [hperm, List.erase_append_right _ hnot, List.erase_cons_head]
  simp

variable (weight : α → α → α → Nat) (removable : α → Bool) (bound : Nat)

/-- The elements that may go, each with its weight. -/
def candidates (l : List α) : List (Nat ×ₗ α) :=
  ((triples l).filter fun t => removable t.2.1).map fun t => toLex (weight t.1 t.2.1 t.2.2, t.2.1)

variable {weight removable bound}

/-- The candidates are the middles of three in a row that may go. -/
theorem mem_candidates_iff {w : Nat} {b : α} :
    toLex (w, b) ∈ candidates weight removable l ↔ ∃ a c, (a, b, c) ∈ triples l ∧ removable b = true ∧ w = weight a b c := by
  unfold candidates
  rw [List.mem_map]
  constructor
  · rintro ⟨⟨a, b', c⟩, hmem, heq⟩
    obtain ⟨htriple, hremovable⟩ := List.mem_filter.mp hmem
    obtain ⟨rfl, rfl⟩ := Prod.mk.inj (toLex.injective heq)
    exact ⟨a, c, htriple, hremovable, rfl⟩
  · rintro ⟨a, c, htriple, hremovable, rfl⟩
    exact ⟨(a, b, c), List.mem_filter.mpr ⟨htriple, hremovable⟩, rfl⟩

variable {d : Nat ×ₗ α}

/-- A candidate is an element of the list. -/
theorem mem_of_mem_candidates (h : d ∈ candidates weight removable l) : (ofLex d).2 ∈ l := by
  obtain ⟨a, c, htriple, -⟩ := mem_candidates_iff.mp (show toLex ((ofLex d).1, (ofLex d).2) ∈ _ from h)
  obtain ⟨before, after, rfl⟩ := mem_triples_iff.mp htriple
  simp

variable {weight' : α → α → α → Nat} {removable' : α → Bool}

theorem candidates_congr (hweight : ∀ a ∈ l, ∀ b ∈ l, ∀ c ∈ l, weight a b c = weight' a b c)
    (h : ∀ a ∈ l, removable a = removable' a) :
    candidates weight removable l = candidates weight' removable' l := by
  have hmem : ∀ t ∈ triples l, t.1 ∈ l ∧ t.2.1 ∈ l ∧ t.2.2 ∈ l := by
    intro t ht
    obtain ⟨before, after, hl⟩ := mem_triples_iff.mp ht
    rw [hl]
    simp
  unfold candidates
  rw [List.filter_congr fun t ht => h _ (hmem t ht).2.1]
  refine List.map_congr_left fun t ht => ?_
  obtain ⟨ha, hb, hc⟩ := hmem t (List.mem_of_mem_filter ht)
  rw [hweight _ ha _ hb _ hc]

/-- No three elements in a row are light around one that may go. -/
def Heavy (weight : α → α → α → Nat) (removable : α → Bool) (bound : Nat) (l : List α) : Prop :=
  ∀ a b c, (a, b, c) ∈ triples l → removable b = true → bound ≤ weight a b c

/-- A list without a candidate is heavy. -/
theorem heavy_of_candidates_eq_nil (h : candidates weight removable l = []) : Heavy weight removable bound l := by
  intro a b c htriple hremovable
  have hmem : toLex (weight a b c, b) ∈ candidates weight removable l :=
    mem_candidates_iff.mpr ⟨a, c, htriple, hremovable, rfl⟩
  rw [h] at hmem
  cases hmem

variable [LinearOrder α] (weight removable bound)

/-- The least candidate goes, as long as it is lighter than the bound. -/
def eliminate (l : List α) : List α :=
  match h : (candidates weight removable l).min? with
  | some least => if (ofLex least).1 < bound then eliminate (l.erase (ofLex least).2) else l
  | none => l
termination_by l.length
decreasing_by
  have hmem := mem_of_mem_candidates (List.min?_mem h)
  rw [List.length_erase_of_mem hmem]
  exact Nat.sub_lt (List.length_pos_of_mem hmem) Nat.one_pos

/-! ## One turn -/

variable {weight removable bound}

/-- The least candidate goes when it is light. -/
theorem eliminate_of_least (hd : d ∈ candidates weight removable l)
    (hleast : ∀ e ∈ candidates weight removable l, d ≤ e) (hlight : (ofLex d).1 < bound) :
    eliminate weight removable bound l = eliminate weight removable bound (l.erase (ofLex d).2) := by
  have hmin : (candidates weight removable l).min? = some d := List.min?_eq_some_iff.mpr ⟨hd, hleast⟩
  rw [eliminate]
  split
  · rename_i least hsome
    cases hmin.symm.trans hsome
    rw [if_pos hlight]
  · rename_i hnone
    rw [hmin] at hnone
    cases hnone

/-- A list is heavy when a least candidate is. -/
theorem heavy_of_least (hleast : ∀ e ∈ candidates weight removable l, d ≤ e) (hheavy : bound ≤ (ofLex d).1) :
    Heavy weight removable bound l := by
  intro a b c htriple hremovable
  have hle := hleast _ (mem_candidates_iff.mpr ⟨a, c, htriple, hremovable, rfl⟩)
  rcases Prod.Lex.le_iff.mp hle with hlt | ⟨heq, -⟩
  · exact hheavy.trans hlt.le
  · exact hheavy.trans heq.le

/-- From a heavy list nothing goes. -/
theorem eliminate_of_heavy (h : Heavy weight removable bound l) : eliminate weight removable bound l = l := by
  rw [eliminate]
  split
  · rename_i least hsome
    obtain ⟨a, c, htriple, hremovable, hweight⟩ :=
      mem_candidates_iff.mp (show toLex ((ofLex least).1, (ofLex least).2) ∈ _ from List.min?_mem hsome)
    have hheavy := h a _ c htriple hremovable
    rw [if_neg (by omega)]
  · rfl

/-- Only of the elements of the list it matters what they weigh, and which may go. -/
theorem eliminate_congr (hweight : ∀ a ∈ l, ∀ b ∈ l, ∀ c ∈ l, weight a b c = weight' a b c)
    (h : ∀ a ∈ l, removable a = removable' a) :
    eliminate weight removable bound l = eliminate weight' removable' bound l := by
  induction hlength : l.length using Nat.strong_induction_on generalizing l with
  | _ n ih =>
    have hcandidates : candidates weight removable l = candidates weight' removable' l := candidates_congr hweight h
    rcases hmin : (candidates weight removable l).min? with _ | d
    · have hnone := List.min?_eq_none_iff.mp hmin
      rw [eliminate_of_heavy (heavy_of_candidates_eq_nil hnone),
        eliminate_of_heavy (heavy_of_candidates_eq_nil (hcandidates ▸ hnone))]
    · obtain ⟨hd, hleast⟩ := List.min?_eq_some_iff.mp hmin
      rw [hcandidates] at hmin
      obtain ⟨hd', hleast'⟩ := List.min?_eq_some_iff.mp hmin
      by_cases hlight : (ofLex d).1 < bound
      · have hmem := mem_of_mem_candidates hd
        have hlt : (l.erase (ofLex d).2).length < n := by
          rw [List.length_erase_of_mem hmem, ← hlength]
          exact Nat.sub_lt (List.length_pos_of_mem hmem) Nat.one_pos
        have hrest := ih _ hlt (fun a ha b hb c hc => hweight a (List.mem_of_mem_erase ha) b (List.mem_of_mem_erase hb) c
          (List.mem_of_mem_erase hc)) (fun a ha => h a (List.mem_of_mem_erase ha)) rfl
        calc eliminate weight removable bound l
            = eliminate weight removable bound (l.erase (ofLex d).2) := eliminate_of_least hd hleast hlight
          _ = eliminate weight' removable' bound (l.erase (ofLex d).2) := hrest
          _ = eliminate weight' removable' bound l := (eliminate_of_least hd' hleast' hlight).symm
      · rw [eliminate_of_heavy (heavy_of_least hleast (Nat.not_lt.mp hlight)),
          eliminate_of_heavy (heavy_of_least hleast' (Nat.not_lt.mp hlight))]

/-! ## The whole elimination -/

theorem eliminate_sublist (l : List α) : (eliminate weight removable bound l).Sublist l := by
  fun_induction eliminate weight removable bound l with
  | case1 l least hsome hlight ih => exact ih.trans List.erase_sublist
  | case2 l least hsome hheavy => exact List.Sublist.refl l
  | case3 l hnone => exact List.Sublist.refl l

theorem heavy_eliminate (l : List α) : Heavy weight removable bound (eliminate weight removable bound l) := by
  fun_induction eliminate weight removable bound l with
  | case1 l least hsome hlight ih => exact ih
  | case2 l least hsome hheavy => exact heavy_of_least (List.min?_eq_some_iff.mp hsome).2 (Nat.not_lt.mp hheavy)
  | case3 l hnone => exact heavy_of_candidates_eq_nil (List.min?_eq_none_iff.mp hnone)

/-- What may not go stays. -/
theorem filter_eliminate (l : List α) (hnodup : l.Nodup) (keep : α → Bool) (hkeep : ∀ a, keep a = true → removable a = false) :
    (eliminate weight removable bound l).filter keep = l.filter keep := by
  fun_induction eliminate weight removable bound l with
  | case1 l least hsome hlight ih =>
    obtain ⟨a, c, -, hremovable, -⟩ :=
      mem_candidates_iff.mp (show toLex ((ofLex least).1, (ofLex least).2) ∈ _ from List.min?_mem hsome)
    rw [ih (hnodup.erase _), hnodup.erase_eq_filter, List.filter_filter]
    refine List.filter_congr fun x _ => ?_
    by_cases hx : x = (ofLex least).2
    · have hno : keep x = false := by
        rw [hx]
        by_contra hk
        rw [hkeep _ (by simpa using hk)] at hremovable
        cases hremovable
      simp [hno]
    · simp [hx]
  | case2 l least hsome hheavy => rfl
  | case3 l hnone => rfl

/-- The ends stay. -/
theorem ends_eliminate (l : List α) (hnodup : l.Nodup) :
    (eliminate weight removable bound l).head? = l.head? ∧ (eliminate weight removable bound l).getLast? = l.getLast? := by
  fun_induction eliminate weight removable bound l with
  | case1 l least hsome hlight ih =>
    obtain ⟨a, c, htriple, -, -⟩ :=
      mem_candidates_iff.mp (show toLex ((ofLex least).1, (ofLex least).2) ∈ _ from List.min?_mem hsome)
    obtain ⟨before, after, hl⟩ := mem_triples_iff.mp htriple
    obtain ⟨hhead, hlast⟩ := ih (hnodup.erase _)
    rw [hhead, hlast]
    rw [hl] at hnodup ⊢
    rw [erase_middle hnodup]
    constructor
    · cases before <;> rfl
    · simp [List.getLast?_append, List.getLast?_cons]
  | case2 l least hsome hheavy => exact ⟨rfl, rfl⟩
  | case3 l hnone => exact ⟨rfl, rfl⟩

end Elimination
