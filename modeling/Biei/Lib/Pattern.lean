import Mathlib.Data.List.Basic

/-!
# Occurrences of a pattern

A text is split where a pattern occurs, from left to right and without overlaps, and another text may be put in the place of every
occurrence.
-/

namespace Pattern

variable {α : Type*} [DecidableEq α]

/-- What is between the occurrences of a pattern, after some elements of one that is being passed. -/
def piecesFrom (pattern : List α) : Nat → List α → List (List α)
  | _, [] => [[]]
  | skip + 1, _ :: text => piecesFrom pattern skip text
  | 0, a :: text =>
    if pattern.isPrefixOf (a :: text) then [] :: piecesFrom pattern (pattern.length - 1) text
    else (piecesFrom pattern 0 text).modifyHead (a :: ·)

/-- What is between the occurrences of a pattern. -/
def pieces (pattern text : List α) : List (List α) := piecesFrom pattern 0 text

/-- How often a pattern occurs. -/
def count (pattern text : List α) : Nat := (pieces pattern text).length - 1

/-- Every occurrence of a pattern replaced. -/
def replace (pattern replacement text : List α) : List α := replacement.intercalate (pieces pattern text)

theorem piecesFrom_ne_nil (pattern : List α) (skip : Nat) (text : List α) : piecesFrom pattern skip text ≠ [] := by
  induction text generalizing skip with
  | nil => cases skip <;> exact List.cons_ne_nil _ _
  | cons a text ih =>
    cases skip with
    | zero =>
      unfold piecesFrom
      split
      · exact List.cons_ne_nil _ _
      · rw [Ne, List.modifyHead_eq_nil_iff]
        exact ih 0
    | succ skip => exact ih skip

theorem piecesFrom_append (pattern skipped text : List α) :
    piecesFrom pattern skipped.length (skipped ++ text) = piecesFrom pattern 0 text := by
  induction skipped with
  | nil => rfl
  | cons a skipped ih => exact ih

variable {pattern : List α}

/-- An occurrence ends a piece. -/
theorem pieces_append (h : pattern ≠ []) (text : List α) : pieces pattern (pattern ++ text) = [] :: pieces pattern text := by
  cases pattern with
  | nil => exact absurd rfl h
  | cons a pattern =>
    have hprefix : (a :: pattern).isPrefixOf (a :: (pattern ++ text)) = true :=
      List.isPrefixOf_iff_prefix.mpr (List.prefix_append _ _)
    unfold pieces
    rw [List.cons_append, piecesFrom, if_pos hprefix]
    exact congrArg _ (piecesFrom_append _ pattern text)

/-- Elsewhere a piece goes on. -/
theorem pieces_cons {a : α} {text : List α} (h : ¬ pattern <+: a :: text) :
    pieces pattern (a :: text) = (pieces pattern text).modifyHead (a :: ·) := by
  have hprefix : ¬ pattern.isPrefixOf (a :: text) = true := fun hp => h (List.isPrefixOf_iff_prefix.mp hp)
  unfold pieces
  rw [piecesFrom, if_neg hprefix]

theorem pieces_nil (pattern : List α) : pieces pattern [] = [[]] := rfl

/-! ## Replacing -/

theorem replace_nil (pattern r : List α) : replace pattern r [] = [] := by simp [replace, pieces_nil]

/-- An occurrence is replaced, and the rest is replaced alone. -/
theorem replace_occurrence (h : pattern ≠ []) (r text : List α) :
    replace pattern r (pattern ++ text) = r ++ replace pattern r text := by
  unfold replace
  rw [pieces_append h]
  cases hpieces : pieces pattern text with
  | nil => exact absurd hpieces (piecesFrom_ne_nil pattern 0 text)
  | cons piece more => simp

theorem replace_cons {a : α} {text : List α} (h : ¬ pattern <+: a :: text) (r : List α) :
    replace pattern r (a :: text) = a :: replace pattern r text := by
  unfold replace
  rw [pieces_cons h]
  cases hpieces : pieces pattern text with
  | nil => exact absurd hpieces (piecesFrom_ne_nil pattern 0 text)
  | cons piece more => cases more <;> simp

/-- An occurrence that begins in one text and ends in the other. -/
def Crosses (pattern x y : List α) : Prop := ∃ a b, a ≠ [] ∧ b ≠ [] ∧ a ++ b = pattern ∧ a <:+ x ∧ b <+: y

/-- Where no occurrence crosses from one text to the next, each is replaced alone. -/
theorem replace_append (hpattern : pattern ≠ []) (r : List α) {x y : List α} (h : ¬ Crosses pattern x y) :
    replace pattern r (x ++ y) = replace pattern r x ++ replace pattern r y := by
  match x with
  | [] => rw [replace_nil, List.nil_append, List.nil_append]
  | c :: x =>
    by_cases hprefix : pattern <+: c :: x ++ y
    · obtain ⟨rest, hrest⟩ := hprefix
      rcases List.append_eq_append_iff.mp hrest with ⟨after, hx, -⟩ | ⟨b, hpat, hy⟩
      · have hshorter : after.length < (c :: x).length := by
          rw [hx, List.length_append]
          have := List.length_pos_iff.mpr hpattern
          omega
        have hcross : ¬ Crosses pattern after y := by
          rintro ⟨a, b, ha, hb, hab, hafter, hby⟩
          exact h ⟨a, b, ha, hb, hab, hafter.trans (hx ▸ List.suffix_append pattern after), hby⟩
        rw [hx, List.append_assoc, replace_occurrence hpattern, replace_occurrence hpattern, replace_append hpattern r hcross,
          List.append_assoc]
      · cases b with
        | nil =>
          rw [List.append_nil] at hpat
          have halone := replace_occurrence hpattern r []
          rw [List.append_nil, replace_nil, List.append_nil] at halone
          rw [← hpat, replace_occurrence hpattern, halone]
        | cons d b =>
          exact absurd ⟨c :: x, d :: b, List.cons_ne_nil _ _, List.cons_ne_nil _ _, hpat.symm, List.suffix_rfl,
            hy ▸ List.prefix_append _ _⟩ h
    · have hshort : ¬ pattern <+: c :: x := fun hp => hprefix (hp.trans (List.prefix_append _ _))
      have hcross : ¬ Crosses pattern x y := by
        rintro ⟨a, b, ha, hb, hab, hax, hby⟩
        exact h ⟨a, b, ha, hb, hab, hax.trans (List.suffix_cons c x), hby⟩
      have hrest := replace_append hpattern r hcross
      rw [replace_cons hshort, List.cons_append, List.cons_append, ← hrest]
      exact replace_cons hprefix r
  termination_by x.length
  decreasing_by
  · exact hshorter
  · exact Nat.lt_succ_self _

/-- A text that is shorter than the pattern. -/
theorem replace_of_length_lt {pattern text : List α} (h : text.length < pattern.length) (r : List α) :
    replace pattern r text = text := by
  induction text with
  | nil => exact replace_nil pattern r
  | cons a text ih =>
    have hprefix : ¬ pattern <+: a :: text := fun hp => absurd hp.length_le (Nat.not_le.mpr h)
    rw [replace_cons hprefix, ih (by rw [List.length_cons] at h; omega)]

/-- A text without the first element of the pattern. -/
theorem replace_of_not_mem {c : α} {rest text : List α} (h : c ∉ text) (r : List α) : replace (c :: rest) r text = text := by
  induction text with
  | nil => exact replace_nil _ r
  | cons a text ih =>
    rw [List.mem_cons, not_or] at h
    have hprefix : ¬ (c :: rest) <+: a :: text := fun hp => h.1 (List.cons_prefix_cons.mp hp).1
    rw [replace_cons hprefix, ih h.2]

/-! ## Filling -/

section Filling

variable {c : α} {rest fill r : List α}

/-- Two parts of a text with the filling between them make an occurrence. -/
def Bridges (pattern fill p q : List α) : Prop := ∃ a b, a <:+ p ∧ b <+: q ∧ a ++ fill ++ b = pattern

/-- Two neighbours among the parts make an occurrence with the filling between them. -/
def Bridged (pattern fill : List α) (parts : List (List α)) : Prop := ∃ p q, [p, q] <:+: parts ∧ Bridges pattern fill p q

omit [DecidableEq α] in
theorem bridged_cons_cons (pattern p q : List α) (parts : List (List α)) :
    Bridged pattern fill (p :: q :: parts) ↔ Bridges pattern fill p q ∨ Bridged pattern fill (q :: parts) := by
  constructor
  · rintro ⟨p', q', hinfix, hbridges⟩
    rcases List.infix_cons_iff.mp hinfix with hprefix | hinfix
    · obtain ⟨rfl, hq⟩ := List.cons_prefix_cons.mp hprefix
      obtain ⟨rfl, -⟩ := List.cons_prefix_cons.mp hq
      exact Or.inl hbridges
    · exact Or.inr ⟨p', q', hinfix, hbridges⟩
  · rintro (hbridges | ⟨p', q', hinfix, hbridges⟩)
    · exact ⟨p, q, ⟨[], parts, rfl⟩, hbridges⟩
    · exact ⟨p', q', List.infix_cons hinfix, hbridges⟩

omit [DecidableEq α] in
/-- No occurrence ends in a text that begins with the first element, which comes in the pattern once. -/
theorem not_crosses_cons (hc : c ∉ rest) (x y : List α) : ¬ Crosses (c :: rest) x (c :: y) := by
  rintro ⟨a, b, ha, hb, hab, -, hby⟩
  cases b with
  | nil => exact hb rfl
  | cons d b =>
    obtain ⟨rfl, -⟩ := List.cons_prefix_cons.mp hby
    cases a with
    | nil => exact ha rfl
    | cons e a =>
      rw [List.cons_append] at hab
      exact hc ((List.cons.inj hab).2 ▸ List.mem_append_right a List.mem_cons_self)

omit [DecidableEq α] in
/-- No occurrence begins in a text without the first element. -/
theorem not_crosses_of_not_mem {x : List α} (hx : c ∉ x) (y : List α) : ¬ Crosses (c :: rest) x y := by
  rintro ⟨a, b, ha, -, hab, hax, -⟩
  cases a with
  | nil => exact ha rfl
  | cons e a =>
    rw [List.cons_append] at hab
    exact hx (hax.subset ((List.cons.inj hab).1 ▸ List.mem_cons_self))

omit [DecidableEq α] in
/-- What crosses into the filling goes on after it, up to the next part. -/
theorem bridges_of_crosses (hnodup : (c :: rest).Nodup) (hfill : fill ≠ []) (hlast : ∀ d ∈ (c :: rest).getLast?, d ∉ fill)
    {p q : List α}
    {parts : List (List α)} (h : Crosses (c :: rest) p (fill ++ fill.intercalate (q :: parts))) :
      Bridges (c :: rest) fill p q := by
  obtain ⟨a, b, ha, hb, hab, hap, hby⟩ := h
  rcases List.prefix_or_prefix_of_prefix hby (List.prefix_append fill _) with hshort | ⟨b, rfl⟩
  · -- An occurrence cannot end in the filling.
    have hmem : b.getLast hb ∈ fill := hshort.subset (List.getLast_mem hb)
    have hend : b.getLast hb ∈ (c :: rest).getLast? := by
      rw [← hab, List.getLast?_append_of_ne_nil a hb, List.getLast?_eq_getLast_of_ne_nil hb]
      rfl
    exact absurd hmem (hlast _ hend)
  · rw [List.prefix_append_right_inj] at hby
    rw [← List.append_assoc] at hab
    cases parts with
    | nil => exact ⟨a, b, hap, by simpa using hby, hab⟩
    | cons next parts =>
      rw [List.intercalate_cons_cons, List.append_assoc] at hby
      rcases List.prefix_or_prefix_of_prefix hby (List.prefix_append q _) with hprefix | ⟨b, rfl⟩
      · exact ⟨a, b, hap, hprefix, hab⟩
      · rw [List.prefix_append_right_inj] at hby
        cases b with
        | nil => exact ⟨a, q, hap, List.prefix_rfl, by rwa [List.append_nil] at hab⟩
        | cons d b =>
          -- The filling would come twice in the pattern.
          cases fill with
          | nil => exact absurd rfl hfill
          | cons e fill =>
            obtain ⟨rfl, -⟩ := List.cons_prefix_cons.mp hby
            rw [← hab] at hnodup
            have hdistinct := (List.nodup_append.mp hnodup).2.2
            exact absurd rfl (hdistinct d (List.mem_append_right a List.mem_cons_self) d
              (List.mem_append_right q List.mem_cons_self))

theorem count_intercalate (h : c ∉ fill) (p : List α) (parts : List (List α)) :
    (fill.intercalate (p :: parts)).count c = p.count c + (fill.intercalate parts).count c := by
  cases parts with
  | nil => simp
  | cons q parts => rw [List.intercalate_cons_cons, List.count_append, List.count_append, List.count_eq_zero_of_not_mem h,
      Nat.add_zero]

/-- Two parts with an occurrence between them, taken apart. -/
theorem replace_bridge (hnodup : (c :: rest).Nodup) (hfill : fill ≠ []) (hc : c ∉ fill) {p q : List α}
    (h : Bridges (c :: rest) fill p q)
    (parts : List (List α)) : ∃ p' q', (replace (c :: rest) r p).count c = (replace (c :: rest) r p').count c + 1 ∧
      (replace (c :: rest) r q).count c = (replace (c :: rest) r q').count c ∧
      replace (c :: rest) r (p ++ fill ++ fill.intercalate (q :: parts)) =
        replace (c :: rest) r p' ++ r ++ replace (c :: rest) r (fill.intercalate (q' :: parts)) := by
  have hrest : c ∉ rest := (List.nodup_cons.mp hnodup).1
  have hne : c :: rest ≠ [] := List.cons_ne_nil _ _
  obtain ⟨a, b, ⟨p', rfl⟩, ⟨q', rfl⟩, hab⟩ := h
  obtain ⟨a, rfl⟩ : ∃ a', a = c :: a' := by
    cases a with
    | nil =>
      cases fill with
      | nil => exact absurd rfl hfill
      | cons e fill => exact absurd ((List.cons.inj hab).1 ▸ List.mem_cons_self) hc
    | cons e a => exact ⟨a, congrArg (· :: a) (List.cons.inj hab).1⟩
  have htail : a ++ fill ++ b = rest := (List.cons.inj hab).2
  have ha : c ∉ a := fun hmem => hrest (htail ▸ List.mem_append_left _ (List.mem_append_left _ hmem))
  have hb : c ∉ b := fun hmem => hrest (htail ▸ List.mem_append_right _ hmem)
  have hshort : (c :: a).length < (c :: rest).length := by
    have hpos := List.length_pos_iff.mpr hfill
    rw [← htail]
    simp only [List.length_cons, List.length_append]
    omega
  refine ⟨p', q', ?_, ?_, ?_⟩
  · rw [replace_append hne r (not_crosses_cons hrest p' a), replace_of_length_lt hshort, List.count_append, List.count_cons_self,
      List.count_eq_zero_of_not_mem ha]
  · rw [replace_append hne r (not_crosses_of_not_mem hb q'), replace_of_not_mem hb, List.count_append,
      List.count_eq_zero_of_not_mem hb,
      Nat.zero_add]
  · have hjoin : fill.intercalate ((b ++ q') :: parts) = b ++ fill.intercalate (q' :: parts) := by
      cases parts <;> simp
    have htext : p' ++ c :: a ++ fill ++ (b ++ fill.intercalate (q' :: parts)) = p' ++
      ((c :: rest) ++ fill.intercalate (q' :: parts)) := by
      rw [← hab]
      simp
    rw [hjoin, htext, List.cons_append, replace_append hne r (not_crosses_cons hrest p' _), ← List.cons_append,
      replace_occurrence hne,
      List.append_assoc]

/-- A filling is replaced part by part, unless two parts make an occurrence with the filling between them: then more is
replaced. -/
theorem replace_fill (hnodup : (c :: rest).Nodup) (hfill : fill ≠ []) (hc : c ∉ fill)
    (hlast : ∀ d ∈ (c :: rest).getLast?, d ∉ fill) (hr : c ∉ r)
    (p : List α) (parts : List (List α)) :
    (¬ Bridged (c :: rest) fill (p :: parts) →
        replace (c :: rest) r (fill.intercalate (p :: parts)) = fill.intercalate ((p :: parts).map (replace (c :: rest) r))) ∧
      (replace (c :: rest) r (fill.intercalate (p :: parts))).count c ≤
        (fill.intercalate ((p :: parts).map (replace (c :: rest) r))).count c ∧
      (Bridged (c :: rest) fill (p :: parts) → (replace (c :: rest) r (fill.intercalate (p :: parts))).count c <
        (fill.intercalate ((p :: parts).map (replace (c :: rest) r))).count c) := by
  induction parts generalizing p with
  | nil =>
    have hnone : ¬ Bridged (c :: rest) fill [p] := by
      rintro ⟨p', q', hinfix, -⟩
      have hle := hinfix.length_le
      simp at hle
    simp [hnone]
  | cons q parts ih =>
    have hne : c :: rest ≠ [] := List.cons_ne_nil _ _
    by_cases hbridges : Bridges (c :: rest) fill p q
    · obtain ⟨p', q', hp, hq, heq⟩ := replace_bridge (r := r) hnodup hfill hc hbridges parts
      have hlt : (replace (c :: rest) r (fill.intercalate (p :: q :: parts))).count c <
          (fill.intercalate ((p :: q :: parts).map (replace (c :: rest) r))).count c := by
        have hle := (ih q').2.1
        rw [List.map_cons, count_intercalate hc] at hle
        rw [List.intercalate_cons_cons, heq, List.count_append, List.count_append, List.count_eq_zero_of_not_mem hr,
          List.map_cons,
          List.map_cons, count_intercalate hc, count_intercalate hc, hp, hq]
        omega
      exact ⟨fun h => absurd ((bridged_cons_cons _ p q parts).mpr (Or.inl hbridges)) h, Nat.le_of_lt hlt, fun _ => hlt⟩
    · have hcross : ¬ Crosses (c :: rest) p (fill ++ fill.intercalate (q :: parts)) :=
        fun h => hbridges (bridges_of_crosses hnodup hfill hlast h)
      have hstep : replace (c :: rest) r (fill.intercalate (p :: q :: parts)) =
          replace (c :: rest) r p ++ (fill ++ replace (c :: rest) r (fill.intercalate (q :: parts))) := by
        rw [List.intercalate_cons_cons, List.append_assoc, replace_append hne r hcross,
          replace_append hne r (not_crosses_of_not_mem hc _),
          replace_of_not_mem hc]
      have hgoal : fill.intercalate ((p :: q :: parts).map (replace (c :: rest) r)) =
          replace (c :: rest) r p ++ (fill ++ fill.intercalate ((q :: parts).map (replace (c :: rest) r))) := by
        rw [List.map_cons, List.map_cons, List.intercalate_cons_cons, List.append_assoc]
      obtain ⟨hsame, hle, hlt⟩ := ih q
      rw [hstep, hgoal, bridged_cons_cons, or_iff_right hbridges]
      simp only [List.count_append]
      exact ⟨fun h => by rw [hsame h], by omega, fun h => by have := hlt h; omega⟩

/-- Replacing after filling is replacing in each part exactly when no two parts make an occurrence with the filling. -/
theorem replace_fill_iff (hnodup : (c :: rest).Nodup) (hfill : fill ≠ []) (hc : c ∉ fill)
    (hlast : ∀ d ∈ (c :: rest).getLast?, d ∉ fill)
    (hr : c ∉ r) {parts : List (List α)} (hparts : parts ≠ []) :
    replace (c :: rest) r (fill.intercalate parts) = fill.intercalate (parts.map (replace (c :: rest) r)) ↔
      ¬ Bridged (c :: rest) fill parts := by
  cases parts with
  | nil => exact absurd rfl hparts
  | cons p parts =>
    obtain ⟨hsame, -, hlt⟩ := replace_fill hnodup hfill hc hlast hr p parts
    exact ⟨fun heq hbridged => absurd (congrArg (List.count c) heq) (Nat.ne_of_lt (hlt hbridged)), hsame⟩

end Filling

end Pattern
