import Mathlib.Data.List.Basic

/-!
# Codes that end where they end

A code maps values to lists of letters. A value's code cancels when it can be told from whatever acceptable letters follow it:
then it can be read off the front of a longer text. These lemmas build such codes for lists: one after another, closed by a
letter, or with separators.
-/

section

variable {α β : Type*} {enc : α → List β} {ok : List β → Prop}

/-- The code of `a`, followed by something acceptable, is not the code of anything else followed by something acceptable. -/
def Cancels (enc : α → List β) (ok : List β → Prop) (a : α) : Prop :=
  ∀ a' r r', ok r → ok r' → enc a ++ r = enc a' ++ r' → a = a' ∧ r = r'

/-- Two values with one code are one. -/
theorem Cancels.eq {a b : α} (h : Cancels enc ok a) (hnil : ok []) (hab : enc a = enc b) : a = b :=
  (h b [] [] hnil hnil (by rw [hab])).1

/-- A code that a reader reads off the front of any text. -/
theorem cancels_of_read {read : List β → Option (α × List β)} (h : ∀ a r, read (enc a ++ r) = some (a, r)) (a : α) :
    Cancels enc (fun _ => True) a := by
  intro a' r r' _ _ heq
  have hread := (h a r).symm.trans ((congrArg read heq).trans (h a' r'))
  exact Prod.mk.inj (Option.some.inj hread)

/-- Texts closed by a letter that is not in them. -/
theorem append_cons_inj_of_notMem_both {close : β} {l l' r r' : List β} (hl : close ∉ l) (hl' : close ∉ l')
    (heq : l ++ close :: r = l' ++ close :: r') : l = l' ∧ r = r' := by
  induction l generalizing l' with
  | nil =>
    cases l' with
    | nil => exact ⟨rfl, List.tail_eq_of_cons_eq heq⟩
    | cons b l' => exact absurd (List.head_eq_of_cons_eq heq ▸ List.mem_cons_self) hl'
  | cons a l ih =>
    cases l' with
    | nil => exact absurd (List.head_eq_of_cons_eq heq ▸ List.mem_cons_self) hl
    | cons b l' =>
      obtain ⟨rfl, hrest⟩ := List.cons.inj heq
      obtain ⟨rfl, hr⟩ := ih (fun h => hl (List.mem_cons_of_mem _ h)) (fun h => hl' (List.mem_cons_of_mem _ h)) hrest
      exact ⟨rfl, hr⟩

/-- Texts that end where a predicate ends. -/
theorem append_inj_of_all {p : β → Bool} {l l' r r' : List β} (hl : ∀ x ∈ l, p x = true) (hl' : ∀ x ∈ l', p x = true)
    (hr : ∀ x ∈ r.head?, p x = false) (hr' : ∀ x ∈ r'.head?, p x = false) (heq : l ++ r = l' ++ r') : l = l' ∧ r = r' := by
  have hread : ∀ {l r : List β}, (∀ x ∈ l, p x = true) → (∀ x ∈ r.head?, p x = false) → (l ++ r).takeWhile p = l := by
    intro l r hl hr
    rw [List.takeWhile_append_of_pos hl]
    cases r with
    | nil => simp
    | cons b r => simp [hr b rfl]
  obtain rfl : l = l' := (hread hl hr).symm.trans ((congrArg _ heq).trans (hread hl' hr'))
  exact ⟨rfl, List.append_cancel_left heq⟩

/-- Codes one after another, up to the end. -/
theorem flatMap_inj_of_cancels (h : ∀ a, Cancels enc (fun _ => True) a) (hne : ∀ a, enc a ≠ []) {l l' : List α}
    (heq : l.flatMap enc = l'.flatMap enc) : l = l' := by
  induction l generalizing l' with
  | nil =>
    cases l' with
    | nil => rfl
    | cons b l' => exact absurd (List.append_eq_nil_iff.mp heq.symm).1 (hne b)
  | cons a l ih =>
    cases l' with
    | nil => exact absurd (List.append_eq_nil_iff.mp heq).1 (hne a)
    | cons b l' =>
      obtain ⟨rfl, hrest⟩ := h a b _ _ trivial trivial heq
      rw [ih hrest]

/-- Codes one after another, closed by a letter that none of them begins with. -/
theorem cancels_flatMap_close {close : β} (hclose : ∀ a r r', enc a ++ r ≠ close :: r') {l : List α}
    (h : ∀ a ∈ l, Cancels enc (fun _ => True) a) :
    Cancels (fun l : List α => l.flatMap enc ++ [close]) (fun _ => True) l := by
  intro l' r r' _ _ heq
  induction l generalizing l' with
  | nil =>
    cases l' with
    | nil => exact ⟨rfl, List.tail_eq_of_cons_eq heq⟩
    | cons b l' =>
      simp only [List.flatMap_cons, List.append_assoc] at heq
      exact absurd heq.symm (hclose b _ _)
  | cons a l ih =>
    cases l' with
    | nil =>
      simp only [List.flatMap_cons, List.append_assoc] at heq
      exact absurd heq (hclose a _ _)
    | cons b l' =>
      simp only [List.flatMap_cons, List.append_assoc] at heq
      obtain ⟨rfl, hrest⟩ := h a List.mem_cons_self b _ _ trivial trivial heq
      obtain ⟨rfl, hr⟩ := ih (fun x hx => h x (List.mem_cons_of_mem a hx)) l' (by simpa using hrest)
      exact ⟨rfl, hr⟩

/-- What follows the first of some codes with separators: the others, each after a separator, and the closing letter. -/
def sepTail (enc : α → List β) (sep close : β) : List α → List β
  | [] => [close]
  | a :: l => sep :: (enc a ++ sepTail enc sep close l)

/-- Codes with separators between them, closed by a letter. -/
def sepBy (enc : α → List β) (sep close : β) : List α → List β
  | [] => [close]
  | a :: l => enc a ++ sepTail enc sep close l

theorem intercalate_append_close (enc : α → List β) (sep close : β) (l : List α) :
    [sep].intercalate (l.map enc) ++ [close] = sepBy enc sep close l := by
  have htail : ∀ a l, [sep].intercalate ((a :: l).map enc) ++ [close] = enc a ++ sepTail enc sep close l := by
    intro a l
    induction l generalizing a with
    | nil => simp [sepTail]
    | cons b l ih =>
      simp only [List.map_cons, List.intercalate_cons_cons, sepTail, List.append_assoc]
      rw [← List.map_cons, ih b]
      rfl
  cases l with
  | nil => rfl
  | cons a l => exact htail a l

section

variable {sep close : β}

theorem ok_sepTail (hok : ∀ r, ok (sep :: r) ∧ ok (close :: r)) (l : List α) (r : List β) :
    ok (sepTail enc sep close l ++ r) := by
  cases l with
  | nil => exact (hok _).2
  | cons a l => exact (hok _).1

theorem cancels_sepTail (hsep : sep ≠ close) (hok : ∀ r, ok (sep :: r) ∧ ok (close :: r)) {l : List α}
    (h : ∀ a ∈ l, Cancels enc ok a) : Cancels (sepTail enc sep close) (fun _ => True) l := by
  intro l' r r' _ _ heq
  induction l generalizing l' with
  | nil =>
    cases l' with
    | nil => exact ⟨rfl, List.tail_eq_of_cons_eq heq⟩
    | cons b l' => exact absurd (List.head_eq_of_cons_eq heq).symm hsep
  | cons a l ih =>
    cases l' with
    | nil => exact absurd (List.head_eq_of_cons_eq heq) hsep
    | cons b l' =>
      simp only [sepTail, List.cons_append, List.append_assoc, List.cons.injEq, true_and] at heq
      obtain ⟨rfl, hrest⟩ := h a List.mem_cons_self b _ _ (ok_sepTail hok l r) (ok_sepTail hok l' r') heq
      obtain ⟨rfl, hr⟩ := ih (fun x hx => h x (List.mem_cons_of_mem a hx)) l' hrest
      exact ⟨rfl, hr⟩

theorem cancels_sepBy (hsep : sep ≠ close) (hok : ∀ r, ok (sep :: r) ∧ ok (close :: r))
    (hclose : ∀ a r r', enc a ++ r ≠ close :: r') {l : List α} (h : ∀ a ∈ l, Cancels enc ok a) :
    Cancels (sepBy enc sep close) (fun _ => True) l := by
  intro l' r r' _ _ heq
  cases l with
  | nil =>
    cases l' with
    | nil => exact ⟨rfl, List.tail_eq_of_cons_eq heq⟩
    | cons b l' =>
      simp only [sepBy, List.append_assoc] at heq
      exact absurd heq.symm (hclose b _ _)
  | cons a l =>
    cases l' with
    | nil =>
      simp only [sepBy, List.append_assoc] at heq
      exact absurd heq (hclose a _ _)
    | cons b l' =>
      simp only [sepBy, List.append_assoc] at heq
      obtain ⟨rfl, hrest⟩ := h a List.mem_cons_self b _ _ (ok_sepTail hok l r) (ok_sepTail hok l' r') heq
      obtain ⟨rfl, hr⟩ := cancels_sepTail hsep hok (fun x hx => h x (List.mem_cons_of_mem a hx)) l' r r' trivial trivial hrest
      exact ⟨rfl, hr⟩

end

end
