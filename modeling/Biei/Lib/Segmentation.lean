import Mathlib.Data.List.Infix
import Mathlib.Tactic.Linarith

/-!
# Greedy segmentation

A list is cut into consecutive segments that each satisfy a predicate; greedily, when a segment takes every element that it can.
Where the predicate passes to parts of a segment, no other way to cut the list needs fewer segments.
-/

namespace Segmentation

variable {α : Type*} (P : List α → Prop)

/-- The segments of a list are cut from it one after the other. -/
structure Cuts (xs : List α) (segments : List (List α)) : Prop where
  flatten_eq : segments.flatten = xs
  each : ∀ s ∈ segments, P s

section

variable [DecidablePred P]

/-- The segments that are cut from a list when the open one takes every element that it can. -/
def greedyFrom : List α → List α → List (List α)
  | run, [] => [run]
  | run, x :: xs => if P (run ++ [x]) then greedyFrom (run ++ [x]) xs else run :: greedyFrom [x] xs

def greedy : List α → List (List α)
  | [] => []
  | x :: xs => greedyFrom P [x] xs

end

variable {P} {x : α}

/-- A cut at the start of an element. -/
theorem Cuts.split {s xs : List α} {segments : List (List α)} (h : Cuts P (s ++ x :: xs) segments) :
    ∃ before u t after, segments = before ++ (u ++ x :: t) :: after ∧ before.flatten ++ u = s ∧ t ++ after.flatten = xs := by
  rcases List.flatten_eq_append_iff.mp h.flatten_eq with ⟨as, bs, rfl, rfl, hbs⟩ | ⟨as, bs, c, cs, ds, rfl, rfl, hzs⟩
  · obtain ⟨nils, t, after, rfl, hnil, rfl⟩ := List.flatten_eq_cons_iff.mp hbs.symm
    refine ⟨as ++ nils, [], t, after, by simp, ?_, rfl⟩
    rw [List.append_nil, List.flatten_append, List.flatten_eq_nil_iff.mpr hnil, List.append_nil]
  · cases hzs
    exact ⟨as, bs, cs, ds, rfl, rfl, rfl⟩

theorem suffix_concat {s t : List α} (h : s <:+ t) : s ++ [x] <:+ t ++ [x] := by
  obtain ⟨v, rfl⟩ := h
  exact ⟨v, (List.append_assoc v s [x]).symm⟩

variable (hpart : ∀ {s t : List α}, s <:+: t → P t → P s)

section

include hpart

/-- What remains of a cut from an element on. -/
theorem Cuts.rest {before after : List (List α)} {u t xs ys : List α} {x : α} (h : Cuts P xs (before ++ (u ++ x :: t) :: after))
    (hys : t ++ after.flatten = ys) : Cuts P (x :: ys) ((x :: t) :: after) := by
  refine ⟨by rw [List.flatten_cons, List.cons_append, hys], List.forall_mem_cons.mpr ⟨?_, fun s hs => h.each s ?_⟩⟩
  · exact hpart (List.suffix_append u (x :: t)).isInfix (h.each _ (by simp))
  · exact List.mem_append_right _ (List.mem_cons_of_mem _ hs)

end

variable [DecidablePred P]

theorem flatten_greedyFrom (run xs : List α) : (greedyFrom P run xs).flatten = run ++ xs := by
  induction xs generalizing run with
  | nil => simp [greedyFrom]
  | cons x xs ih =>
    rw [greedyFrom]
    split
    · rw [ih, List.append_assoc]
      rfl
    · rw [List.flatten_cons, ih]
      rfl

theorem forall_mem_greedyFrom {run : List α} (hsingle : ∀ x, P [x]) (hrun : P run) (hne : run ≠ []) (xs : List α) :
    ∀ s ∈ greedyFrom P run xs, P s ∧ s ≠ [] := by
  induction xs generalizing run with
  | nil => exact List.forall_mem_singleton.mpr ⟨hrun, hne⟩
  | cons x xs ih =>
    rw [greedyFrom]
    split
    · rename_i hmore
      exact ih hmore (List.append_ne_nil_of_right_ne_nil _ (List.cons_ne_nil x []))
    · exact List.forall_mem_cons.mpr ⟨⟨hrun, hne⟩, ih (hsingle x) (List.cons_ne_nil x [])⟩

/-- A greedy cut is one, and each of its segments has an element. -/
theorem greedy_cuts (hsingle : ∀ x, P [x]) (xs : List α) : Cuts P xs (greedy P xs) ∧ ∀ s ∈ greedy P xs, s ≠ [] := by
  cases xs with
  | nil => exact ⟨⟨rfl, nofun⟩, nofun⟩
  | cons x xs =>
    have hall := forall_mem_greedyFrom hsingle (hsingle x) (List.cons_ne_nil x []) xs
    exact ⟨⟨flatten_greedyFrom [x] xs, fun s hs => (hall s hs).1⟩, fun s hs => (hall s hs).2⟩

/-- A segment of a greedy cut could not take the element after it. -/
theorem greedyFrom_maximal {run xs : List α} {before after : List (List α)} {s t : List α}
    (h : greedyFrom P run xs = before ++ s :: (x :: t) :: after) : ¬P (s ++ [x]) := by
  induction xs generalizing run before with
  | nil =>
    rw [greedyFrom] at h
    have hlength := congrArg List.length h
    simp at hlength
    omega
  | cons y xs ih =>
    rw [greedyFrom] at h
    split at h
    · exact ih h
    · rename_i hnot
      cases before with
      | nil =>
        obtain ⟨rfl, hrest⟩ := List.cons.inj h
        -- the next segment begins with the element that was not taken
        have hflat := congrArg List.flatten hrest
        rw [flatten_greedyFrom] at hflat
        cases hflat
        exact hnot
      | cons b before =>
        obtain ⟨-, hrest⟩ := List.cons.inj h
        exact ih hrest

theorem greedy_maximal {xs : List α} {before after : List (List α)} {s t : List α}
    (h : greedy P xs = before ++ s :: (x :: t) :: after) : ¬P (s ++ [x]) := by
  cases xs with
  | nil => exact absurd h.symm (List.append_ne_nil_of_right_ne_nil _ (List.cons_ne_nil _ _))
  | cons y xs => exact greedyFrom_maximal h

include hpart

/-- Against any cut of what is to come: the greedy one is ahead as long as its open segment began no earlier; and by one segment
less when it began no later. -/
theorem length_greedyFrom_le {run xs s : List α} {segments : List (List α)} (h : Cuts P (s ++ xs) segments) (hs : s ≠ []) :
    (run <:+ s → (greedyFrom P run xs).length ≤ segments.length) ∧
      (s <:+ run → (greedyFrom P run xs).length ≤ segments.length + 1) := by
  induction xs generalizing run s segments with
  | nil =>
    have hne : 0 < segments.length := by
      rw [List.length_pos_iff]
      rintro rfl
      have hnil := h.flatten_eq
      rw [List.append_nil] at hnil
      exact hs hnil.symm
    simp [greedyFrom]
    omega
  | cons x xs ih =>
    rw [greedyFrom]
    split
    · have hcuts : Cuts P ((s ++ [x]) ++ xs) segments := by
        rw [List.append_assoc]
        exact h
      obtain ⟨hahead, hbehind⟩ := @ih (run ++ [x]) (s ++ [x]) segments hcuts
        (List.append_ne_nil_of_right_ne_nil _ (List.cons_ne_nil x []))
      exact ⟨fun hsuffix => hahead (suffix_concat hsuffix), fun hsuffix => hbehind (suffix_concat hsuffix)⟩
    · rename_i hnot
      obtain ⟨before, u, t, after, rfl, rfl, hxs⟩ := h.split
      have hrest := (@ih [x] [x] _ (h.rest hpart hxs) (List.cons_ne_nil x [])).1 (List.suffix_refl _)
      simp only [List.length_cons, List.length_append] at hrest ⊢
      refine ⟨fun hsuffix => ?_, fun _ => by omega⟩
      cases before with
      | cons b before =>
        rw [List.length_cons]
        omega
      | nil =>
        -- the other segment holds the open one and the element that it could not take
        refine absurd (hpart ?_ (h.each _ List.mem_cons_self)) hnot
        obtain ⟨v, hv⟩ := hsuffix
        rw [List.flatten_nil, List.nil_append] at hv
        exact ⟨v, t, by rw [← hv]; simp⟩

/-- No cut has fewer segments than the greedy one. -/
theorem length_greedy_le {xs : List α} {segments : List (List α)} (h : Cuts P xs segments) :
    (greedy P xs).length ≤ segments.length := by
  cases xs with
  | nil => exact Nat.zero_le _
  | cons x xs => exact (length_greedyFrom_le hpart (s := [x]) h (List.cons_ne_nil x [])).1 (List.suffix_refl _)

end Segmentation
