import Mathlib.Data.List.Count
import Mathlib.Data.List.Nodup
import Mathlib.Data.List.Pairwise
import Mathlib.Data.List.Perm.Basic

/-!
# Trails of directed edges

The steps of a line through points are the directed edges from each point to the next. What is said here is about any collection
of lines whose steps are, altogether, a given collection of directed edges: at every point a line is left as often as it is
entered, but for its first and its last point; so a line that cannot be joined to another begins where no edge ends and ends where
none begins.
-/

variable {κ : Type*}

/-- The directed edges of a line, from each point to the next. -/
def steps : List κ → List (κ × κ)
  | a :: b :: l => (a, b) :: steps (b :: l)
  | _ => []

@[simp]
theorem steps_nil : steps ([] : List κ) = [] := rfl

@[simp]
theorem steps_singleton (a : κ) : steps [a] = [] := rfl

@[simp]
theorem steps_cons_cons (a b : κ) (l : List κ) : steps (a :: b :: l) = (a, b) :: steps (b :: l) := rfl

variable {l : List κ} {a b : κ}

/-- A line with a point put before it. -/
theorem steps_cons_of_head (h : l.head? = some b) : steps (a :: l) = (a, b) :: steps l := by
  cases l with
  | nil => cases h
  | cons c l =>
    cases h
    rfl

/-- Two lines put together. -/
theorem steps_append_of_ends {l m : List κ} (hl : l.getLast? = some a) (hm : m.head? = some b) :
    steps (l ++ m) = steps l ++ (a, b) :: steps m := by
  induction l with
  | nil => cases hl
  | cons c l ih =>
    cases l with
    | nil =>
      cases hl
      exact steps_cons_of_head hm
    | cons d l =>
      rw [List.getLast?_cons_cons] at hl
      rw [steps_cons_cons, List.cons_append, List.cons_append, steps_cons_cons, List.cons_append, ← ih hl]
      rfl

/-- A line with a point put after it. -/
theorem steps_concat (h : l.getLast? = some a) : steps (l ++ [b]) = steps l ++ [(a, b)] :=
  steps_append_of_ends h rfl

/-- A line is left as often as it is entered, but for its ends. -/
theorem countP_steps [DecidableEq κ] (l : List κ) (k : κ) :
    (steps l).countP (fun e => decide (e.1 = k)) + (if l.getLast? = some k then 1 else 0) =
      (steps l).countP (fun e => decide (e.2 = k)) + if l.head? = some k then 1 else 0 := by
  induction l with
  | nil => rfl
  | cons a l ih =>
    cases l with
    | nil => rfl
    | cons b l =>
      rw [steps_cons_cons, List.getLast?_cons_cons, List.countP_cons, List.countP_cons, List.head?_cons]
      rw [List.head?_cons] at ih
      simp only [decide_eq_true_eq, Option.some.injEq] at ih ⊢
      omega

/-- A line of at least two points leaves its first. -/
theorem exists_step_of_head {a : κ} (h : l.head? = some a) (hlong : 2 ≤ l.length) : ∃ b, (a, b) ∈ steps l := by
  match l with
  | [] => cases h
  | [_] => simp at hlong
  | c :: d :: l =>
    cases h
    exact ⟨d, List.mem_cons_self⟩

/-- A line of at least two points enters its last. -/
theorem exists_step_of_last {b : κ} (h : l.getLast? = some b) (hlong : 2 ≤ l.length) : ∃ a, (a, b) ∈ steps l := by
  induction l with
  | nil => cases h
  | cons c l ih =>
    match l with
    | [] => simp at hlong
    | [d] =>
      cases h
      exact ⟨c, List.mem_cons_self⟩
    | d :: e :: l =>
      obtain ⟨a, ha⟩ := ih (by rwa [List.getLast?_cons_cons] at h) (by simp)
      exact ⟨a, List.mem_cons_of_mem _ ha⟩

variable {k : κ}

/-- A point of a line is left there, or is its last. -/
theorem left_or_last (h : k ∈ l) : (∃ b, (k, b) ∈ steps l) ∨ l.getLast? = some k := by
  induction l with
  | nil => cases h
  | cons a l ih =>
    cases l with
    | nil => exact Or.inr (by rw [List.mem_singleton.mp h]; rfl)
    | cons c l =>
      rw [List.getLast?_cons_cons]
      rcases List.mem_cons.mp h with rfl | h
      · exact Or.inl ⟨c, List.mem_cons_self⟩
      · rcases ih h with ⟨b, hb⟩ | hlast
        · exact Or.inl ⟨b, List.mem_cons_of_mem _ hb⟩
        · exact Or.inr hlast

/-- And it is entered there, or is its first. -/
theorem entered_or_head (h : k ∈ l) : (∃ a, (a, k) ∈ steps l) ∨ l.head? = some k := by
  induction l with
  | nil => cases h
  | cons a l ih =>
    rcases List.mem_cons.mp h with rfl | h
    · exact Or.inr rfl
    · cases l with
      | nil => cases h
      | cons c l =>
        rcases ih h with ⟨b, hb⟩ | hhead
        · exact Or.inl ⟨b, List.mem_cons_of_mem _ hb⟩
        · cases hhead
          exact Or.inl ⟨a, List.mem_cons_self⟩

/-- The ends of a step are points of the line. -/
theorem mem_of_mem_steps {e : κ × κ} (h : e ∈ steps l) : e.1 ∈ l ∧ e.2 ∈ l := by
  induction l with
  | nil => cases h
  | cons a l ih =>
    cases l with
    | nil => cases h
    | cons c l =>
      rcases List.mem_cons.mp h with rfl | h
      · exact ⟨List.mem_cons_self, List.mem_cons_of_mem _ List.mem_cons_self⟩
      · exact ⟨List.mem_cons_of_mem _ (ih h).1, List.mem_cons_of_mem _ (ih h).2⟩

/-- Points that are joined by edges, in whatever direction these go. -/
def JoinedBy (edges : List (κ × κ)) : κ → κ → Prop := Relation.ReflTransGen fun a b => (a, b) ∈ edges ∨ (b, a) ∈ edges

theorem JoinedBy.mono {edges edges' : List (κ × κ)} (h : edges ⊆ edges') (hab : JoinedBy edges a b) : JoinedBy edges' a b := by
  induction hab with
  | refl => exact Relation.ReflTransGen.refl
  | tail _ hlink ih => exact ih.tail (hlink.imp (fun he => h he) fun he => h he)

theorem JoinedBy.symm {edges : List (κ × κ)} (h : JoinedBy edges a b) : JoinedBy edges b a := by
  induction h with
  | refl => exact Relation.ReflTransGen.refl
  | tail _ hlink ih => exact Relation.ReflTransGen.head hlink.symm ih

/-- The first point of a line is joined to all of them. -/
theorem joined_head {a : κ} : ∀ b ∈ a :: l, JoinedBy (steps (a :: l)) a b := by
  induction l generalizing a with
  | nil =>
    intro b hb
    rw [List.mem_singleton.mp hb]
    exact Relation.ReflTransGen.refl
  | cons c l ih =>
    intro b hb
    rcases List.mem_cons.mp hb with rfl | hb
    · exact Relation.ReflTransGen.refl
    · have hrest : JoinedBy (steps (a :: c :: l)) c b := (ih b hb).mono (List.subset_cons_self _ _)
      exact Relation.ReflTransGen.head (Or.inl List.mem_cons_self) hrest

/-- The points of a line are joined by its steps. -/
theorem joined_of_mem (ha : a ∈ l) (hb : b ∈ l) : JoinedBy (steps l) a b := by
  cases l with
  | nil => cases ha
  | cons c l => exact (joined_head a ha).symm.trans (joined_head b hb)

/-- Where nothing is twice, no two parts have the same. -/
theorem not_mem_two {α : Type*} {f : α → List κ} {parts : List α} (h : (parts.flatMap f).Nodup) {l m : α} (hl : l ∈ parts)
    (hm : m ∈ parts) (hne : l ≠ m) (hkl : k ∈ f l) (hkm : k ∈ f m) : False := by
  have hapart : parts.Pairwise fun l m => k ∈ f l → k ∈ f m → False := (List.nodup_flatMap.mp h).2.imp fun hd h1 h2 => hd h1 h2
  exact @List.Pairwise.forall _ _ _ ⟨fun _ _ hd h1 h2 => hd h2 h1⟩ hapart l hl m hm hne hkl hkm

/-- Lines whose steps are, altogether, the given edges: the closed ones return to where they began, and no open one ends where an
open one begins. -/
structure Traced (edges : List (κ × κ)) (closed opened : List (List κ)) : Prop where
  perm : ((closed ++ opened).flatMap steps).Perm edges
  long : ∀ l ∈ closed ++ opened, 2 ≤ l.length
  returns : ∀ l ∈ closed, l.head? = l.getLast?
  apart : ∀ l ∈ opened, ∀ m ∈ opened, l.getLast? ≠ m.head?

namespace Traced

variable {edges : List (κ × κ)} {closed opened : List (List κ)} {l : List κ}

theorem mem_edges (h : Traced edges closed opened) (hl : l ∈ closed ++ opened) {e : κ × κ} (he : e ∈ steps l) : e ∈ edges :=
  h.perm.subset (List.mem_flatMap.mpr ⟨l, hl, he⟩)

/-- The ends of a line of at least two points. -/
theorem exists_ends (h : Traced edges closed opened) (hl : l ∈ closed ++ opened) :
    ∃ a b, l.head? = some a ∧ l.getLast? = some b := by
  have hne : l ≠ [] := fun hnil => by simpa [hnil] using h.long l hl
  exact ⟨l.head hne, l.getLast hne, List.head?_eq_some_head hne, List.getLast?_eq_some_getLast hne⟩

/-- When no point is left twice, no two closed lines meet in their ends. -/
theorem closed_apart (h : Traced edges closed opened) (hsources : (edges.map Prod.fst).Nodup) :
    closed.Pairwise fun l m => l.getLast? ≠ m.head? := by
  have hnodup : ((closed ++ opened).flatMap fun l => (steps l).map Prod.fst).Nodup := by
    rw [← List.map_flatMap]
    exact (h.perm.map Prod.fst).nodup_iff.mpr hsources
  obtain ⟨-, hdisjoint⟩ := List.nodup_flatMap.mp hnodup
  refine (List.pairwise_append.mp hdisjoint).1.imp_of_mem fun {l m} hl hm hlm heq => ?_
  have hlmem : l ∈ closed ++ opened := List.mem_append_left _ hl
  have hmmem : m ∈ closed ++ opened := List.mem_append_left _ hm
  obtain ⟨a, -, ha, -⟩ := h.exists_ends hlmem
  have hb : m.head? = some a := by rw [← heq, ← h.returns l hl, ha]
  obtain ⟨c, hc⟩ := exists_step_of_head ha (h.long l hlmem)
  obtain ⟨d, hd⟩ := exists_step_of_head hb (h.long m hmmem)
  exact hlm (List.mem_map.mpr ⟨(a, c), hc, rfl⟩) (List.mem_map.mpr ⟨(a, d), hd, rfl⟩)

variable {l m : List κ}

/-- When no point is left twice, no two lines leave the same one. -/
theorem not_left_twice (h : Traced edges closed opened) (hsources : (edges.map Prod.fst).Nodup) (hl : l ∈ closed ++ opened)
    (hm : m ∈ closed ++ opened) (hne : l ≠ m) {k b c : κ} (hb : (k, b) ∈ steps l) (hc : (k, c) ∈ steps m) : False := by
  have hnodup : ((closed ++ opened).flatMap fun l => (steps l).map Prod.fst).Nodup := by
    rw [← List.map_flatMap]
    exact (h.perm.map Prod.fst).nodup_iff.mpr hsources
  exact not_mem_two hnodup hl hm hne (List.mem_map.mpr ⟨(k, b), hb, rfl⟩) (List.mem_map.mpr ⟨(k, c), hc, rfl⟩)

/-- When no point is entered twice, no two lines enter the same one. -/
theorem not_entered_twice (h : Traced edges closed opened) (htargets : (edges.map Prod.snd).Nodup)
    (hl : l ∈ closed ++ opened) (hm : m ∈ closed ++ opened) (hne : l ≠ m) {k a c : κ} (ha : (a, k) ∈ steps l)
      (hc : (c, k) ∈ steps m) :
    False := by
  have hnodup : ((closed ++ opened).flatMap fun l => (steps l).map Prod.snd).Nodup := by
    rw [← List.map_flatMap]
    exact (h.perm.map Prod.snd).nodup_iff.mpr htargets
  exact not_mem_two hnodup hl hm hne (List.mem_map.mpr ⟨(a, k), ha, rfl⟩) (List.mem_map.mpr ⟨(c, k), hc, rfl⟩)

variable [DecidableEq κ]

/-- How often the lines leave and enter a point. -/
theorem countP_edges (h : Traced edges closed opened) (k : κ) :
    edges.countP (fun e => decide (e.1 = k)) + opened.countP (fun l => decide (l.getLast? = some k)) =
      edges.countP (fun e => decide (e.2 = k)) + opened.countP fun l => decide (l.head? = some k) := by
  have hline : ∀ lines : List (List κ),
      (lines.flatMap steps).countP (fun e => decide (e.1 = k)) + lines.countP (fun l => decide (l.getLast? = some k)) =
        (lines.flatMap steps).countP (fun e => decide (e.2 = k)) + lines.countP fun l => decide (l.head? = some k) := by
    intro lines
    induction lines with
    | nil => rfl
    | cons l lines ih =>
      have hl := countP_steps l k
      rw [List.flatMap_cons, List.countP_append, List.countP_append, List.countP_cons, List.countP_cons]
      simp only [decide_eq_true_eq] at hl ⊢
      omega
  have hclosed : closed.countP (fun l => decide (l.getLast? = some k)) = closed.countP fun l => decide (l.head? = some k) := by
    refine List.countP_congr fun l hl => ?_
    rw [h.returns l hl]
  have hall := hline (closed ++ opened)
  rw [List.countP_append, List.countP_append, hclosed, h.perm.countP_eq, h.perm.countP_eq] at hall
  omega

variable {k : κ}

/-- When no point is left twice, an open line begins where no edge ends. -/
theorem head_not_entered (h : Traced edges closed opened) (hsources : (edges.map Prod.fst).Nodup) (hl : l ∈ opened)
    (hk : l.head? = some k) : ∀ e ∈ edges, e.2 ≠ k := by
  have hcount := h.countP_edges k
  have hlasts : opened.countP (fun l => decide (l.getLast? = some k)) = 0 := by
    refine List.countP_eq_zero.mpr fun m hm hlast => h.apart m hm l hl ?_
    rw [of_decide_eq_true hlast, hk]
  have hheads : 0 < opened.countP fun l => decide (l.head? = some k) := List.countP_pos_iff.mpr ⟨l, hl, decide_eq_true hk⟩
  have hleft : edges.countP (fun e => decide (e.1 = k)) ≤ 1 := by
    have hle := List.nodup_iff_count_le_one.mp hsources k
    rwa [List.count, List.countP_map] at hle
  have hentered : edges.countP (fun e => decide (e.2 = k)) = 0 := by omega
  exact fun e he hek => List.countP_eq_zero.mp hentered e he (decide_eq_true hek)

/-- When no point is entered twice, an open line ends where no edge begins. -/
theorem last_not_left (h : Traced edges closed opened) (htargets : (edges.map Prod.snd).Nodup) (hl : l ∈ opened)
    (hk : l.getLast? = some k) : ∀ e ∈ edges, e.1 ≠ k := by
  have hcount := h.countP_edges k
  have hheads : opened.countP (fun l => decide (l.head? = some k)) = 0 := by
    refine List.countP_eq_zero.mpr fun m hm hhead => h.apart l hl m hm ?_
    rw [of_decide_eq_true hhead, hk]
  have hlasts : 0 < opened.countP fun l => decide (l.getLast? = some k) := List.countP_pos_iff.mpr ⟨l, hl, decide_eq_true hk⟩
  have hentered : edges.countP (fun e => decide (e.2 = k)) ≤ 1 := by
    have hle := List.nodup_iff_count_le_one.mp htargets k
    rwa [List.count, List.countP_map] at hle
  have hleft : edges.countP (fun e => decide (e.1 = k)) = 0 := by omega
  exact fun e he hek => List.countP_eq_zero.mp hleft e he (decide_eq_true hek)

/-- No two lines could be joined. -/
theorem not_joinable (h : Traced edges closed opened) (hsources : (edges.map Prod.fst).Nodup)
    (htargets : (edges.map Prod.snd).Nodup) :
    (closed ++ opened).Pairwise fun l m => l.getLast? ≠ m.head? ∧ m.getLast? ≠ l.head? := by
  refine List.pairwise_append.mpr ⟨?_, ?_, fun l hl m hm => ?_⟩
  · refine (h.closed_apart hsources).imp_of_mem fun {l m} hl hm hlm => ⟨hlm, fun heq => hlm ?_⟩
    rw [← h.returns l hl, ← h.returns m hm] at *
    exact heq.symm
  · exact List.pairwise_of_forall_mem_list fun l hl m hm => ⟨h.apart l hl m hm, h.apart m hm l hl⟩
  · have hlmem : l ∈ closed ++ opened := List.mem_append_left _ hl
    obtain ⟨a, b, ha, hb⟩ := h.exists_ends hlmem
    constructor
    · intro heq
      obtain ⟨c, hc⟩ := exists_step_of_last hb (h.long l hlmem)
      exact h.head_not_entered hsources hm (heq ▸ hb) (c, b) (h.mem_edges hlmem hc) rfl
    · intro heq
      obtain ⟨c, hc⟩ := exists_step_of_head ha (h.long l hlmem)
      exact h.last_not_left htargets hm (heq ▸ ha) (a, c) (h.mem_edges hlmem hc) rfl

/-- A point is on one line only. -/
theorem line_unique (h : Traced edges closed opened) (hsources : (edges.map Prod.fst).Nodup) (htargets :
    (edges.map Prod.snd).Nodup) (hl : l ∈ closed ++ opened) (hm : m ∈ closed ++ opened) (hkl : k ∈ l) (hkm : k ∈ m) : l = m := by
  by_contra hne
  obtain ⟨hlm, hml⟩ := @List.Pairwise.forall _ _ _ ⟨fun _ _ hr => ⟨hr.2, hr.1⟩⟩ (h.not_joinable hsources htargets) l hl m hm hne
  rcases left_or_last hkl with ⟨b, hb⟩ | hlast
  · rcases left_or_last hkm with ⟨c, hc⟩ | hlast
    · exact h.not_left_twice hsources hl hm hne hb hc
    · obtain ⟨c, hc⟩ := exists_step_of_last hlast (h.long m hm)
      rcases entered_or_head hkl with ⟨a, ha⟩ | hhead
      · exact h.not_entered_twice htargets hl hm hne ha hc
      · exact hml (hlast.trans hhead.symm)
  · obtain ⟨a, ha⟩ := exists_step_of_last hlast (h.long l hl)
    rcases entered_or_head hkm with ⟨c, hc⟩ | hhead
    · exact h.not_entered_twice htargets hl hm hne ha hc
    · exact hlm (hlast.trans hhead.symm)

/-- A line has all points that are joined to one of its own. -/
theorem mem_of_joined (h : Traced edges closed opened) (hsources : (edges.map Prod.fst).Nodup) (htargets :
    (edges.map Prod.snd).Nodup) (hl : l ∈ closed ++ opened) {a b : κ} (ha : a ∈ l) (hab : JoinedBy edges a b) : b ∈ l := by
  induction hab with
  | refl => exact ha
  | tail _ hlink ih =>
    rcases hlink with he | he <;> obtain ⟨m, hm, hstep⟩ := List.mem_flatMap.mp (h.perm.symm.subset he)
    · rw [h.line_unique hsources htargets hl hm ih (mem_of_mem_steps hstep).1]
      exact (mem_of_mem_steps hstep).2
    · rw [h.line_unique hsources htargets hl hm ih (mem_of_mem_steps hstep).2]
      exact (mem_of_mem_steps hstep).1

end Traced
