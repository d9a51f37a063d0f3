import Mathlib.Data.Fintype.Card

/-!
# Flood fill

The components of a finite graph whose vertices bear labels: neighbours with the same label are in one component. A search finds
them one after the other, each breadth first from the first of its vertices that is met.
-/

namespace Flood

variable {α β : Type*} (neighbors : α → List α) (label : α → β)

/-- Neighbours with the same label. -/
def Joined (a b : α) : Prop := b ∈ neighbors a ∧ label b = label a

/-- Vertices in one component. -/
def Connected : α → α → Prop := Relation.ReflTransGen (Joined neighbors label)

variable {neighbors label}

theorem Connected.label_eq {a b : α} (h : Connected neighbors label a b) : label b = label a := by
  induction h with
  | refl => rfl
  | tail _ hjoined ih => exact hjoined.2.trans ih

theorem Connected.symm (hsymm : ∀ a b, b ∈ neighbors a → a ∈ neighbors b) {a b : α} (h : Connected neighbors label a b) :
    Connected neighbors label b a := by
  induction h with
  | refl => exact Relation.ReflTransGen.refl
  | tail _ hjoined ih => exact Relation.ReflTransGen.head ⟨hsymm _ _ hjoined.1, hjoined.2.symm⟩ ih

/-- A vertex that is joined to no other one is a component. -/
theorem connected_iff_eq {a : α} (h : ∀ b ∈ neighbors a, label b ≠ label a) {b : α} : Connected neighbors label a b ↔ b = a := by
  constructor
  · intro hab
    rcases Relation.ReflTransGen.cases_head hab with rfl | ⟨c, hjoined, -⟩
    · rfl
    · exact absurd hjoined.2 (h c hjoined.1)
  · rintro rfl
    exact Relation.ReflTransGen.refl

/-! ## What is found -/

/-- What has been found: disjoint components, each whole. -/
structure Searched (neighbors : α → List α) (label : α → β) (mark : α → Option Nat) (components : List (α × List α)) : Prop where
  found : ∀ a i, mark a = some i ↔ ∃ c, components[i]? = some c ∧ a ∈ c.2
  whole : ∀ c ∈ components, c.2.Nodup ∧ ∀ a, a ∈ c.2 ↔ Connected neighbors label c.1 a

variable {mark : α → Option Nat} {components : List (α × List α)}

/-- What is connected to a component is in it. -/
theorem Searched.closed (hsymm : ∀ a b, b ∈ neighbors a → a ∈ neighbors b) (h : Searched neighbors label mark components)
    {a b : α} {i : Nat}
    (hjoined : Joined neighbors label a b) (hb : mark b = some i) : mark a = some i := by
  obtain ⟨c, hc, hmem⟩ := (h.found b i).mp hb
  have hwhole := (h.whole c (List.mem_of_getElem? hc)).2
  refine (h.found a i).mpr ⟨c, hc, (hwhole a).mpr ?_⟩
  exact Relation.ReflTransGen.tail ((hwhole b).mp hmem) ⟨hsymm a b hjoined.1, hjoined.2.symm⟩

/-- Nothing has been found yet. -/
theorem searched_nil : Searched neighbors label (fun _ => none) [] := by
  refine ⟨fun a i => ?_, fun c hc => absurd hc List.not_mem_nil⟩
  simp

/-- What is known while a component is found: `done` and `queue` are what it has so far. -/
structure Spreading (neighbors : α → List α) (label : α → β) (before : α → Option Nat) (start : α) (id : Nat)
    (mark : α → Option Nat)
    (done queue : List α) : Prop where
  kept : ∀ a i, i ≠ id → (mark a = some i ↔ before a = some i)
  found : ∀ a, mark a = some id ↔ a ∈ done ++ queue
  nodup : (done ++ queue).Nodup
  connected : ∀ a ∈ done ++ queue, Connected neighbors label start a
  start_mem : start ∈ done ++ queue

variable {before : α → Option Nat} {start : α} {id : Nat} {done queue : List α}

section

variable [DecidableEq α]

/-- A neighbour enters. -/
theorem Spreading.enter (h : Spreading neighbors label before start id mark done queue) {a b : α} (ha : a ∈ done)
    (hb : b ∈ neighbors a)
    (hnone : mark b = none) (hlabel : label b = label start) :
    Spreading neighbors label before start id (Function.update mark b (some id)) done (queue ++ [b]) := by
  have hnot : b ∉ done ++ queue := by
    intro hmem
    rw [(h.found b).mpr hmem] at hnone
    cases hnone
  have hconnected : Connected neighbors label start b := by
    have hstart := h.connected a (List.mem_append_left _ ha)
    exact Relation.ReflTransGen.tail hstart ⟨hb, hlabel.trans hstart.label_eq.symm⟩
  refine ⟨fun c i hi => ?_, fun c => ?_, ?_, fun c hc => ?_, ?_⟩
  · by_cases hcb : c = b
    · rw [← h.kept c i hi, hcb, Function.update_self, hnone]
      simp [Ne.symm hi]
    · rw [Function.update_of_ne hcb, h.kept c i hi]
  · rw [← List.append_assoc, List.mem_append, List.mem_singleton]
    by_cases hcb : c = b
    · simp [hcb]
    · rw [Function.update_of_ne hcb, h.found c]
      simp [hcb]
  · rw [← List.append_assoc]
    exact List.nodup_append.mpr ⟨h.nodup, List.nodup_singleton b, fun c hc d hd hcd =>
      hnot (by rw [← List.mem_singleton.mp hd, ← hcd]; exact hc)⟩
  · rw [← List.append_assoc] at hc
    rcases List.mem_append.mp hc with hc | hc
    · exact h.connected c hc
    · rw [List.mem_singleton.mp hc]
      exact hconnected
  · rw [← List.append_assoc]
    exact List.mem_append_left _ h.start_mem

end

/-! ## The search -/

section

variable [DecidableEq α] [DecidableEq β]

/-- Vertices with the label `l` that are in no component yet enter the present one, and the queue. -/
def visit (label : α → β) (l : β) (id : Nat) : List α → (α → Option Nat) → List α → (α → Option Nat) × List α
  | [], mark, queue => (mark, queue)
  | b :: bs, mark, queue =>
    if mark b = none ∧ label b = l then visit label l id bs (Function.update mark b (some id)) (queue ++ [b])
    else visit label l id bs mark queue

/-- The neighbours of a vertex are visited: after that, those with the label are all in some component. -/
theorem Spreading.visit {a : α} (ha : a ∈ done) (bs : List α) (h : Spreading neighbors label before start id mark done queue)
    (hbs : ∀ b ∈ bs, b ∈ neighbors a) :
    Spreading neighbors label before start id (Flood.visit label (label start) id bs mark queue).1 done
        (Flood.visit label (label start) id bs mark queue).2 ∧
      (∀ b, mark b ≠ none → (Flood.visit label (label start) id bs mark queue).1 b ≠ none) ∧
      ∀ b ∈ bs, label b = label start → (Flood.visit label (label start) id bs mark queue).1 b ≠ none := by
  induction bs generalizing mark queue with
  | nil => exact ⟨h, fun _ hb => hb, fun _ hb => absurd hb List.not_mem_nil⟩
  | cons b bs ih =>
    have hrest : ∀ c ∈ bs, c ∈ neighbors a := fun c hc => hbs c (List.mem_cons_of_mem _ hc)
    unfold Flood.visit
    split
    · rename_i hnew
      obtain ⟨hspreading, hmarked, hvisited⟩ := ih (h.enter ha (hbs b List.mem_cons_self) hnew.1 hnew.2) hrest
      have hself : Function.update mark b (some id) b ≠ none := by simp
      refine ⟨hspreading, fun c hc => hmarked c ?_, fun c hc hlabel => ?_⟩
      · by_cases hcb : c = b
        · rw [hcb]
          exact hself
        · rwa [Function.update_of_ne hcb]
      · rcases List.mem_cons.mp hc with rfl | hc
        · exact hmarked c hself
        · exact hvisited c hc hlabel
    · rename_i hold
      obtain ⟨hspreading, hmarked, hvisited⟩ := ih h hrest
      refine ⟨hspreading, hmarked, fun c hc hlabel => ?_⟩
      rcases List.mem_cons.mp hc with rfl | hc
      · exact hmarked c fun hnone => hold ⟨hnone, hlabel⟩
      · exact hvisited c hc hlabel

variable [Fintype α]

/-- How many vertices are in no component yet. -/
def unmarked (mark : α → Option Nat) : Nat := (Finset.univ.filter fun a => mark a = none).card

theorem unmarked_update {mark : α → Option Nat} {b : α} (h : mark b = none) (id : Nat) :
    unmarked (Function.update mark b (some id)) + 1 = unmarked mark := by
  have hmem : b ∈ Finset.univ.filter fun a => mark a = none := by simp [h]
  have herase : (Finset.univ.filter fun a => Function.update mark b (some id) a = none) =
      (Finset.univ.filter fun a => mark a = none).erase b := by
    ext a
    by_cases hab : a = b <;> simp [hab]
  rw [unmarked, herase, Finset.card_erase_add_one hmem, unmarked]

/-- What enters the queue was unmarked before. -/
theorem visit_measure (label : α → β) (l : β) (id : Nat) (bs : List α) (mark : α → Option Nat) (queue : List α) :
    2 * unmarked (visit label l id bs mark queue).1 + (visit label l id bs mark queue).2.length ≤ 2 * unmarked mark +
      queue.length := by
  induction bs generalizing mark queue with
  | nil => exact Nat.le_refl _
  | cons b bs ih =>
    unfold visit
    split
    · rename_i hnew
      have hle := ih (Function.update mark b (some id)) (queue ++ [b])
      have hupdate := unmarked_update hnew.1 id
      rw [List.length_append, List.length_singleton] at hle
      omega
    · exact ih mark queue

/-- The rest of a component, from the vertices in the queue. -/
def spread {α β : Type*} [Fintype α] [DecidableEq α] [DecidableEq β] (neighbors : α → List α) (label : α → β) (l : β) (id : Nat)
    (mark : α → Option Nat) (queue cells : List α) : (α → Option Nat) × List α :=
  match queue with
  | [] => (mark, cells)
  | a :: rest =>
    let visited := visit label l id (neighbors a) mark rest
    spread neighbors label l id visited.1 visited.2 (cells ++ [a])
termination_by 2 * unmarked mark + queue.length
decreasing_by
  have hle := visit_measure label l id (neighbors a) mark rest
  rw [List.length_cons]
  omega

/-- Every vertex that is met in no component yet starts one; each component has its first vertex beside it. -/
def search (neighbors : α → List α) (label : α → β) :
    List α → (α → Option Nat) → List (α × List α) → (α → Option Nat) × List (α × List α)
  | [], mark, components => (mark, components)
  | a :: as, mark, components =>
    if mark a = none then
      let id := components.length
      let found := spread neighbors label (label a) id (Function.update mark a (some id)) [a] []
      search neighbors label as found.1 (components ++ [(a, found.2)])
    else search neighbors label as mark components

/-! ## One component -/

/-- The component, once its queue is empty: whatever is joined to it is in some component. -/
theorem Spreading.spread (h : Spreading neighbors label before start id mark done queue)
    (hclosed : ∀ a ∈ done, ∀ b, Joined neighbors label a b → mark b ≠ none) :
    let found := Flood.spread neighbors label (label start) id mark queue done
    Spreading neighbors label before start id found.1 found.2 [] ∧
      ∀ a ∈ found.2, ∀ b, Joined neighbors label a b → found.1 b ≠ none := by
  intro found
  unfold found
  fun_induction Flood.spread neighbors label (label start) id mark queue done with
  | case1 mark done => exact ⟨h, hclosed⟩
  | case2 mark done a rest visited ih =>
    have hdone : Spreading neighbors label before start id mark (done ++ [a]) rest := by
      have heq : done ++ [a] ++ rest = done ++ a :: rest := by simp
      exact ⟨h.kept, by rw [heq]; exact h.found, by rw [heq]; exact h.nodup, by rw [heq]; exact h.connected, by
        rw [heq]; exact h.start_mem⟩
    have ha : a ∈ done ++ [a] := by simp
    obtain ⟨hspreading, hmarked, hvisited⟩ := hdone.visit ha (neighbors a) fun b hb => hb
    refine ih hspreading fun c hc b hjoined => ?_
    rcases List.mem_append.mp hc with hc | hc
    · exact hmarked b (hclosed c hc b hjoined)
    · rw [List.mem_singleton.mp hc] at hjoined
      have hlabel : label a = label start := (h.connected a (by simp)).label_eq
      exact hvisited b hjoined.1 (hjoined.2.trans hlabel)

/-! ## All components -/

/-- One component more. -/
theorem Searched.add (hsymm : ∀ a b, b ∈ neighbors a → a ∈ neighbors b) (h : Searched neighbors label mark components) {a : α}
    (ha : mark a = none) :
    let found := Flood.spread neighbors label (label a) components.length (Function.update mark a (some components.length)) [a] []
    Searched neighbors label found.1 (components ++ [(a, found.2)]) ∧ (∀ b, mark b ≠ none → found.1 b ≠ none) ∧
      found.1 a ≠ none := by
  intro found
  have hfresh : ∀ b, mark b ≠ some components.length := by
    intro b hb
    obtain ⟨c, hc, -⟩ := (h.found b _).mp hb
    rw [List.getElem?_eq_none (Nat.le_refl _)] at hc
    cases hc
  have hstart : Spreading neighbors label mark a components.length (Function.update mark a (some components.length)) [] [a] := by
    refine ⟨fun b i hi => ?_, fun b => ?_, List.nodup_singleton a, fun b hb => ?_, List.mem_singleton.mpr rfl⟩
    · by_cases hba : b = a
      · rw [hba, Function.update_self, ha]
        simp [Ne.symm hi]
      · rw [Function.update_of_ne hba]
    · by_cases hba : b = a
      · simp [hba]
      · rw [Function.update_of_ne hba]
        simp [hba, hfresh b]
    · rw [List.nil_append, List.mem_singleton] at hb
      rw [hb]
      exact Relation.ReflTransGen.refl
  obtain ⟨hspreading, hclosed⟩ := hstart.spread fun b hb => absurd hb List.not_mem_nil
  rw [show Flood.spread neighbors label (label a) components.length (Function.update mark a (some components.length)) [a]
    [] = found
    from rfl] at hspreading hclosed
  have hmem : ∀ b, found.1 b = some components.length ↔ b ∈ found.2 := by
    intro b
    rw [hspreading.found b, List.append_nil]
  have hwhole : ∀ b, b ∈ found.2 ↔ Connected neighbors label a b := by
    intro b
    constructor
    · intro hb
      exact hspreading.connected b (by rwa [List.append_nil])
    · intro hab
      induction hab with
      | refl =>
        have hself := hspreading.start_mem
        rwa [List.append_nil] at hself
      | @tail c d _ hjoined ih =>
        obtain ⟨i, hi⟩ := Option.ne_none_iff_exists'.mp (hclosed c ih d hjoined)
        by_cases hid : i = components.length
        · exact (hmem d).mp (hid ▸ hi)
        · -- the vertex would be in a component found before, and so would its neighbour
          have hc : found.1 c = some i := (hspreading.kept c i hid).mpr (h.closed hsymm hjoined ((hspreading.kept d i hid).mp hi))
          rw [(hmem c).mpr ih] at hc
          exact absurd (Option.some.inj hc).symm hid
  refine ⟨⟨fun b i => ?_, fun c hc => ?_⟩, fun b hb => ?_, ?_⟩
  · by_cases hi : i = components.length
    · rw [hi, hmem b, List.getElem?_concat_length]
      simp
    · rw [hspreading.kept b i hi, h.found b i]
      rcases Nat.lt_or_gt_of_ne hi with hlt | hgt
      · rw [List.getElem?_append_left hlt]
      · rw [List.getElem?_eq_none (Nat.le_of_lt hgt), List.getElem?_eq_none
          (by rw [List.length_append, List.length_singleton]; exact hgt)]
  · rcases List.mem_append.mp hc with hc | hc
    · exact h.whole c hc
    · rw [List.mem_singleton.mp hc]
      have hnodup := hspreading.nodup
      rw [List.append_nil] at hnodup
      exact ⟨hnodup, hwhole⟩
  · obtain ⟨i, hi⟩ := Option.ne_none_iff_exists'.mp hb
    have hid : i ≠ components.length := fun heq => hfresh b (heq ▸ hi)
    rw [(hspreading.kept b i hid).mpr hi]
    exact Option.some_ne_none i
  · rw [(hmem a).mpr ((hwhole a).mpr Relation.ReflTransGen.refl)]
    exact Option.some_ne_none _

/-- The whole search: every vertex that was met is in a component. -/
theorem Searched.search (hsymm : ∀ a b, b ∈ neighbors a → a ∈ neighbors b) (as : List α)
    (h : Searched neighbors label mark components) :
    let found := Flood.search neighbors label as mark components
    Searched neighbors label found.1 found.2 ∧ (∀ b, mark b ≠ none → found.1 b ≠ none) ∧ ∀ b ∈ as, found.1 b ≠ none := by
  induction as generalizing mark components with
  | nil => exact ⟨h, fun _ hb => hb, fun _ hb => absurd hb List.not_mem_nil⟩
  | cons a as ih =>
    unfold Flood.search
    split
    · rename_i ha
      obtain ⟨hadded, hkept, hself⟩ := h.add hsymm ha
      obtain ⟨hsearched, hmarked, hmet⟩ := ih hadded
      refine ⟨hsearched, fun b hb => hmarked b (hkept b hb), fun b hb => ?_⟩
      rcases List.mem_cons.mp hb with rfl | hb
      · exact hmarked b hself
      · exact hmet b hb
    · rename_i ha
      obtain ⟨hsearched, hmarked, hmet⟩ := ih h
      refine ⟨hsearched, hmarked, fun b hb => ?_⟩
      rcases List.mem_cons.mp hb with rfl | hb
      · exact hmarked b ha
      · exact hmet b hb

end

end Flood
