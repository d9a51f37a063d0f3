import Biei.Lib.Elimination
import Biei.Terrain.Contours

/-!
# Lemmas on simplification

Vertices to keep and the ends of a line never enter the heap, so that the loop does not remove them.
-/

namespace Biei.Terrain

namespace Simplification

/-- The vertex of an entry of the heap. -/
def entryIndex (entry : HeapEntry) : Nat := (ofLex (ofLex entry).2).1

/-- A vertex that the loop may remove. -/
def Removable (line : List MvtCoord) (keepAlways : List Bool) (i : Nat) : Prop :=
  0 < i ∧ i < line.length - 1 ∧ keepAlways.getD i false = false

/-- What the loop keeps: every vertex but the removable ones is there, and only removable ones are in the heap. -/
structure Keeps (line : List MvtCoord) (keepAlways : List Bool) (s : Simplification) : Prop where
  length_eq : s.alive.length = line.length
  kept : ∀ i < line.length, ¬Removable line keepAlways i → s.alive.getD i false = true
  entered : ∀ entry ∈ s.heap, Removable line keepAlways (entryIndex entry)

variable {line : List MvtCoord} {keepAlways : List Bool} {s : Simplification}

theorem Keeps.touch (h : s.Keeps line keepAlways) (neighbor : Nat) :
    (s.touch line keepAlways neighbor).Keeps line keepAlways := by
  unfold Simplification.touch
  split
  · rename_i hguard
    refine ⟨h.length_eq, h.kept, fun entry hentry => ?_⟩
    rcases (List.mem_orderedInsert _).mp hentry with rfl | hentry
    · exact ⟨hguard.1, hguard.2.1, hguard.2.2.2⟩
    · exact h.entered entry hentry
  · exact h

/-- A removable vertex is removed. -/
theorem Keeps.remove (h : s.Keeps line keepAlways) {index : Nat} (hindex : Removable line keepAlways index) :
    (s.remove line keepAlways index).Keeps line keepAlways := by
  unfold Simplification.remove
  simp only
  apply Keeps.touch
  apply Keeps.touch
  refine ⟨?_, fun i hi hkeep => ?_, h.entered⟩
  · rw [List.length_set, h.length_eq]
  · have hne : index ≠ i := by
      rintro rfl
      exact hkeep hindex
    have hkept := h.kept i hi hkeep
    rw [List.getD_eq_getElem?_getD] at hkept ⊢
    rwa [List.getElem?_set_ne hne]

/-- The least entry is taken from the heap. -/
theorem Keeps.pop (h : s.Keeps line keepAlways) {entry : HeapEntry} {heap : List HeapEntry} (hheap : s.heap = entry :: heap) :
    ({ s with heap := heap } : Simplification).Keeps line keepAlways ∧ Removable line keepAlways (entryIndex entry) := by
  refine ⟨⟨h.length_eq, h.kept, fun e he => h.entered e ?_⟩, h.entered entry ?_⟩
  · rw [hheap]
    exact List.mem_cons_of_mem _ he
  · rw [hheap]
    exact List.mem_cons_self

/-- The whole loop. -/
theorem Keeps.run (h : s.Keeps line keepAlways) : (s.run line keepAlways).Keeps line keepAlways := by
  fun_induction Simplification.run line keepAlways s with
  | case1 s hheap => exact h
  | case2 s entry heap hheap area index s' hlive harea => exact (h.pop hheap).1
  | case3 s entry heap hheap area index version s' hlive harea ih =>
    obtain ⟨hpop, hremovable⟩ := h.pop hheap
    exact ih (hpop.remove hremovable)
  | case4 s entry heap hheap index version s' hlive ih => exact ih (h.pop hheap).1

/-- Where the loop starts, everything is there. -/
theorem keeps_init (line : List MvtCoord) (keepAlways : List Bool) : (init line keepAlways).Keeps line keepAlways := by
  refine ⟨List.length_replicate, fun i hi _ => ?_, fun entry hentry => ?_⟩
  · rw [List.getD_eq_getElem?_getD]
    simp [init, hi]
  · simp only [init] at hentry
    rw [List.mem_insertionSort, List.mem_map] at hentry
    obtain ⟨i, hi, rfl⟩ := hentry
    obtain ⟨hrange, hkeep⟩ := List.mem_filter.mp hi
    have hbounds : 0 < i ∧ i < line.length - 1 := by
      rw [List.mem_iff_getElem] at hrange
      obtain ⟨j, hj, rfl⟩ := hrange
      simp only [List.length_dropLast, List.length_drop, List.length_range] at hj
      simp only [List.getElem_dropLast, List.getElem_drop, List.getElem_range]
      omega
    exact ⟨hbounds.1, hbounds.2, Bool.not_eq_true' _ ▸ hkeep⟩

end Simplification

/-! ## What is left of a line -/

section

variable {line : List MvtCoord} {pinned : MvtCoord → Bool}

open Simplification

/-- What the loop leaves, as long as the line was. -/
theorem keeps_run (line : List MvtCoord) (pinned : MvtCoord → Bool) :
    ((init line (line.map pinned)).run line (line.map pinned)).Keeps line (line.map pinned) :=
  (keeps_init line (line.map pinned)).run

theorem simplifyLine_sublist : (simplifyLine line pinned).Sublist line := by
  unfold simplifyLine
  split
  · exact List.Sublist.refl _
  · refine (List.filter_sublist.map Prod.fst).trans ?_
    rw [List.map_fst_zip (keeps_run line pinned).length_eq.ge]

/-- A pinned vertex survives. -/
theorem mem_simplifyLine {v : MvtCoord} (hpinned : pinned v = true) : v ∈ simplifyLine line pinned ↔ v ∈ line := by
  refine ⟨fun h => simplifyLine_sublist.subset h, fun h => ?_⟩
  unfold simplifyLine
  split
  · exact h
  · obtain ⟨i, hi, rfl⟩ := List.mem_iff_getElem.mp h
    have hkeeps := keeps_run line pinned
    have halive := hkeeps.kept i hi fun hremovable => by
      have hkeep := hremovable.2.2
      rw [List.getD_eq_getElem?_getD, List.getElem?_map, List.getElem?_eq_getElem hi] at hkeep
      exact Bool.noConfusion (hpinned.symm.trans hkeep)
    refine List.mem_map.mpr ⟨((line)[i], true), List.mem_filter.mpr ⟨?_, rfl⟩, rfl⟩
    rw [List.mem_iff_getElem?]
    refine ⟨i, ?_⟩
    have hlt : i < ((init line (line.map pinned)).run line (line.map pinned)).alive.length := by rw [hkeeps.length_eq]; exact hi
    rw [List.getD_eq_getElem?_getD, List.getElem?_eq_getElem hlt, Option.getD_some] at halive
    rw [List.getElem?_zip_eq_some]
    exact ⟨List.getElem?_eq_getElem hi, by rw [List.getElem?_eq_getElem hlt, halive]⟩

/-- Of a line whose ends are there, two vertices are. -/
theorem two_le_length_survivors {alive : List Bool} (hlength : alive.length = line.length) (hlong : 2 ≤ line.length)
    (hfirst : alive.getD 0 false = true) (hlast : alive.getD (line.length - 1) false = true) :
    2 ≤ ((line.zip alive).filter Prod.snd).length := by
  have hmap : (line.zip alive).map Prod.snd = alive := List.map_snd_zip hlength.le
  have hcount : ((line.zip alive).filter Prod.snd).length = alive.count true := by
    rw [← List.countP_eq_length_filter, List.count]
    nth_rewrite 2 [← hmap]
    rw [List.countP_map]
    exact List.countP_congr fun p _ => by simp
  have hone := count_set_lt hfirst
  have htwo : ((alive.set 0 false).set (line.length - 1) false).count true + 1 = (alive.set 0 false).count true := by
    refine count_set_lt ?_
    rw [List.getD_eq_getElem?_getD] at hlast ⊢
    rwa [List.getElem?_set_ne (by omega)]
  omega

/-- The ends of a line survive. -/
theorem two_le_length_simplifyLine : 2 ≤ (simplifyLine line pinned).length ↔ 2 ≤ line.length := by
  refine ⟨fun h => h.trans simplifyLine_sublist.length_le, fun h => ?_⟩
  unfold simplifyLine
  split
  · exact h
  · have hkeeps := keeps_run line pinned
    have hfirst := hkeeps.kept 0 (by omega) fun hremovable => Nat.lt_irrefl _ hremovable.1
    have hlast := hkeeps.kept (line.length - 1) (by omega) fun hremovable => Nat.lt_irrefl _ hremovable.2.1
    rw [List.length_map]
    exact two_le_length_survivors hkeeps.length_eq h hfirst hlast

end

/-! ## Finished lines -/

/-- `Vec::dedup` leaves every point somewhere. -/
theorem mem_destutter_ne {α : Type} [DecidableEq α] {l : List α} {a : α} : a ∈ l.destutter (· ≠ ·) ↔ a ∈ l := by
  have haux : ∀ (l : List α) (b : α), a = b ∨ a ∈ l → a ∈ l.destutter' (· ≠ ·) b := by
    intro l
    induction l with
    | nil =>
      intro b h
      simpa using h
    | cons c l ih =>
      intro b h
      by_cases hbc : b = c
      · subst hbc
        rw [List.destutter'_cons_neg _ (by simp)]
        exact ih b (by simpa using h)
      · rw [List.destutter'_cons_pos _ hbc]
        rcases h with rfl | h
        · exact List.mem_cons_self
        · exact List.mem_cons_of_mem _ (ih c (List.mem_cons.mp h))
  refine ⟨fun h => (List.destutter_sublist _ l).subset h, fun h => ?_⟩
  cases l with
  | nil => cases h
  | cons b l => exact haux l b (List.mem_cons.mp h)

/-- A line that has a point keeps two after `Vec::dedup` exactly when it has another point. -/
theorem two_le_length_destutter_ne {α : Type} [DecidableEq α] {l : List α} {a : α} (ha : a ∈ l) :
    2 ≤ (l.destutter (· ≠ ·)).length ↔ ∃ b ∈ l, b ≠ a := by
  constructor
  · intro h
    have hchain := List.isChain_destutter (· ≠ ·) l
    have hsub := (List.destutter_sublist (· ≠ ·) l).subset
    generalize l.destutter (· ≠ ·) = m at h hchain hsub
    match m with
    | [] => simp at h
    | [_] => simp at h
    | b :: c :: rest =>
      have hbc : b ≠ c := (List.isChain_cons_cons.mp hchain).1
      by_cases hab : b = a
      · exact ⟨c, hsub (List.mem_cons_of_mem _ List.mem_cons_self), fun hca => hbc (hab.trans hca.symm)⟩
      · exact ⟨b, hsub List.mem_cons_self, hab⟩
  · rintro ⟨b, hb, hne⟩
    have hb' := mem_destutter_ne.mpr hb
    have ha' := mem_destutter_ne.mpr ha
    match l.destutter (· ≠ ·), ha', hb' with
    | [c], ha', hb' => exact absurd ((List.mem_singleton.mp hb').trans (List.mem_singleton.mp ha').symm) hne
    | _ :: _ :: rest, _, _ => simp

/-- Near the edge of the tile, a finished line has the vertices of a line with at least two. -/
theorem mem_finishLine {neighborhood : DemNeighborhood} {line : List MvtCoord} {v : MvtCoord}
    (hpinned : pinned neighborhood v = true) :
    (∃ line' ∈ finishLine neighborhood line, v ∈ line') ↔ v ∈ line ∧ ∃ u ∈ line, u ≠ v := by
  unfold finishLine
  simp only [two_le_length_simplifyLine]
  constructor
  · rintro ⟨line', hline', hv⟩
    split at hline'
    · rename_i hlong
      cases hline'
      have hmem : v ∈ line := mem_destutter_ne.mp ((mem_simplifyLine hpinned).mp hv)
      exact ⟨hmem, (two_le_length_destutter_ne hmem).mp hlong⟩
    · cases hline'
  · rintro ⟨hv, hother⟩
    rw [if_pos ((two_le_length_destutter_ne hv).mpr hother)]
    exact ⟨_, rfl, (mem_simplifyLine hpinned).mpr (mem_destutter_ne.mpr hv)⟩

/-! ## The heap of `simplify_line` and the line that is left -/

open Elimination

/-- A vertex by its index. -/
def vertex (line : List MvtCoord) (i : Nat) : MvtCoord := line.getD i ⟨0, 0⟩

/-- The area that a vertex spans with two others. -/
def span (line : List MvtCoord) (a b c : Nat) : Nat := cross (vertex line a) (vertex line b) (vertex line c)

namespace Simplification

section

variable (line : List MvtCoord) (keepAlways : List Bool)

/-- The vertices that may go. -/
def mayGo (i : Nat) : Bool := !keepAlways.getD i false

/-- The state of the loop, when the vertices `left` are left. Those of `pending` are still to be entered anew. -/
structure Tracks (pending : List Nat) (s : Simplification) (left : List Nat) : Prop where
  next_length : s.next.length = line.length
  previous_length : s.previous.length = line.length
  stamp_length : s.stamp.length = line.length
  ascending : left.Pairwise (· < ·)
  first : 0 ∈ left
  last : line.length - 1 ∈ left
  bounded : ∀ i ∈ left, i < line.length
  alive : ∀ i, s.alive.getD i false = true ↔ i ∈ left
  linked : left.IsChain fun a b => s.next.getD a 0 = b ∧ s.previous.getD b 0 = a
  sorted : s.heap.Pairwise (· ≤ ·)
  /-- Only what may go has entries, none with a later stamp. -/
  stamped : ∀ area i version, heapEntry area i version ∈ s.heap → Removable line keepAlways i ∧ version ≤ s.stamp.getD i 0
  /-- An entry with the stamp of its vertex has the area that the vertex spans. -/
  accurate : ∀ area i version, heapEntry area i version ∈ s.heap → i ∈ left → i ∉ pending → version = s.stamp.getD i 0 →
    ∃ a c, (a, i, c) ∈ triples left ∧ area = span line a i c
  /-- Whatever may go has an entry. -/
  entered : ∀ a i c, (a, i, c) ∈ triples left → i ∉ pending → mayGo keepAlways i = true →
    heapEntry (span line a i c) i (s.stamp.getD i 0) ∈ s.heap

end

variable {line : List MvtCoord} {keepAlways : List Bool} {pending : List Nat} {s : Simplification} {left : List Nat} {a b c : Nat}

/-- The neighbours of a vertex are those that it is linked to. -/
theorem Tracks.links (h : s.Tracks line keepAlways pending left) (htriple : (a, b, c) ∈ triples left) :
    (s.previous.getD b 0 = a ∧ s.next.getD b 0 = c) ∧ a < b ∧ b < c := by
  obtain ⟨before, after, rfl⟩ := mem_triples_iff.mp htriple
  obtain ⟨-, hchain, -⟩ := List.isChain_append.mp h.linked
  rw [List.isChain_cons_cons, List.isChain_cons_cons] at hchain
  obtain ⟨-, hasc, -⟩ := List.pairwise_append.mp h.ascending
  rw [List.pairwise_cons, List.pairwise_cons] at hasc
  refine ⟨⟨hchain.1.2, hchain.2.1.1⟩, hasc.1 b List.mem_cons_self, hasc.2.1 c List.mem_cons_self⟩

theorem Tracks.area_eq (h : s.Tracks line keepAlways pending left) (htriple : (a, b, c) ∈ triples left) :
    s.area line b = span line a b c := by
  obtain ⟨⟨hprevious, hnext⟩, -⟩ := h.links htriple
  simp only [area, span, vertex, hprevious, hnext]

/-- A vertex between two others has a neighbour on each side. -/
theorem exists_triple {left : List Nat} (hasc : left.Pairwise (· < ·)) {b lo hi : Nat} (hb : b ∈ left) (hlo : lo ∈ left)
    (hhi : hi ∈ left) (hlt : lo < b) (hgt : b < hi) : ∃ a c, (a, b, c) ∈ triples left := by
  obtain ⟨before, after, rfl⟩ := List.append_of_mem hb
  rw [List.pairwise_append, List.pairwise_cons] at hasc
  obtain ⟨-, ⟨hafter, -⟩, hbefore⟩ := hasc
  rcases List.eq_nil_or_concat before with rfl | ⟨before, a, rfl⟩
  · rcases List.mem_cons.mp hlo with rfl | hlo
    · exact absurd hlt (Nat.lt_irrefl _)
    · exact absurd (hafter lo hlo) (Nat.lt_asymm hlt)
  · rcases after with _ | ⟨c, after⟩
    · rcases List.mem_append.mp hhi with hhi | hhi
      · exact absurd (hbefore hi hhi b List.mem_cons_self) (Nat.lt_asymm hgt)
      · rw [List.mem_singleton.mp hhi] at hgt
        exact absurd hgt (Nat.lt_irrefl _)
    · exact ⟨a, c, mem_triples_iff.mpr ⟨before, after, by simp⟩⟩

theorem heapEntry_inj {area area' i i' version version' : Nat} (h : heapEntry area i version = heapEntry area' i' version') :
    area = area' ∧ i = i' ∧ version = version' := by
  have hpair := Prod.mk.inj (toLex.injective h)
  have hrest := Prod.mk.inj (toLex.injective hpair.2)
  exact ⟨hpair.1, hrest.1, hrest.2⟩

/-- A pending vertex is entered anew, if it may go. -/
theorem Tracks.touch {neighbor : Nat} (h : s.Tracks line keepAlways (neighbor :: pending) left) (hmem : neighbor ∈ left)
    (hlong : 2 < line.length) : (s.touch line keepAlways neighbor).Tracks line keepAlways pending left := by
  unfold Simplification.touch
  have hneighbor : s.alive.getD neighbor false = true := (h.alive neighbor).mpr hmem
  split
  · rename_i hguard
    obtain ⟨hpos, hlt, -, hkeep⟩ := hguard
    obtain ⟨a, c, htriple⟩ := exists_triple h.ascending hmem h.first h.last hpos hlt
    have hstamp : neighbor < s.stamp.length := h.stamp_length ▸ h.bounded neighbor hmem
    have hsame : (s.stamp.set neighbor (s.stamp.getD neighbor 0 + 1)).getD neighbor 0 = s.stamp.getD neighbor 0 + 1 := by
      simp [List.getD_eq_getElem?_getD, hstamp]
    have hother : ∀ i ≠ neighbor, (s.stamp.set neighbor (s.stamp.getD neighbor 0 + 1)).getD i 0 = s.stamp.getD i 0 := by
      intro i hi
      simp [List.getD_eq_getElem?_getD, List.getElem?_set_ne (Ne.symm hi)]
    dsimp only
    refine ⟨h.next_length, h.previous_length, ?_, h.ascending, h.first, h.last, h.bounded, h.alive, h.linked, ?_, ?_, ?_, ?_⟩
    · exact List.length_set.trans h.stamp_length
    · exact h.sorted.orderedInsert _ _
    · intro area i version hentry
      rcases (List.mem_orderedInsert _).mp hentry with heq | hold
      · obtain ⟨-, rfl, rfl⟩ := heapEntry_inj heq
        exact ⟨⟨hpos, hlt, hkeep⟩, hsame.ge⟩
      · obtain ⟨hremovable, hle⟩ := h.stamped area i version hold
        refine ⟨hremovable, ?_⟩
        by_cases hi : i = neighbor
        · rw [hi] at hle ⊢
          rw [hsame]
          exact hle.trans (Nat.le_succ _)
        · exact hle.trans (hother i hi).ge
    · intro area i version hentry hi hpending hversion
      rcases (List.mem_orderedInsert _).mp hentry with heq | hold
      · obtain ⟨rfl, rfl, -⟩ := heapEntry_inj heq
        exact ⟨a, c, htriple, h.area_eq htriple⟩
      · by_cases hi' : i = neighbor
        · -- the entries of before have earlier stamps
          have hle := (h.stamped area i version hold).2
          rw [hi', hsame] at hversion
          rw [hi', hversion] at hle
          exact absurd hle (Nat.not_succ_le_self _)
        · have hnot : i ∉ neighbor :: pending := by simp [hi', hpending]
          exact h.accurate area i version hold hi hnot (hversion.trans (hother i hi'))
    · intro a' i c' htriple' hpending hi
      by_cases hi' : i = neighbor
      · subst hi'
        refine (List.mem_orderedInsert _).mpr (Or.inl ?_)
        rw [hsame, ← h.area_eq htriple']
      · have hnot : i ∉ neighbor :: pending := by simp [hi', hpending]
        refine (List.mem_orderedInsert _).mpr (Or.inr ?_)
        rw [hother i hi']
        exact h.entered a' i c' htriple' hnot hi
  · rename_i hguard
    -- the vertex is an end of the line, or it is kept
    have hnever : ∀ a c, (a, neighbor, c) ∈ triples left → mayGo keepAlways neighbor = true → False := by
      intro a c htriple hmay
      obtain ⟨-, hlt, hgt⟩ := h.links htriple
      obtain ⟨before, after, hleft⟩ := mem_triples_iff.mp htriple
      have hc : c < line.length := h.bounded c (by rw [hleft]; simp)
      refine hguard ⟨by omega, by omega, hneighbor, by simpa [mayGo] using hmay⟩
    refine { h with accurate := ?_, entered := ?_ }
    · intro area i version hentry hi hpending hversion
      by_cases hi' : i = neighbor
      · obtain ⟨hpos, hlt, hkeep⟩ := (h.stamped area i version hentry).1
        rw [hi'] at hpos hlt hkeep
        exact absurd ⟨hpos, hlt, hneighbor, hkeep⟩ hguard
      · have hnot : i ∉ neighbor :: pending := by simp [hi', hpending]
        exact h.accurate area i version hentry hi hnot hversion
    · intro a i c htriple hpending hmay
      by_cases hi : i = neighbor
      · subst hi
        exact (hnever a c htriple hmay).elim
      · have hnot : i ∉ neighbor :: pending := by simp [hi, hpending]
        exact h.entered a i c htriple hnot hmay

/-! ## Removal -/

theorem getD_set_of_ne {β : Type} {l : List β} {i j : Nat} {b d : β} (h : i ≠ j) : (l.set i b).getD j d = l.getD j d := by
  simp [List.getD_eq_getElem?_getD, List.getElem?_set_ne h]

theorem getD_set_self {β : Type} {l : List β} {i : Nat} {b d : β} (h : i < l.length) : (l.set i b).getD i d = b := by
  simp [List.getD_eq_getElem?_getD, h]

/-- A vertex is taken out: its neighbours are linked, and to be entered anew. -/
theorem Tracks.unlink {before after : List Nat} (h : s.Tracks line keepAlways [b] (before ++ a :: b :: c :: after)) :
    ({ s with
      alive := s.alive.set b false
      next := s.next.set a c
      previous := s.previous.set c a } : Simplification).Tracks line keepAlways [a, c] (before ++ a :: c :: after) := by
  have hsub : ∀ i ∈ before ++ a :: c :: after, i ∈ before ++ a :: b :: c :: after := by
    intro i hi
    simp only [List.mem_append, List.mem_cons] at hi ⊢
    tauto
  have hasc := h.ascending
  have hnodup : (before ++ a :: b :: c :: after).Nodup := hasc.imp Nat.ne_of_lt
  have hb : b ∉ before ++ a :: c :: after := by
    rw [← erase_middle hnodup]
    exact hnodup.not_mem_erase
  rw [List.pairwise_append] at hasc
  obtain ⟨hasc₁, hasc₂, hbelow⟩ := hasc
  simp only [List.pairwise_cons, List.forall_mem_cons] at hasc₂
  obtain ⟨⟨hab, hac, hafter⟩, ⟨hbc, -⟩, hcafter, hasc₃⟩ := hasc₂
  have ha : a < line.length := h.bounded a (by simp)
  have hc : c < line.length := h.bounded c (by simp)
  have htriple : (a, b, c) ∈ triples (before ++ a :: b :: c :: after) := mem_triples_iff.mpr ⟨before, after, rfl⟩
  -- the middle of a row that is neither of the neighbours is not the removed vertex
  have hrows : ∀ {x y z}, y ≠ b → y ∉ [a, c] →
      ((x, y, z) ∈ triples (before ++ a :: c :: after) ↔ (x, y, z) ∈ triples (before ++ a :: b :: c :: after)) := by
    intro x y z hyb hy
    simp only [List.mem_cons, List.not_mem_nil, or_false, not_or] at hy
    exact mem_triples_middle_iff hy.1 hyb hy.2
  refine ⟨List.length_set.trans h.next_length, List.length_set.trans h.previous_length, h.stamp_length, ?_, ?_, ?_, ?_, ?_, ?_,
    h.sorted,
    h.stamped, ?_, ?_⟩
  · exact h.ascending.sublist (by rw [← erase_middle hnodup]; exact List.erase_sublist)
  · have hfirst := h.first
    simp only [List.mem_append, List.mem_cons] at hfirst ⊢
    have hne : 0 ≠ b := Nat.ne_of_lt (Nat.lt_of_le_of_lt (Nat.zero_le a) hab)
    tauto
  · have hlast := h.last
    simp only [List.mem_append, List.mem_cons] at hlast ⊢
    have hne : line.length - 1 ≠ b := by omega
    tauto
  · exact fun i hi => h.bounded i (hsub i hi)
  · intro i
    by_cases hi : i = b
    · subst hi
      have hlt : i < s.alive.length := by
        by_contra hge
        have halive := (h.alive i).mpr (by simp)
        rw [List.getD_eq_getElem?_getD, List.getElem?_eq_none (Nat.not_lt.mp hge)] at halive
        cases halive
      rw [getD_set_self hlt]
      exact ⟨fun hno => absurd hno Bool.false_ne_true, fun hmem => absurd hmem hb⟩
    · rw [getD_set_of_ne (Ne.symm hi), h.alive]
      simp only [List.mem_append, List.mem_cons]
      tauto
  · obtain ⟨hchain₁, hchain₂, hmeet⟩ := List.isChain_append.mp h.linked
    rw [List.isChain_cons_cons, List.isChain_cons_cons] at hchain₂
    obtain ⟨-, -, hchain₃⟩ := hchain₂
    refine List.isChain_append.mpr ⟨?_, List.isChain_cons_cons.mpr ⟨⟨?_, ?_⟩, ?_⟩, ?_⟩
    · refine hchain₁.imp_of_mem_imp fun x y hx hy hxy => ?_
      rw [getD_set_of_ne (Nat.ne_of_gt (hbelow x hx a List.mem_cons_self)),
        getD_set_of_ne (Nat.ne_of_gt (hbelow y hy c (by simp)))]
      exact hxy
    · exact getD_set_self (h.next_length ▸ ha)
    · exact getD_set_self (h.previous_length ▸ hc)
    · refine hchain₃.imp_of_mem_tail_imp fun x y hx hy hxy => ?_
      have hax : a < x := by
        rcases List.mem_cons.mp hx with rfl | hx
        · exact hac
        · exact hafter x hx
      rw [getD_set_of_ne (Nat.ne_of_lt hax), getD_set_of_ne (Nat.ne_of_lt (hcafter y hy))]
      exact hxy
    · intro x hx y hy
      cases hy
      have hxa := hbelow x (List.mem_of_mem_getLast? hx) a List.mem_cons_self
      rw [getD_set_of_ne (Nat.ne_of_gt hxa), getD_set_of_ne (Nat.ne_of_gt hac)]
      exact hmeet x hx a rfl
  · intro area i version hentry hi hpending hversion
    have hib : i ≠ b := fun heq => hb (heq ▸ hi)
    obtain ⟨x, z, hrow, harea⟩ := h.accurate area i version hentry (hsub i hi) (by simpa using hib) hversion
    exact ⟨x, z, (hrows hib hpending).mpr hrow, harea⟩
  · intro x i z hrow hpending hmay
    have hi : i ∈ before ++ a :: c :: after := by
      obtain ⟨l₁, l₂, heq⟩ := mem_triples_iff.mp hrow
      rw [heq]
      simp
    have hib : i ≠ b := fun heq => hb (heq ▸ hi)
    exact h.entered x i z ((hrows hib hpending).mp hrow) (by simpa using hib) hmay

/-- A vertex is removed. -/
theorem Tracks.remove {before after : List Nat} (h : s.Tracks line keepAlways [b] (before ++ a :: b :: c :: after)) :
    (s.remove line keepAlways b).Tracks line keepAlways [] (before ++ a :: c :: after) := by
  have htriple : (a, b, c) ∈ triples (before ++ a :: b :: c :: after) := mem_triples_iff.mpr ⟨before, after, rfl⟩
  obtain ⟨⟨hprevious, hnext⟩, hab, hbc⟩ := h.links htriple
  have hc : c < line.length := h.bounded c (by simp)
  unfold Simplification.remove
  simp only [hprevious, hnext]
  exact (h.unlink.touch (by simp) (by omega)).touch (by simp) (by omega)

/-! ## The loop -/

theorem mem_triples_range {n a b c : Nat} : (a, b, c) ∈ triples (List.range n) ↔ b = a + 1 ∧ c = a + 2 ∧ a + 2 < n := by
  rw [mem_triples_iff_getElem?]
  constructor
  · rintro ⟨i, ha, hb, hc⟩
    obtain ⟨-, rfl⟩ := List.getElem?_eq_some_iff.mp ha
    obtain ⟨-, rfl⟩ := List.getElem?_eq_some_iff.mp hb
    obtain ⟨hlt, rfl⟩ := List.getElem?_eq_some_iff.mp hc
    simpa using hlt
  · rintro ⟨rfl, rfl, hlt⟩
    exact ⟨a, List.getElem?_range (by omega), List.getElem?_range (by omega), List.getElem?_range hlt⟩

variable {entry : HeapEntry}

theorem mem_heap_init : entry ∈ (init line keepAlways).heap ↔
    ∃ i, Removable line keepAlways i ∧ entry = heapEntry (span line (i - 1) i (i + 1)) i 0 := by
  have harea : ∀ i < line.length, (init line keepAlways).area line i = span line (i - 1) i (i + 1) := by
    intro i hi
    simp [init, area, span, vertex, hi]
  have hmem : ∀ i, i ∈ ((List.range line.length).drop 1).dropLast ↔ 0 < i ∧ i < line.length - 1 := by
    intro i
    rw [List.mem_iff_getElem]
    constructor
    · rintro ⟨j, hj, rfl⟩
      simp only [List.length_dropLast, List.length_drop, List.length_range] at hj
      simp only [List.getElem_dropLast, List.getElem_drop, List.getElem_range]
      omega
    · rintro ⟨hpos, hlt⟩
      refine ⟨i - 1, by simp; omega, ?_⟩
      simp only [List.getElem_dropLast, List.getElem_drop, List.getElem_range]
      omega
  have hheap : (init line keepAlways).heap = ((((List.range line.length).drop 1).dropLast.filter
      fun index => !keepAlways.getD index false).map fun index =>
        heapEntry ((init line keepAlways).area line index) index 0).insertionSort (· ≤ ·) := rfl
  rw [hheap, List.mem_insertionSort, List.mem_map]
  constructor
  · rintro ⟨i, hi, rfl⟩
    obtain ⟨hi, hkeep⟩ := List.mem_filter.mp hi
    obtain ⟨hpos, hlt⟩ := (hmem i).mp hi
    exact ⟨i, ⟨hpos, hlt, by simpa using hkeep⟩, by rw [harea i (by omega)]⟩
  · rintro ⟨i, ⟨hpos, hlt, hkeep⟩, rfl⟩
    exact ⟨i, List.mem_filter.mpr ⟨(hmem i).mpr ⟨hpos, hlt⟩, by rw [hkeep]; rfl⟩, by simp only [harea i (by omega)]⟩

/-- Where the loop starts, every vertex is left. -/
theorem tracks_init (hlong : 2 < line.length) : (init line keepAlways).Tracks line keepAlways [] (List.range line.length) := by
  have hstamp : ∀ i, (init line keepAlways).stamp.getD i 0 = 0 := by
    intro i
    by_cases hi : i < line.length <;> simp [init, List.getD_eq_getElem?_getD, hi]
  refine ⟨by simp [init], by simp [init], by simp [init], List.pairwise_lt_range, by simp; omega, by simp; omega, by simp, ?_,
    ?_, ?_,
    ?_, ?_, ?_⟩
  · intro i
    by_cases hi : i < line.length <;> simp [init, List.getD_eq_getElem?_getD, hi]
  · rw [List.isChain_iff_getElem]
    intro i hi
    rw [List.length_range] at hi
    have hi' : i < line.length := by omega
    simp [init, List.getD_eq_getElem?_getD, hi, hi']
  · exact List.pairwise_insertionSort _ _
  · intro area i version hentry
    obtain ⟨i', hremovable, heq⟩ := mem_heap_init.mp hentry
    obtain ⟨-, rfl, rfl⟩ := heapEntry_inj heq
    exact ⟨hremovable, Nat.zero_le _⟩
  · intro area i version hentry hi hpending hversion
    obtain ⟨i', hremovable, heq⟩ := mem_heap_init.mp hentry
    obtain ⟨rfl, rfl, -⟩ := heapEntry_inj heq
    obtain ⟨hpos, hlt, -⟩ := hremovable
    exact ⟨i - 1, i + 1, mem_triples_range.mpr (by omega), rfl⟩
  · intro a i c htriple hpending hmay
    obtain ⟨rfl, rfl, hlt⟩ := mem_triples_range.mp htriple
    rw [hstamp]
    exact mem_heap_init.mpr ⟨a + 1, ⟨by omega, by omega, by simpa [mayGo] using hmay⟩, rfl⟩

/-- The least entry is taken from the heap; its vertex is to be entered anew, unless the entry is stale. -/
theorem Tracks.pop {heap : List HeapEntry} (h : s.Tracks line keepAlways [] left) (hheap : s.heap = entry :: heap)
    (hpending : ∀ area i, entry = heapEntry area i (s.stamp.getD i 0) → i ∈ left → i ∈ pending) :
    ({ s with heap := heap } : Simplification).Tracks line keepAlways pending left := by
  have hsub : ∀ e ∈ heap, e ∈ s.heap := fun e he => by rw [hheap]; exact List.mem_cons_of_mem _ he
  refine { h with sorted := ?_, stamped := ?_, accurate := ?_, entered := ?_ }
  · have hsorted := h.sorted
    rw [hheap] at hsorted
    exact hsorted.of_cons
  · exact fun area i version hentry => h.stamped area i version (hsub _ hentry)
  · exact fun area i version hentry hi _ => h.accurate area i version (hsub _ hentry) hi List.not_mem_nil
  · intro a i c htriple hi hmay
    have hentry := h.entered a i c htriple List.not_mem_nil hmay
    rw [hheap] at hentry
    rcases List.mem_cons.mp hentry with heq | hentry
    · obtain ⟨before, after, hleft⟩ := mem_triples_iff.mp htriple
      exact absurd (hpending _ i heq.symm (by rw [hleft]; simp)) hi
    · exact hentry

/-- The first entry of the heap is the least of those that are entered. -/
theorem Tracks.first_le {heap : List HeapEntry} (h : s.Tracks line keepAlways [] left) (hheap : s.heap = entry :: heap)
    (htriple : (a, b, c) ∈ triples left) (hmay : mayGo keepAlways b = true) :
    toLex ((ofLex entry).1, (ofLex (ofLex entry).2).1) ≤ toLex (span line a b c, b) := by
  have hentry := h.entered a b c htriple List.not_mem_nil hmay
  have hle : entry ≤ heapEntry (span line a b c) b (s.stamp.getD b 0) := by
    have hsorted := h.sorted
    rw [hheap] at hentry hsorted
    rcases List.mem_cons.mp hentry with heq | hentry
    · exact heq.ge
    · exact List.rel_of_pairwise_cons hsorted hentry
  rw [Prod.Lex.le_iff]
  rcases Prod.Lex.le_iff.mp hle with hlt | ⟨heq, hle⟩
  · exact Or.inl hlt
  · refine Or.inr ⟨heq, ?_⟩
    rcases Prod.Lex.le_iff.mp hle with hlt | ⟨heq, -⟩
    · exact hlt.le
    · exact heq.le

/-- What is left when the loop ends. -/
theorem Tracks.run (h : s.Tracks line keepAlways [] left) (i : Nat) : (s.run line keepAlways).alive.getD i false = true ↔
    i ∈ eliminate (span line) (mayGo keepAlways) simplifyMinCross left := by
  fun_induction Simplification.run line keepAlways s generalizing left with
  | case1 s hheap =>
    have hheavy : Heavy (span line) (mayGo keepAlways) simplifyMinCross left := by
      intro a b c htriple hmay
      have hentry := h.entered a b c htriple List.not_mem_nil hmay
      rw [hheap] at hentry
      cases hentry
    rw [eliminate_of_heavy hheavy]
    exact h.alive i
  | case2 s entry heap hheap area index version s' hlive =>
    rename_i harea
    have hheavy : Heavy (span line) (mayGo keepAlways) simplifyMinCross left := by
      intro a b c htriple hmay
      rcases Prod.Lex.le_iff.mp (h.first_le hheap htriple hmay) with hlt | ⟨heq, -⟩
      · exact harea.trans hlt.le
      · exact harea.trans heq.le
    rw [eliminate_of_heavy hheavy]
    exact h.alive i
  | case3 s entry heap hheap area index version s' hlive harea =>
    rename_i ih
    have hmem : index ∈ left := (h.alive index).mp hlive.1
    have hentry : heapEntry area index version ∈ s.heap := by rw [hheap]; exact List.mem_cons_self
    obtain ⟨a, c, htriple, hweight⟩ := h.accurate area index version hentry hmem List.not_mem_nil hlive.2
    have hmay : mayGo keepAlways index = true := by
      unfold mayGo
      rw [(h.stamped area index version hentry).1.2.2]
      rfl
    have hcandidate : toLex (area, index) ∈ candidates (span line) (mayGo keepAlways) left :=
      mem_candidates_iff.mpr ⟨a, c, htriple, hmay, hweight⟩
    have hleast : ∀ e ∈ candidates (span line) (mayGo keepAlways) left, toLex (area, index) ≤ e := by
      intro e he
      obtain ⟨x, z, hrow, hmay', hweight'⟩ := mem_candidates_iff.mp (show toLex ((ofLex e).1, (ofLex e).2) ∈ _ from he)
      have hle := h.first_le hheap hrow hmay'
      rw [← hweight'] at hle
      exact hle
    rw [eliminate_of_least hcandidate hleast (Nat.not_le.mp harea)]
    have hpop : s'.Tracks line keepAlways [index] left := by
      refine h.pop hheap fun area' i' heq _ => ?_
      obtain ⟨-, heq, -⟩ := heapEntry_inj (show heapEntry area index version = _ from heq)
      exact List.mem_singleton.mpr heq.symm
    obtain ⟨before, after, rfl⟩ := mem_triples_iff.mp htriple
    have hnodup := h.ascending.imp Nat.ne_of_lt
    have herase : (before ++ a :: index :: c :: after).erase (ofLex (toLex (area, index))).2 = before ++ a :: c :: after :=
      erase_middle hnodup
    rw [herase]
    exact ih hpop.remove
  | case4 s entry heap hheap index version s' hlive =>
    rename_i ih
    refine ih (h.pop hheap fun area i' heq hi' => absurd ⟨?_, ?_⟩ hlive)
    · obtain ⟨-, heq, -⟩ := heapEntry_inj (show heapEntry (ofLex entry).1 index version = _ from heq)
      rw [heq]
      exact (h.alive i').mpr hi'
    · obtain ⟨-, heq, hversion⟩ := heapEntry_inj (show heapEntry (ofLex entry).1 index version = _ from heq)
      rw [hversion, heq]

end Simplification

/-! ## The line that is left -/

/-- The vertices that are there, by their indices. -/
theorem survivors_eq {line : List MvtCoord} {alive : List Bool} (hlength : alive.length = line.length) :
    ((line.zip alive).filter Prod.snd).map Prod.fst =
      ((List.range line.length).filter fun i => alive.getD i false).map (vertex line) := by
  have hzip : line.zip alive = (List.range line.length).map fun i => (vertex line i, alive.getD i false) := by
    refine List.ext_getElem (by simp [hlength]) fun i hi _ => ?_
    have hi' : i < line.length := by
      rw [List.length_zip] at hi
      omega
    have hi'' : i < alive.length := hlength ▸ hi'
    simp [vertex, hi', hi'']
  rw [hzip, List.filter_map, List.map_map]
  rfl

/-- What `simplify_line` leaves is what is left when light vertices are eliminated one by one. -/
theorem simplifyLine_eq_eliminate (line : List MvtCoord) (pinned : MvtCoord → Bool) :
    simplifyLine line pinned = (eliminate (span line) (Simplification.mayGo (line.map pinned)) simplifyMinCross
      (List.range line.length)).map (vertex line) := by
  unfold simplifyLine
  split
  · rename_i hshort
    have hheavy : Heavy (span line) (Simplification.mayGo (line.map pinned)) simplifyMinCross (List.range line.length) := by
      intro a b c htriple
      have hlt := (Simplification.mem_triples_range.mp htriple).2.2
      omega
    rw [eliminate_of_heavy hheavy]
    refine List.ext_getElem (by simp) fun i hi _ => ?_
    simp [vertex, hi]
  · rename_i hlong
    have htracks : (Simplification.init line (line.map pinned)).Tracks line (line.map pinned) [] (List.range line.length) :=
      Simplification.tracks_init (Nat.not_le.mp hlong)
    rw [survivors_eq (keeps_run line pinned).length_eq]
    congr 1
    have hsub : (eliminate (span line) (Simplification.mayGo (line.map pinned)) simplifyMinCross (List.range line.length)).Sublist
        (List.range line.length) := eliminate_sublist _
    refine List.Pairwise.eq_of_mem_iff (List.pairwise_lt_range.filter _) (List.pairwise_lt_range.sublist hsub) fun i => ?_
    rw [← htracks.run i, List.mem_filter, List.mem_range]
    refine ⟨fun h => h.2, fun h => ⟨?_, h⟩⟩
    exact List.mem_range.mp (hsub.subset ((htracks.run i).mp h))

end Biei.Terrain
