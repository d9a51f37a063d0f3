import Biei.Lib.Trails
import Biei.Terrain.Contours

/-!
# Lemmas on stitching

Together the fragments and the closed polylines consist of the segments that were stitched.
-/

namespace Biei.Terrain

open scoped List

/-! ## The indexes -/

/-- A fragment as the index has it under a key. -/
structure Fragment.Wf (f : Fragment EdgePoint) (k : EdgePoint) : Prop where
  start : f.start = k
  head : f.points.head? = some k
  last : f.points.getLast? = some f.stop
  long : 2 ≤ f.points.length

/-- The index by starts and the index by ends have the same fragments, of which none ends where one begins. -/
structure Indexed (starts : OrderedMap EdgePoint (Fragment EdgePoint)) (ends : OrderedMap EdgePoint EdgePoint) : Prop where
  wf : ∀ k f, starts.get? k = some f → f.Wf k
  ends_iff : ∀ e k, ends.get? e = some k ↔ ∃ f, starts.get? k = some f ∧ f.stop = e
  apart : ∀ k f, starts.get? k = some f → starts.get? f.stop = none

namespace Indexed

variable {starts : OrderedMap EdgePoint (Fragment EdgePoint)} {ends : OrderedMap EdgePoint EdgePoint} {k : EdgePoint}

variable {f : Fragment EdgePoint}

/-- Where a fragment begins, none ends. -/
theorem ends_start (h : Indexed starts ends) (hk : starts.get? k = some f) : ends.get? k = none := by
  rw [Option.eq_none_iff_forall_ne_some]
  intro k' hk'
  obtain ⟨g, hg, hstop⟩ := (h.ends_iff k k').mp hk'
  have hnone := h.apart k' g hg
  rw [hstop, hk] at hnone
  cases hnone

/-- The end of a fragment leads to its start. -/
theorem ends_stop (h : Indexed starts ends) (hk : starts.get? k = some f) :
    ends.get? f.stop = some k := (h.ends_iff f.stop k).mpr ⟨f, hk, rfl⟩

/-- Two fragments do not end at the same point. -/
theorem stop_inj (h : Indexed starts ends) {k k' : EdgePoint} {f f' : Fragment EdgePoint} (hk : starts.get? k = some f)
    (hk' : starts.get? k' = some f') (hstop : f.stop = f'.stop) : k = k' := by
  have hends := h.ends_stop hk
  rw [hstop, h.ends_stop hk'] at hends
  exact (Option.some.inj hends).symm

/-- Taking a fragment out of both indexes. -/
theorem erase (h : Indexed starts ends) (hk : starts.get? k = some f) :
    Indexed (starts.erase k) (ends.erase f.stop) := by
  refine ⟨fun k' g hg => h.wf k' g (OrderedMap.get?_erase_eq_some.mp hg).2, fun e k' => ?_, fun k' g hg => ?_⟩
  · rw [OrderedMap.get?_erase_eq_some, h.ends_iff]
    constructor
    · rintro ⟨hne, g, hg, rfl⟩
      refine ⟨g, OrderedMap.get?_erase_eq_some.mpr ⟨fun heq => hne ?_, hg⟩, rfl⟩
      rw [heq, hk] at hg
      rw [← Option.some.inj hg]
    · rintro ⟨g, hg, rfl⟩
      obtain ⟨hne, hg⟩ := OrderedMap.get?_erase_eq_some.mp hg
      exact ⟨fun heq => hne (h.stop_inj hg hk heq), g, hg, rfl⟩
  · have hnone := h.apart k' g (OrderedMap.get?_erase_eq_some.mp hg).2
    rw [OrderedMap.get?_eq_none] at hnone ⊢
    exact fun v hv => hnone v (OrderedMap.mem_erase.mp hv).1

/-- Putting a fragment into both indexes, which neither begins nor ends where another does. -/
theorem insert (h : Indexed starts ends) (hwf : f.Wf k) (hne : f.stop ≠ k)
    (hstart : starts.get? k = none) (hnext : starts.get? f.stop = none) (hbefore : ends.get? k = none)
      (hstop : ends.get? f.stop = none) :
    Indexed (starts.insert k f) (ends.insert f.stop k) := by
  refine ⟨fun k' g hg => ?_, fun e k' => ?_, fun k' g hg => ?_⟩
  · rcases OrderedMap.get?_insert_eq_some.mp hg with ⟨rfl, rfl⟩ | ⟨-, hg⟩
    · exact hwf
    · exact h.wf k' g hg
  · rw [OrderedMap.get?_insert_eq_some, h.ends_iff]
    constructor
    · rintro (⟨rfl, rfl⟩ | ⟨hstop', g, hg, rfl⟩)
      · exact ⟨f, OrderedMap.get?_insert_self _ _ _, rfl⟩
      · refine ⟨g, OrderedMap.get?_insert_eq_some.mpr (Or.inr ⟨fun heq => ?_, hg⟩), rfl⟩
        rw [heq, hstart] at hg
        cases hg
    · rintro ⟨g, hg, rfl⟩
      rcases OrderedMap.get?_insert_eq_some.mp hg with ⟨rfl, rfl⟩ | ⟨hk', hg⟩
      · exact Or.inl ⟨rfl, rfl⟩
      · refine Or.inr ⟨fun heq => ?_, g, hg, rfl⟩
        have hends := h.ends_stop hg
        rw [heq, hstop] at hends
        cases hends
  · rcases OrderedMap.get?_insert_eq_some.mp hg with ⟨rfl, rfl⟩ | ⟨hk', hg⟩
    · rw [OrderedMap.get?_insert_of_ne hne]
      exact hnext
    · have hne' : g.stop ≠ k := fun heq => by
        have hends := h.ends_stop hg
        rw [heq, hbefore] at hends
        cases hends
      rw [OrderedMap.get?_insert_of_ne hne']
      exact h.apart k' g hg

end Indexed

/-! ## The segments of the fragments -/

/-- The steps of all fragments. -/
def stepsOf (starts : OrderedMap EdgePoint (Fragment EdgePoint)) : List (EdgePoint × EdgePoint) :=
  starts.toList.flatMap fun e => steps e.2.points

theorem stepsOf_erase {starts : OrderedMap EdgePoint (Fragment EdgePoint)} {k : EdgePoint} {f : Fragment EdgePoint}
    (h : starts.get? k = some f) : (stepsOf starts).Perm (steps f.points ++ stepsOf (starts.erase k)) :=
  (OrderedMap.toList_perm_erase h).flatMap_right _

theorem stepsOf_insert {starts : OrderedMap EdgePoint (Fragment EdgePoint)} {k : EdgePoint} (f : Fragment EdgePoint)
    (h : starts.get? k = none) : (stepsOf (starts.insert k f)).Perm (steps f.points ++ stepsOf starts) := by
  have hperm := (OrderedMap.toList_insert_perm starts k f).flatMap_right fun e => steps e.2.points
  rw [OrderedMap.erase_of_none h] at hperm
  exact hperm

/-! ## One segment -/

/-- What is known of a level, when these segments have been stitched. -/
structure Level.Stitched (edges : List (EdgePoint × EdgePoint)) (s : Level EdgePoint) : Prop where
  indexed : Indexed s.starts s.ends
  completed : ∀ l ∈ s.completed, 2 ≤ l.length ∧ l.head? = l.getLast?
  perm : (s.completed.flatMap steps ++ stepsOf s.starts).Perm edges

namespace Level.Stitched

variable {edges : List (EdgePoint × EdgePoint)} {s : Level EdgePoint}

theorem empty : (Level.empty : Level EdgePoint).Stitched [] where
  indexed := ⟨fun _ _ h => (by cases h), fun _ _ => ⟨fun h => (by cases h), fun ⟨_, h, _⟩ => (by cases h)⟩, fun _ _ h =>
    (by cases h)⟩
  completed := fun _ h => (by cases h)
  perm := List.Perm.refl _

variable {f : Fragment EdgePoint}

theorem mem_of_fragment (h : s.Stitched edges) {k : EdgePoint} (hk : s.starts.get? k = some f)
    {e : EdgePoint × EdgePoint} (he : e ∈ steps f.points) : e ∈ edges :=
  h.perm.subset (List.mem_append_right _ (List.mem_flatMap.mpr ⟨(k, f), OrderedMap.get?_eq_some.mp hk, he⟩))

/-- A fragment begins where a segment does. -/
theorem starts_none (h : s.Stitched edges) {a : EdgePoint} (ha : a ∉ edges.map Prod.fst) : s.starts.get? a = none := by
  rw [Option.eq_none_iff_forall_ne_some]
  intro f hf
  have hwf := h.indexed.wf a f hf
  obtain ⟨b, hb⟩ := exists_step_of_head hwf.head hwf.long
  exact ha (List.mem_map.mpr ⟨(a, b), h.mem_of_fragment hf hb, rfl⟩)

/-- A fragment ends where a segment does. -/
theorem ends_none (h : s.Stitched edges) {b : EdgePoint} (hb : b ∉ edges.map Prod.snd) : s.ends.get? b = none := by
  rw [Option.eq_none_iff_forall_ne_some]
  intro k hk
  obtain ⟨f, hf, rfl⟩ := (h.indexed.ends_iff b k).mp hk
  have hwf := h.indexed.wf k f hf
  obtain ⟨a, ha⟩ := exists_step_of_last hwf.last hwf.long
  exact hb (List.mem_map.mpr ⟨(a, f.stop), h.mem_of_fragment hf ha, rfl⟩)

/-- A fragment that a segment closes. -/
theorem close (h : s.Stitched edges) {b : EdgePoint} (hf : s.starts.get? b = some f) :
    (⟨s.starts.erase b, s.ends.erase f.stop, s.completed ++ [f.points ++ [b]]⟩ : Level EdgePoint).Stitched
      ((f.stop, b) :: edges) := by
  have hwf := h.indexed.wf b f hf
  refine ⟨h.indexed.erase hf, fun l hl => ?_, ?_⟩
  · rcases List.mem_append.mp hl with hl | hl
    · exact h.completed l hl
    · rw [List.mem_singleton.mp hl]
      refine ⟨?_, ?_⟩
      · rw [List.length_append]
        exact hwf.long.trans (Nat.le_add_right _ _)
      · rw [List.getLast?_concat, List.head?_append, hwf.head]
        rfl
  · rw [List.flatMap_append, List.flatMap_singleton, steps_concat hwf.last]
    calc s.completed.flatMap steps ++ (steps f.points ++ [(f.stop, b)]) ++ stepsOf (s.starts.erase b)
        _ = s.completed.flatMap steps ++ steps f.points ++ (f.stop, b) :: stepsOf (s.starts.erase b) := by simp
        _ ~ (f.stop, b) :: (s.completed.flatMap steps ++ steps f.points ++ stepsOf (s.starts.erase b)) := List.perm_middle
        _ = (f.stop, b) :: (s.completed.flatMap steps ++ (steps f.points ++ stepsOf (s.starts.erase b))) := by simp
        _ ~ (f.stop, b) :: (s.completed.flatMap steps ++ stepsOf s.starts) := ((stepsOf_erase hf).symm.append_left _).cons _
        _ ~ (f.stop, b) :: edges := h.perm.cons _

/-- The steps after a fragment has been replaced by one with a segment more, and perhaps another joined to it. -/
theorem perm_replaced (h : s.Stitched edges) {rest : OrderedMap EdgePoint (Fragment EdgePoint)} {k : EdgePoint}
    (old : List (EdgePoint × EdgePoint)) {e : EdgePoint × EdgePoint} (hrest : (stepsOf s.starts).Perm (old ++ stepsOf rest))
    (hk : rest.get? k = none) (hf : (steps f.points).Perm (e :: old)) :
    (s.completed.flatMap steps ++ stepsOf (rest.insert k f)).Perm (e :: edges) := by
  calc s.completed.flatMap steps ++ stepsOf (rest.insert k f)
      _ ~ s.completed.flatMap steps ++ (e :: old ++ stepsOf rest) :=
        ((stepsOf_insert f hk).trans (hf.append_right _)).append_left _
      _ ~ e :: (s.completed.flatMap steps ++ (old ++ stepsOf rest)) := List.perm_middle
      _ ~ e :: (s.completed.flatMap steps ++ stepsOf s.starts) := (hrest.symm.append_left _).cons _
      _ ~ e :: edges := h.perm.cons _

/-- A fragment that a segment joins to another. -/
theorem join (h : s.Stitched edges) {k b : EdgePoint} {f other : Fragment EdgePoint} (hf : s.starts.get? k = some f) (hbk : b ≠ k)
    (hother : s.starts.get? b = some other) :
    (⟨((s.starts.erase k).erase b).insert k ⟨k, other.stop, f.points ++ other.points⟩,
      ((s.ends.erase f.stop).erase other.stop).insert other.stop k, s.completed⟩ : Level EdgePoint).Stitched
        ((f.stop, b) :: edges) := by
  have hwf := h.indexed.wf k f hf
  have hwf' := h.indexed.wf b other hother
  have hother' : (s.starts.erase k).get? b = some other := OrderedMap.get?_erase_eq_some.mpr ⟨hbk, hother⟩
  have hindexed := (h.indexed.erase hf).erase hother'
  have hnone : ((s.starts.erase k).erase b).get? k = none := by
    rw [OrderedMap.get?_erase_of_ne (Ne.symm hbk), OrderedMap.get?_erase_self]
  have hwf'' : (⟨k, other.stop, f.points ++ other.points⟩ : Fragment EdgePoint).Wf k := by
    refine ⟨rfl, ?_, ?_, ?_⟩
    · rw [List.head?_append, hwf.head]
      rfl
    · rw [List.getLast?_append, hwf'.last]
      rfl
    · rw [List.length_append]
      exact hwf.long.trans (Nat.le_add_right _ _)
  have hstop : other.stop ≠ k := fun heq => by
    have hapart := h.indexed.apart b other hother
    rw [heq, hf] at hapart
    cases hapart
  have hnext : ((s.starts.erase k).erase b).get? other.stop = none := by
    have hapart := h.indexed.apart b other hother
    rw [OrderedMap.get?_eq_none] at hapart ⊢
    exact fun v hv => hapart v (OrderedMap.mem_erase.mp (OrderedMap.mem_erase.mp hv).1).1
  have hbefore : ((s.ends.erase f.stop).erase other.stop).get? k = none := by
    have hends := h.indexed.ends_start hf
    rw [OrderedMap.get?_eq_none] at hends ⊢
    exact fun v hv => hends v (OrderedMap.mem_erase.mp (OrderedMap.mem_erase.mp hv).1).1
  refine ⟨hindexed.insert hwf'' hstop hnone hnext hbefore (OrderedMap.get?_erase_self _ _), h.completed, ?_⟩
  refine h.perm_replaced (steps f.points ++ steps other.points) ?_ hnone ?_
  · rw [List.append_assoc]
    exact (stepsOf_erase hf).trans ((stepsOf_erase hother').append_left _)
  · rw [steps_append_of_ends hwf.last hwf'.head]
    exact List.perm_middle

/-- A fragment that a segment goes on from. -/
theorem append (h : s.Stitched edges) {k b : EdgePoint} (hf : s.starts.get? k = some f) (hbk : b ≠ k)
    (hb : s.starts.get? b = none) (hentered : s.ends.get? b = none) :
    (⟨(s.starts.erase k).insert k ⟨k, b, f.points ++ [b]⟩, (s.ends.erase f.stop).insert b k, s.completed⟩ :
      Level EdgePoint).Stitched ((f.stop, b) :: edges) := by
  have hwf := h.indexed.wf k f hf
  have hwf' : (⟨k, b, f.points ++ [b]⟩ : Fragment EdgePoint).Wf k := by
    refine ⟨rfl, ?_, List.getLast?_concat, ?_⟩
    · rw [List.head?_append, hwf.head]
      rfl
    · rw [List.length_append]
      exact hwf.long.trans (Nat.le_add_right _ _)
  have hnext : (s.starts.erase k).get? b = none := by rw [OrderedMap.get?_erase_of_ne hbk, hb]
  have hbefore : (s.ends.erase f.stop).get? k = none := by
    have hends := h.indexed.ends_start hf
    rw [OrderedMap.get?_eq_none] at hends ⊢
    exact fun v hv => hends v (OrderedMap.mem_erase.mp hv).1
  have hstop : (s.ends.erase f.stop).get? b = none := by
    rw [OrderedMap.get?_eq_none] at hentered ⊢
    exact fun v hv => hentered v (OrderedMap.mem_erase.mp hv).1
  refine ⟨(h.indexed.erase hf).insert hwf' hbk (OrderedMap.get?_erase_self _ _) hnext hbefore hstop, h.completed, ?_⟩
  refine h.perm_replaced _ (stepsOf_erase hf) (OrderedMap.get?_erase_self _ _) ?_
  rw [steps_concat hwf.last]
  exact List.perm_append_singleton _ _

variable {a b : EdgePoint}

/-- A fragment that a segment leads to. -/
theorem prepend (h : s.Stitched edges) (hf : s.starts.get? b = some f) (ha : s.starts.get? a = none)
    (hends : s.ends.get? a = none) :
    (⟨(s.starts.erase b).insert a ⟨a, f.stop, a :: f.points⟩, s.ends.insert f.stop a, s.completed⟩ :
      Level EdgePoint).Stitched ((a, b) :: edges) := by
  have hwf := h.indexed.wf b f hf
  have hwf' : (⟨a, f.stop, a :: f.points⟩ : Fragment EdgePoint).Wf a := by
    refine ⟨rfl, rfl, ?_, ?_⟩
    · rw [List.getLast?_cons, hwf.last]
      rfl
    · exact hwf.long.trans (Nat.le_succ _)
  have hne : f.stop ≠ a := fun heq => by
    have hstop := h.indexed.ends_stop hf
    rw [heq, hends] at hstop
    cases hstop
  have hstart : (s.starts.erase b).get? a = none := by
    rw [OrderedMap.get?_eq_none] at ha ⊢
    exact fun v hv => ha v (OrderedMap.mem_erase.mp hv).1
  have hnext : (s.starts.erase b).get? f.stop = none := by
    have hapart := h.indexed.apart b f hf
    rw [OrderedMap.get?_eq_none] at hapart ⊢
    exact fun v hv => hapart v (OrderedMap.mem_erase.mp hv).1
  have hbefore : (s.ends.erase f.stop).get? a = none := by
    rw [OrderedMap.get?_eq_none] at hends ⊢
    exact fun v hv => hends v (OrderedMap.mem_erase.mp hv).1
  have hindexed := (h.indexed.erase hf).insert hwf' hne hstart hnext hbefore (OrderedMap.get?_erase_self _ _)
  rw [OrderedMap.insert_erase] at hindexed
  refine ⟨hindexed, h.completed, h.perm_replaced _ (stepsOf_erase hf) hstart ?_⟩
  rw [steps_cons_of_head hwf.head]

/-- A segment that meets no fragment. -/
theorem start (h : s.Stitched edges) (hne : b ≠ a) (ha : s.starts.get? a = none) (hb : s.starts.get? b = none)
    (hends : s.ends.get? a = none) (hentered : s.ends.get? b = none) :
    (⟨s.starts.insert a ⟨a, b, [a, b]⟩, s.ends.insert b a, s.completed⟩ : Level EdgePoint).Stitched ((a, b) :: edges) := by
  have hwf : (⟨a, b, [a, b]⟩ : Fragment EdgePoint).Wf a := ⟨rfl, rfl, rfl, le_refl 2⟩
  exact ⟨h.indexed.insert hwf hne ha hb hends hentered, h.completed, h.perm_replaced [] (List.Perm.refl _) ha (List.Perm.refl _)⟩

/-- A segment that neither begins nor ends where another does is stitched, and the `expect` does not fail. -/
theorem stitchSegment (h : s.Stitched edges) (hne : b ≠ a) (ha : a ∉ edges.map Prod.fst) (hb : b ∉ edges.map Prod.snd) :
    ∃ s', s.stitchSegment a b a b = some s' ∧ s'.Stitched ((a, b) :: edges) := by
  have hstart := h.starts_none ha
  have hentered := h.ends_none hb
  unfold Level.stitchSegment
  cases hends : s.ends.get? a with
  | some k =>
    obtain ⟨f, hf, rfl⟩ := (h.indexed.ends_iff a k).mp hends
    have hk := (h.indexed.wf k f hf).start
    simp only [hf, hk]
    by_cases hkb : k = b
    · subst hkb
      rw [if_pos rfl]
      exact ⟨_, rfl, h.close hf⟩
    · rw [if_neg hkb]
      cases hother : s.starts.get? b with
      | some other =>
        rw [OrderedMap.get?_erase_of_ne (Ne.symm hkb), hother]
        exact ⟨_, rfl, h.join hf (Ne.symm hkb) hother⟩
      | none =>
        rw [OrderedMap.get?_erase_of_ne (Ne.symm hkb), hother]
        exact ⟨_, rfl, h.append hf (Ne.symm hkb) hother hentered⟩
  | none =>
    cases hb' : s.starts.get? b with
    | some f => exact ⟨_, rfl, h.prepend hb' hstart hends⟩
    | none => exact ⟨_, rfl, h.start hne hstart hb' hends hentered⟩

/-- The lines of a level. -/
theorem traced (h : s.Stitched edges) : Traced edges s.completed (s.starts.values.map Fragment.points) := by
  have hopened : ∀ l ∈ s.starts.values.map Fragment.points, ∃ k f, s.starts.get? k = some f ∧ f.points = l := by
    intro l hl
    obtain ⟨f, hf, rfl⟩ := List.mem_map.mp hl
    obtain ⟨⟨k, f⟩, he, rfl⟩ := List.mem_map.mp hf
    exact ⟨k, f, OrderedMap.get?_eq_some.mpr he, rfl⟩
  refine ⟨?_, fun l hl => ?_, fun l hl => (h.completed l hl).2, fun l hl m hm heq => ?_⟩
  · have hsteps : (s.starts.values.map Fragment.points).flatMap steps = stepsOf s.starts := by
      rw [OrderedMap.values, List.map_map, List.flatMap_map]
      rfl
    rw [List.flatMap_append, hsteps]
    exact h.perm
  · rcases List.mem_append.mp hl with hl | hl
    · exact (h.completed l hl).1
    · obtain ⟨k, f, hf, rfl⟩ := hopened l hl
      exact (h.indexed.wf k f hf).long
  · obtain ⟨k, f, hf, rfl⟩ := hopened l hl
    obtain ⟨k', f', hf', rfl⟩ := hopened m hm
    rw [(h.indexed.wf k f hf).last, (h.indexed.wf k' f' hf').head] at heq
    have hapart := h.indexed.apart k f hf
    rw [Option.some.inj heq, hf'] at hapart
    cases hapart

/-- No fragment is too short to be kept. -/
theorem lines_eq (h : s.Stitched edges) : s.lines = s.completed ++ s.starts.values.map Fragment.points := by
  have hall : (s.starts.values.filter fun f => decide (2 ≤ f.points.length)) = s.starts.values := by
    refine List.filter_eq_self.mpr fun f hf => decide_eq_true ?_
    obtain ⟨⟨k, f⟩, he, rfl⟩ := List.mem_map.mp hf
    exact (h.indexed.wf k f (OrderedMap.get?_eq_some.mpr he)).long
  rw [Level.lines, hall]

end Level.Stitched

/-! ## All segments -/

/-- The segments of a level, as directed edges. -/
def edgesAt {P : Type} (segments : List (Segment P)) (level : ℤ) : List (EdgePoint × EdgePoint) :=
  (segments.filter fun segment => decide (segment.level = level)).map fun segment => (segment.startKey, segment.endKey)

theorem edgesAt_concat {P : Type} (segments : List (Segment P)) (segment : Segment P) (level : ℤ) :
    edgesAt (segments ++ [segment]) level =
      edgesAt segments level ++ if segment.level = level then [(segment.startKey, segment.endKey)] else [] := by
  unfold edgesAt
  rw [List.filter_append, List.map_append]
  by_cases h : segment.level = level
  · rw [if_pos h, List.filter_singleton, decide_eq_true h]
    rfl
  · rw [if_neg h, List.filter_singleton, decide_eq_false h]
    rfl

/-- What the map of levels has for a level. -/
def levelOf {P : Type} (levels : OrderedMap ℤ (Level P)) (level : ℤ) : Level P := (levels.get? level).getD .empty

/-- A segment is stitched into its own level. -/
theorem levelOf_insert {P : Type} (levels : OrderedMap ℤ (Level P)) (k : ℤ) (s : Level P) (level : ℤ) :
    levelOf (levels.insert k s) level = if level = k then s else levelOf levels level := by
  unfold levelOf
  split
  · rename_i h
    rw [h, OrderedMap.get?_insert_self, Option.getD_some]
  · rename_i h
    rw [OrderedMap.get?_insert_of_ne h]

/-- A segment whose points are its edges. -/
def Segment.Keyed (segment : Segment EdgePoint) : Prop :=
  segment.startPoint = segment.startKey ∧ segment.endPoint = segment.endKey ∧ segment.endKey ≠ segment.startKey

/-- When at every level no edge is left or entered twice, all segments are stitched, each into its level. -/
theorem stitched_of_foldlM (segments : List (Segment EdgePoint)) (hkeyed : ∀ segment ∈ segments, segment.Keyed)
    (hsources : ∀ level, ((edgesAt segments level).map Prod.fst).Nodup)
      (htargets : ∀ level, ((edgesAt segments level).map Prod.snd).Nodup) :
    ∃ levels, segments.foldlM stitch .empty = some levels ∧ (∀ level, (levelOf levels level).Stitched (edgesAt segments level)) ∧
      ∀ level, edgesAt segments level = [] → levels.get? level = none := by
  induction segments using List.reverseRecOn with
  | nil => exact ⟨.empty, rfl, fun level => Level.Stitched.empty, fun level _ => rfl⟩
  | append_singleton segments segment ih =>
    have hshorter : ∀ level, (edgesAt segments level).Sublist (edgesAt (segments ++ [segment]) level) := fun level => by
      rw [edgesAt_concat]
      exact List.sublist_append_left _ _
    obtain ⟨levels, hlevels, hstitched, hnone⟩ := ih (fun s hs => hkeyed s (List.mem_append_left _ hs))
      (fun level => (hsources level).sublist ((hshorter level).map _))
        (fun level => (htargets level).sublist ((hshorter level).map _))
    obtain ⟨hstart, hend, hne⟩ := hkeyed segment (List.mem_append_right _ List.mem_cons_self)
    have hown : edgesAt (segments ++ [segment]) segment.level = edgesAt segments segment.level ++
      [(segment.startKey, segment.endKey)] := by
      rw [edgesAt_concat, if_pos rfl]
    have hsource : segment.startKey ∉ (edgesAt segments segment.level).map Prod.fst := by
      have hnodup := hsources segment.level
      rw [hown, List.map_append] at hnodup
      exact fun hmem => List.disjoint_of_nodup_append hnodup hmem List.mem_cons_self
    have htarget : segment.endKey ∉ (edgesAt segments segment.level).map Prod.snd := by
      have hnodup := htargets segment.level
      rw [hown, List.map_append] at hnodup
      exact fun hmem => List.disjoint_of_nodup_append hnodup hmem List.mem_cons_self
    obtain ⟨s', hs', hstitched'⟩ := (hstitched segment.level).stitchSegment hne hsource htarget
    refine ⟨levels.insert segment.level s', ?_, fun level => ?_, fun level hlevel => ?_⟩
    · rw [List.foldlM_append, hlevels]
      show (stitch levels segment).bind some = _
      unfold stitch
      rw [hstart, hend]
      unfold levelOf at hs'
      rw [hs']
      rfl
    · rw [levelOf_insert, edgesAt_concat]
      by_cases hlevel : level = segment.level
      · subst hlevel
        rw [if_pos rfl, if_pos rfl]
        exact ⟨hstitched'.indexed, hstitched'.completed, hstitched'.perm.trans (List.perm_append_singleton _ _).symm⟩
      · rw [if_neg hlevel, if_neg (Ne.symm hlevel), List.append_nil]
        exact hstitched level
    · have hne' : level ≠ segment.level := fun heq => by
        rw [heq, hown] at hlevel
        exact List.append_ne_nil_of_right_ne_nil _ (by simp) hlevel
      rw [edgesAt_concat, if_neg (Ne.symm hne'), List.append_nil] at hlevel
      rw [OrderedMap.get?_insert_of_ne hne']
      exact hnone level hlevel

/-! ## Lemmas on marching squares -/

/-! ## The table of segments -/

def cellEdges : List CellEdge := [edgeA, edgeB, edgeC, edgeD]

/-- The corners of an edge of the cell, in clockwise order. -/
def firstCorner (x y : ℤ) (e : CellEdge) : ℤ × ℤ :=
  if e = edgeA then (x, y) else if e = edgeB then (x + 1, y) else if e = edgeC then (x + 1, y + 1) else (x, y + 1)

def secondCorner (x y : ℤ) (e : CellEdge) : ℤ × ℤ :=
  if e = edgeA then (x + 1, y) else if e = edgeB then (x + 1, y + 1) else if e = edgeC then (x, y + 1) else (x, y)

/-- The same for what is said of the corners. -/
def firstFlag (tl tr br bl : Bool) (e : CellEdge) : Bool :=
  if e = edgeA then tl else if e = edgeB then tr else if e = edgeC then br else bl

def secondFlag (tl tr br bl : Bool) (e : CellEdge) : Bool :=
  if e = edgeA then tr else if e = edgeB then br else if e = edgeC then bl else tl

/-- Where the segments of the table start and end. -/
theorem segmentsFor_ends (tl tr br bl saddle : Bool) :
    ∀ p ∈ segmentsFor (caseOf tl tr br bl) saddle, p.1 ∈ cellEdges ∧ p.2 ∈ cellEdges ∧ p.2 ≠ p.1 ∧
      firstFlag tl tr br bl p.1 = false ∧ secondFlag tl tr br bl p.1 = true ∧
      firstFlag tl tr br bl p.2 = true ∧ secondFlag tl tr br bl p.2 = false := by
  cases tl <;> cases tr <;> cases br <;> cases bl <;> cases saddle <;> decide

/-- Every edge that the threshold crosses is the start or the end of a segment. -/
theorem mem_segmentsFor (tl tr br bl saddle : Bool) :
    ∀ e ∈ cellEdges,
      (firstFlag tl tr br bl e = false → secondFlag tl tr br bl e = true →
        e ∈ (segmentsFor (caseOf tl tr br bl) saddle).map Prod.fst) ∧
      (firstFlag tl tr br bl e = true → secondFlag tl tr br bl e = false →
        e ∈ (segmentsFor (caseOf tl tr br bl) saddle).map Prod.snd) := by
  cases tl <;> cases tr <;> cases br <;> cases bl <;> cases saddle <;> decide

/-- No two segments of a cell start or end on the same edge. -/
theorem segmentsFor_nodup (tl tr br bl saddle : Bool) :
    ((segmentsFor (caseOf tl tr br bl) saddle).map Prod.fst).Nodup ∧
      ((segmentsFor (caseOf tl tr br bl) saddle).map Prod.snd).Nodup := by
  cases tl <;> cases tr <;> cases br <;> cases bl <;> cases saddle <;> decide

/-- Cells share only edges, along which they go in opposite directions. -/
theorem shared_edge {x y x' y' : ℤ} {e e' : CellEdge} (he : e ∈ cellEdges) (he' : e' ∈ cellEdges)
    (hkey : edgeKey x y e = edgeKey x' y' e') (hne : (x, y) ≠ (x', y')) :
    firstCorner x y e = secondCorner x' y' e' ∧ secondCorner x y e = firstCorner x' y' e' := by
  have hx : x * 2 + e.1 = x' * 2 + e'.1 := congrArg Prod.fst (toLex.injective hkey)
  have hy : y * 2 + e.2 = y' * 2 + e'.2 := congrArg Prod.snd (toLex.injective hkey)
  simp only [cellEdges, List.mem_cons, List.not_mem_nil, or_false] at he he'
  rcases he with rfl | rfl | rfl | rfl <;> rcases he' with rfl | rfl | rfl | rfl <;>
    simp only [edgeA, edgeB, edgeC, edgeD, firstCorner, secondCorner, Prod.mk.injEq, ne_eq, not_and] at * <;>
    simp <;> omega

/-- Within a cell the edges have different keys. -/
theorem edgeKey_inj {x y : ℤ} {e e' : CellEdge} (h : edgeKey x y e = edgeKey x y e') : e = e' := by
  have hx : x * 2 + e.1 = x * 2 + e'.1 := congrArg Prod.fst (toLex.injective h)
  have hy : y * 2 + e.2 = y * 2 + e'.2 := congrArg Prod.snd (toLex.injective h)
  exact Prod.ext (by omega) (by omega)

/-! ## Cells -/

namespace ElevationGrid

variable (grid : ElevationGrid)

/-- The corner of the grid is above the threshold. -/
def above (t : ℚ) (p : ℤ × ℤ) : Bool := (grid.values p.1 p.2).any fun v => decide (t < v)

theorem corners_eq_some {x y : ℤ} {c : Corners} (h : grid.corners x y = some c) :
    grid.values x y = some c.tl ∧ grid.values (x + 1) y = some c.tr ∧ grid.values (x + 1) (y + 1) = some c.br ∧
      grid.values x (y + 1) = some c.bl := by
  obtain ⟨tl, htl, h⟩ := Option.bind_eq_some_iff.mp h
  obtain ⟨tr, htr, h⟩ := Option.bind_eq_some_iff.mp h
  obtain ⟨br, hbr, h⟩ := Option.bind_eq_some_iff.mp h
  obtain ⟨bl, hbl, h⟩ := Option.bind_eq_some_iff.mp h
  cases h
  exact ⟨htl, htr, hbr, hbl⟩

/-- What the table reads of a cell is what the grid says of its corners. -/
theorem flags_eq {x y : ℤ} {c : Corners} (h : grid.corners x y = some c) (t : ℚ) (e : CellEdge) :
    firstFlag (decide (t < c.tl)) (decide (t < c.tr)) (decide (t < c.br)) (decide (t < c.bl)) e = grid.above t
      (firstCorner x y e) ∧
      secondFlag (decide (t < c.tl)) (decide (t < c.tr)) (decide (t < c.br)) (decide (t < c.bl)) e =
        grid.above t (secondCorner x y e) := by
  obtain ⟨htl, htr, hbr, hbl⟩ := grid.corners_eq_some h
  unfold firstFlag secondFlag firstCorner secondCorner above
  constructor
  · split
    · rw [htl, Option.any_some]
    · split
      · rw [htr, Option.any_some]
      · split
        · rw [hbr, Option.any_some]
        · rw [hbl, Option.any_some]
  · split
    · rw [htr, Option.any_some]
    · split
      · rw [hbr, Option.any_some]
      · split
        · rw [hbl, Option.any_some]
        · rw [htl, Option.any_some]

/-- The segments of a cell at a level, between edges. -/
def cellEdgesAt (t : ℚ) (cell : ℤ × ℤ) : List (EdgePoint × EdgePoint) :=
  match grid.corners cell.1 cell.2 with
  | none => []
  | some corners => (corners.segments t).map fun segment => (edgeKey cell.1 cell.2 segment.1, edgeKey cell.1 cell.2 segment.2)

/-- The segments of a level, in the order of the scan. -/
def levelSegments (t : ℚ) : List (EdgePoint × EdgePoint) := grid.cells.flatMap (grid.cellEdgesAt t)

variable {grid} {t : ℚ} {cell : ℤ × ℤ}

/-- A segment of a cell starts on an edge that leads up and ends on one that leads down. -/
theorem of_mem_cellEdgesAt {p : EdgePoint × EdgePoint} (h : p ∈ grid.cellEdgesAt t cell) :
    ∃ e ∈ cellEdges, ∃ f ∈ cellEdges, f ≠ e ∧ p = (edgeKey cell.1 cell.2 e, edgeKey cell.1 cell.2 f) ∧
      (grid.corners cell.1 cell.2).isSome = true ∧
      grid.above t (firstCorner cell.1 cell.2 e) = false ∧ grid.above t (secondCorner cell.1 cell.2 e) = true ∧
      grid.above t (firstCorner cell.1 cell.2 f) = true ∧ grid.above t (secondCorner cell.1 cell.2 f) = false := by
  unfold cellEdgesAt at h
  cases hc : grid.corners cell.1 cell.2 with
  | none =>
    rw [hc] at h
    cases h
  | some c =>
    rw [hc] at h
    obtain ⟨⟨e, f⟩, hmem, rfl⟩ := List.mem_map.mp h
    obtain ⟨he, hf, hne, h1, h2, h3, h4⟩ := segmentsFor_ends _ _ _ _ _ (e, f) hmem
    rw [(grid.flags_eq hc t e).1] at h1
    rw [(grid.flags_eq hc t e).2] at h2
    rw [(grid.flags_eq hc t f).1] at h3
    rw [(grid.flags_eq hc t f).2] at h4
    exact ⟨e, he, f, hf, hne, rfl, rfl, h1, h2, h3, h4⟩

/-- In a cell with data a segment starts on every edge that leads up. -/
theorem source_of_leads_up {e : CellEdge} (hcell : (grid.corners cell.1 cell.2).isSome = true) (he : e ∈ cellEdges)
    (h1 : grid.above t (firstCorner cell.1 cell.2 e) = false) (h2 : grid.above t (secondCorner cell.1 cell.2 e) = true) :
    edgeKey cell.1 cell.2 e ∈ (grid.cellEdgesAt t cell).map Prod.fst := by
  obtain ⟨c, hc⟩ := Option.isSome_iff_exists.mp hcell
  rw [← (grid.flags_eq hc t e).1] at h1
  rw [← (grid.flags_eq hc t e).2] at h2
  obtain ⟨p, hp, rfl⟩ := List.mem_map.mp ((mem_segmentsFor _ _ _ _ (c.saddleAbove t) e he).1 h1 h2)
  unfold cellEdgesAt
  rw [hc, List.map_map]
  exact List.mem_map.mpr ⟨p, hp, rfl⟩

/-- And ends on every edge that leads down. -/
theorem target_of_leads_down {e : CellEdge} (hcell : (grid.corners cell.1 cell.2).isSome = true) (he : e ∈ cellEdges)
    (h1 : grid.above t (firstCorner cell.1 cell.2 e) = true) (h2 : grid.above t (secondCorner cell.1 cell.2 e) = false) :
    edgeKey cell.1 cell.2 e ∈ (grid.cellEdgesAt t cell).map Prod.snd := by
  obtain ⟨c, hc⟩ := Option.isSome_iff_exists.mp hcell
  rw [← (grid.flags_eq hc t e).1] at h1
  rw [← (grid.flags_eq hc t e).2] at h2
  obtain ⟨p, hp, rfl⟩ := List.mem_map.mp ((mem_segmentsFor _ _ _ _ (c.saddleAbove t) e he).2 h1 h2)
  unfold cellEdgesAt
  rw [hc, List.map_map]
  exact List.mem_map.mpr ⟨p, hp, rfl⟩

variable {k : EdgePoint}

/-- What two cells have in common on one level: an edge where one has a segment that starts and the other one that ends. -/
theorem not_both_sources {cell cell' : ℤ × ℤ} (hne : cell ≠ cell')
    (h : k ∈ (grid.cellEdgesAt t cell).map Prod.fst) (h' : k ∈ (grid.cellEdgesAt t cell').map Prod.fst) : False := by
  obtain ⟨p, hp, rfl⟩ := List.mem_map.mp h
  obtain ⟨p', hp', hkey⟩ := List.mem_map.mp h'
  obtain ⟨e, he, f, -, -, rfl, -, hlow, -⟩ := of_mem_cellEdgesAt hp
  obtain ⟨e', he', f', -, -, rfl, -, -, hhigh, -⟩ := of_mem_cellEdgesAt hp'
  rw [(shared_edge he he' hkey.symm hne).1, hhigh] at hlow
  cases hlow

theorem not_both_targets {cell cell' : ℤ × ℤ} (hne : cell ≠ cell')
    (h : k ∈ (grid.cellEdgesAt t cell).map Prod.snd) (h' : k ∈ (grid.cellEdgesAt t cell').map Prod.snd) : False := by
  obtain ⟨p, hp, rfl⟩ := List.mem_map.mp h
  obtain ⟨p', hp', hkey⟩ := List.mem_map.mp h'
  obtain ⟨e, -, f, hf, -, rfl, -, -, -, hhigh, -⟩ := of_mem_cellEdgesAt hp
  obtain ⟨e', -, f', hf', -, rfl, -, -, -, -, hlow⟩ := of_mem_cellEdgesAt hp'
  rw [(shared_edge hf hf' hkey.symm hne).1, hlow] at hhigh
  cases hhigh

/-- Within a cell no edge is left or entered twice. -/
theorem cellEdgesAt_nodup (t : ℚ) (cell : ℤ × ℤ) :
    ((grid.cellEdgesAt t cell).map Prod.fst).Nodup ∧ ((grid.cellEdgesAt t cell).map Prod.snd).Nodup := by
  unfold cellEdgesAt
  cases grid.corners cell.1 cell.2 with
  | none => exact ⟨List.nodup_nil, List.nodup_nil⟩
  | some c =>
    obtain ⟨h1, h2⟩ := segmentsFor_nodup (decide (t < c.tl)) (decide (t < c.tr)) (decide (t < c.br)) (decide (t < c.bl))
      (c.saddleAbove t)
    rw [List.map_map, List.map_map]
    have hinj : Function.Injective (edgeKey cell.1 cell.2) := fun _ _ => edgeKey_inj
    refine ⟨?_, ?_⟩
    · have h := h1.map hinj
      rw [List.map_map] at h
      exact h
    · have h := h2.map hinj
      rw [List.map_map] at h
      exact h

theorem axis_nodup : grid.axis.Nodup := List.nodup_range.map fun a b h => by simpa using h

/-- No cell is scanned twice. -/
theorem cells_nodup : grid.cells.Nodup := by
  refine List.nodup_flatMap.mpr ⟨fun y _ => axis_nodup.map fun a b h => (Prod.mk.inj h).1, ?_⟩
  refine axis_nodup.imp fun {y y'} hne c hc hc' => ?_
  obtain ⟨x, -, rfl⟩ := List.mem_map.mp hc
  obtain ⟨x', -, heq⟩ := List.mem_map.mp hc'
  exact hne (Prod.mk.inj heq).2.symm

/-- On one level no edge is left twice. -/
theorem levelSegments_sources (t : ℚ) : ((grid.levelSegments t).map Prod.fst).Nodup := by
  rw [levelSegments, List.map_flatMap]
  refine List.nodup_flatMap.mpr ⟨fun cell _ => (cellEdgesAt_nodup t cell).1, ?_⟩
  exact cells_nodup.imp fun hne k hk hk' => not_both_sources hne hk hk'

/-- And none is entered twice. -/
theorem levelSegments_targets (t : ℚ) : ((grid.levelSegments t).map Prod.snd).Nodup := by
  rw [levelSegments, List.map_flatMap]
  refine List.nodup_flatMap.mpr ⟨fun cell _ => (cellEdgesAt_nodup t cell).2, ?_⟩
  exact cells_nodup.imp fun hne k hk hk' => not_both_targets hne hk hk'

/-! ## Edges at the border -/

/-- The cells with data. -/
def processed (grid : ElevationGrid) : List (ℤ × ℤ) := grid.cells.filter fun cell => (grid.corners cell.1 cell.2).isSome

/-- The edge is one of the cell's. -/
def Borders (cell : ℤ × ℤ) (k : EdgePoint) : Prop := ∃ e ∈ cellEdges, edgeKey cell.1 cell.2 e = k

/-- Exactly one cell with data has the edge. -/
def AtBorder (grid : ElevationGrid) (k : EdgePoint) : Prop := ∃! cell, cell ∈ grid.processed ∧ Borders cell k

/-- Where a segment starts and none ends, only one cell has data. -/
theorem atBorder_of_source (hsource : k ∈ (grid.levelSegments t).map Prod.fst)
    (htarget : ∀ p ∈ grid.levelSegments t, p.2 ≠ k) : grid.AtBorder k := by
  obtain ⟨p, hp, rfl⟩ := List.mem_map.mp hsource
  obtain ⟨cell, hcell, hp⟩ := List.mem_flatMap.mp hp
  obtain ⟨e, he, f, hf, -, rfl, hdata, hlow, hhigh, -⟩ := of_mem_cellEdgesAt hp
  refine ⟨cell, ⟨List.mem_filter.mpr ⟨hcell, hdata⟩, e, he, rfl⟩, ?_⟩
  rintro cell' ⟨hcell', e', he', hkey⟩
  by_contra hne
  obtain ⟨hmem', hdata'⟩ := List.mem_filter.mp hcell'
  obtain ⟨h1, h2⟩ := shared_edge he' he hkey hne
  have hentered := target_of_leads_down hdata' he' (h1 ▸ hhigh) (h2 ▸ hlow)
  obtain ⟨p', hp', heq⟩ := List.mem_map.mp hentered
  exact htarget p' (List.mem_flatMap.mpr ⟨cell', hmem', hp'⟩) (heq.trans hkey)

/-- Where a segment ends and none starts, only one cell has data. -/
theorem atBorder_of_target (htarget : k ∈ (grid.levelSegments t).map Prod.snd)
    (hsource : ∀ p ∈ grid.levelSegments t, p.1 ≠ k) : grid.AtBorder k := by
  obtain ⟨p, hp, rfl⟩ := List.mem_map.mp htarget
  obtain ⟨cell, hcell, hp⟩ := List.mem_flatMap.mp hp
  obtain ⟨e, he, f, hf, -, rfl, hdata, -, -, hhigh, hlow⟩ := of_mem_cellEdgesAt hp
  refine ⟨cell, ⟨List.mem_filter.mpr ⟨hcell, hdata⟩, f, hf, rfl⟩, ?_⟩
  rintro cell' ⟨hcell', e', he', hkey⟩
  by_contra hne
  obtain ⟨hmem', hdata'⟩ := List.mem_filter.mp hcell'
  obtain ⟨h1, h2⟩ := shared_edge he' hf hkey hne
  have hleft := source_of_leads_up hdata' he' (h1 ▸ hlow) (h2 ▸ hhigh)
  obtain ⟨p', hp', heq⟩ := List.mem_map.mp hleft
  exact hsource p' (List.mem_flatMap.mpr ⟨cell', hmem', hp'⟩) (heq.trans hkey)

end ElevationGrid

/-! ## Thresholds -/

variable {corners : Corners}

/-- The thresholds of a cell are the multiples of the interval that its corners enclose. -/
theorem Corners.mem_thresholds {interval t : ℤ} (h : 0 < interval) :
    t ∈ corners.thresholds interval ↔
      interval ∣ t ∧ min (min (min corners.tl corners.tr) corners.br) corners.bl ≤ t ∧
        t ≤ max (max (max corners.tl corners.tr) corners.br) corners.bl := by
  have hq : (0 : ℚ) < interval := by exact_mod_cast h
  simp only [Corners.thresholds, List.mem_map, List.mem_range]
  generalize min (min (min corners.tl corners.tr) corners.br) corners.bl = low
  generalize max (max (max corners.tl corners.tr) corners.br) corners.bl = high
  have hlow : ∀ n : ℤ, ⌈low / interval⌉ ≤ n ↔ low ≤ ((n * interval : ℤ) : ℚ) := fun n => by
    rw [Int.ceil_le, div_le_iff₀ hq]
    push_cast
    rfl
  have hhigh : ∀ n : ℤ, n ≤ ⌊high / interval⌋ ↔ ((n * interval : ℤ) : ℚ) ≤ high := fun n => by
    rw [Int.le_floor, le_div_iff₀ hq]
    push_cast
    rfl
  have hcount : (⌊high / interval⌋ * interval - ⌈low / interval⌉ * interval) / interval = ⌊high / interval⌋ - ⌈low /
    interval⌉ := by
    rw [← sub_mul, Int.mul_ediv_cancel _ h.ne']
  rw [hcount]
  constructor
  · rintro ⟨k, hk, rfl⟩
    have hsum : ⌈low / interval⌉ * interval + k * interval = (⌈low / interval⌉ + k) * interval := by ring
    rw [hsum]
    exact ⟨Dvd.intro_left _ rfl, (hlow _).mp (by omega), (hhigh _).mp (by omega)⟩
  · rintro ⟨⟨n, rfl⟩, h1, h2⟩
    rw [mul_comm] at h1 h2
    have hn1 := (hlow n).mpr h1
    have hn2 := (hhigh n).mpr h2
    refine ⟨(n - ⌈low / interval⌉).toNat, by omega, ?_⟩
    rw [Int.toNat_of_nonneg (by omega)]
    ring

theorem Corners.thresholds_nodup {interval : ℤ} (h : 0 < interval) : (corners.thresholds interval).Nodup := by
  refine List.nodup_range.map fun a b hab => ?_
  have hmul : (a : ℤ) * interval = b * interval := by simpa using hab
  exact_mod_cast Int.eq_of_mul_eq_mul_right h.ne' hmul

/-- A threshold that the corners do not enclose cuts no segment. -/
theorem Corners.segments_of_not_enclosed {t : ℚ} (h : ¬(min (min (min corners.tl corners.tr) corners.br) corners.bl ≤ t ∧
      t ≤ max (max (max corners.tl corners.tr) corners.br) corners.bl)) : corners.segments t = [] := by
  rw [not_and_or, not_le, not_le] at h
  unfold Corners.segments
  rcases h with h | h
  · simp only [lt_min_iff] at h
    obtain ⟨⟨⟨h1, h2⟩, h3⟩, h4⟩ := h
    rw [decide_eq_true h1, decide_eq_true h2, decide_eq_true h3, decide_eq_true h4]
    rfl
  · simp only [max_lt_iff] at h
    obtain ⟨⟨⟨h1, h2⟩, h3⟩, h4⟩ := h
    rw [decide_eq_false h1.le.not_gt, decide_eq_false h2.le.not_gt, decide_eq_false h3.le.not_gt, decide_eq_false h4.le.not_gt]
    rfl

/-! ## The segments of a level -/

variable {P : Type}

theorem edgesAt_append (l m : List (Segment P)) (t : ℤ) : edgesAt (l ++ m) t = edgesAt l t ++ edgesAt m t := by
  unfold edgesAt
  rw [List.filter_append, List.map_append]

theorem edgesAt_of_forall {l : List (Segment P)} {t : ℤ} (h : ∀ s ∈ l, s.level = t) :
    edgesAt l t = l.map fun s => (s.startKey, s.endKey) := by
  rw [edgesAt, List.filter_eq_self.mpr fun s hs => decide_eq_true (h s hs)]

theorem edgesAt_of_forall_ne {l : List (Segment P)} {t : ℤ} (h : ∀ s ∈ l, s.level ≠ t) : edgesAt l t = [] := by
  rw [edgesAt, List.filter_eq_nil_iff.mpr fun s hs hl => h s hs (of_decide_eq_true hl), List.map_nil]

theorem edgesAt_flatMap {P α : Type} (l : List α) (f : α → List (Segment P)) (t : ℤ) :
    edgesAt (l.flatMap f) t = l.flatMap fun a => edgesAt (f a) t := by
  induction l with
  | nil => rfl
  | cons a l ih => rw [List.flatMap_cons, List.flatMap_cons, edgesAt_append, ih]

/-- Of segments that are made level by level, those of one level. -/
theorem edgesAt_levels {levels : List ℤ} (hnodup : levels.Nodup) {f : ℤ → List (Segment P)} (hf : ∀ t, ∀ s ∈ f t, s.level = t)
    (t : ℤ) :
    edgesAt (levels.flatMap f) t = if t ∈ levels then (f t).map fun s => (s.startKey, s.endKey) else [] := by
  induction levels with
  | nil => rfl
  | cons u levels ih =>
    obtain ⟨hu, hrest⟩ := List.nodup_cons.mp hnodup
    rw [List.flatMap_cons, edgesAt_append, ih hrest]
    by_cases htu : t = u
    · subst htu
      rw [edgesAt_of_forall (hf t), if_neg hu, if_pos List.mem_cons_self, List.append_nil]
    · rw [edgesAt_of_forall_ne fun s hs heq => htu (heq.symm.trans (hf u s hs)), List.nil_append]
      simp only [List.mem_cons, htu, false_or]

namespace ElevationGrid

variable {grid : ElevationGrid} {P : Type} {interval : ℤ}

/-- What the scan stitches for a cell at a level. -/
theorem edgesAt_cellSegments (h : 0 < interval) (point : ℤ → ℤ → CellEdge → ℤ → Corners → P) (cell : ℤ × ℤ) (t : ℤ) :
    edgesAt (grid.cellSegments interval point cell) t = if interval ∣ t then grid.cellEdgesAt t cell else [] := by
  unfold cellSegments cellEdgesAt
  cases grid.corners cell.1 cell.2 with
  | none => rw [ite_self]; rfl
  | some corners =>
    have hlevel : ∀ t : ℤ, ∀ s ∈ ((corners.segments t).map fun segment =>
        (⟨t, edgeKey cell.1 cell.2 segment.1, edgeKey cell.1 cell.2 segment.2, point cell.1 cell.2 segment.1 t corners,
          point cell.1 cell.2 segment.2 t corners⟩ : Segment P)), s.level = t := by
      intro t s hs
      obtain ⟨segment, -, rfl⟩ := List.mem_map.mp hs
      rfl
    simp only
    rw [edgesAt_levels (corners.thresholds_nodup h) hlevel, List.map_map]
    by_cases hdvd : interval ∣ t
    · rw [if_pos hdvd]
      by_cases hmem : t ∈ corners.thresholds interval
      · rw [if_pos hmem]
        rfl
      · have hempty : corners.segments t = [] := by
          refine Corners.segments_of_not_enclosed fun henclosed => hmem ?_
          exact (Corners.mem_thresholds h).mpr ⟨hdvd, henclosed⟩
        rw [if_neg hmem, hempty, List.map_nil]
    · rw [if_neg hdvd, if_neg fun hmem => hdvd ((Corners.mem_thresholds h).mp hmem).1]

/-- What the scan stitches at a level. -/
theorem edgesAt_scan (h : 0 < interval) (point : ℤ → ℤ → CellEdge → ℤ → Corners → P) (t : ℤ) :
    edgesAt (grid.cells.flatMap (grid.cellSegments interval point)) t = if interval ∣ t then grid.levelSegments t else [] := by
  rw [edgesAt_flatMap]
  by_cases hdvd : interval ∣ t
  · rw [if_pos hdvd]
    refine List.flatMap_congr fun cell _ => ?_
    rw [edgesAt_cellSegments h, if_pos hdvd]
  · rw [if_neg hdvd]
    refine List.flatMap_eq_nil_iff.mpr fun cell _ => ?_
    rw [edgesAt_cellSegments h, if_neg hdvd]

/-- The segments of the scan, with their edges for points. -/
theorem scan_keyed :
    ∀ s ∈ grid.cells.flatMap (grid.cellSegments interval fun x y point _ _ => edgeKey x y point), s.Keyed := by
  intro s hs
  obtain ⟨cell, -, hs⟩ := List.mem_flatMap.mp hs
  unfold cellSegments at hs
  split at hs
  · cases hs
  · rename_i corners hcorners
    obtain ⟨t, -, hs⟩ := List.mem_flatMap.mp hs
    obtain ⟨segment, hsegment, rfl⟩ := List.mem_map.mp hs
    refine ⟨rfl, rfl, fun heq => ?_⟩
    have hne := (segmentsFor_ends _ _ _ _ _ segment hsegment).2.2.1
    exact hne (edgeKey_inj heq)

end ElevationGrid

/-! ## Points of any kind -/

def Fragment.map {P Q : Type} (f : P → Q) (fragment : Fragment P) : Fragment Q :=
    ⟨fragment.start, fragment.stop, fragment.points.map f⟩

def Level.map {P Q : Type} (f : P → Q) (s : Level P) : Level Q :=
  ⟨s.starts.mapValues fun _ => Fragment.map f, s.ends, s.completed.map (List.map f)⟩

def Segment.map {P Q : Type} (f : ℤ → P → Q) (segment : Segment P) : Segment Q :=
  ⟨segment.level, segment.startKey, segment.endKey, f segment.level segment.startPoint, f segment.level segment.endPoint⟩

section Natural

variable {P Q : Type}

/-- Stitching does not look at the points. -/
theorem Level.stitchSegment_map (f : P → Q) (s : Level P) (a b : EdgePoint) (p q : P) :
    (s.map f).stitchSegment a b (f p) (f q) = (s.stitchSegment a b p q).map (Level.map f) := by
  unfold Level.stitchSegment
  simp only [Level.map, OrderedMap.get?_mapValues, ← OrderedMap.mapValues_erase]
  cases s.ends.get? a with
  | some k =>
    simp only
    cases s.starts.get? k with
    | none => rfl
    | some fragment =>
      simp only [Option.map_some, Fragment.map]
      split
      · simp only [Option.map_some, Level.map, List.map_append, List.map_cons, List.map_nil]
      · cases (s.starts.erase k).get? b with
        | none => simp [Level.map, OrderedMap.mapValues_insert, Fragment.map]
        | some other => simp [Level.map, OrderedMap.mapValues_insert, Fragment.map]
  | none =>
    simp only
    cases s.starts.get? b with
    | none => simp [Level.map, OrderedMap.mapValues_insert, Fragment.map]
    | some fragment => simp [Level.map, OrderedMap.mapValues_insert, Fragment.map]

theorem Level.lines_map (f : P → Q) (s : Level P) : (s.map f).lines = s.lines.map (List.map f) := by
  unfold Level.lines Level.map OrderedMap.values OrderedMap.mapValues
  simp [List.filter_map, Function.comp_def, Fragment.map]

theorem stitch_map (f : ℤ → P → Q) (levels : OrderedMap ℤ (Level P)) (segment : Segment P) :
    stitch (levels.mapValues fun t => Level.map (f t)) (segment.map f) =
      (stitch levels segment).map (OrderedMap.mapValues fun t => Level.map (f t)) := by
  unfold stitch
  have hlevel : (((levels.mapValues fun t => Level.map (f t)).get? segment.level).getD Level.empty) =
      ((levels.get? segment.level).getD Level.empty).map (f segment.level) := by
    rw [OrderedMap.get?_mapValues]
    cases levels.get? segment.level <;> rfl
  simp only [Segment.map, hlevel, Level.stitchSegment_map, Option.map_map]
  congr 1
  funext s
  exact (OrderedMap.mapValues_insert _ _ _ _).symm

theorem foldlM_stitch_map (f : ℤ → P → Q) (segments : List (Segment P)) (levels : OrderedMap ℤ (Level P)) :
    (segments.map (Segment.map f)).foldlM stitch (levels.mapValues fun t => Level.map (f t)) =
      (segments.foldlM stitch levels).map (OrderedMap.mapValues fun t => Level.map (f t)) := by
  induction segments generalizing levels with
  | nil => rfl
  | cons segment segments ih =>
    rw [List.map_cons, List.foldlM_cons, List.foldlM_cons, stitch_map]
    cases hs : stitch levels segment with
    | none => rfl
    | some levels' => exact ih levels'

/-- Marching squares does not look at the points: those of one kind can be replaced by those of another. -/
theorem ElevationGrid.marchingSquaresWith_map {grid : ElevationGrid} {interval : ℤ} {point : ℤ → ℤ → CellEdge → ℤ → Corners → P}
    {point' : ℤ → ℤ → CellEdge → ℤ → Corners → Q} (f : ℤ → P → Q)
    (h : ∀ x y corners, grid.corners x y = some corners → ∀ t : ℤ, ∀ segment ∈ corners.segments t,
      point' x y segment.1 t corners = f t (point x y segment.1 t corners) ∧
        point' x y segment.2 t corners = f t (point x y segment.2 t corners)) :
    grid.marchingSquaresWith interval point' =
      (grid.marchingSquaresWith interval point).map (OrderedMap.mapValues fun t lines => lines.map (List.map (f t))) := by
  have hcell : ∀ cell, grid.cellSegments interval point' cell = (grid.cellSegments interval point cell).map (Segment.map f) := by
    intro cell
    unfold ElevationGrid.cellSegments
    cases hcorners : grid.corners cell.1 cell.2 with
    | none => rfl
    | some corners =>
      simp only [List.map_flatMap, List.map_map]
      refine List.flatMap_congr fun t _ => List.map_congr_left fun segment hsegment => ?_
      obtain ⟨h1, h2⟩ := h cell.1 cell.2 corners hcorners t segment hsegment
      simp only [Function.comp_apply, Segment.map, h1, h2]
  have hscan : grid.cells.flatMap (grid.cellSegments interval point') =
      (grid.cells.flatMap (grid.cellSegments interval point)).map (Segment.map f) := by
    rw [List.map_flatMap]
    exact List.flatMap_congr fun cell _ => hcell cell
  unfold ElevationGrid.marchingSquaresWith
  rw [hscan, show (OrderedMap.empty : OrderedMap ℤ (Level Q)) = OrderedMap.empty.mapValues fun t => Level.map (f t) from rfl,
    foldlM_stitch_map, Option.map_map, Option.map_map]
  congr 1
  funext levels
  refine OrderedMap.ext_get? fun t => ?_
  simp only [Function.comp_apply, OrderedMap.get?_mapValues, Option.map_map, Function.comp_def, Level.lines_map]

end Natural

/-! ## Crossings -/

namespace ElevationGrid

/-- The elevation of a corner that has data. -/
def value (grid : ElevationGrid) (x y : ℤ) : ℚ := (grid.values x y).getD 0

/-- Where the level crosses an edge of the grid. -/
def crossing (grid : ElevationGrid) (t : ℤ) (k : EdgePoint) : MvtCoord :=
  let x := (ofLex k).1 / 2
  let y := (ofLex k).2 / 2
  if (ofLex k).1 % 2 = 0 then
    ⟨f64Round (x * grid.scale), f64Round ((y + (t - grid.value x y) / (grid.value x (y + 1) - grid.value x y)) * grid.scale)⟩
  else ⟨f64Round ((x + (t - grid.value x y) / (grid.value (x + 1) y - grid.value x y)) * grid.scale), f64Round (y * grid.scale)⟩

/-- What a cell interpolates depends only on the edge, so that the cells at an edge agree. -/
theorem interpolate_eq_crossing {grid : ElevationGrid} {x y : ℤ} {c : Corners} (h : grid.corners x y = some c) (t : ℤ)
    {e : CellEdge}
    (he : e ∈ cellEdges) : interpolate x y e t c grid.scale = grid.crossing t (edgeKey x y e) := by
  obtain ⟨htl, htr, hbr, hbl⟩ := grid.corners_eq_some h
  have hvalue : ∀ {x y : ℤ} {v : ℚ}, grid.values x y = some v → grid.value x y = v :=
    fun hv => by rw [value, hv, Option.getD_some]
  have hhalf : ∀ n : ℤ, (n * 2 + 1) / 2 = n ∧ (n * 2 + 0) / 2 = n ∧ (n * 2 + 2) / 2 = n + 1 := fun n => by omega
  have hodd : ∀ n : ℤ, ¬(n * 2 + 1) % 2 = 0 := fun n => by omega
  have heven : ∀ n : ℤ, (n * 2 + 0) % 2 = 0 ∧ (n * 2 + 2) % 2 = 0 := fun n => by omega
  simp only [cellEdges, List.mem_cons, List.not_mem_nil, or_false] at he
  rcases he with rfl | rfl | rfl | rfl
  · simp only [interpolate, crossing, edgeKey, edgeA, ofLex_toLex, (hhalf _).1, (hhalf _).2.1, if_neg (hodd x), hvalue htl,
      hvalue htr]
    norm_num
  · simp only [interpolate, crossing, edgeKey, edgeB, ofLex_toLex, (hhalf _).1, (hhalf _).2.2, if_pos (heven x).2, hvalue htr,
      hvalue hbr]
    norm_num
  · simp only [interpolate, crossing, edgeKey, edgeC, ofLex_toLex, (hhalf _).1, (hhalf _).2.2, if_neg (hodd x), hvalue hbl,
      hvalue hbr]
    norm_num
  · simp only [interpolate, crossing, edgeKey, edgeD, ofLex_toLex, (hhalf _).1, (hhalf _).2.1, if_pos (heven x).1, hvalue htl,
      hvalue hbl]
    norm_num

/-- The polylines of marching squares, as the edges that they cross. -/
theorem marchingSquares_eq (grid : ElevationGrid) (interval : ℤ) :
    grid.marchingSquares interval =
      (grid.marchingSquaresWith interval fun x y point _ _ => edgeKey x y point).map
        (OrderedMap.mapValues fun t lines => lines.map (List.map (grid.crossing t))) := by
  refine marchingSquaresWith_map grid.crossing fun x y corners hcorners t segment hsegment => ?_
  obtain ⟨h1, h2, -⟩ := segmentsFor_ends _ _ _ _ _ segment hsegment
  exact ⟨interpolate_eq_crossing hcorners t h1, interpolate_eq_crossing hcorners t h2⟩

/-- What marching squares stitches: on every level its segments, and nothing between the levels. -/
theorem exists_stitched (grid : ElevationGrid) {interval : ℤ} (hinterval : 0 < interval) :
    ∃ levels : OrderedMap ℤ (Level EdgePoint),
      grid.marchingSquares interval = some (levels.mapValues fun t level => level.lines.map (List.map (grid.crossing t))) ∧
        ∀ t, (interval ∣ t → (levelOf levels t).Stitched (grid.levelSegments t)) ∧ (¬interval ∣ t → levels.get? t = none) := by
  have hscan : ∀ t, edgesAt (grid.cells.flatMap (grid.cellSegments interval fun x y point _ _ => edgeKey x y point)) t =
      if interval ∣ t then grid.levelSegments t else [] := edgesAt_scan hinterval _
  obtain ⟨levels, hlevels, hstitched, hnone⟩ := stitched_of_foldlM
    (grid.cells.flatMap (grid.cellSegments interval fun x y point _ _ => edgeKey x y point)) scan_keyed
    (fun t => by
      rw [hscan]
      split
      · exact levelSegments_sources t
      · exact List.nodup_nil)
    (fun t => by
      rw [hscan]
      split
      · exact levelSegments_targets t
      · exact List.nodup_nil)
  refine ⟨levels, ?_, fun t => ⟨fun hdvd => ?_, fun hdvd => ?_⟩⟩
  · rw [grid.marchingSquares_eq, marchingSquaresWith, hlevels]
    refine congrArg some (OrderedMap.ext_get? fun t => ?_)
    simp only [OrderedMap.get?_mapValues, Option.map_map, Function.comp_def]
  · have hlevel := hstitched t
    rwa [hscan, if_pos hdvd] at hlevel
  · exact hnone t (by rw [hscan, if_neg hdvd])

end ElevationGrid

end Biei.Terrain
