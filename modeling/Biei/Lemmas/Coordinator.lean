import Biei.Lemmas.Headers

/-!
# What the operations of a tileset's fetch state do

One specification per operation, and the list of the ranges that are outstanding for a tileset.
-/

namespace Biei

namespace TilesetFetchState

/-! ## `enqueue_chunks` -/

/-- Enqueueing one chunk registers its waiter and queues the chunk unless it is in flight; nothing else of the state that
scheduling reads changes. -/
theorem enqueueChunk_spec (st : TilesetFetchState) (now : Instant) (w : Nat) (a : Nat) :
    (st.enqueueChunk now w a).1.waiters = st.waiters ++ [(a, w)] ∧
    (st.enqueueChunk now w a).1.inflightChunks = st.inflightChunks ∧
    (st.enqueueChunk now w a).1.inflightFetchCount = st.inflightFetchCount ∧
    (st.enqueueChunk now w a).1.schedulerRunning = st.schedulerRunning ∧
    ∀ c, c ∈ (st.enqueueChunk now w a).1.pendingChunks ↔ c ∈ st.pendingChunks ∨ (c = a ∧ a ∉ st.inflightChunks) := by
  unfold enqueueChunk
  by_cases hi : a ∈ st.inflightChunks
  · simp [hi]
  · by_cases hp : a ∈ st.pendingChunks
    · simp only [hi, hp, if_true, if_false, true_and, not_false_eq_true, and_true]
      intro c
      refine ⟨Or.inl, ?_⟩
      rintro (h | rfl)
      · exact h
      · exact hp
    · simp only [hi, hp, if_false, OrderedSet.mem_insert, true_and, not_false_eq_true, and_true]
      intro c
      tauto

/-- Enqueueing registers one waiter per requested chunk, in order, and queues the chunks that are not in flight. -/
theorem enqueueChunks_spec (cs : List Nat) (now : Instant) :
    ∀ (st : TilesetFetchState) (w : Nat),
      (st.enqueueChunks now w cs).1.waiters = st.waiters ++ cs.zipIdx w ∧
      (st.enqueueChunks now w cs).1.inflightChunks = st.inflightChunks ∧
      (st.enqueueChunks now w cs).1.inflightFetchCount = st.inflightFetchCount ∧
      (st.enqueueChunks now w cs).1.schedulerRunning = st.schedulerRunning ∧
      ∀ c, c ∈ (st.enqueueChunks now w cs).1.pendingChunks ↔ c ∈ st.pendingChunks ∨ (c ∈ cs ∧ c ∉ st.inflightChunks) := by
  induction cs with
  | nil => intro st w; simp [enqueueChunks]
  | cons a cs ih =>
    intro st w
    obtain ⟨hw, hi, hn, hr, hp⟩ := st.enqueueChunk_spec now w a
    obtain ⟨h1, h2, h3, h4, h5⟩ := ih (st.enqueueChunk now w a).1 (w + 1)
    have hcons : (st.enqueueChunks now w (a :: cs)).1 = ((st.enqueueChunk now w a).1.enqueueChunks now (w + 1) cs).1 := rfl
    rw [hcons]
    refine ⟨?_, h2.trans hi, h3.trans hn, h4.trans hr, fun c => ?_⟩
    · rw [h1, hw, List.append_assoc]
      rfl
    · rw [h5 c, hp c, hi, List.mem_cons]
      constructor
      · rintro ((h | ⟨rfl, h⟩) | ⟨h, h'⟩)
        · exact Or.inl h
        · exact Or.inr ⟨Or.inl rfl, h⟩
        · exact Or.inr ⟨Or.inr h, h'⟩
      · rintro (h | ⟨rfl | h, h'⟩)
        · exact Or.inl (Or.inl h)
        · exact Or.inl (Or.inr ⟨rfl, h'⟩)
        · exact Or.inr ⟨h, h'⟩

theorem enqueueChunks_archiveLen (cs : List Nat) (now : Instant) :
    ∀ (st : TilesetFetchState) (w : Nat), (st.enqueueChunks now w cs).1.archiveLen = st.archiveLen := by
  induction cs with
  | nil => intro st w; rfl
  | cons a cs ih =>
    intro st w
    refine (ih (st.enqueueChunk now w a).1 (w + 1)).trans ?_
    unfold enqueueChunk
    by_cases hi : a ∈ st.inflightChunks
    · simp [hi]
    · by_cases hp : a ∈ st.pendingChunks <;> simp [hi, hp]

/-- The receivers a call gets back are those of its own chunks, in order. -/
theorem enqueueChunks_receivers (cs : List Nat) (now : Instant) :
    ∀ (st : TilesetFetchState) (w : Nat),
      (st.enqueueChunks now w cs).2.map (fun e => (e.chunkIndex, e.receiver)) = cs.zipIdx w := by
  induction cs with
  | nil => intro st w; rfl
  | cons a cs ih =>
    intro st w
    exact congrArg ((a, w) :: ·) (ih (st.enqueueChunk now w a).1 (w + 1))

/-! ## `select_dispatch_groups` -/

/-- Moving ranges to inflight, one after the other. -/
theorem foldl_moveToInflight (rs : List ChunkRange) :
    ∀ st : TilesetFetchState,
      (rs.foldl moveToInflight st).waiters = st.waiters ∧
      (rs.foldl moveToInflight st).schedulerRunning = st.schedulerRunning ∧
      (∀ c, c ∈ (rs.foldl moveToInflight st).inflightChunks ↔ c ∈ st.inflightChunks ∨ ∃ r ∈ rs, r.Covers c) ∧
      ∀ c, c ∈ (rs.foldl moveToInflight st).pendingChunks ↔ c ∈ st.pendingChunks ∧ ¬∃ r ∈ rs, r.Covers c := by
  induction rs with
  | nil => intro st; simp
  | cons r rs ih =>
    intro st
    obtain ⟨h1, h2, h3, h4⟩ := ih (st.moveToInflight r)
    refine ⟨h1, h2, fun c => ?_, fun c => ?_⟩
    · rw [List.foldl_cons, h3 c]
      simp only [moveToInflight, OrderedSet.mem_extend, ChunkRange.mem_chunks, List.mem_cons, exists_eq_or_imp]
      tauto
    · rw [List.foldl_cons, h4 c]
      simp only [moveToInflight, OrderedSet.mem_eraseAll, ChunkRange.mem_chunks, List.mem_cons, exists_eq_or_imp]
      rw [not_or, and_assoc]

theorem foldl_moveToInflight_archiveLen (rs : List ChunkRange) :
    ∀ st : TilesetFetchState, (rs.foldl moveToInflight st).archiveLen = st.archiveLen := by
  induction rs with
  | nil => intro st; rfl
  | cons r rs ih => intro st; exact ih (st.moveToInflight r)

/-- What a selection can do: stop the scheduler because nothing is pending, leave the state alone because no slot is free, or
dispatch the planned ranges, within the free slots. -/
inductive Selected (m : Nat) (st st' : TilesetFetchState) : DispatchDecision → Prop where
  | idle (hp : ∀ c, c ∉ st.pendingChunks) (hst : st' = { st with schedulerRunning := false }) : Selected m st st' .idle
  | throttled (hg : st.plannedGroups m = []) (hst : st' = st) : Selected m st st' .throttled
  | dispatch (queueDelay : Duration) (pendingAtDispatch : Nat)
      (hw : st'.waiters = st.waiters) (hr : st'.schedulerRunning = st.schedulerRunning)
      (hi : ∀ c, c ∈ st'.inflightChunks ↔ c ∈ st.inflightChunks ∨ ∃ r ∈ st.plannedGroups m, r.Covers c)
      (hp : ∀ c, c ∈ st'.pendingChunks ↔ c ∈ st.pendingChunks ∧ ¬∃ r ∈ st.plannedGroups m, r.Covers c)
      (hn : st'.inflightFetchCount = st.inflightFetchCount + (st.plannedGroups m).length)
      (ha : st'.archiveLen = st.archiveLen)
      (hle : st'.inflightFetchCount ≤ maxConcurrentFetchesPerTileset) :
      Selected m st st' (.dispatch (st.plannedGroups m) st.archiveLen queueDelay pendingAtDispatch)

/-- Nothing is planned when nothing is pending. -/
theorem plannedGroups_eq_nil {st : TilesetFetchState} (h : ∀ c, c ∉ st.pendingChunks) (m : Nat) : st.plannedGroups m = [] := by
  have hl : st.pendingChunks.toList = [] := List.eq_nil_iff_forall_not_mem.mpr h
  simp [plannedGroups, contiguousChunkRanges, hl]

theorem selectDispatchGroups_spec (st : TilesetFetchState) (m : Nat) (now : Instant) :
    Selected m st (st.selectDispatchGroups m now).1 (st.selectDispatchGroups m now).2 := by
  unfold selectDispatchGroups
  by_cases hp : st.pendingChunks.isEmpty = true
  · rw [if_pos hp]
    exact Selected.idle (OrderedSet.isEmpty_iff.mp hp) rfl
  · rw [if_neg hp]
    by_cases hn : st.inflightFetchCount ≥ maxConcurrentFetchesPerTileset
    · rw [if_pos hn]
      refine Selected.throttled ?_ rfl
      rw [plannedGroups, Nat.sub_eq_zero_of_le hn, List.take_zero]
    · rw [if_neg hn]
      by_cases hg : (st.plannedGroups m).isEmpty = true
      · simp only [hg, if_true]
        exact Selected.throttled (List.isEmpty_iff.mp hg) rfl
      · simp only [hg, if_false, Bool.false_eq_true]
        obtain ⟨h1, h2, h3, h4⟩ := foldl_moveToInflight (st.plannedGroups m) st
        have ha := foldl_moveToInflight_archiveLen (st.plannedGroups m) st
        refine Selected.dispatch _ _ h1 h2 h3 h4 rfl ha ?_
        have hlen : (st.plannedGroups m).length ≤ maxConcurrentFetchesPerTileset - st.inflightFetchCount :=
          List.length_take_le _ _
        show st.inflightFetchCount + (st.plannedGroups m).length ≤ maxConcurrentFetchesPerTileset
        omega

/-- A selection answers nobody. -/
theorem Selected.waiters_eq {m : Nat} {st st' : TilesetFetchState} {d : DispatchDecision} (h : Selected m st st' d) :
    st'.waiters = st.waiters := by
  cases h with
  | idle _ hst => rw [hst]
  | throttled _ hst => rw [hst]
  | dispatch _ _ hw => exact hw

theorem Selected.archiveLen_eq {m : Nat} {st st' : TilesetFetchState} {d : DispatchDecision} (h : Selected m st st' d) :
    st'.archiveLen = st.archiveLen := by
  cases h with
  | idle _ hst => rw [hst]
  | throttled _ hst => rw [hst]
  | dispatch _ _ _ _ _ _ _ ha => exact ha

/-! ## `complete_group` -/

/-- What the waiters of a list of chunks are sent, chunk by chunk and in order of registration. -/
def answers (waiters : List (Nat × Nat)) (closed : Nat → Bool) (result : GroupResult) (cs : List Nat) :
    List WaiterSend :=
  cs.flatMap fun c => (waiters.filter fun e => e.1 == c).map fun e => ⟨e.2, chunkResult result c, !closed e.2⟩

/-- The loop of `complete_group` over distinct chunks: by induction on them, since taking the waiters of one chunk out leaves
the waiters of the others. -/
theorem foldl_completeChunk (closed : Nat → Bool) (result : GroupResult) (cs : List Nat) (hcs : cs.Nodup) :
    ∀ acc : TilesetFetchState × List WaiterSend,
      let fin := cs.foldl (completeChunk closed result) acc
      fin.1.waiters = acc.1.waiters.filter (fun e => decide (e.1 ∉ cs)) ∧
      fin.1.pendingChunks = acc.1.pendingChunks ∧
      fin.1.schedulerRunning = acc.1.schedulerRunning ∧
      fin.1.inflightFetchCount = acc.1.inflightFetchCount ∧
      (∀ c, c ∈ fin.1.inflightChunks ↔ c ∈ acc.1.inflightChunks ∧ c ∉ cs) ∧
      fin.2 = acc.2 ++ answers acc.1.waiters closed result cs := by
  induction cs with
  | nil => intro acc; simp [answers]
  | cons a cs ih =>
    intro acc
    obtain ⟨ha, hcs'⟩ := List.nodup_cons.mp hcs
    obtain ⟨h1, h2, h3, h4, h5, h6⟩ := ih hcs' (completeChunk closed result acc a)
    refine ⟨?_, h2, h3, h4, fun c => ?_, ?_⟩
    · rw [List.foldl_cons, h1, completeChunk, List.filter_filter]
      refine List.filter_congr fun e _ => ?_
      by_cases hea : e.1 = a <;> simp [hea]
    · rw [List.foldl_cons, h5 c, completeChunk, OrderedSet.mem_erase, List.mem_cons]
      tauto
    · rw [List.foldl_cons, h6, completeChunk, List.append_assoc, answers, answers, List.flatMap_cons]
      congr 1
      congr 1
      refine List.flatMap_congr fun c hc => ?_
      rw [List.filter_filter]
      congr 1
      refine List.filter_congr fun e _ => ?_
      have hca : c ≠ a := fun h => ha (h ▸ hc)
      by_cases hec : e.1 = c
      · simp [hec, hca]
      · simp [hec]

/-- Completing a group frees one slot, takes its chunks out of inflight, and answers exactly the waiters of its chunks. -/
theorem completeGroup_spec (st : TilesetFetchState) (closed : Nat → Bool) (r : ChunkRange) (result : GroupResult) :
    (st.completeGroup closed r result).1.waiters = st.waiters.filter (fun e => decide (¬r.Covers e.1)) ∧
    (st.completeGroup closed r result).1.pendingChunks = st.pendingChunks ∧
    (st.completeGroup closed r result).1.schedulerRunning = st.schedulerRunning ∧
    (st.completeGroup closed r result).1.inflightFetchCount = st.inflightFetchCount - 1 ∧
    (∀ c, c ∈ (st.completeGroup closed r result).1.inflightChunks ↔ c ∈ st.inflightChunks ∧ ¬r.Covers c) ∧
    (st.completeGroup closed r result).2 = answers st.waiters closed result r.chunks := by
  obtain ⟨h1, h2, h3, h4, h5, h6⟩ := foldl_completeChunk closed result r.chunks r.nodup_chunks
    ({ st with
        inflightFetchCount := st.inflightFetchCount - 1
        capacityAvailable :=
          if decide (st.inflightFetchCount ≥ maxConcurrentFetchesPerTileset) && !st.pendingChunks.isEmpty then
            st.capacityAvailable.notifyOne
          else st.capacityAvailable }, [])
  refine ⟨h1.trans ?_, h2, h3, h4, fun c => (h5 c).trans ?_, h6.trans (List.nil_append _)⟩
  · exact List.filter_congr fun e _ => by simp
  · simp

theorem foldl_completeChunk_archiveLen (closed : Nat → Bool) (result : GroupResult) (cs : List Nat) :
    ∀ acc : TilesetFetchState × List WaiterSend, (cs.foldl (completeChunk closed result) acc).1.archiveLen =
      acc.1.archiveLen := by
  induction cs with
  | nil => intro acc; rfl
  | cons a cs ih => intro acc; exact ih (completeChunk closed result acc a)

theorem completeGroup_archiveLen (st : TilesetFetchState) (closed : Nat → Bool) (r : ChunkRange) (result : GroupResult) :
    (st.completeGroup closed r result).1.archiveLen = st.archiveLen :=
  foldl_completeChunk_archiveLen closed result r.chunks _

/-- An answered waiter was registered for a chunk of the list. -/
theorem mem_answers {waiters : List (Nat × Nat)} {closed : Nat → Bool} {result : GroupResult} {cs : List Nat}
    {x : WaiterSend} :
    x ∈ answers waiters closed result cs ↔
      ∃ c ∈ cs, (c, x.waiter) ∈ waiters ∧ x.result = chunkResult result c ∧ x.delivered = !closed x.waiter := by
  simp only [answers, List.mem_flatMap, List.mem_map, List.mem_filter, beq_iff_eq]
  constructor
  · rintro ⟨c, hc, ⟨c', w⟩, ⟨he, rfl⟩, rfl⟩
    exact ⟨c', hc, he, rfl, rfl⟩
  · rintro ⟨c, hc, he, hr, hd⟩
    refine ⟨c, hc, (c, x.waiter), ⟨he, rfl⟩, ?_⟩
    cases x
    simp_all

/-- No waiter is answered twice by one completion: the chunks are distinct and so are the waiters. -/
theorem nodup_answers {waiters : List (Nat × Nat)} (hw : (waiters.map Prod.snd).Nodup) (closed : Nat → Bool)
    (result : GroupResult) {cs : List Nat} (hcs : cs.Nodup) :
    ((answers waiters closed result cs).map WaiterSend.waiter).Nodup := by
  have hmap : (answers waiters closed result cs).map WaiterSend.waiter =
      cs.flatMap fun c => (waiters.filter fun e => e.1 == c).map Prod.snd := by
    simp only [answers, List.map_flatMap, List.map_map]
    rfl
  rw [hmap, List.nodup_flatMap]
  refine ⟨fun c _ => hw.sublist (List.Sublist.map _ List.filter_sublist), hcs.imp fun {a b} hab => ?_⟩
  intro w ha hb
  simp only [List.mem_map, List.mem_filter, beq_iff_eq] at ha hb
  obtain ⟨e, ⟨he, hea⟩, hew⟩ := ha
  obtain ⟨e', ⟨he', heb⟩, hew'⟩ := hb
  have hee : e = e' := List.inj_on_of_nodup_map hw he he' (hew.trans hew'.symm)
  exact hab (by rw [← hea, ← heb, hee])

end TilesetFetchState

/-! ## Outstanding ranges -/

namespace Coordinator

variable {T : Type}

/-- The tileset and the range of each dispatched group. -/
def spans (s : Coordinator T) : List (T × ChunkRange) := s.groups.map fun g => (g.tilesetId, g.chunkRange)

/-- A group that moves to another phase keeps its tileset and its range. -/
theorem spans_setPhase {s : Coordinator T} {i : Nat} {g : DispatchedGroup T} (hg : s.groups[i]? = some g) (p : GroupPhase) :
    (s.setPhase i g p).spans = s.spans := by
  obtain ⟨hi, rfl⟩ := List.getElem?_eq_some_iff.mp hg
  have hi' : i < (s.groups.map fun g => (g.tilesetId, g.chunkRange)).length := by simpa using hi
  simp only [spans, setPhase, List.map_set]
  conv_rhs => rw [← List.set_getElem_self hi']
  simp

variable [DecidableEq T]

/-- The ranges of the dispatched groups of a tileset that have not completed. -/
def outstanding (s : Coordinator T) (t : T) : List ChunkRange := (s.spans.filter fun p => p.1 = t).map Prod.snd

theorem mem_outstanding {s : Coordinator T} {t : T} {r : ChunkRange} :
    r ∈ s.outstanding t ↔ ∃ g ∈ s.groups, g.tilesetId = t ∧ g.chunkRange = r := by
  simp only [outstanding, spans, List.mem_map, List.mem_filter, decide_eq_true_eq]
  constructor
  · rintro ⟨p, ⟨⟨g, hg, rfl⟩, ht⟩, rfl⟩
    exact ⟨g, hg, ht, rfl⟩
  · rintro ⟨g, hg, ht, rfl⟩
    exact ⟨_, ⟨⟨g, hg, rfl⟩, ht⟩, rfl⟩

/-- The outstanding ranges after new groups were dispatched for a tileset. -/
theorem outstanding_append {s s' : Coordinator T} {t : T} {rs : List ChunkRange}
    (h : s'.spans = s.spans ++ rs.map fun r => (t, r)) (t' : T) :
    s'.outstanding t' = if t' = t then s.outstanding t' ++ rs else s.outstanding t' := by
  unfold outstanding
  rw [h, List.filter_append, List.map_append]
  by_cases ht : t' = t
  · subst ht
    rw [if_pos rfl]
    simp [List.filter_map, Function.comp_def]
  · rw [if_neg ht]
    have hnil : (rs.map fun r => (t, r)).filter (fun p => p.1 = t') = [] := by
      simp [List.filter_eq_nil_iff, Ne.symm ht]
    rw [hnil]
    simp

/-- Taking group `i` out takes its range out of its own tileset's outstanding ranges, once, and leaves the others. -/
theorem outstanding_eraseIdx {s s' : Coordinator T} {i : Nat} {g : DispatchedGroup T} (hg : s.groups[i]? = some g)
    (h : s'.spans = s.spans.eraseIdx i) :
    (s.outstanding g.tilesetId).Perm (g.chunkRange :: s'.outstanding g.tilesetId) ∧
      ∀ t', t' ≠ g.tilesetId → (s.outstanding t').Perm (s'.outstanding t') := by
  obtain ⟨hi, hgi⟩ := List.getElem?_eq_some_iff.mp hg
  have hi' : i < s.spans.length := by simpa [spans] using hi
  have hsp : s.spans[i] = (g.tilesetId, g.chunkRange) := by simp [spans, hgi]
  have hperm : s.spans.Perm ((g.tilesetId, g.chunkRange) :: s'.spans) := by
    rw [h, ← hsp]
    exact (List.getElem_cons_eraseIdx_perm hi').symm
  refine ⟨?_, fun t' ht' => ?_⟩
  · have := (hperm.filter fun p => decide (p.1 = g.tilesetId)).map Prod.snd
    simpa [outstanding] using this
  · have := (hperm.filter fun p => decide (p.1 = t')).map Prod.snd
    simpa [outstanding, Ne.symm ht'] using this

end Coordinator

end Biei
