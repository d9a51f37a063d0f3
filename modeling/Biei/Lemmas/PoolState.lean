import Biei.Lib.Fold
import Biei.Pool.State

/-! # The pool's two representations -/

namespace Biei

namespace PoolState

variable {n : Nat} {s : PoolState n}

/-! ## What the operations leave alone -/

@[simp]
theorem decrementProfileCount_loaded (s : PoolState n) (p : WorkerProfile) : (s.decrementProfileCount p).loaded = s.loaded := by
  unfold decrementProfileCount
  split
  · rfl
  · rfl

@[simp]
theorem takeLoaded_loaded (s : PoolState n) (idx : Fin n) :
    (s.takeLoaded idx).loaded = Function.update s.loaded idx none := by
  unfold takeLoaded
  split
  · rename_i hnone
    rw [← hnone, Function.update_eq_self]
  · simp

/-- Taking a profile out leaves everything but the slots and the counts. -/
theorem takeLoaded_rest (s : PoolState n) (idx : Fin n) :
    (s.takeLoaded idx).dispatchGenerations = s.dispatchGenerations ∧ (s.takeLoaded idx).lastUsed = s.lastUsed ∧
      (s.takeLoaded idx).addlayerSourceIds = s.addlayerSourceIds ∧
      (s.takeLoaded idx).addlayerSourceLru = s.addlayerSourceLru := by
  unfold takeLoaded decrementProfileCount
  split
  · exact ⟨rfl, rfl, rfl, rfl⟩
  · split
    · exact ⟨rfl, rfl, rfl, rfl⟩
    · exact ⟨rfl, rfl, rfl, rfl⟩

/-- A dispatch leaves its profile in the worker's slot, and the next generation. -/
theorem markLoaded_spec (s : PoolState n) (now : Instant) (idx : Fin n) (profile : WorkerProfile) :
    (s.markLoaded now idx profile).1.loaded = Function.update s.loaded idx (some profile) ∧
      (s.markLoaded now idx profile).2 = s.dispatchGenerations idx + 1 ∧
      (s.markLoaded now idx profile).1.dispatchGenerations =
        Function.update s.dispatchGenerations idx (s.dispatchGenerations idx + 1) := by
  unfold markLoaded
  dsimp only
  split
  · rename_i hsame
    refine ⟨?_, rfl, rfl⟩
    rw [← hsame, Function.update_eq_self]
  · obtain ⟨hgen, -⟩ := takeLoaded_rest { s with
      dispatchGenerations := Function.update s.dispatchGenerations idx (s.dispatchGenerations idx + 1)
      lastUsed := Function.update s.lastUsed idx (some now) } idx
    refine ⟨?_, rfl, hgen⟩
    simp [clearAddlayerSources]

theorem clearLoaded_loaded (s : PoolState n) (idx : Fin n) : (s.clearLoaded idx).loaded = Function.update s.loaded idx none := by
  simp [clearLoaded, clearAddlayerSources]

theorem clearLoaded_dispatchGenerations (s : PoolState n) (idx : Fin n) :
    (s.clearLoaded idx).dispatchGenerations = s.dispatchGenerations := (takeLoaded_rest s idx).1

theorem clearLoadedIfLatest_dispatchGenerations (s : PoolState n) (idx : Fin n) (generation : UInt64) :
    (s.clearLoadedIfLatest idx generation).dispatchGenerations = s.dispatchGenerations := by
  unfold clearLoadedIfLatest
  split
  · exact clearLoaded_dispatchGenerations s idx
  · rfl

/-- A profile that is there after a completion of the generation took its own back: the worker is another one or had a later
dispatch. -/
theorem clearLoadedIfLatest_loaded {idx i : Fin n} {generation : UInt64} {profile : WorkerProfile}
    (h : (s.clearLoadedIfLatest idx generation).loaded i = some profile) :
    s.loaded i = some profile ∧ (i = idx → s.dispatchGenerations idx ≠ generation) := by
  unfold clearLoadedIfLatest at h
  split at h
  · rw [clearLoaded_loaded] at h
    by_cases hi : i = idx
    · subst hi
      rw [Function.update_self] at h
      cases h
    · rw [Function.update_of_ne hi] at h
      exact ⟨h, fun heq => absurd heq hi⟩
  · rename_i hne
    exact ⟨h, fun _ => hne⟩

theorem markAddlayerSource_loaded (s : PoolState n) (idx : Fin n) (sourceId : String) :
    (s.markAddlayerSource idx sourceId).loaded = s.loaded ∧
      (s.markAddlayerSource idx sourceId).dispatchGenerations = s.dispatchGenerations := by
  unfold markAddlayerSource
  dsimp only
  split
  · exact ⟨rfl, rfl⟩
  · exact ⟨rfl, rfl⟩

/-! ## Counts and slots -/

/-- Every profile is counted as often as a worker has it, and none with zero. -/
def CountsExact (s : PoolState n) : Prop :=
  ∀ p, s.profileCounts p ≠ some 0 ∧ (s.profileCounts p).getD 0 = tally s.loaded (some p)

theorem CountsExact.congr {t : PoolState n} (h : CountsExact s) (hcounts : t.profileCounts = s.profileCounts)
    (hloaded : t.loaded = s.loaded) : CountsExact t := by
  intro p
  rw [hcounts, hloaded]
  exact h p

variable {idx : Fin n}

/-- A profile that some worker has is counted at least once: its count can go down. -/
theorem CountsExact.pos (h : CountsExact s) {p : WorkerProfile} (hp : s.loaded idx = some p) :
    ∃ count, s.profileCounts p = some (count + 1) := by
  have hpos : 0 < (s.profileCounts p).getD 0 := by
    rw [(h p).2]
    exact tally_pos.mpr ⟨idx, hp⟩
  cases hcount : s.profileCounts p with
  | none =>
    rw [hcount] at hpos
    exact absurd hpos (Nat.lt_irrefl 0)
  | some count =>
    rw [hcount] at hpos
    have hpos : 0 < count := hpos
    exact ⟨count - 1, congrArg some (by omega)⟩

theorem CountsExact.takeLoaded (h : CountsExact s) (idx : Fin n) : CountsExact (s.takeLoaded idx) := by
  cases hl : s.loaded idx with
  | none =>
    refine h.congr ?_ ?_
    · simp [PoolState.takeLoaded, hl]
    · simp [PoolState.takeLoaded, hl]
  | some previous =>
    obtain ⟨count, hcount⟩ := h.pos hl
    have hcounts : (s.takeLoaded idx).profileCounts =
        Function.update s.profileCounts previous (if count = 0 then none else some count) := by
      simp [PoolState.takeLoaded, hl, decrementProfileCount, hcount, wrappingPred]
    intro p
    have htally := tally_update s.loaded idx none (some p)
    have hold := (h p).2
    rw [hcounts, takeLoaded_loaded]
    by_cases hp : p = previous
    · subst hp
      rw [hcount, Option.getD_some] at hold
      simp only [hl, if_true, if_false, reduceCtorEq] at htally
      rw [Function.update_self]
      split
      · refine ⟨by simp, ?_⟩
        simp only [Option.getD_none]
        omega
      · rename_i hne
        refine ⟨by simpa using hne, ?_⟩
        simp only [Option.getD_some]
        omega
    · have hne : s.loaded idx ≠ some p := fun heq => hp (Option.some.inj (heq.symm.trans hl))
      simp only [if_neg hne, if_false, reduceCtorEq] at htally
      rw [Function.update_of_ne hp]
      exact ⟨(h p).1, by omega⟩

/-- One more worker has the profile. -/
theorem CountsExact.put (h : CountsExact s) (hnone : s.loaded idx = none) (profile : WorkerProfile) :
    CountsExact { s with
      profileCounts := Function.update s.profileCounts profile (some ((s.profileCounts profile).getD 0 + 1))
      loaded := Function.update s.loaded idx (some profile) } := by
  intro p
  have htally := tally_update s.loaded idx (some profile) (some p)
  have hold := (h p).2
  by_cases hp : p = profile
  · subst hp
    simp only [hnone, if_true, if_false, reduceCtorEq] at htally
    simp only [Function.update_self, Option.getD_some]
    exact ⟨by simp, by omega⟩
  · have hne : some profile ≠ some p := fun heq => hp (Option.some.inj heq).symm
    simp only [hnone, if_neg hne, if_false, reduceCtorEq] at htally
    simp only [Function.update_of_ne hp]
    exact ⟨(h p).1, by omega⟩

/-! ## Sources and their order of use -/

/-- A worker's sources are those in its order of use, each there once, and no more than the cap. -/
structure SourcesOk (ids : Finset String) (lru : List String) : Prop where
  same : ids = lru.toFinset
  nodup : lru.Nodup
  bounded : ids.card ≤ addlayerSourceAffinityCapacity

theorem SourcesOk.empty : SourcesOk ∅ [] := ⟨rfl, List.nodup_nil, Nat.zero_le _⟩

/-- Making room leaves the most recently used sources, with room for one more. -/
theorem evictAddlayerSources_spec (lru : List String) (hnodup : lru.Nodup) :
    ∃ rest, evictAddlayerSources lru.toFinset lru = (rest.toFinset, rest) ∧ rest.Sublist lru ∧
      rest.length < addlayerSourceAffinityCapacity := by
  induction lru with
  | nil => exact ⟨[], rfl, List.Sublist.refl _, by decide⟩
  | cons evicted lru ih =>
    obtain ⟨hnot, hrest⟩ := List.nodup_cons.mp hnodup
    have hcard : (evicted :: lru).toFinset.card = (evicted :: lru).length := List.toFinset_card_of_nodup hnodup
    unfold evictAddlayerSources
    split
    · obtain ⟨rest, heq, hsub, hlen⟩ := ih hrest
      have herase : (evicted :: lru).toFinset.erase evicted = lru.toFinset := by
        rw [List.toFinset_cons, Finset.erase_insert (by simpa using hnot)]
      exact ⟨rest, by rw [herase, heq], hsub.cons _, hlen⟩
    · exact ⟨evicted :: lru, rfl, List.Sublist.refl _, by omega⟩

/-- The sources of every worker are in order. -/
def SourcesExact (s : PoolState n) : Prop := ∀ i, SourcesOk (s.addlayerSourceIds i) (s.addlayerSourceLru i)

theorem SourcesExact.congr {t : PoolState n} (h : SourcesExact s) (hids : t.addlayerSourceIds = s.addlayerSourceIds)
    (hlru : t.addlayerSourceLru = s.addlayerSourceLru) : SourcesExact t := by
  intro i
  rw [hids, hlru]
  exact h i

/-- One worker's sources are replaced. -/
theorem SourcesExact.update (h : SourcesExact s) {ids : Finset String} {lru : List String} (hok : SourcesOk ids lru) (i : Fin n) :
    SourcesOk (Function.update s.addlayerSourceIds idx ids i) (Function.update s.addlayerSourceLru idx lru i) := by
  by_cases hi : i = idx
  · subst hi
    rw [Function.update_self, Function.update_self]
    exact hok
  · rw [Function.update_of_ne hi, Function.update_of_ne hi]
    exact h i

theorem SourcesExact.clearAddlayerSources (h : SourcesExact s) (idx : Fin n) : SourcesExact (s.clearAddlayerSources idx) :=
  h.update SourcesOk.empty

theorem SourcesExact.takeLoaded (h : SourcesExact s) (idx : Fin n) : SourcesExact (s.takeLoaded idx) :=
  h.congr (takeLoaded_rest s idx).2.2.1 (takeLoaded_rest s idx).2.2.2

theorem SourcesExact.markAddlayerSource (h : SourcesExact s) (idx : Fin n) (sourceId : String) :
    SourcesExact (s.markAddlayerSource idx sourceId) := by
  obtain ⟨hsame, hnodup, hbound⟩ := h idx
  unfold PoolState.markAddlayerSource
  dsimp only
  split
  · -- a source that is there already moves to the end
    rename_i hmem
    have hmove : SourcesOk (s.addlayerSourceIds idx)
        ((s.addlayerSourceLru idx).filter (fun cached => cached ≠ sourceId) ++ [sourceId]) := by
      refine ⟨?_, ?_, hbound⟩
      · ext x
        rw [hsame] at hmem ⊢
        simp only [List.mem_toFinset] at hmem
        by_cases hx : x = sourceId
        · simp [hx, hmem]
        · simp [hx]
      · rw [List.nodup_append]
        refine ⟨hnodup.filter _, List.nodup_singleton _, fun a ha b hb hab => ?_⟩
        rw [List.mem_singleton.mp hb] at hab
        simp [hab] at ha
    intro i
    have hi : SourcesOk (Function.update s.addlayerSourceIds idx (s.addlayerSourceIds idx) i) _ := h.update hmove i
    rwa [Function.update_eq_self] at hi
  · rename_i hmem
    obtain ⟨rest, heq, hsub, hlen⟩ := evictAddlayerSources_spec _ hnodup
    rw [hsame] at hmem ⊢
    rw [heq]
    have hnot : sourceId ∉ rest := fun hin => hmem (List.mem_toFinset.mpr (hsub.subset hin))
    refine h.update ⟨?_, ?_, ?_⟩
    · ext x
      simp
    · rw [List.nodup_append]
      refine ⟨hnodup.sublist hsub, List.nodup_singleton _, fun a ha b hb hab => ?_⟩
      rw [List.mem_singleton.mp hb] at hab
      exact hnot (hab ▸ ha)
    · rw [Finset.card_insert_of_notMem (by simpa using hnot), List.toFinset_card_of_nodup (hnodup.sublist hsub)]
      omega

/-! ## The operations -/

/-- Both pairs of representations agree. -/
structure Booked (s : PoolState n) : Prop where
  counts : CountsExact s
  sources : SourcesExact s

theorem Booked.new : Booked (PoolState.new : PoolState n) := by
  refine ⟨fun p => ⟨by simp [PoolState.new], ?_⟩, fun i => SourcesOk.empty⟩
  rw [tally_eq_zero (fun i => by simp [PoolState.new])]
  rfl

theorem Booked.markLoaded (h : Booked s) (now : Instant) (idx : Fin n) (profile : WorkerProfile) :
    Booked (s.markLoaded now idx profile).1 := by
  have hmarked : Booked { s with
      dispatchGenerations := Function.update s.dispatchGenerations idx (s.dispatchGenerations idx + 1)
      lastUsed := Function.update s.lastUsed idx (some now) } := ⟨h.counts, h.sources⟩
  unfold PoolState.markLoaded
  dsimp only
  split
  · exact hmarked
  · have hnone : ∀ t : PoolState n, (t.takeLoaded idx).loaded idx = none := by simp
    have hcounts := (hmarked.counts.takeLoaded idx).put (hnone _) profile
    have hsources := (hmarked.sources.takeLoaded idx).clearAddlayerSources idx
    exact ⟨hcounts, hsources⟩

theorem Booked.clearLoaded (h : Booked s) (idx : Fin n) : Booked (s.clearLoaded idx) := by
  have hcounts := h.counts.takeLoaded idx
  have hsources := (h.sources.takeLoaded idx).clearAddlayerSources idx
  exact ⟨hcounts, hsources⟩

/-- Every operation keeps the representations together. -/
theorem Booked.apply (h : Booked s) (op : PoolOp n) : Booked (s.apply op) := by
  cases op with
  | markLoaded now idx profile => exact h.markLoaded now idx profile
  | markAddlayerSource idx sourceId =>
    refine ⟨h.counts.congr ?_ (markAddlayerSource_loaded s idx sourceId).1, h.sources.markAddlayerSource idx sourceId⟩
    simp only [PoolState.apply, PoolState.markAddlayerSource]
    split
    · rfl
    · rfl
  | clearLoaded idx => exact h.clearLoaded idx
  | clearLoadedIfLatest idx dispatchGeneration =>
    simp only [PoolState.apply, clearLoadedIfLatest]
    split
    · exact h.clearLoaded idx
    · exact h

/-- The worker has no sources. -/
def NoSources (s : PoolState n) (idx : Fin n) : Prop := s.addlayerSourceIds idx = ∅ ∧ s.addlayerSourceLru idx = []

theorem noSources_clearAddlayerSources (s : PoolState n) (idx : Fin n) : NoSources (s.clearAddlayerSources idx) idx :=
  ⟨Function.update_self .., Function.update_self ..⟩

theorem noSources_clearLoaded (s : PoolState n) (idx : Fin n) : NoSources (s.clearLoaded idx) idx :=
  noSources_clearAddlayerSources _ idx

/-- A worker whose profile an operation has changed has no sources after it. -/
theorem noSources_of_loaded_ne {op : PoolOp n} {i : Fin n} (h : (s.apply op).loaded i ≠ s.loaded i) :
    NoSources (s.apply op) i := by
  have hself : ∀ {idx : Fin n} {o : Option WorkerProfile}, Function.update s.loaded idx o i ≠ s.loaded i → i = idx := by
    intro idx o hne
    by_contra hi
    exact hne (Function.update_of_ne hi ..)
  cases op with
  | markLoaded now idx profile =>
    simp only [PoolState.apply] at h ⊢
    rw [(markLoaded_spec s now idx profile).1] at h
    obtain rfl := hself h
    rw [Function.update_self] at h
    have hne : s.loaded i ≠ some profile := fun heq => h heq.symm
    simp only [PoolState.markLoaded, if_neg hne]
    exact noSources_clearAddlayerSources _ i
  | markAddlayerSource idx sourceId => exact absurd (congrFun (markAddlayerSource_loaded s idx sourceId).1 i) h
  | clearLoaded idx =>
    simp only [PoolState.apply] at h ⊢
    rw [clearLoaded_loaded] at h
    obtain rfl := hself h
    exact noSources_clearLoaded s i
  | clearLoadedIfLatest idx dispatchGeneration =>
    simp only [PoolState.apply, clearLoadedIfLatest] at h ⊢
    split at h
    · rename_i hlatest
      rw [clearLoaded_loaded] at h
      obtain rfl := hself h
      rw [if_pos hlatest]
      exact noSources_clearLoaded s i
    · exact absurd rfl h

end PoolState

end Biei
