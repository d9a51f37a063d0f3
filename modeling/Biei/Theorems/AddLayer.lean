import Biei.Lemmas.Overlay

/-! # The sources of the requests' own layers -/

namespace Biei

open List (Perm)

namespace AddLayerSourceCache

/-- The cache names the sources that requests have brought to the style. -/
structure Mirrors (cache : AddLayerSourceCache) (sources : List (String × String)) : Prop where
  /-- Each id names a source with the cached content, and the style has no other. -/
  installed : sources = cache.entries.map fun entry => (entry.1, entry.2.json)
  /-- The ids are those of the recency list. -/
  recent : (cache.entries.map Prod.fst).Perm cache.lru
  nodup : cache.lru.Nodup
  /-- No two ids hold equal sources. -/
  distinct : (cache.entries.map Prod.snd).Nodup
  bounded : cache.entries.length ≤ cache.capacity
  capacity : cache.capacity = addlayerSourceCacheCapacity

variable {cache : AddLayerSourceCache} {sources : List (String × String)} {id : String}

theorem Mirrors.new : new.Mirrors [] := ⟨rfl, Perm.refl [], List.nodup_nil, List.nodup_nil, Nat.zero_le _, rfl⟩

theorem Mirrors.touch (h : cache.Mirrors sources) (hid : id ∈ cache.lru) : (cache.touch id).Mirrors sources := by
  have hperm : cache.lru.Perm (cache.touch id).lru := by
    have hmoved := (List.perm_cons_erase hid).trans (List.perm_append_singleton id _).symm
    rwa [h.nodup.erase_eq_filter id] at hmoved
  exact ⟨h.installed, h.recent.trans hperm, hperm.nodup_iff.mp h.nodup, h.distinct, h.bounded, h.capacity⟩

/-- An id is taken out of the cache and of the style. -/
theorem Mirrors.remove (h : cache.Mirrors sources) (id : String) :
    ({ cache.removeEntry id with lru := cache.lru.filter (· != id) } : AddLayerSourceCache).Mirrors
      (sources.filter fun e => e.1 != id) where
  installed := by
    rw [h.installed, List.filter_map]
    rfl
  recent := by
    have hids : (cache.entries.filter fun entry => entry.1 != id).map Prod.fst = (cache.entries.map Prod.fst).filter
      (· != id) := by
      rw [List.filter_map]
      rfl
    exact hids ▸ h.recent.filter _
  nodup := h.nodup.filter _
  distinct := h.distinct.sublist (List.filter_sublist.map Prod.snd)
  bounded := (List.length_filter_le _ _).trans h.bounded
  capacity := h.capacity

/-- A new source is added under a new id. -/
theorem Mirrors.insert (h : cache.Mirrors sources) {source : AddLayerSource} (hroom : cache.entries.length < cache.capacity)
    (hid : id ∉ cache.entries.map Prod.fst) (hsource : source ∉ cache.entries.map Prod.snd) :
    ({ cache with entries := cache.entries ++ [(id, source)], lru := cache.lru ++ [id] } : AddLayerSourceCache).Mirrors
      (sources ++ [(id, source.json)]) where
  installed := by
    rw [h.installed, List.map_append]
    rfl
  recent := by
    rw [List.map_append]
    exact h.recent.append_right [id]
  nodup := h.nodup.append (List.nodup_singleton id) (List.disjoint_singleton.mpr fun hmem => hid (h.recent.mem_iff.mpr hmem))
  distinct := by
    rw [List.map_append]
    exact h.distinct.append (List.nodup_singleton source) (List.disjoint_singleton.mpr hsource)
  bounded := by
    rw [List.length_append]
    exact hroom
  capacity := h.capacity

/-- There is always a vacant id: there are more suffixes than entries. -/
theorem vacantId_spec (cache : AddLayerSourceCache) (baseId : String) :
    ∃ id, cache.vacantId baseId = some id ∧ id ∉ cache.entries.map Prod.fst := by
  have htaken : ∀ id, (cache.entries.any fun entry => entry.1 == id) = true ↔ id ∈ cache.entries.map Prod.fst := by
    intro id
    rw [List.any_eq_true, List.mem_map]
    exact exists_congr fun entry => and_congr_right fun _ => beq_iff_eq
  unfold vacantId
  dsimp only
  split
  · rename_i hfree
    exact ⟨baseId, rfl, fun hmem => by rw [(htaken baseId).mpr hmem] at hfree; cases hfree⟩
  · cases hfound : ((List.range' 1 (cache.entries.length + 1)).map fun suffix => baseId ++ "_" ++ toString suffix).find?
        fun id => !(cache.entries.any fun entry => entry.1 == id) with
    | some id =>
      have hfree := List.find?_some hfound
      exact ⟨id, rfl, fun hmem => by rw [(htaken id).mpr hmem] at hfree; cases hfree⟩
    | none =>
      -- as many ids as suffixes would be taken, and these are more than the entries
      have hsubset : ((List.range' 1 (cache.entries.length + 1)).map fun suffix => baseId ++ "_" ++ toString suffix) ⊆
          cache.entries.map Prod.fst := by
        intro id hid
        have htrue := List.find?_eq_none.mp hfound id hid
        exact (htaken id).mp (by simpa using htrue)
      have hnodup : ((List.range' 1 (cache.entries.length + 1)).map fun suffix => baseId ++ "_" ++ toString suffix).Nodup := by
        refine List.Nodup.map (fun i j hij => toString_injective ?_) List.nodup_range'
        exact List.append_cancel_left (by simpa only [String.toList_append] using congrArg String.toList hij)
      have hlength := (List.subperm_of_subset hnodup hsubset).length_le
      rw [List.length_map, List.length_range', List.length_map] at hlength
      omega

end AddLayerSourceCache

/-! ## One install -/

/-- The cache and the style have the same sources. -/
def SourcesMirrored (r : StaticRenderer) : Prop := r.addlayerSources.Mirrors r.style.sources

/-- The sources and the cache are as they were. -/
structure SourcesKept (r r' : StaticRenderer) : Prop where
  cache : r'.addlayerSources = r.addlayerSources
  sources : r'.style.sources = r.style.sources

variable {r r' r'' : StaticRenderer} {id : String}

theorem SourcesKept.trans (h : SourcesKept r r') (h' : SourcesKept r' r'') : SourcesKept r r'' :=
  ⟨h'.cache.trans h.cache, h'.sources.trans h.sources⟩

theorem SourcesMirrored.kept (h : SourcesMirrored r) (hkept : SourcesKept r r') : SourcesMirrored r' := by
  unfold SourcesMirrored
  rw [hkept.cache, hkept.sources]
  exact h

theorem SourcesMirrored.length_eq (h : SourcesMirrored r) : r.addlayerSources.entries.length = r.addlayerSources.lru.length := by
  rw [← h.recent.length_eq, List.length_map]

theorem nativeCall_keeps (r : StaticRenderer) : Ends nativeCall r (fun _ => SourcesKept r) (SourcesKept r) := by
  unfold Ends nativeCall
  rcases r.style.faults with - | ⟨- | message, rest⟩
  · exact ⟨rfl, rfl⟩
  · exact ⟨rfl, rfl⟩
  · exact ⟨rfl, rfl⟩

theorem placeAddlayer_keeps (before : Option String) (taskId : UInt64) (r : StaticRenderer) :
    Ends (placeAddlayer before taskId) r (fun _ => SourcesKept r) (SourcesKept r) := by
  have hcall : ∀ {r1}, SourcesKept r r1 → Ends nativeCall r1 (fun _ => SourcesKept r) (SourcesKept r) :=
    fun {r1} h => (nativeCall_keeps r1).mono (fun _ _ h' => h.trans h') fun _ h' => h.trans h'
  refine (nativeCall_keeps r).bind fun _ r1 h1 => (hcall h1).bind fun _ r2 h2 => (hcall h2).bind fun _ r3 h3 => Ends.get_bind ?_
  split
  · exact Ends.of_error rfl h3
  · exact Ends.of_ok rfl ⟨h3.cache, h3.sources⟩

/-- What eviction leaves has room, and was there before. -/
theorem evictSources_mirrored {rounds : Nat} (h : SourcesMirrored r) (hrounds : r.addlayerSources.lru.length ≤ rounds) :
    SourcesMirrored (evictSources rounds r) ∧
      (evictSources rounds r).addlayerSources.entries.length < (evictSources rounds r).addlayerSources.capacity ∧
      (∀ e ∈ (evictSources rounds r).addlayerSources.entries, e ∈ r.addlayerSources.entries) ∧
      ∀ e ∈ (evictSources rounds r).style.sources, e ∈ r.style.sources := by
  induction rounds generalizing r with
  | zero =>
    have hroom : r.addlayerSources.entries.length < r.addlayerSources.capacity := by
      rw [h.length_eq, Nat.le_zero.mp hrounds, h.capacity]
      decide
    exact ⟨h, hroom, fun _ he => he, fun _ he => he⟩
  | succ rounds ih =>
    unfold evictSources
    split
    · rename_i hfull
      split
      · rename_i hnil
        rw [h.length_eq, hnil, h.capacity] at hfull
        exact absurd hfull (by decide)
      · rename_i evicted lru hlru
        have hrest : r.addlayerSources.lru.filter (· != evicted) = lru := by
          have hnodup := h.nodup
          rw [hlru] at hnodup ⊢
          obtain ⟨hnot, -⟩ := List.nodup_cons.mp hnodup
          rw [List.filter_cons_of_neg (by simp), List.filter_eq_self]
          exact fun id hid => bne_iff_ne.mpr fun heq => hnot (heq ▸ hid)
        have hremoved := h.remove evicted
        rw [hrest] at hremoved
        have hnext := @ih (removeSource evicted { r with addlayerSources :=
          { r.addlayerSources.removeEntry evicted with lru := lru } })
          hremoved (by rw [hlru] at hrounds; exact Nat.le_of_succ_le_succ hrounds)
        exact ⟨hnext.1, hnext.2.1, fun e he => List.mem_of_mem_filter (hnext.2.2.1 e he),
          fun e he => List.mem_of_mem_filter (hnext.2.2.2 e he)⟩
    · rename_i hroom
      exact ⟨h, Nat.lt_of_not_le hroom, fun _ he => he, fun _ he => he⟩

variable (hash : AddLayerSource → UInt64)

/-- The source is there, under an id that is new or has its content; a source that could not be added is not there. -/
theorem ensureSource_mirrored (source : AddLayerSource) (h : SourcesMirrored r) :
    Ends (ensureSource hash source) r
      (fun found r' => SourcesMirrored r' ∧ (found.1, source) ∈ r'.addlayerSources.entries ∧
        if found.2 then ∀ e ∈ r'.style.sources, e.1 ≠ found.1 → e ∈ r.style.sources else r'.style.sources = r.style.sources)
      (fun r' => SourcesMirrored r' ∧ ∀ e ∈ r'.style.sources, e ∈ r.style.sources) := by
  cases hfind : r.addlayerSources.entries.find? fun entry => decide (entry.2 = source) with
  | some entry =>
    have hmem := List.mem_of_find?_eq_some hfind
    have hsource : entry.2 = source := by simpa using List.find?_some hfind
    refine Ends.of_ok (a := (entry.1, false)) (t := { r with addlayerSources := r.addlayerSources.touch entry.1 })
      (by simp only [ensureSource, hfind]) ⟨?_, ?_, rfl⟩
    · exact AddLayerSourceCache.Mirrors.touch h (h.recent.mem_iff.mp (List.mem_map_of_mem hmem))
    · exact hsource ▸ hmem
  | none =>
    obtain ⟨hevicted, hroom, hentries, hsources⟩ := evictSources_mirrored h (Nat.le_refl _)
    obtain ⟨id, hid, hvacant⟩ := (evictSources r.addlayerSources.lru.length r).addlayerSources.vacantId_spec
      (AddLayerSourceCache.stableSourceId hash source)
    have hnew : source ∉ (evictSources r.addlayerSources.lru.length r).addlayerSources.entries.map Prod.snd := by
      intro hmem
      obtain ⟨entry, hentry, heq⟩ := List.mem_map.mp hmem
      exact List.find?_eq_none.mp hfind entry (hentries entry hentry) (decide_eq_true heq)
    have hadd : Ends (do nativeCall; addSource id source.json : RendererM Unit) (evictSources r.addlayerSources.lru.length r)
        (fun _ r' => r'.addlayerSources = (evictSources r.addlayerSources.lru.length r).addlayerSources ∧
          r'.style.sources = (evictSources r.addlayerSources.lru.length r).style.sources ++ [(id, source.json)])
        (SourcesKept (evictSources r.addlayerSources.lru.length r)) := by
      refine (nativeCall_keeps _).bind fun _ r1 h1 => ?_
      refine ((nativeCall_keeps r1).mono (fun _ _ h' => h1.trans h') fun _ h' => h1.trans h').bind fun _ r2 h2 => Ends.get_bind ?_
      split
      · exact Ends.of_error rfl h2
      · exact Ends.of_ok rfl ⟨h2.cache, congrArg (· ++ [(id, source.json)]) h2.sources⟩
    cases hx : (do nativeCall; addSource id source.json : RendererM Unit) (evictSources r.addlayerSources.lru.length r) with
    | ok u r1 =>
      obtain ⟨hcache, hstyle⟩ := hadd.ok_of hx
      refine Ends.of_ok (a := (id, true)) (by simp only [ensureSource, hfind, hid, hx]; rfl) ⟨?_, ?_, ?_⟩
      · unfold SourcesMirrored
        simp only [hcache, hstyle]
        exact AddLayerSourceCache.Mirrors.insert hevicted hroom hvacant hnew
      · exact List.mem_append_right _ (List.mem_singleton_self _)
      · simp only [hstyle, if_true]
        intro e he hne
        rcases List.mem_append.mp he with he | he
        · exact hsources e he
        · exact absurd (congrArg Prod.fst (List.mem_singleton.mp he)) hne
    | error e r1 =>
      have hkept := hadd.err_of hx
      refine Ends.of_error (e := e) (by simp only [ensureSource, hfind, hid, hx]) ⟨hevicted.kept hkept, fun e he => ?_⟩
      exact hsources e (hkept.sources ▸ he)

/-- What is taken back is neither in the cache nor in the style. -/
theorem removeSourceIfPresent_mirrored (h : SourcesMirrored r) (id : String) :
    SourcesMirrored (removeSourceIfPresent id r) ∧ (removeSourceIfPresent id r).style.sources = r.style.sources.filter fun e =>
      e.1 != id := by
  unfold removeSourceIfPresent
  split
  · exact ⟨h.remove id, rfl⟩
  · rename_i hnone
    refine ⟨h, (List.filter_eq_self.mpr fun e he => ?_).symm⟩
    rw [h.installed] at he
    obtain ⟨entry, hentry, rfl⟩ := List.mem_map.mp he
    exact bne_iff_ne.mpr fun heq => hnone (List.any_eq_true.mpr ⟨entry, hentry, beq_iff_eq.mpr heq⟩)

/-- A failed install leaves no source that it added. -/
theorem installAddlayer_mirrored (addlayer : AddLayer) (before : Option String) (taskId : UInt64) (h : SourcesMirrored r) :
    Ends (installAddlayer hash addlayer before taskId) r (fun _ => SourcesMirrored)
      (fun r' => SourcesMirrored r' ∧ ∀ e ∈ r'.style.sources, e ∈ r.style.sources) := by
  have hsource : Ends (addlayerSource hash addlayer) r
      (fun newlyAdded r' => SourcesMirrored r' ∧ ∀ e ∈ r'.style.sources, (∀ id ∈ newlyAdded, e.1 ≠ id) → e ∈ r.style.sources)
      (fun r' => SourcesMirrored r' ∧ ∀ e ∈ r'.style.sources, e ∈ r.style.sources) := by
    unfold addlayerSource
    split
    · refine (ensureSource_mirrored hash _ h).bind fun found r1 h1 => Ends.pure ⟨h1.1, fun e he hne => ?_⟩
      have hrest := h1.2.2
      split at hrest
      · rename_i hadded
        exact hrest e he (hne found.1 (by simp [hadded]))
      · exact hrest ▸ he
    · exact Ends.pure ⟨h, fun _ he _ => he⟩
  refine hsource.bind fun newlyAdded r1 ⟨h1, hrest⟩ => ?_
  have hplace := placeAddlayer_keeps before taskId r1
  cases hx : placeAddlayer before taskId r1 with
  | ok u r2 => exact Ends.of_ok (a := ()) (by simp only [placeOrTakeBack, hx]) (h1.kept (hplace.ok_of hx))
  | error e r2 =>
    have hkept := hplace.err_of hx
    cases newlyAdded with
    | none =>
      refine Ends.of_error (e := e) (by simp only [placeOrTakeBack, hx]) ⟨h1.kept hkept, fun e he => ?_⟩
      exact hrest e (hkept.sources ▸ he) nofun
    | some id =>
      obtain ⟨hremoved, hsources⟩ := removeSourceIfPresent_mirrored (h1.kept hkept) id
      refine Ends.of_error (e := e) (by simp only [placeOrTakeBack, hx]) ⟨hremoved, fun e he => ?_⟩
      rw [hsources, hkept.sources] at he
      obtain ⟨hmem, hne⟩ := List.mem_filter.mp he
      refine hrest e hmem fun other hother => ?_
      cases hother
      exact bne_iff_ne.mp hne

/-! ## Sequences of installs -/

/-- `StyleError::Native`. -/
def StyleError.IsNative : StyleError → Prop
  | .native _ => True
  | .panicked _ => False

theorem nativeCall_raises : Raises StyleError.IsNative nativeCall := by
  intro r e r' h
  unfold nativeCall at h
  split at h
  · cases h
  · cases h
  · cases h
    trivial

theorem addSource_raises (id json : String) : Raises StyleError.IsNative (addSource id json) := by
  refine nativeCall_raises.bind fun _ => Raises.get_bind fun r => ?_
  split
  · exact Raises.throw trivial
  · intro _ _ _ h
    cases h

theorem placeAddlayer_raises (before : Option String) (taskId : UInt64) :
    Raises StyleError.IsNative (placeAddlayer before taskId) := by
  refine nativeCall_raises.bind fun _ => nativeCall_raises.bind fun _ => nativeCall_raises.bind fun _ =>
    Raises.get_bind fun r => ?_
  split
  · exact Raises.throw trivial
  · intro _ _ _ h
    cases h

theorem ensureSource_raises (source : AddLayerSource) : Raises StyleError.IsNative (ensureSource hash source) := by
  intro r e r' h
  unfold ensureSource at h
  split at h
  · cases h
  · dsimp only at h
    split at h
    · rename_i hnone
      obtain ⟨id, hid, -⟩ := (evictSources r.addlayerSources.lru.length r).addlayerSources.vacantId_spec
        (AddLayerSourceCache.stableSourceId hash source)
      rw [hid] at hnone
      cases hnone
    · split at h
      · cases h
      · rename_i hx
        cases h
        exact nativeCall_raises.bind (fun _ => addSource_raises _ _) _ _ _ hx

/-- An install fails with an error of the native style, and never for want of an id. -/
theorem installAddlayer_raises (addlayer : AddLayer) (before : Option String) (taskId : UInt64) :
    Raises StyleError.IsNative (installAddlayer hash addlayer before taskId) := by
  have hsource : Raises StyleError.IsNative (addlayerSource hash addlayer) := by
    unfold addlayerSource
    split
    · exact (ensureSource_raises hash _).bind fun _ => Raises.pure _
    · exact Raises.pure _
  refine hsource.bind fun newlyAdded r e r' h => ?_
  unfold placeOrTakeBack at h
  split at h
  · cases h
  · rename_i hx
    split at h
    · cases h
      exact placeAddlayer_raises before taskId _ _ _ hx
    · cases h
      exact placeAddlayer_raises before taskId _ _ _ hx

namespace AddLayerInstalls

inductive Action where
  /-- `install_addlayer`, with the native calls that fail during it. -/
  | install (addlayer : AddLayer) (before : Option String) (taskId : UInt64) (faults : List (Option String))
  /-- What else happens to the renderer, which leaves the sources alone. -/
  | elsewhere (r : StaticRenderer)

/-- A renderer with the native calls to come. -/
def withFaults (faults : List (Option String)) (r : StaticRenderer) : StaticRenderer :=
    { r with style := { r.style with faults := faults } }

def next (r : StaticRenderer) : Action → StaticRenderer
  | .install addlayer before taskId faults =>
    match installAddlayer hash addlayer before taskId (withFaults faults r) with
    | .ok () r' => r'
    | .error _ r' => r'
  | .elsewhere r' => { r' with addlayerSources := r.addlayerSources, style := { r'.style with sources := r.style.sources } }

/-- The installs on a renderer, from the loading of its style on. -/
def machine (base : BaseStyle) : Machine StaticRenderer Action where
  init := StaticRenderer.fresh base
  step r a := some (next hash r a)

end AddLayerInstalls

open AddLayerInstalls in
/-- The cache mirrors the style after every sequence of installs, an install never lacks an id, and one that fails leaves no
source that it added. -/
theorem addlayer_sources_mirrored (base : BaseStyle) :
    (∀ r, (machine hash base).Reachable r → SourcesMirrored r ∧
      ∀ addlayer before taskId faults e r', installAddlayer hash addlayer before taskId (withFaults faults r) = .error e r' →
        e.IsNative ∧ ∀ source ∈ r'.style.sources, source ∈ r.style.sources) ∧
      ∀ (cache : AddLayerSourceCache) baseId, ∃ id, cache.vacantId baseId = some id ∧ id ∉ cache.entries.map Prod.fst := by
  refine ⟨fun r hr => ?_, AddLayerSourceCache.vacantId_spec⟩
  have hmirrored : SourcesMirrored r := by
    refine hr.invariant (I := SourcesMirrored) AddLayerSourceCache.Mirrors.new fun r a r' h hs => ?_
    cases hs
    cases a with
    | install addlayer before taskId faults =>
      have hends := installAddlayer_mirrored hash addlayer before taskId (r := withFaults faults r) h
      cases hx : installAddlayer hash addlayer before taskId (withFaults faults r) with
      | ok u r1 =>
        simp only [next, hx]
        exact hends.ok_of hx
      | error e r1 =>
        simp only [next, hx]
        exact (hends.err_of hx).1
    | elsewhere other => exact h
  refine ⟨hmirrored, fun addlayer before taskId faults e r' hx =>
    ⟨installAddlayer_raises hash addlayer before taskId _ e r' hx, ?_⟩⟩
  exact ((installAddlayer_mirrored hash addlayer before taskId (r := withFaults faults r) hmirrored).err_of hx).2

def roadSource : AddLayerSource := ⟨"road", "\x7b\x7d"⟩

open AddLayerInstalls in
/-- A request brings a source along. -/
theorem road_mirrored :
    SourcesMirrored (next (fun _ => 0) (StaticRenderer.fresh ⟨[], List.nodup_nil⟩)
      (.install ⟨"", 0, some roadSource⟩ none 7 [])) ∧
      (next (fun _ => 0) (StaticRenderer.fresh ⟨[], List.nodup_nil⟩)
        (.install ⟨"", 0, some roadSource⟩ none 7 [])).style.sources =
        [("__biei_addlayer_source_0000000000000000", "\x7b\x7d")] := by
  have h := addlayer_sources_mirrored (fun _ => 0) ⟨[], List.nodup_nil⟩
  exact ⟨(h.1 _ (Machine.Reachable.next Machine.ReachedBy.init rfl)).1, by decide +kernel⟩

end Biei
