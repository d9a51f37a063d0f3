import Biei.Lemmas.OverlayPool

/-!
# The layers of a static image

What a renderer drew before shows in a request's layers only when the pool is in its way.
-/

namespace Biei

namespace Overlay

/-! ## Every reachable renderer -/

theorem poolInv_fresh (base : BaseStyle) (frames : List Frame) :
    PoolInv base.layers [] { StaticRenderer.fresh base with frames := frames } := by
  refine ⟨base.nodup, ?_, ?_, ?_, ⟨[], rfl, Nat.zero_le _⟩, rfl⟩
  · exact List.filter_eq_self.mpr fun a _ => by simp [StaticRenderer.fresh, OverlaySlotPool.new, slotLayers]
  · intro id hid
    exact absurd hid List.not_mem_nil
  · intro _ _
    simp [StaticRenderer.fresh, OverlaySlotPool.new, slotLayers, splice]

/-- The renderer a request starts on, given that the pool was kept or asked to be rebuilt. -/
theorem poolInv_started {base : BaseStyle} {r : StaticRenderer} (h : r.slots.needsRebuild = true ∨ PoolInv base.layers [] r)
    (a : Action) : PoolInv base.layers [] (started base r a) := by
  have hensured : PoolInv base.layers [] (ensured base r) := by
    unfold ensured
    split
    · exact poolInv_fresh base r.frames
    · rename_i hno
      exact h.resolve_left hno
  exact hensured.congr rfl rfl hensured.shown

section

variable (hash : AddLayerSource → UInt64) (base : BaseStyle) (hbase : ∀ id ∈ base.layers, ¬Managed id) {r : StaticRenderer}

include hbase in
theorem next_requestEnds (h : r.slots.needsRebuild = true ∨ PoolInv base.layers [] r) (a : Action) :
    RequestEnds base.layers a.request (started base r a) (next hash base r a) := by
  have hend := renderStaticWithOverlaysAndAddlayer_ends hash hbase a.request (poolInv_started h a)
  unfold next
  unfold Ends at hend
  split
  · rename_i r1 hx
    rw [hx] at hend
    exact hend
  · rename_i e r1 hx
    rw [hx] at hend
    exact hend

include hbase in
theorem reachable_poolInv (hr : (machine hash base).Reachable r) :
    r.slots.needsRebuild = true ∨ PoolInv base.layers [] r := by
  have hinit : (machine hash base).init.slots.needsRebuild = true ∨ PoolInv base.layers [] (machine hash base).init :=
    Or.inr (poolInv_fresh base [])
  refine hr.invariant (I := fun r => r.slots.needsRebuild = true ∨ PoolInv base.layers [] r) hinit fun s a s' h hs => ?_
  cases hs
  exact (next_requestEnds hash base hbase h a).1

theorem frames_started (r : StaticRenderer) (a : Action) : (started base r a).frames = r.frames := by
  unfold started ensured
  split
  · rfl
  · rfl

/-- A request in the way of which nothing stands before it begins has nothing in its way when it begins. -/
theorem clear_started (r : StaticRenderer) (a : Action) (request : OverlayRequest) :
    Clear (started base r a) request ↔ Clear (ensured base r) request :=
  ⟨fun h => ⟨h.source, h.band⟩, fun h => ⟨h.source, h.band⟩⟩

include hbase in
/-- What one request draws, from any reachable renderer. -/
theorem next_frames (hr : (machine hash base).Reachable r) (a : Action) (hstand : Standing a.request.beforeLayer) :
    (next hash base r a).frames = r.frames ∨ ∃ frame, (next hash base r a).frames = r.frames ++ [frame] ∧
      frame.request = a.request ∧ (frame.layers = requestLayers base.layers a.request ↔ Clear (ensured base r) a.request) := by
  have hinv := reachable_poolInv hash base hbase hr
  obtain ⟨-, hframes⟩ := next_requestEnds hash base hbase hinv a
  rw [frames_started] at hframes
  rcases hframes with hframes | ⟨r0, r1, hinst, hready, hframes⟩
  · exact Or.inl hframes
  · refine Or.inr ⟨_, hframes, rfl, ?_⟩
    rw [← clear_started base r a]
    exact frame_iff_clear hbase (poolInv_started hinv a) hinst hstand hready

/-- Nothing is in the way on a freshly loaded renderer. -/
theorem clear_fresh (request : OverlayRequest) : Clear (StaticRenderer.fresh base) request :=
  ⟨fun _ => Or.inr rfl, fun _ _ hpos => absurd hpos (Nat.lt_irrefl 0)⟩

include hbase in
/-- On a renderer that has drawn any requests, with any failures, a request that does not name a layer of the pool is drawn with
the base style's layers and, directly below the layer it names or on top, its own layer and above it its slots, exactly when the
pool is not in its way; on a freshly loaded renderer it always is. -/
theorem static_layers_iff_clear {r : StaticRenderer} (hr : (machine hash base).Reachable r) (request : OverlayRequest)
    (hstand : Standing request.beforeLayer) (faults : List (Option String)) :
    ((next hash base r ⟨request, faults⟩).frames = r.frames ∨
      ∃ frame, (next hash base r ⟨request, faults⟩).frames = r.frames ++ [frame] ∧ frame.request = request ∧
        (frame.layers = requestLayers base.layers request ↔ Clear (ensured base r) request)) ∧
    ∀ frame ∈ (next hash base (StaticRenderer.fresh base) ⟨request, faults⟩).frames,
      frame.layers = requestLayers base.layers request := by
  refine ⟨next_frames hash base hbase hr ⟨request, faults⟩ hstand, fun frame hframe => ?_⟩
  have hcold := next_frames hash base hbase (Machine.ReachedBy.init (M := machine hash base)) ⟨request, faults⟩ hstand
  rcases hcold with hnone | ⟨drawn, hdrawn, -, hiff⟩
  · have hempty : (next hash base (StaticRenderer.fresh base) ⟨request, faults⟩).frames = [] := hnone
    rw [hempty] at hframe
    exact absurd hframe List.not_mem_nil
  · have hone : (next hash base (StaticRenderer.fresh base) ⟨request, faults⟩).frames = [drawn] := hdrawn
    rw [hone] at hframe
    rw [List.mem_singleton.mp hframe]
    exact hiff.mpr (clear_fresh base request)

end

/-! ## A warm and a cold renderer -/

/-- Managed ids begin in one of two ways. -/
theorem not_managed_of_take {id : String} (h : id.toList.take 2 ≠ ['b', 'i'] ∧ id.toList.take 2 ≠ ['_', '_']) : ¬Managed id := by
  rintro (⟨idx, hid⟩ | ⟨taskId, rfl⟩)
  · obtain ⟨kind, -, rfl⟩ := mem_slotLayerIds.mp hid
    exact h.1 (by simp [slotLayerId, String.toList_append])
  · exact h.2 (by simp [addlayerId, String.toList_append])

/-- A base style with labels on top. -/
def labelled : BaseStyle := ⟨["water", "labels"], by decide⟩

def pin : StaticOverlay := .pin ⟨.small, none, "f44", ⟨⟨0⟩, ⟨0⟩⟩⟩

/-- A pin on top of everything. -/
def pinRequest : OverlayRequest := ⟨[pin], false, none, none, 1⟩

/-- A pin over a layer of the request's own. -/
def layeredRequest : OverlayRequest := ⟨[pin], false, none, some ⟨"", 0, none⟩, 2⟩

/-- The same, both below the labels. -/
def loweredRequest : OverlayRequest := ⟨[pin], false, some "labels", some ⟨"", 0, none⟩, 2⟩

theorem not_managed_labelled : ∀ id ∈ labelled.layers, ¬Managed id := by
  intro id hid
  refine not_managed_of_take ?_
  rcases List.mem_cons.mp hid with rfl | hid
  · decide
  · rw [List.mem_singleton.mp hid]
    decide

theorem standing_loweredRequest : Standing loweredRequest.beforeLayer := by
  intro b hb
  cases hb
  exact not_managed_of_take (by decide)

/-- A renderer of the labelled style that has drawn the pin. -/
def pinned : StaticRenderer := next (fun _ => 0) labelled (StaticRenderer.fresh labelled) ⟨pinRequest, []⟩

theorem static_layers_iff_clear_loweredRequest :
    (machine (fun _ => 0) labelled).Reachable pinned ∧
      ∃ frame, (next (fun _ => 0) labelled pinned ⟨loweredRequest, []⟩).frames = pinned.frames ++ [frame] ∧
        frame.layers = requestLayers labelled.layers loweredRequest := by
  have hreach : (machine (fun _ => 0) labelled).Reachable pinned :=
    Machine.Reachable.next (a := ⟨pinRequest, []⟩) Machine.ReachedBy.init rfl
  have hmain := static_layers_iff_clear (fun _ => 0) labelled not_managed_labelled hreach loweredRequest
    standing_loweredRequest []
  rcases hmain.1 with hnone | ⟨frame, hframe, -, hiff⟩
  · exact absurd (congrArg List.length hnone) (by decide +kernel)
  · refine ⟨hreach, frame, hframe, hiff.mpr ⟨fun hnil => ?_, fun _ _ _ => Or.inr ?_⟩⟩
    · exact absurd hnil (List.cons_ne_nil _ _)
    · decide +kernel

/-- A request's own layer comes out above the pin on the renderer that has drawn a pin, and below it on a fresh one. -/
theorem layeredRequest_depends_on_history :
    (machine (fun _ => 0) labelled).Reachable pinned ∧
      ((next (fun _ => 0) labelled pinned ⟨layeredRequest, []⟩).frames.map Frame.layers).getLast? =
        some ["water", "labels", "biei-overlay-0-fill", "biei-overlay-0-line", "biei-overlay-0-circle", "biei-overlay-0-symbol",
          "__biei_addlayer_2"] ∧
      ((next (fun _ => 0) labelled pinned ⟨layeredRequest, []⟩).frames.map Frame.layers).getLast? ≠
        some (requestLayers labelled.layers layeredRequest) ∧
      ((next (fun _ => 0) labelled (StaticRenderer.fresh labelled) ⟨layeredRequest, []⟩).frames.map Frame.layers).getLast? =
        some (requestLayers labelled.layers layeredRequest) := by
  refine ⟨Machine.Reachable.next (a := ⟨pinRequest, []⟩) Machine.ReachedBy.init rfl, ?_, ?_, ?_⟩
  · decide +kernel
  · decide +kernel
  · decide +kernel

end Overlay

/-! ## The slot pool after failures -/

/-- What the pool and the style are to be when `assign_slots` has returned for a request. -/
structure SlotsConsistent (request : OverlayRequest) (r : StaticRenderer) : Prop where
  /-- The shared source holds the features of the request, and no others. -/
  source : r.style.overlaySource = some request.overlays
  once : ∀ i < r.slots.allocated, ∀ id ∈ slotLayerIds i, r.style.layers.count id = 1
  absent : ∀ i, r.slots.allocated ≤ i → ∀ id ∈ slotLayerIds i, id ∉ r.style.layers
  /-- The slots stand in their order directly below the layer that the request names, or on top. -/
  banded : request.overlays ≠ [] →
    r.style.layers =
      splice request.beforeLayer (slotLayers r.slots.allocated)
        (r.style.layers.filter fun id => decide (id ∉ slotLayers r.slots.allocated))

section Bands

variable {base : List String} (hbase : ∀ id ∈ base, ¬Managed id)

/-- Slots above and below the request's own layer are in one band exactly when none is below. -/
theorem bands_eq_iff (request : OverlayRequest) {n m : Nat} (h : n ≤ m) :
    slotLayers n ++ request.extra ++ slotLayersFrom n m = request.extra ++ slotLayers m ↔
      (request.addlayer.isSome = true → n = 0) := by
  constructor
  · intro heq hadd
    by_contra hne
    have hextra : request.extra = [addlayerId request.taskId] := by simp [OverlayRequest.extra, hadd]
    obtain ⟨rest, hrest⟩ : ∃ rest, slotLayers n = slotFillLayerId 0 :: rest := by
      have hpos : 1 ≤ n := Nat.pos_of_ne_zero hne
      rw [← slotLayers_split hpos, slotLayers, slotLayersFrom_succ]
      exact ⟨_, rfl⟩
    rw [hrest, hextra] at heq
    exact addlayerId_ne_slotLayerId request.taskId 0 "fill" (List.cons.inj heq).1.symm
  · intro hadd
    by_cases hown : request.addlayer.isSome = true
    · obtain rfl := hadd hown
      rfl
    · have hextra : request.extra = [] := by simp [OverlayRequest.extra, hown]
      rw [hextra, List.append_nil, List.nil_append, slotLayers_split h]

include hbase in
/-- The slots of a request with overlays are in one band exactly when its own layer does not come between them. -/
theorem banded_iff {request : OverlayRequest} {r r0 r2 : StaticRenderer} {m : Nat} (h : PoolInv base [] r)
    (hi : Installed request r r0)
    (hstand : Standing request.beforeLayer) (hg : Grown r0 m r2) :
    bandedLayers r2 request.beforeLayer =
        splice request.beforeLayer (slotLayers m)
          ((bandedLayers r2 request.beforeLayer).filter fun id => decide (id ∉ slotLayers m)) ↔
      (request.addlayer.isSome = true → 0 < r.slots.allocated →
        r.slots.needsReset = true ∨ r.slots.currentBefore ≠ request.beforeLayer) := by
  have halloc : r2.slots.allocated = m := by rw [hg.slots]
  have hle : r.slots.allocated ≤ m := by
    have hle0 := hg.le
    rwa [hi.relaid.slots] at hle0
  have hmoves : (r2.slots.needsReset || r2.slots.currentBefore != request.beforeLayer) = true ↔
      r.slots.needsReset = true ∨ r.slots.currentBefore ≠ request.beforeLayer := by
    rw [hg.slots, hi.relaid.slots]
    simp
  by_cases hmove : (r2.slots.needsReset || r2.slots.currentBefore != request.beforeLayer) = true
  · refine ⟨fun _ _ _ => hmoves.mp hmove, fun _ => ?_⟩
    have hdrop : ∀ id ∈ slotLayers m, decide (id ∉ slotLayers m) = false := fun id hid => by simp [hid]
    rw [bandedLayers, if_pos hmove, halloc, spliceEach_eq_splice (hstand.not_mem_slotLayers m), filter_splice_of_drop hdrop,
      List.filter_filter]
    simp
  · have hkeep : ∀ b ∈ request.beforeLayer, b ∈ base → decide (b ∉ slotLayers m) = true :=
      fun b hb _ => decide_eq_true (hstand.not_mem_slotLayers m b hb)
    have hslots : ((slotLayers r.slots.allocated ++ request.extra ++ slotLayersFrom r.slots.allocated m).filter
        fun id => decide (id ∉ slotLayers m)) = request.extra := by
      have hold : ((slotLayers r.slots.allocated).filter fun id => decide (id ∉ slotLayers m)) = [] :=
        List.filter_eq_nil_iff.mpr fun a ha => by simp [← slotLayers_split hle, ha]
      have hnew : ((slotLayersFrom r.slots.allocated m).filter fun id => decide (id ∉ slotLayers m)) = [] :=
        List.filter_eq_nil_iff.mpr fun a ha => by simp [← slotLayers_split hle, ha]
      have hextra : (request.extra.filter fun id => decide (id ∉ slotLayers m)) = request.extra := filter_hidden_extra request 0 m
      rw [List.filter_append, List.filter_append, hold, hnew, hextra, List.nil_append, List.append_nil]
    have hrest : (base.filter fun id => decide (id ∉ slotLayers m)) = base := filter_hidden_base hbase 0 m
    rw [bandedLayers_of_not_moved h hi hstand hg hmove, filter_splice hkeep, hslots, hrest,
      splice_splice (standing_not_mem_extra request.extra_addlayer hstand)]
    constructor
    · intro heq hown hpos
      have hzero := (bands_eq_iff request hle).mp (splice_left_injective heq) hown
      omega
    · intro hclear
      rw [(bands_eq_iff request hle).mpr]
      intro hown
      by_contra hne
      exact hmove (hmoves.mpr (hclear hown (Nat.pos_of_ne_zero hne)))

include hbase in
/-- After `assign_slots` all is as it should be exactly when the pool was not in the request's way. -/
theorem consistent_iff_clear {request : OverlayRequest} {r r0 r1 : StaticRenderer} (h : PoolInv base [] r)
    (hi : Installed request r r0)
    (hstand : Standing request.beforeLayer) (hr : Readied base request.extra request.overlays request.beforeLayer r0 r1) :
    SlotsConsistent request r1 ↔ Clear r request := by
  have hinv := hr.inv.1
  have honce : ∀ i < r1.slots.allocated, ∀ id ∈ slotLayerIds i, r1.style.layers.count id = 1 := fun i hi id hid =>
    List.count_eq_one_of_mem hinv.nodup (hinv.allocated id (mem_slotLayers.mpr ⟨i, hi, hid⟩))
  have habsent : ∀ i, r1.slots.allocated ≤ i → ∀ id ∈ slotLayerIds i, id ∉ r1.style.layers :=
    hinv.unallocated hbase request.extra_addlayer
  rcases hr with ⟨hnil, shown, hyes, hno, ha⟩ | ⟨hne, r2, hg, ha⟩
  · have hshown : shown = [] ↔ r.slots.hasData = true ∨ r.style.overlaySource = some [] := by
      rw [hi.relaid.slots] at hyes hno
      rw [hi.relaid.source] at hno
      cases hdata : r.slots.hasData with
      | true => simp [hyes hdata]
      | false => simp [hno hdata]
    constructor
    · intro hconsistent
      have hsource := hconsistent.source
      rw [ha.source, hnil] at hsource
      exact ⟨fun _ => hshown.mp (Option.some.inj hsource), fun hne => absurd hnil hne⟩
    · intro hclear
      refine ⟨?_, honce, habsent, fun hne => absurd hnil hne⟩
      rw [ha.source, hnil, hshown.mpr (hclear.source hnil)]
  · have hband := banded_iff hbase h hi hstand hg
    rw [← ha.layers, ← ha.allocated] at hband
    constructor
    · intro hconsistent
      exact ⟨fun hnil => absurd hnil hne, fun _ => hband.mp (hconsistent.banded hne)⟩
    · intro hclear
      exact ⟨ha.source, honce, habsent, fun _ => hband.mpr (hclear.band hne)⟩

end Bands

/-- A request's own layer is put in, if it brings one along. -/
def installOwn (hash : AddLayerSource → UInt64) (request : OverlayRequest) : RendererM Unit :=
  match request.addlayer with
  | none => pure ()
  | some addlayer => installAddlayer hash addlayer request.beforeLayer request.taskId

theorem installOwn_ends (hash : AddLayerSource → UInt64) (request : OverlayRequest) (r : StaticRenderer) :
    Ends (installOwn hash request) r (fun _ => Installed request r) (Kept r) := by
  unfold installOwn
  split
  · rename_i hadd
    have hextra : request.extra = [] := by simp [OverlayRequest.extra, hadd]
    exact Ends.pure ⟨by simp [hextra], by simpa [hextra, Kept] using Kept.refl r⟩
  · rename_i addlayer hadd
    have hextra : request.extra = [addlayerId request.taskId] := by simp [OverlayRequest.extra, hadd]
    refine (installAddlayer_ends hash addlayer request.beforeLayer request.taskId r).mono (fun _ r0 h0 => ?_) fun _ hk => hk
    refine ⟨fun id hid => ?_, hextra ▸ h0.2⟩
    rw [hextra] at hid
    exact List.mem_singleton.mp hid ▸ h0.1

namespace Overlay

/-- The renderer when `assign_slots` has returned for the request of the action; nothing when it fails, or is not reached. -/
def assigned (hash : AddLayerSource → UInt64) (base : BaseStyle) (r : StaticRenderer) (a : Action) : Option StaticRenderer :=
  let prepare : RendererM Unit := do
    installOwn hash a.request
    assignSlots a.request.overlays a.request.prepared a.request.beforeLayer
  match prepare (started base r a) with
  | .ok () r' => some r'
  | .error _ _ => none

section

variable (hash : AddLayerSource → UInt64) (base : BaseStyle) (hbase : ∀ id ∈ base.layers, ¬Managed id)

include hbase in
/-- How a renderer comes to be assigned. -/
theorem assigned_readied {r r1 : StaticRenderer} (h : r.slots.needsRebuild = true ∨ PoolInv base.layers [] r) {a : Action}
    (ha : assigned hash base r a = some r1) :
    ∃ r0, Installed a.request (started base r a) r0 ∧
      Readied base.layers a.request.extra a.request.overlays a.request.beforeLayer r0 r1 := by
  have hinv := poolInv_started h a
  have hend : Ends (do installOwn hash a.request; assignSlots a.request.overlays a.request.prepared a.request.beforeLayer)
      (started base r a)
      (fun _ r1 => ∃ r0, Installed a.request (started base r a) r0 ∧
        Readied base.layers a.request.extra a.request.overlays a.request.beforeLayer r0 r1) (fun _ => True) := by
    refine ((installOwn_ends hash a.request (started base r a)).mono (fun _ _ hi => hi) fun _ _ => trivial).bind fun _ r0 hi => ?_
    have hassign := assignSlots_ends hbase a.request.extra_addlayer a.request.overlays a.request.prepared a.request.beforeLayer
      (hinv.installed hi)
    exact hassign.mono (fun _ r1 hr => ⟨r0, hi, hr⟩) fun _ _ => trivial
  unfold assigned at ha
  simp only at ha
  split at ha
  · rename_i r' hx
    cases ha
    exact hend.ok_of hx
  · cases ha

include hbase in
/-- After any requests with any failures, what `assign_slots` leaves for a request that names no layer of the pool is consistent
exactly when the pool was not in the request's way. -/
theorem slots_consistent_iff_clear {r r1 : StaticRenderer} (hr : (machine hash base).Reachable r) (request : OverlayRequest)
    (hstand : Standing request.beforeLayer) (faults : List (Option String))
    (hassigned : assigned hash base r ⟨request, faults⟩ = some r1) :
    SlotsConsistent request r1 ↔ Clear (ensured base r) request := by
  have hinv := reachable_poolInv hash base hbase hr
  obtain ⟨r0, hi, hready⟩ := assigned_readied hash base hbase hinv hassigned
  rw [← clear_started base r ⟨request, faults⟩]
  exact consistent_iff_clear hbase (poolInv_started hinv ⟨request, faults⟩) hi hstand hready

end

theorem slots_consistent_iff_clear_loweredRequest :
    ∃ r1, assigned (fun _ => 0) labelled pinned ⟨loweredRequest, []⟩ = some r1 ∧ SlotsConsistent loweredRequest r1 := by
  have hreach : (machine (fun _ => 0) labelled).Reachable pinned :=
    Machine.Reachable.next (a := ⟨pinRequest, []⟩) Machine.ReachedBy.init rfl
  obtain ⟨r1, hr1⟩ := Option.isSome_iff_exists.mp
    (show (assigned (fun _ => 0) labelled pinned ⟨loweredRequest, []⟩).isSome = true by decide +kernel)
  refine ⟨r1, hr1, ?_⟩
  have hmain := slots_consistent_iff_clear (fun _ => 0) labelled not_managed_labelled hreach loweredRequest
    standing_loweredRequest [] hr1
  refine hmain.mpr ⟨fun hnil => ?_, fun _ _ _ => Or.inr ?_⟩
  · exact absurd hnil (List.cons_ne_nil _ _)
  · decide +kernel

/-- A request without overlays. -/
def bareRequest : OverlayRequest := ⟨[], false, none, none, 3⟩

/-- The image of the pin cannot be drawn: the tenth native call of the request fails. -/
def unpinned : StaticRenderer :=
  next (fun _ => 0) labelled (StaticRenderer.fresh labelled) ⟨pinRequest, List.replicate 9 none ++ [some "no image"]⟩

/-- The features of a pin whose request failed are in the source of the next request, which has no overlays. -/
theorem failed_pin_stays_in_source :
    (machine (fun _ => 0) labelled).Reachable unpinned ∧ unpinned.frames = [] ∧ unpinned.slots.needsRebuild = false ∧
      ∃ r1, assigned (fun _ => 0) labelled unpinned ⟨bareRequest, []⟩ = some r1 ∧ r1.slots.needsRebuild = false ∧
        r1.style.overlaySource.map List.length = some 1 ∧ ¬SlotsConsistent bareRequest r1 := by
  have hreach : (machine (fun _ => 0) labelled).Reachable unpinned :=
    Machine.Reachable.next (a := ⟨pinRequest, List.replicate 9 none ++ [some "no image"]⟩) Machine.ReachedBy.init rfl
  have hassigned : (assigned (fun _ => 0) labelled unpinned ⟨bareRequest, []⟩).map
      (fun r1 => (r1.slots.needsRebuild, r1.style.overlaySource.map List.length)) = some (false, some 1) := by decide +kernel
  obtain ⟨r1, hr1, hfound⟩ := Option.map_eq_some_iff.mp hassigned
  obtain ⟨hrebuild, hsource⟩ := Prod.mk.inj hfound
  refine ⟨hreach, List.eq_nil_of_length_eq_zero (by decide +kernel), by decide +kernel, r1, hr1, hrebuild, hsource, ?_⟩
  intro hconsistent
  rw [hconsistent.source] at hsource
  cases hsource

end Overlay

end Biei
