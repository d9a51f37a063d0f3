import Biei.Lemmas.Overlay

/-!
# What every request keeps

The base style's layers stay in place under whatever a request adds, and the slots stand together where the pool says.
-/

namespace Biei

/-! ## The invariant -/

/-- Where the pool stands is named by no layer of its own. -/
def Standing (before : Option String) : Prop := ∀ b ∈ before, ¬Managed b

/-- The base style's layers are in place, with the allocated slots and the request's own layer (`extra`) among them; and the slots
stand together where the pool says. -/
structure PoolInv (base extra : List String) (r : StaticRenderer) : Prop where
  nodup : r.style.layers.Nodup
  rest : (r.style.layers.filter fun a => decide (a ∉ slotLayers r.slots.allocated ++ extra)) = base
  allocated : ∀ id ∈ slotLayers r.slots.allocated, id ∈ r.style.layers
  placed : r.slots.needsReset = false → Standing r.slots.currentBefore →
    (r.style.layers.filter fun a => decide (a ∉ extra)) = splice r.slots.currentBefore (slotLayers r.slots.allocated) base
  shown : ∃ overlays, r.style.overlaySource = some overlays ∧ overlaySlotCount overlays ≤ r.slots.allocated
  size : r.slots.maxSize = maxStaticOverlays

theorem filter_not_mem_append (l xs ys : List String) :
    (l.filter fun a => decide (a ∉ xs ++ ys)) = (l.filter fun a => decide (a ∉ xs)).filter fun a => decide (a ∉ ys) := by
  rw [List.filter_filter]
  refine List.filter_congr fun a _ => ?_
  simp [Bool.and_comm]

theorem Standing.not_mem {before : Option String} (h : Standing before) (lo hi : Nat) : ∀ b ∈ before, b ∉ slotLayersFrom lo hi :=
  fun b hb hmem => h b hb (managed_of_mem_slotLayersFrom hmem)

theorem Standing.not_mem_slotLayers {before : Option String} (h : Standing before) (n : Nat) : ∀ b ∈ before, b ∉ slotLayers n :=
  h.not_mem 0 n

variable {r r' : StaticRenderer}

theorem PoolInv.congr {base extra : List String} (h : PoolInv base extra r)
    (hlay : r'.style.layers = r.style.layers) (hslots : r'.slots = { r.slots with hasData := r'.slots.hasData })
    (hsrc : ∃ overlays, r'.style.overlaySource = some overlays ∧ overlaySlotCount overlays ≤ r.slots.allocated) :
    PoolInv base extra r' := by
  have halloc : r'.slots.allocated = r.slots.allocated := by rw [hslots]
  refine ⟨hlay ▸ h.nodup, ?_, ?_, ?_, halloc ▸ hsrc, ?_⟩
  · rw [hlay, halloc]
    exact h.rest
  · rw [hlay, halloc]
    exact h.allocated
  · rw [hlay, hslots]
    exact h.placed
  · rw [hslots]
    exact h.size

theorem PoolInv.kept {base extra : List String} (h : PoolInv base extra r) (hk : Kept r r') :
    PoolInv base extra r' :=
  h.congr hk.layers (by rw [hk.slots]) (hk.source ▸ h.shown)

section Request

variable {base extra : List String} (hbase : ∀ id ∈ base, ¬Managed id) (hextra : ∀ id ∈ extra, ∃ taskId, id = addlayerId taskId)

include hextra in
theorem slot_not_mem_extra {id : String} {i : Nat} (hid : id ∈ slotLayerIds i) : id ∉ extra := by
  intro hmem
  obtain ⟨taskId, rfl⟩ := hextra id hmem
  obtain ⟨k, -, heq⟩ := mem_slotLayerIds.mp hid
  exact addlayerId_ne_slotLayerId taskId i k heq

variable {before : Option String}

include hextra in
theorem standing_not_mem_extra (h : Standing before) : ∀ b ∈ before, b ∉ extra := by
  intro b hb hmem
  exact h b hb (Or.inr (hextra b hmem))

variable {r : StaticRenderer}

include hbase hextra in
theorem PoolInv.unallocated (h : PoolInv base extra r) : Unallocated r := by
  intro i hi id hid hmem
  have hslot : id ∉ slotLayers r.slots.allocated := by
    intro hin
    obtain ⟨j, hj, hidj⟩ := mem_slotLayers.mp hin
    have heq := slotLayerIds_disjoint hid hidj
    omega
  have hin : id ∈ base := by
    rw [← h.rest]
    refine List.mem_filter.mpr ⟨hmem, decide_eq_true ?_⟩
    simp [hslot, slot_not_mem_extra hextra hid]
  exact hbase id hin (Or.inl ⟨i, hid⟩)

theorem slotLayers_split {n m : Nat} (h : n ≤ m) : slotLayers n ++ slotLayersFrom n m = slotLayers m :=
  slotLayersFrom_append (Nat.zero_le n) h

theorem nodup_slotLayersFrom {n m : Nat} (h : n ≤ m) : (slotLayersFrom n m).Nodup := by
  have hall := nodup_slotLayers m
  rw [← slotLayers_split h] at hall
  exact (List.nodup_append.mp hall).2.1

include hextra in
theorem filter_slotLayersFrom_extra (n m : Nat) : ((slotLayersFrom n m).filter fun a => decide (a ∉ extra)) = slotLayersFrom n
    m := by
  refine List.filter_eq_self.mpr fun a ha => decide_eq_true ?_
  obtain ⟨i, -, -, hid⟩ := mem_slotLayersFrom.mp ha
  exact slot_not_mem_extra hextra hid

variable {r r' : StaticRenderer}

include hbase hextra in
/-- Growing the pool keeps it. -/
theorem PoolInv.grown {m : Nat} (h : PoolInv base extra r) (hg : Grown r m r') : PoolInv base extra r' := by
  have hun := h.unallocated hbase hextra
  have hslots : r'.slots.allocated = m := by rw [hg.slots]
  have hnew : ∀ a ∈ slotLayersFrom r.slots.allocated m, a ∉ r.style.layers := by
    intro a ha
    obtain ⟨i, hi, -, hid⟩ := mem_slotLayersFrom.mp ha
    exact hun i hi a hid
  have hsplit := slotLayers_split hg.le
  refine ⟨?_, ?_, ?_, ?_, ?_, ?_⟩
  · rw [hg.layers]
    exact nodup_spliceEach (nodup_slotLayersFrom hg.le) h.nodup hnew
  · rw [hg.layers, hslots, filter_spliceEach_of_drop, ← h.rest]
    · refine List.filter_congr fun a ha => ?_
      have hna : a ∉ slotLayersFrom r.slots.allocated m := fun hmem => hnew a hmem ha
      simp [← hsplit, hna]
    · intro a ha
      simp [← hsplit, ha]
  · intro id hid
    rw [hslots, ← hsplit, List.mem_append] at hid
    rw [hg.layers, mem_spliceEach]
    exact hid.elim (fun h' => Or.inr (h.allocated id h')) Or.inl
  · intro hreset hstand
    rw [hg.slots] at hreset hstand ⊢
    dsimp only at hreset hstand ⊢
    have hpl := h.placed hreset hstand
    rw [hg.layers, filter_spliceEach, hpl, filter_slotLayersFrom_extra hextra, spliceEach_eq_splice (hstand.not_mem _ _),
      splice_splice (hstand.not_mem_slotLayers _), hsplit]
    exact fun b hb => decide_eq_true (standing_not_mem_extra hextra hstand b hb)
  · obtain ⟨overlays, hsrc, hle⟩ := h.shown
    exact ⟨overlays, hg.source.trans hsrc, hslots ▸ hle.trans hg.le⟩
  · rw [hg.slots]
    exact h.size

theorem PoolInv.rest_eq (h : PoolInv base extra r) :
    ((r.style.layers.filter fun a => decide (a ∉ slotLayers r.slots.allocated)).filter fun a => decide (a ∉ extra)) = base := by
  rw [← filter_not_mem_append]
  exact h.rest

include hextra in
/-- Moving the pool keeps it. -/
theorem PoolInv.movedTo (h : PoolInv base extra r) (hm : MovedTo before r r') :
    PoolInv base extra r' := by
  have hslots : r'.slots.allocated = r.slots.allocated := by rw [hm.slots]
  refine ⟨?_, ?_, ?_, ?_, ?_, ?_⟩
  · rw [hm.layers]
    refine nodup_spliceEach (nodup_slotLayers _) (h.nodup.filter _) fun a ha hmem => ?_
    exact of_decide_eq_true (List.mem_filter.mp hmem).2 ha
  · rw [hm.layers, hslots, filter_spliceEach_of_drop]
    · rw [filter_not_mem_append, List.filter_filter]
      simpa using h.rest_eq
    · intro a ha
      simp [ha]
  · intro id hid
    rw [hslots] at hid
    rw [hm.layers, mem_spliceEach]
    exact Or.inl hid
  · intro _ hstand
    rw [hm.slots] at hstand ⊢
    rw [hm.layers, filter_spliceEach, h.rest_eq, slotLayers, filter_slotLayersFrom_extra hextra,
      spliceEach_eq_splice (hstand.not_mem _ _)]
    exact fun b hb => decide_eq_true (standing_not_mem_extra hextra hstand b hb)
  · rw [hm.source, hslots]
    exact h.shown
  · rw [hm.slots]
    exact h.size

/-- After a failed move the layers are still there, in some order, or the pool asks to be rebuilt. -/
theorem PoolInv.moveFailed (h : PoolInv base extra r)
    (hm : MoveFailed (slotLayers r.slots.allocated) (r.style.layers.filter fun a => decide (a ∉ slotLayers r.slots.allocated))
      r r') :
    r'.slots.needsRebuild = true ∨ PoolInv base extra r' := by
  obtain ⟨rebuild, hslots⟩ := hm.slots
  have halloc : r'.slots.allocated = r.slots.allocated := by rw [hslots]
  refine hm.mixed.imp_right fun hmix => ⟨hmix.nodup, ?_, ?_, ?_, ?_, ?_⟩
  · rw [halloc, hmix.filter]
    · rw [filter_not_mem_append, List.filter_filter]
      simpa using h.rest_eq
    · intro a ha
      simp [ha]
  · intro id hid
    rw [halloc] at hid
    exact (hmix.mem id).mpr (Or.inl hid)
  · intro hreset
    rw [hslots] at hreset
    cases hreset
  · rw [hm.source, halloc]
    exact h.shown
  · rw [hslots]
    exact h.size

/-! ## Assigning the slots -/

/-- `r'` is `r` with the features of these overlays in the shared source. -/
structure Sourced (r : StaticRenderer) (overlays : List StaticOverlay) (r' : StaticRenderer) : Prop where
  layers : r'.style.layers = r.style.layers
  source : r'.style.overlaySource = some overlays
  slots : r'.slots = r.slots
  frames : r'.frames = r.frames

theorem setSourceGeojson_ends (h : PoolInv base extra r) (overlays : List StaticOverlay) (err : StaticRenderer → Prop) :
    Ends (setSourceGeojson overlays) r (fun _ => Sourced r overlays) err := by
  obtain ⟨shown, hsrc, -⟩ := h.shown
  unfold Ends setSourceGeojson
  rw [hsrc]
  exact ⟨rfl, rfl, rfl, rfl⟩

theorem registerPinImages_ends (registered ids : List String) (r : StaticRenderer) :
    Ends (registerPinImages registered ids) r (fun _ => Kept r) (Kept r) := by
  induction ids generalizing registered r with
  | nil => exact Ends.pure (Kept.refl r)
  | cons id ids ih =>
    unfold registerPinImages
    refine (nativeCall_ends r).bind fun _ r1 h1 => ?_
    have hcall := nativeCall_ends r1
    unfold Ends at hcall ⊢
    cases hx : nativeCall r1 with
    | ok u r2 =>
      rw [hx] at hcall
      simp only [hx]
      have hkept : Kept r1 { r2 with style := { r2.style with images := r2.style.images ++ [id] } } :=
        ⟨hcall.layers, hcall.source, hcall.slots, hcall.frames⟩
      exact (ih (registered ++ [id]) _).mono (fun _ _ h => h1.trans (hkept.trans h)) fun _ h => h1.trans (hkept.trans h)
    | error e r2 =>
      rw [hx] at hcall
      simp only [hx]
      exact h1.trans ⟨hcall.layers, hcall.source, hcall.slots, hcall.frames⟩

/-- The layers once the pool stands where the request wants it. -/
def bandedLayers (r : StaticRenderer) (before : Option String) : List String :=
  if r.slots.needsReset || r.slots.currentBefore != before then
    spliceEach before (slotLayers r.slots.allocated) (r.style.layers.filter fun a => decide (a ∉ slotLayers r.slots.allocated))
  else r.style.layers

/-- What a request that does not get to draw leaves: nothing drawn, and a pool that is kept or asks to be rebuilt. -/
def LeftOver (base extra : List String) (r r' : StaticRenderer) : Prop :=
  r'.frames = r.frames ∧ (r'.slots.needsRebuild = true ∨ PoolInv base extra r')

/-- The pool stands where the request wants it. -/
structure Banded (base extra : List String) (before : Option String) (r r' : StaticRenderer) : Prop where
  inv : PoolInv base extra r'
  layers : r'.style.layers = bandedLayers r before
  allocated : r'.slots.allocated = r.slots.allocated
  source : r'.style.overlaySource = r.style.overlaySource
  frames : r'.frames = r.frames

theorem Banded.kept {r r' r'' : StaticRenderer} (h : Banded base extra before r r') (hk : Kept r' r'') :
    Banded base extra before r r'' :=
  ⟨h.inv.kept hk, hk.layers.trans h.layers, by rw [hk.slots, h.allocated], hk.source.trans h.source, hk.frames.trans h.frames⟩

include hextra in
theorem reposition_ends (before : Option String) (h : PoolInv base extra r) :
    Ends (reposition before) r (fun _ => Banded base extra before r) (LeftOver base extra r) := by
  by_cases hc : (r.slots.needsReset || r.slots.currentBefore != before) = true
  · have hmove : reposition before r = moveAllLayers before r := by simp only [reposition, if_pos hc]
    have hend := moveAllLayers_ends before r h.nodup h.allocated
    unfold Ends at hend ⊢
    rw [hmove]
    split
    · rename_i u r1 hx
      rw [hx] at hend
      have hlay : r1.style.layers = bandedLayers r before := by
        rw [bandedLayers, if_pos hc]
        exact hend.layers
      exact ⟨h.movedTo hextra hend, hlay, by rw [hend.slots], hend.source, hend.frames⟩
    · rename_i e r1 hx
      rw [hx] at hend
      exact ⟨hend.frames, h.moveFailed hend⟩
  · refine Ends.of_ok (a := ()) (t := r) (by simp only [reposition, if_neg hc]) ?_
    exact ⟨h, by simp only [bandedLayers, if_neg hc], rfl, rfl, rfl⟩

/-- The pool stands where the request wants it and the source holds the request's features. -/
structure Assigned (base extra : List String) (overlays : List StaticOverlay) (layers : List String) (allocated : Nat)
    (r r' : StaticRenderer) : Prop where
  inv : PoolInv base extra r'
  layers : r'.style.layers = layers
  allocated : r'.slots.allocated = allocated
  source : r'.style.overlaySource = some overlays
  frames : r'.frames = r.frames

theorem buildOverlayGeojson_ends (prepared : Bool) (r : StaticRenderer) :
    Ends (buildOverlayGeojson prepared) r (fun _ => Kept r) (Kept r) := by
  cases prepared with
  | true => exact Ends.pure (Kept.refl r)
  | false => exact nativeCall_ends r

include hextra in
theorem assignOverlays_ends (overlays : List StaticOverlay) (prepared : Bool) (before : Option String)
    (h : PoolInv base extra r) (hcount : overlaySlotCount overlays ≤ r.slots.allocated) :
    Ends (assignOverlays overlays prepared before) r
      (fun _ => Assigned base extra overlays (bandedLayers r before) r.slots.allocated r) (LeftOver base extra r) := by
  refine (reposition_ends hextra before h).bind fun _ r1 h1 => ?_
  have hleft1 : ∀ r', Kept r1 r' → LeftOver base extra r r' :=
    fun r' hk => ⟨hk.frames.trans h1.frames, Or.inr (h1.inv.kept hk)⟩
  refine ((buildOverlayGeojson_ends prepared r1).mono (fun _ _ hk => hk) hleft1).bind fun _ r2 h2 => ?_
  have h12 := h1.kept h2
  refine (setSourceGeojson_ends h12.inv overlays _).bind fun _ r3 h3 => ?_
  have hcount3 : overlaySlotCount overlays ≤ r2.slots.allocated := h12.allocated ▸ hcount
  have hinv3 : PoolInv base extra r3 := h12.inv.congr h3.layers (by rw [h3.slots]) ⟨overlays, h3.source, hcount3⟩
  have hleft3 : ∀ r', Kept r3 r' → LeftOver base extra r r' :=
    fun r' hk => ⟨hk.frames.trans (h3.frames.trans h12.frames), Or.inr (hinv3.kept hk)⟩
  refine ((registerPinImages_ends [] (pinImageIds overlays) r3).mono (fun _ _ hk => hk) hleft3).bind fun _ r4 h4 => ?_
  refine Ends.of_ok (a := ()) rfl ⟨?_, ?_, ?_, ?_, ?_⟩
  · exact (hinv3.kept h4).congr rfl rfl (hinv3.kept h4).shown
  · exact h4.layers.trans (h3.layers.trans h12.layers)
  · rw [← h12.allocated, ← h3.slots, ← h4.slots]
  · exact h4.source.trans h3.source
  · exact h4.frames.trans (h3.frames.trans h12.frames)

include hbase hextra in
theorem ensureCapacity_ends (needed : Nat) (h : PoolInv base extra r) (hn : needed ≤ r.slots.maxSize) :
    Ends (ensureCapacity needed) r (fun _ => Grown r (max r.slots.allocated needed)) (LeftOver base extra r) := by
  have hend := growSlots_ends (min needed r.slots.maxSize - r.slots.allocated) r h.nodup (h.unallocated hbase hextra)
  have hmax : r.slots.allocated + (min needed r.slots.maxSize - r.slots.allocated) = max r.slots.allocated needed := by omega
  rw [hmax] at hend
  refine hend.mono (fun _ _ hg => hg) fun r' hg => ?_
  obtain ⟨m, -, hg⟩ := hg
  exact ⟨hg.frames, Or.inr (h.grown hbase hextra hg)⟩

/-- What `assign_slots` has brought about when it succeeds. -/
def Readied (base extra : List String) (overlays : List StaticOverlay) (before : Option String) (r r' : StaticRenderer) : Prop :=
  (overlays = [] ∧ ∃ shown, (r.slots.hasData = true → shown = []) ∧
    (r.slots.hasData = false → r.style.overlaySource = some shown) ∧
    Assigned base extra shown r.style.layers r.slots.allocated r r') ∨
  (overlays ≠ [] ∧ ∃ r1, Grown r (max r.slots.allocated (overlaySlotCount overlays)) r1 ∧
    Assigned base extra overlays (bandedLayers r1 before) (max r.slots.allocated (overlaySlotCount overlays)) r r')

theorem clearOverlays_ends (h : PoolInv base extra r) (before : Option String) (err : StaticRenderer → Prop) :
    Ends clearOverlays r (fun _ => Readied base extra [] before r) err := by
  refine Ends.get_bind ?_
  split
  · rename_i hdata
    refine (setSourceGeojson_ends h [] err).bind fun _ r1 h1 => Ends.of_ok (a := ()) rfl (Or.inl ⟨rfl, [], ?_⟩)
    have hinv : PoolInv base extra r1 := h.congr h1.layers (by rw [h1.slots]) ⟨[], h1.source, Nat.zero_le _⟩
    refine ⟨fun _ => rfl, fun hno => absurd hdata (by simp [hno]), hinv.congr rfl rfl hinv.shown, h1.layers, ?_, h1.source,
      h1.frames⟩
    rw [← h1.slots]
  · rename_i hdata
    obtain ⟨shown, hsrc, hle⟩ := h.shown
    refine Ends.pure (Or.inl ⟨rfl, shown, fun hyes => absurd hyes hdata, fun _ => hsrc, h, rfl, rfl, hsrc, rfl⟩)

include hbase hextra in
theorem assignSlots_ends (overlays : List StaticOverlay) (prepared : Bool) (before : Option String) (h : PoolInv base extra r) :
    Ends (assignSlots overlays prepared before) r (fun _ => Readied base extra overlays before r) (LeftOver base extra r) := by
  refine Ends.get_bind ?_
  dsimp only
  split
  · exact Ends.of_error rfl ⟨rfl, Or.inr h⟩
  · rename_i hlen
    have hcount : overlaySlotCount overlays ≤ r.slots.maxSize := (overlaySlotCount_le overlays).trans (Nat.le_of_not_lt hlen)
    refine (ensureCapacity_ends hbase hextra (overlaySlotCount overlays) h hcount).bind fun _ r1 h1 => ?_
    have hinv1 := h.grown hbase hextra h1
    have halloc : r1.slots.allocated = max r.slots.allocated (overlaySlotCount overlays) := by rw [h1.slots]
    split
    · -- no overlays: the pool has not grown
      rename_i hemp
      obtain rfl : overlays = [] := List.isEmpty_iff.mp hemp
      have hkept : Kept r r1 := by
        have hg := h1
        rw [overlaySlotCount_nil, Nat.max_zero] at hg
        exact ⟨by simpa using hg.layers, hg.source, hg.slots, hg.frames⟩
      refine (clearOverlays_ends hinv1 before _).mono (fun _ r' hr => ?_) fun r' hr => hr
      rcases hr with ⟨-, shown, hyes, hno, ha⟩ | ⟨hne, -⟩
      · rw [hkept.slots] at hyes hno ha
        rw [hkept.source] at hno
        rw [hkept.layers] at ha
        exact Or.inl ⟨rfl, shown, hyes, hno, ha.inv, ha.layers, ha.allocated, ha.source, ha.frames.trans hkept.frames⟩
      · exact absurd rfl hne
    · rename_i hemp
      have hne : overlays ≠ [] := fun hnil => hemp (by simp [hnil])
      refine (assignOverlays_ends hextra overlays prepared before hinv1 (by omega)).mono (fun _ r' ha => ?_) fun r' hl => ?_
      · rw [halloc] at ha
        exact Or.inr ⟨hne, r1, h1, ha.inv, ha.layers, ha.allocated, ha.source, ha.frames.trans h1.frames⟩
      · exact ⟨hl.1.trans h1.frames, hl.2⟩

/-- How a request ends once its own layer is in: nothing was drawn, or one frame was. -/
def Rendered (base extra : List String) (request : OverlayRequest) (r r' : StaticRenderer) : Prop :=
  LeftOver base extra r r' ∨
    ∃ r1, Readied base extra request.overlays request.beforeLayer r r1 ∧ PoolInv base extra r' ∧
      r'.frames = r.frames ++ [⟨request, r1.visibleLayers⟩]

theorem Readied.inv {overlays : List StaticOverlay}
    (h : Readied base extra overlays before r r') : PoolInv base extra r' ∧ r'.frames = r.frames := by
  rcases h with ⟨-, _, -, -, ha⟩ | ⟨-, _, -, ha⟩
  · exact ⟨ha.inv, ha.frames⟩
  · exact ⟨ha.inv, ha.frames⟩

/-- Drawing logs the frame and leaves the layers. -/
theorem drawStatic_ends (request : OverlayRequest) (h : PoolInv base extra r) :
    Ends (drawStatic request) r (fun _ r' => PoolInv base extra r' ∧ r'.frames = r.frames ++ [⟨request, r.visibleLayers⟩])
      (fun r' => PoolInv base extra r' ∧ r'.frames = r.frames ++ [⟨request, r.visibleLayers⟩]) := by
  have hlog : PoolInv base extra { r with frames := r.frames ++ [⟨request, r.visibleLayers⟩] } := h.congr rfl rfl h.shown
  have hcall := nativeCall_ends { r with frames := r.frames ++ [⟨request, r.visibleLayers⟩] }
  unfold Ends drawStatic at *
  split at hcall
  · rename_i u r1 hx
    simp only [hx]
    have hinv := hlog.kept hcall
    exact ⟨hinv.congr rfl rfl hinv.shown, hcall.frames⟩
  · rename_i e r1 hx
    simp only [hx]
    have hinv := hlog.kept hcall
    exact ⟨hinv.congr rfl rfl hinv.shown, hcall.frames⟩

include hbase hextra in
theorem renderStaticWithOverlays_ends (request : OverlayRequest) (h : PoolInv base extra r) :
    Ends (renderStaticWithOverlays request) r (fun _ => Rendered base extra request r) (Rendered base extra request r) := by
  refine ((assignSlots_ends hbase hextra request.overlays request.prepared request.beforeLayer h).mono (fun _ _ hr => hr)
    fun _ hl => Or.inl hl).bind fun _ r1 h1 => ?_
  obtain ⟨hinv, hframes⟩ := h1.inv
  refine (drawStatic_ends request hinv).mono (fun _ r' hd => ?_) fun r' hd => ?_
  · exact Or.inr ⟨r1, h1, hd.1, hframes ▸ hd.2⟩
  · exact Or.inr ⟨r1, h1, hd.1, hframes ▸ hd.2⟩

end Request

/-! ## The request's own layer -/

theorem evictSources_kept (rounds : Nat) (r : StaticRenderer) : Kept r (evictSources rounds r) := by
  induction rounds generalizing r with
  | zero => exact Kept.refl r
  | succ rounds ih =>
    unfold evictSources
    dsimp only
    split
    · split
      · exact Kept.refl r
      · refine Kept.trans ?_ (ih _)
        exact ⟨rfl, rfl, rfl, rfl⟩
    · exact Kept.refl r

theorem addSource_ends (id json : String) (r : StaticRenderer) : Ends (addSource id json) r (fun _ => Kept r) (Kept r) := by
  refine (nativeCall_ends r).bind fun _ r1 h1 => Ends.get_bind ?_
  split
  · exact Ends.of_error rfl h1
  · exact Ends.of_ok rfl (h1.trans ⟨rfl, rfl, rfl, rfl⟩)

theorem ensureSource_ends (hash : AddLayerSource → UInt64) (source : AddLayerSource) (r : StaticRenderer) :
    Ends (ensureSource hash source) r (fun _ => Kept r) (Kept r) := by
  have hevict := evictSources_kept r.addlayerSources.lru.length r
  cases hfind : r.addlayerSources.entries.find? fun entry => decide (entry.2 = source) with
  | some entry =>
    refine Ends.of_ok (a := (entry.1, false)) (by simp only [ensureSource, hfind]; rfl) ?_
    exact ⟨rfl, rfl, rfl, rfl⟩
  | none =>
    cases hid : (evictSources r.addlayerSources.lru.length r).addlayerSources.vacantId
        (AddLayerSourceCache.stableSourceId hash source) with
    | none => exact Ends.of_error (by simp only [ensureSource, hfind, hid]; rfl) hevict
    | some id =>
      have hadd : Ends (do nativeCall; addSource id source.json : RendererM Unit) (evictSources r.addlayerSources.lru.length r)
          (fun _ => Kept r) (Kept r) := by
        refine ((nativeCall_ends _).mono (fun _ _ h => hevict.trans h) fun _ h => hevict.trans h).bind fun _ r1 h1 => ?_
        exact (addSource_ends id source.json r1).mono (fun _ _ h => h1.trans h) fun _ h => h1.trans h
      cases hx : (do nativeCall; addSource id source.json : RendererM Unit) (evictSources r.addlayerSources.lru.length r) with
      | ok u r1 =>
        have h1 := hadd.ok_of hx
        refine Ends.of_ok (a := (id, true)) (by simp only [ensureSource, hfind, hid, hx]; rfl) ?_
        exact ⟨h1.layers, h1.source, h1.slots, h1.frames⟩
      | error e r1 => exact Ends.of_error (e := e) (by simp only [ensureSource, hfind, hid, hx]) (hadd.err_of hx)

theorem removeSourceIfPresent_kept (id : String) (r : StaticRenderer) : Kept r (removeSourceIfPresent id r) := by
  unfold removeSourceIfPresent
  split
  · exact ⟨rfl, rfl, rfl, rfl⟩
  · exact Kept.refl r

theorem placeAddlayer_ends (before : Option String) (taskId : UInt64) (r : StaticRenderer) :
    Ends (placeAddlayer before taskId) r
      (fun _ r' => addlayerId taskId ∉ r.style.layers ∧ Relaid r (splice before [addlayerId taskId] r.style.layers) r')
        (Kept r) := by
  refine (nativeCall_ends r).bind fun _ r1 h1 => ?_
  refine ((nativeCall_ends r1).mono (fun _ _ h => h1.trans h) fun _ h => h1.trans h).bind fun _ r2 h2 => ?_
  have hadd := addLayer_ends (addlayerId taskId) before r2
  rw [h2.layers] at hadd
  exact hadd.mono (fun _ r' h => ⟨h.1, h2.relaid h.2⟩) fun r' h => h2.trans h

theorem addlayerSource_ends (hash : AddLayerSource → UInt64) (addlayer : AddLayer) (r : StaticRenderer) :
    Ends (addlayerSource hash addlayer) r (fun _ => Kept r) (Kept r) := by
  unfold addlayerSource
  split
  · exact (ensureSource_ends hash _ r).bind fun _ r1 h1 => Ends.pure h1
  · exact Ends.pure (Kept.refl r)

/-- The layer is put directly below the layer named, or on top; a failed install leaves the layers alone. -/
theorem installAddlayer_ends (hash : AddLayerSource → UInt64) (addlayer : AddLayer) (before : Option String) (taskId : UInt64)
    (r : StaticRenderer) :
    Ends (installAddlayer hash addlayer before taskId) r
      (fun _ r' => addlayerId taskId ∉ r.style.layers ∧ Relaid r (splice before [addlayerId taskId] r.style.layers) r')
        (Kept r) := by
  refine (addlayerSource_ends hash addlayer r).bind fun newlyAdded r1 h1 => ?_
  have hplace := placeAddlayer_ends before taskId r1
  rw [h1.layers] at hplace
  cases hx : placeAddlayer before taskId r1 with
  | ok u r2 =>
    obtain ⟨hnew, hlaid⟩ := hplace.ok_of hx
    exact Ends.of_ok (a := ()) (by simp only [placeOrTakeBack, hx]) ⟨hnew, h1.relaid hlaid⟩
  | error e r2 =>
    have hkept := h1.trans (hplace.err_of hx)
    cases newlyAdded with
    | none => exact Ends.of_error (e := e) (by simp only [placeOrTakeBack, hx]) hkept
    | some id =>
      exact Ends.of_error (e := e) (by simp only [placeOrTakeBack, hx]) (hkept.trans (removeSourceIfPresent_kept id r2))

/-! ## A whole request -/

/-- The layer a request brings along. -/
def OverlayRequest.extra (request : OverlayRequest) : List String :=
  if request.addlayer.isSome then [addlayerId request.taskId] else []

theorem OverlayRequest.extra_addlayer (request : OverlayRequest) : ∀ id ∈ request.extra, ∃ taskId, id = addlayerId taskId := by
  intro id hid
  unfold OverlayRequest.extra at hid
  split at hid
  · exact ⟨_, List.mem_singleton.mp hid⟩
  · exact absurd hid List.not_mem_nil

/-- The renderer with the request's own layer in. -/
structure Installed (request : OverlayRequest) (r r' : StaticRenderer) : Prop where
  fresh : ∀ id ∈ request.extra, id ∉ r.style.layers
  relaid : Relaid r (splice request.beforeLayer request.extra r.style.layers) r'

variable {base : List String}

/-- The pool is kept when the request's own layer comes in. -/
theorem PoolInv.installed {request : OverlayRequest} (h : PoolInv base [] r)
    (hi : Installed request r r') : PoolInv base request.extra r' := by
  have hlay := hi.relaid.layers
  have hslots := hi.relaid.slots
  have hnd : request.extra.Nodup := by
    unfold OverlayRequest.extra
    split
    · exact List.pairwise_singleton _ _
    · exact List.nodup_nil
  have hdrop : (r'.style.layers.filter fun a => decide (a ∉ request.extra)) = r.style.layers := by
    rw [hlay, filter_splice_of_drop fun a ha => by simp [ha]]
    exact List.filter_eq_self.mpr fun a ha => decide_eq_true fun hmem => hi.fresh a hmem ha
  refine ⟨?_, ?_, ?_, ?_, ?_, ?_⟩
  · rw [hlay]
    exact nodup_splice hnd h.nodup hi.fresh
  · have hrest := h.rest
    rw [List.append_nil, ← hdrop, List.filter_filter] at hrest
    rw [hslots, ← hrest]
    refine List.filter_congr fun a _ => ?_
    simp
  · intro id hid
    rw [hslots] at hid
    rw [hlay, mem_splice]
    exact Or.inr (h.allocated id hid)
  · intro hreset hstand
    rw [hslots] at hreset hstand ⊢
    rw [hdrop, ← h.placed hreset hstand]
    simp
  · rw [hi.relaid.source, hslots]
    exact h.shown
  · rw [hslots]
    exact h.size

/-- The pool is kept when the request's own layer is removed. -/
theorem PoolInv.removed {id : String} {r : StaticRenderer} (h : PoolInv base [id] r)
    (hid : ∃ taskId, id = addlayerId taskId) : PoolInv base [] (removeLayer id r) := by
  have hlay : (removeLayer id r).style.layers = r.style.layers.filter fun a => decide (a ∉ [id]) := by
    have herase : (removeLayer id r).style.layers = r.style.layers.filter fun a => decide (a ≠ id) := erase_eq_filter h.nodup id
    simpa using herase
  have hslots : (removeLayer id r).slots = r.slots := rfl
  refine ⟨?_, ?_, ?_, ?_, h.shown, h.size⟩
  · rw [hlay]
    exact h.nodup.filter _
  · rw [hlay, hslots, List.append_nil, ← h.rest, List.filter_filter]
    refine List.filter_congr fun a _ => ?_
    simp
  · intro a ha
    rw [hlay]
    refine List.mem_filter.mpr ⟨h.allocated a ha, decide_eq_true fun hmem => ?_⟩
    obtain ⟨taskId, rfl⟩ := hid
    exact addlayerId_not_mem_slotLayersFrom taskId 0 _ (List.mem_singleton.mp hmem ▸ ha)
  · intro hreset hstand
    rw [hlay, hslots, ← h.placed hreset hstand]
    simp

/-- How a whole request ends: the pool is kept or asks to be rebuilt, and at most one frame was drawn. -/
def RequestEnds (base : List String) (request : OverlayRequest) (r r' : StaticRenderer) : Prop :=
  (r'.slots.needsRebuild = true ∨ PoolInv base [] r') ∧
    (r'.frames = r.frames ∨ ∃ r0 r1, Installed request r r0 ∧
      Readied base request.extra request.overlays request.beforeLayer r0 r1 ∧
      r'.frames = r.frames ++ [⟨request, r1.visibleLayers⟩])

theorem renderStaticWithOverlaysAndAddlayer_ends (hash : AddLayerSource → UInt64)
    (hbase : ∀ id ∈ base, ¬Managed id) (request : OverlayRequest) {r : StaticRenderer} (h : PoolInv base [] r) :
    Ends (renderStaticWithOverlaysAndAddlayer hash request) r (fun _ => RequestEnds base request r)
      (RequestEnds base request r) := by
  cases hadd : request.addlayer with
  | none =>
    have hextra : request.extra = [] := by simp [OverlayRequest.extra, hadd]
    have hinst : Installed request r r := ⟨by simp [hextra], by simpa [hextra, Kept] using Kept.refl r⟩
    have hnone : ∀ id ∈ ([] : List String), ∃ taskId, id = addlayerId taskId := by simp
    have hend := renderStaticWithOverlays_ends hbase hnone request h
    have hwhole : ∀ r', Rendered base [] request r r' → RequestEnds base request r r' := by
      intro r' hr
      rcases hr with ⟨hframes, hinv⟩ | ⟨r1, hready, hinv, hframes⟩
      · exact ⟨hinv, Or.inl hframes⟩
      · exact ⟨Or.inr hinv, Or.inr ⟨r, r1, hinst, hextra ▸ hready, hframes⟩⟩
    unfold renderStaticWithOverlaysAndAddlayer
    rw [hadd]
    exact hend.mono (fun _ => hwhole) hwhole
  | some addlayer =>
    have hextra : request.extra = [addlayerId request.taskId] := by simp [OverlayRequest.extra, hadd]
    unfold renderStaticWithOverlaysAndAddlayer
    rw [hadd]
    have hinstall := installAddlayer_ends hash addlayer request.beforeLayer request.taskId r
    refine (hinstall.mono (fun _ _ h' => h') fun r' hk => ?_).bind fun _ r0 h0 => ?_
    · exact ⟨Or.inr (h.kept hk), Or.inl hk.frames⟩
    · have hinst : Installed request r r0 := by
        refine ⟨fun id hid => ?_, hextra ▸ h0.2⟩
        rw [hextra] at hid
        exact List.mem_singleton.mp hid ▸ h0.1
      have hend := renderStaticWithOverlays_ends hbase request.extra_addlayer request (h.installed hinst)
      have hwhole : ∀ r', Rendered base request.extra request r0 r' →
          RequestEnds base request r (removeLayer (addlayerId request.taskId) r') := by
        intro r' hr
        have hremove : PoolInv base request.extra r' → PoolInv base [] (removeLayer (addlayerId request.taskId) r') := by
          intro hinv
          rw [hextra] at hinv
          exact hinv.removed ⟨_, rfl⟩
        rcases hr with ⟨hframes, hinv⟩ | ⟨r1, hready, hinv, hframes⟩
        · exact ⟨hinv.imp_right hremove, Or.inl (hframes.trans h0.2.frames)⟩
        · exact ⟨Or.inr (hremove hinv), Or.inr ⟨r0, r1, hinst, hready, h0.2.frames ▸ hframes⟩⟩
      cases hx : renderStaticWithOverlays request r0 with
      | ok u r1 => exact Ends.of_ok (a := ()) (by simp only [renderAndRemove, hx]) (hwhole r1 (hend.ok_of hx))
      | error e r1 => exact Ends.of_error (e := e) (by simp only [renderAndRemove, hx]) (hwhole r1 (hend.err_of hx))

/-! ## What is drawn -/

/-- The layers a request is to be drawn with: its own layer and above it its slots, directly below the layer it names. -/
def requestLayers (base : List String) (request : OverlayRequest) : List String :=
  splice request.beforeLayer (request.extra ++ slotLayers (overlaySlotCount request.overlays)) base

/-- When the pool is in the way of a request: features of an earlier request are left in the source that nobody knows of, or the
slots already stand where the request's own layer goes. -/
structure Clear (r : StaticRenderer) (request : OverlayRequest) : Prop where
  source : request.overlays = [] → r.slots.hasData = true ∨ r.style.overlaySource = some []
  band : request.overlays ≠ [] → request.addlayer.isSome = true → 0 < r.slots.allocated →
    r.slots.needsReset = true ∨ r.slots.currentBefore ≠ request.beforeLayer

section Frames

variable {base : List String} (hbase : ∀ id ∈ base, ¬Managed id)

include hbase in
theorem filter_hidden_base (lo hi : Nat) : (base.filter fun a => decide (a ∉ slotLayersFrom lo hi)) = base :=
  List.filter_eq_self.mpr fun a ha => decide_eq_true fun hmem => hbase a ha (managed_of_mem_slotLayersFrom hmem)

theorem filter_hidden_extra (request : OverlayRequest) (lo hi : Nat) :
    (request.extra.filter fun a => decide (a ∉ slotLayersFrom lo hi)) = request.extra := by
  refine List.filter_eq_self.mpr fun a ha => decide_eq_true fun hmem => ?_
  obtain ⟨taskId, rfl⟩ := request.extra_addlayer a ha
  exact addlayerId_not_mem_slotLayersFrom taskId lo hi hmem

/-- Of the slots below `n`, those below `c` are not hidden. -/
theorem filter_hidden_slotLayers {n m : Nat} (c : Nat) (h : n ≤ m) :
    ((slotLayers n).filter fun a => decide (a ∉ slotLayersFrom c m)) = slotLayers (min n c) := by
  have hlow : ∀ k, k ≤ c → ((slotLayers k).filter fun a => decide (a ∉ slotLayersFrom c m)) = slotLayers k := by
    intro k hk
    refine List.filter_eq_self.mpr fun a ha => decide_eq_true fun hmem => ?_
    obtain ⟨i, hi, hid⟩ := mem_slotLayers.mp ha
    obtain ⟨j, hj, -, hjd⟩ := mem_slotLayersFrom.mp hmem
    have heq := slotLayerIds_disjoint hid hjd
    omega
  by_cases hnc : n ≤ c
  · rw [Nat.min_eq_left hnc]
    exact hlow n hnc
  · have hcn : c ≤ n := by omega
    have hdrop : ((slotLayersFrom c n).filter fun a => decide (a ∉ slotLayersFrom c m)) = [] := by
      refine List.filter_eq_nil_iff.mpr fun a ha => ?_
      obtain ⟨i, hlo, hhi, hid⟩ := mem_slotLayersFrom.mp ha
      have hmem : a ∈ slotLayersFrom c m := mem_slotLayersFrom.mpr ⟨i, hlo, by omega, hid⟩
      simp [hmem]
    rw [Nat.min_eq_right hcn, ← slotLayers_split hcn, List.filter_append, hlow c (Nat.le_refl c), hdrop, List.append_nil]

theorem PoolInv.rest_nil {r : StaticRenderer} (h : PoolInv base [] r) :
    (r.style.layers.filter fun a => decide (a ∉ slotLayers r.slots.allocated)) = base := by
  simpa using h.rest

variable {request : OverlayRequest} {m : Nat}

include hbase in
/-- The layers without any slot below `m`: only the request's own comes in. -/
theorem Installed.filter_slotLayers {r r0 : StaticRenderer} (h : PoolInv base [] r)
    (hi : Installed request r r0) (hstand : Standing request.beforeLayer) (hm : r.slots.allocated ≤ m) :
    (r0.style.layers.filter fun a => decide (a ∉ slotLayers m)) = splice request.beforeLayer request.extra base := by
  have hnone : ∀ id ∈ ([] : List String), ∃ taskId, id = addlayerId taskId := by simp
  have hun := h.unallocated hbase hnone
  have hrest : (r.style.layers.filter fun a => decide (a ∉ slotLayers m)) = base := by
    rw [← h.rest_nil]
    refine List.filter_congr fun a ha => ?_
    have hna : a ∉ slotLayersFrom r.slots.allocated m := by
      intro hmem
      obtain ⟨i, hlo, -, hid⟩ := mem_slotLayersFrom.mp hmem
      exact hun i hlo a hid ha
    simp [← slotLayers_split hm, hna]
  have hkeep : ∀ b ∈ request.beforeLayer, b ∈ r.style.layers → decide (b ∉ slotLayers m) = true :=
    fun b hb _ => decide_eq_true (hstand.not_mem_slotLayers m b hb)
  rw [hi.relaid.layers, filter_splice hkeep, hrest, slotLayers, filter_hidden_extra]

theorem visibleLayers_of_assigned {extra : List String} {overlays : List StaticOverlay} {layers : List String} {allocated : Nat}
    {r r' : StaticRenderer} (h : Assigned base extra overlays layers allocated r r') :
    r'.visibleLayers = layers.filter fun a => decide (a ∉ slotLayersFrom (overlaySlotCount overlays) allocated) := by
  simp only [StaticRenderer.visibleLayers, StaticRenderer.shownSlots, h.source, h.layers, h.allocated, Option.map_some,
    Option.getD_some]

theorem slotFillLayerId_mem (n : Nat) (h : 0 < n) : slotFillLayerId 0 ∈ slotLayers n :=
  mem_slotLayers.mpr ⟨0, h, List.mem_cons_self⟩

variable {r r0 r1 : StaticRenderer}

include hbase in
/-- A request without overlays is drawn without slots exactly when the source is empty or known to hold data. -/
theorem frame_of_no_overlays (h : PoolInv base [] r)
    (hi : Installed request r r0) (hstand : Standing request.beforeLayer) (hnil : request.overlays = [])
    (hr : ∃ shown, (r0.slots.hasData = true → shown = []) ∧ (r0.slots.hasData = false → r0.style.overlaySource = some shown) ∧
      Assigned base request.extra shown r0.style.layers r0.slots.allocated r0 r1) :
    r1.visibleLayers = requestLayers base request ↔ r.slots.hasData = true ∨ r.style.overlaySource = some [] := by
  obtain ⟨shown, hyes, hno, ha⟩ := hr
  rw [hi.relaid.slots] at hyes hno ha
  rw [hi.relaid.source] at hno
  have hvis := visibleLayers_of_assigned ha
  have hwant : requestLayers base request = splice request.beforeLayer request.extra base := by
    simp [requestLayers, hnil, slotLayers]
  have hshown : shown = [] ↔ r.slots.hasData = true ∨ r.style.overlaySource = some [] := by
    cases hdata : r.slots.hasData with
    | true => simp [hyes hdata]
    | false => simp [hno hdata]
  rw [← hshown]
  constructor
  · intro heq
    by_contra hne
    have hcount := overlaySlotCount_pos hne
    have halloc : overlaySlotCount shown ≤ r.slots.allocated := by
      obtain ⟨shown', hsrc, hle⟩ := ha.inv.shown
      rw [ha.source] at hsrc
      rw [Option.some.inj hsrc, ← ha.allocated]
      exact hle
    -- the first slot is shown, but the request has no slot
    have hmem : slotFillLayerId 0 ∈ r1.visibleLayers := by
      rw [hvis]
      refine List.mem_filter.mpr ⟨?_, decide_eq_true fun hmem => ?_⟩
      · rw [hi.relaid.layers, mem_splice]
        exact Or.inr (h.allocated _ (slotFillLayerId_mem _ (by omega)))
      · obtain ⟨i, hlo, -, hid⟩ := mem_slotLayersFrom.mp hmem
        have heq0 := slotLayerIds_disjoint hid (show slotFillLayerId 0 ∈ slotLayerIds 0 from List.mem_cons_self)
        omega
    rw [heq, hwant, mem_splice] at hmem
    rcases hmem with hmem | hmem
    · exact slot_not_mem_extra request.extra_addlayer (show slotFillLayerId 0 ∈ slotLayerIds 0 from List.mem_cons_self) hmem
    · exact hbase _ hmem (Or.inl ⟨0, List.mem_cons_self⟩)
  · rintro rfl
    rw [hvis, hwant]
    exact hi.filter_slotLayers hbase h hstand (Nat.le_refl _)

variable {r r0 r2 : StaticRenderer}

include hbase in
/-- A pool that is moved comes to stand above the request's own layer. -/
theorem visible_of_moved (h : PoolInv base [] r)
    (hi : Installed request r r0) (hstand : Standing request.beforeLayer) (hg : Grown r0 m r2)
    (hc : overlaySlotCount request.overlays ≤ m)
    (hmove : (r2.slots.needsReset || r2.slots.currentBefore != request.beforeLayer) = true) :
    ((bandedLayers r2 request.beforeLayer).filter fun a => decide (a ∉ slotLayersFrom (overlaySlotCount request.overlays) m)) =
      requestLayers base request := by
  have halloc : r2.slots.allocated = m := by rw [hg.slots]
  have hle : r.slots.allocated ≤ m := by
    have hle0 := hg.le
    rwa [hi.relaid.slots] at hle0
  have hnew : ∀ a ∈ slotLayersFrom r0.slots.allocated m, decide (a ∉ slotLayers m) = false := by
    intro a ha
    simp [← slotLayers_split hg.le, ha]
  have hrest : (r2.style.layers.filter fun a => decide (a ∉ slotLayers m)) = splice request.beforeLayer request.extra base := by
    rw [hg.layers, filter_spliceEach_of_drop hnew]
    exact hi.filter_slotLayers hbase h hstand hle
  have hband : bandedLayers r2 request.beforeLayer = splice request.beforeLayer (request.extra ++ slotLayers m) base := by
    rw [bandedLayers, if_pos hmove, halloc, hrest, spliceEach_eq_splice (hstand.not_mem_slotLayers m),
      splice_splice (standing_not_mem_extra request.extra_addlayer hstand)]
  have hkeep : ∀ b ∈ request.beforeLayer, b ∈ base → decide (b ∉ slotLayersFrom (overlaySlotCount request.overlays) m) = true :=
    fun b hb _ => decide_eq_true (hstand.not_mem _ m b hb)
  rw [hband, filter_splice hkeep, List.filter_append, filter_hidden_extra, filter_hidden_base hbase,
    filter_hidden_slotLayers _ (Nat.le_refl m), Nat.min_eq_right hc, requestLayers]

/-- A pool that already stands where the request wants it has its own layer come in above it, and new slots above that. -/
theorem bandedLayers_of_not_moved (h : PoolInv base [] r)
    (hi : Installed request r r0) (hstand : Standing request.beforeLayer) (hg : Grown r0 m r2)
    (hmove : ¬(r2.slots.needsReset || r2.slots.currentBefore != request.beforeLayer) = true) :
    bandedLayers r2 request.beforeLayer =
      splice request.beforeLayer (slotLayers r.slots.allocated ++ request.extra ++ slotLayersFrom r.slots.allocated m) base := by
  have hslots := hi.relaid.slots
  obtain ⟨hreset, hbefore⟩ : r.slots.needsReset = false ∧ r.slots.currentBefore = request.beforeLayer := by
    rw [hg.slots, hslots] at hmove
    simpa using hmove
  have hplaced : r.style.layers = splice request.beforeLayer (slotLayers r.slots.allocated) base := by
    have hp := h.placed hreset (hbefore.symm ▸ hstand)
    rw [hbefore] at hp
    simpa using hp
  have hmid : ∀ b ∈ request.beforeLayer, b ∉ slotLayers r.slots.allocated ++ request.extra := by
    intro b hb hmem
    rcases List.mem_append.mp hmem with hmem | hmem
    · exact hstand.not_mem_slotLayers _ b hb hmem
    · exact standing_not_mem_extra request.extra_addlayer hstand b hb hmem
  rw [bandedLayers, if_neg hmove, hg.layers, hslots, hbefore, hi.relaid.layers, hplaced,
    spliceEach_eq_splice (hstand.not_mem _ _), splice_splice (hstand.not_mem_slotLayers _), splice_splice hmid]

include hbase in
/-- What is visible of it. -/
theorem visible_of_not_moved (h : PoolInv base [] r) (hi : Installed request r r0) (hstand : Standing request.beforeLayer)
    (hg : Grown r0 (max r0.slots.allocated (overlaySlotCount request.overlays)) r2)
    (hmove : ¬(r2.slots.needsReset || r2.slots.currentBefore != request.beforeLayer) = true) :
    ((bandedLayers r2 request.beforeLayer).filter
        fun a => decide (a ∉ slotLayersFrom (overlaySlotCount request.overlays)
          (max r0.slots.allocated (overlaySlotCount request.overlays)))) =
      splice request.beforeLayer (slotLayers (min r.slots.allocated (overlaySlotCount request.overlays)) ++ request.extra ++
        slotLayersFrom r.slots.allocated (max r.slots.allocated (overlaySlotCount request.overlays))) base := by
  set c := overlaySlotCount request.overlays with hcdef
  have hslots := hi.relaid.slots
  have hband := bandedLayers_of_not_moved h hi hstand hg hmove
  rw [hslots] at hband
  have hkeep : ∀ b ∈ request.beforeLayer, b ∈ base →
      decide (b ∉ slotLayersFrom c (max r.slots.allocated c)) = true :=
    fun b hb _ => decide_eq_true (hstand.not_mem _ _ b hb)
  have hnew : ((slotLayersFrom r.slots.allocated (max r.slots.allocated c)).filter
      fun a => decide (a ∉ slotLayersFrom c (max r.slots.allocated c))) =
      slotLayersFrom r.slots.allocated (max r.slots.allocated c) := by
    -- a new slot is shown, for only as many are added as the request needs
    refine List.filter_eq_self.mpr fun a ha => decide_eq_true fun hmem => ?_
    obtain ⟨i, hlo, hhi, hid⟩ := mem_slotLayersFrom.mp ha
    obtain ⟨j, hj, -, hjd⟩ := mem_slotLayersFrom.mp hmem
    have heq := slotLayerIds_disjoint hid hjd
    omega
  rw [hband, hslots, filter_splice hkeep, List.filter_append, List.filter_append, filter_hidden_extra, filter_hidden_base hbase,
    filter_hidden_slotLayers _ (Nat.le_max_left _ _), hnew]

include hbase in
/-- A request with overlays is drawn as it asks exactly when the pool does not stand below its own layer. -/
theorem frame_of_overlays (h : PoolInv base [] r)
    (hi : Installed request r r0) (hstand : Standing request.beforeLayer) (hne : request.overlays ≠ [])
    (hr : ∃ r2, Grown r0 (max r0.slots.allocated (overlaySlotCount request.overlays)) r2 ∧
      Assigned base request.extra request.overlays (bandedLayers r2 request.beforeLayer)
        (max r0.slots.allocated (overlaySlotCount request.overlays)) r0 r1) :
    r1.visibleLayers = requestLayers base request ↔
      (request.addlayer.isSome = true → 0 < r.slots.allocated →
        r.slots.needsReset = true ∨ r.slots.currentBefore ≠ request.beforeLayer) := by
  obtain ⟨r2, hg, ha⟩ := hr
  have hvis := visibleLayers_of_assigned ha
  have hslots := hi.relaid.slots
  have hmoves : (r2.slots.needsReset || r2.slots.currentBefore != request.beforeLayer) = true ↔
      r.slots.needsReset = true ∨ r.slots.currentBefore ≠ request.beforeLayer := by
    rw [hg.slots, hslots]
    simp
  by_cases hmove : (r2.slots.needsReset || r2.slots.currentBefore != request.beforeLayer) = true
  · rw [hvis, visible_of_moved hbase h hi hstand hg (Nat.le_max_right _ _) hmove]
    exact ⟨fun _ _ _ => hmoves.mp hmove, fun _ => rfl⟩
  · rw [hvis, visible_of_not_moved hbase h hi hstand hg hmove, requestLayers]
    have hpos := overlaySlotCount_pos hne
    have hall : slotLayers (min r.slots.allocated (overlaySlotCount request.overlays)) ++
        slotLayersFrom r.slots.allocated (max r.slots.allocated (overlaySlotCount request.overlays)) =
        slotLayers (overlaySlotCount request.overlays) := by
      by_cases hle : r.slots.allocated ≤ overlaySlotCount request.overlays
      · rw [Nat.min_eq_left hle, Nat.max_eq_right hle, slotLayers_split hle]
      · have hge : overlaySlotCount request.overlays ≤ r.slots.allocated := by omega
        rw [Nat.min_eq_right hge, Nat.max_eq_left hge, slotLayersFrom_self, List.append_nil]
    constructor
    · intro heq hadd hold
      exfalso
      -- the stack begins with an old slot, where the request has its own layer first
      have hextra : request.extra = [addlayerId request.taskId] := by simp [OverlayRequest.extra, hadd]
      have hlists := splice_left_injective heq
      have hhead : ∃ rest, slotLayers (min r.slots.allocated (overlaySlotCount request.overlays)) = slotFillLayerId 0 ::
        rest := by
        have hmin : 1 ≤ min r.slots.allocated (overlaySlotCount request.overlays) := by omega
        rw [← slotLayers_split hmin, slotLayers, slotLayersFrom_succ]
        exact ⟨_, rfl⟩
      obtain ⟨rest, hrest⟩ := hhead
      rw [hrest, hextra] at hlists
      exact addlayerId_ne_slotLayerId request.taskId 0 "fill" (List.cons.inj hlists).1.symm
    · intro hclear
      by_cases hadd : request.addlayer.isSome = true
      · have hzero : r.slots.allocated = 0 := by
          by_contra hpos'
          exact hmove (hmoves.mpr (hclear hadd (Nat.pos_of_ne_zero hpos')))
        simp [hzero, slotLayers]
      · have hextra : request.extra = [] := by simp [OverlayRequest.extra, hadd]
        rw [hextra, List.append_nil, hall, List.nil_append]

include hbase in
/-- A frame shows the layers the request asks for exactly when the pool is not in the way. -/
theorem frame_iff_clear (h : PoolInv base [] r) (hi : Installed request r r0) (hstand : Standing request.beforeLayer)
    (hr : Readied base request.extra request.overlays request.beforeLayer r0 r1) :
    r1.visibleLayers = requestLayers base request ↔ Clear r request := by
  rcases hr with ⟨hnil, hr⟩ | ⟨hne, hr⟩
  · rw [frame_of_no_overlays hbase h hi hstand hnil hr]
    exact ⟨fun hs => ⟨fun _ => hs, fun hne => absurd hnil hne⟩, fun hc => hc.source hnil⟩
  · rw [frame_of_overlays hbase h hi hstand hne hr]
    exact ⟨fun hb => ⟨fun hnil => absurd hnil hne, fun _ => hb⟩, fun hc => hc.band hne⟩

end Frames

end Biei
