import Biei.Lib.Fallible
import Biei.Renderer.Overlay

/-!
# What the pool's functions do to the layers

Each function of the pool is described by what it does to the list of layers, when it succeeds and when it fails.
-/

namespace Biei

/-! ## Ids -/

theorem append_cons_inj {p q s t : List Char} {c : Char} (hp : c ∉ p) (hq : c ∉ q) (h : p ++ c :: s = q ++ c :: t) :
    p = q ∧ s = t := by
  induction p generalizing q with
  | nil =>
    cases q with
    | nil => exact ⟨rfl, (List.cons.inj h).2⟩
    | cons d q => exact absurd ((List.cons.inj h).1 ▸ List.mem_cons_self) hq
  | cons d p ih =>
    cases q with
    | nil => exact absurd ((List.cons.inj h).1 ▸ List.mem_cons_self) hp
    | cons e q =>
      obtain ⟨rfl, htail⟩ := List.cons.inj h
      obtain ⟨rfl, rfl⟩ := ih (fun hc => hp (List.mem_cons_of_mem _ hc)) (fun hc => hq (List.mem_cons_of_mem _ hc)) htail
      exact ⟨rfl, rfl⟩

variable {i j : Nat}

theorem toString_injective (h : (toString i).toList = (toString j).toList) : i = j := by
  have hnum := congrArg (fun ds => Nat.ofDigitChars 10 ds 0) h
  simpa [Nat.toString_eq_ofList_toDigits] using hnum

theorem dash_not_mem_toString (n : Nat) : '-' ∉ (toString n).toList := by
  intro h
  have hd : '-'.isDigit = true := by
    refine Nat.isDigit_of_mem_toDigits (b := 10) (n := n) (by omega) (by omega) ?_
    simpa [Nat.toList_repr] using h
  exact absurd hd (by decide)

/-- The id of a slot layer says which slot and which kind it is. -/
theorem slotLayerId_injective {k l : String} (h : slotLayerId i k = slotLayerId j l) : i = j ∧ k = l := by
  have hlist := congrArg String.toList h
  simp only [slotLayerId, String.toList_append, List.append_assoc] at hlist
  have hcons := List.append_cancel_left hlist
  obtain ⟨hi, hk⟩ := append_cons_inj (dash_not_mem_toString i) (dash_not_mem_toString j) hcons
  exact ⟨toString_injective hi, String.toList_inj.mp hk⟩

theorem addlayerId_ne_slotLayerId (taskId : UInt64) (idx : Nat) (kind : String) : addlayerId taskId ≠ slotLayerId idx kind := by
  intro h
  have hlist := congrArg String.toList h
  simp [addlayerId, slotLayerId, String.toList_append] at hlist

variable {id : String}

theorem mem_slotLayerIds {idx : Nat} :
    id ∈ slotLayerIds idx ↔ ∃ kind ∈ ["fill", "line", "circle", "symbol"], id = slotLayerId idx kind := by
  simp [slotLayerIds, slotFillLayerId, slotLineLayerId, slotCircleLayerId, slotSymbolLayerId]

theorem slotLayerIds_disjoint (hi : id ∈ slotLayerIds i) (hj : id ∈ slotLayerIds j) : i = j := by
  obtain ⟨k, -, rfl⟩ := mem_slotLayerIds.mp hi
  obtain ⟨l, -, h⟩ := mem_slotLayerIds.mp hj
  exact (slotLayerId_injective h).1

theorem nodup_slotLayerIds (idx : Nat) : (slotLayerIds idx).Nodup := by
  have hne : ∀ k l : String, k ≠ l → slotLayerId idx k ≠ slotLayerId idx l := fun k l hkl h => hkl (slotLayerId_injective h).2
  simp [slotLayerIds, slotFillLayerId, slotLineLayerId, slotCircleLayerId, slotSymbolLayerId, hne]

theorem mem_slotLayersFrom {lo hi : Nat} : id ∈ slotLayersFrom lo hi ↔ ∃ i, lo ≤ i ∧ i < hi ∧ id ∈ slotLayerIds i := by
  simp only [slotLayersFrom, List.mem_flatMap, List.mem_range'_1]
  constructor
  · rintro ⟨i, hi, hid⟩
    exact ⟨i, by omega, by omega, hid⟩
  · rintro ⟨i, hlo, hhi, hid⟩
    exact ⟨i, by omega, hid⟩

theorem mem_slotLayers {n : Nat} : id ∈ slotLayers n ↔ ∃ i, i < n ∧ id ∈ slotLayerIds i := by
  simp [slotLayers, mem_slotLayersFrom]

theorem slotLayersFrom_append {lo mid hi : Nat} (hlm : lo ≤ mid) (hmh : mid ≤ hi) :
    slotLayersFrom lo mid ++ slotLayersFrom mid hi = slotLayersFrom lo hi := by
  have hrange : List.range' lo (mid - lo) ++ List.range' mid (hi - mid) = List.range' lo (hi - lo) := by
    have hlo : hi - lo = mid - lo + (hi - mid) := by omega
    have hmid : lo + 1 * (mid - lo) = mid := by omega
    rw [hlo, ← List.range'_append, hmid]
  simp only [slotLayersFrom, ← hrange, List.flatMap_append]

theorem slotLayersFrom_succ (n : Nat) : slotLayersFrom n (n + 1) = slotLayerIds n := by
  simp [slotLayersFrom]

@[simp]
theorem slotLayersFrom_self (n : Nat) : slotLayersFrom n n = [] := by
  simp [slotLayersFrom]

theorem nodup_slotLayers (n : Nat) : (slotLayers n).Nodup := by
  induction n with
  | zero => exact List.nodup_nil
  | succ n ih =>
    rw [slotLayers, ← slotLayersFrom_append (Nat.zero_le n) (Nat.le_succ n), slotLayersFrom_succ]
    refine List.nodup_append.mpr ⟨ih, nodup_slotLayerIds n, ?_⟩
    intro a ha b hb hab
    obtain ⟨i, hi, hmem⟩ := mem_slotLayers.mp ha
    exact absurd (slotLayerIds_disjoint hmem (hab ▸ hb)) (by omega)

/-- An id that the overlays or a request's own layer may carry. -/
def Managed (id : String) : Prop := (∃ idx, id ∈ slotLayerIds idx) ∨ ∃ taskId, id = addlayerId taskId

theorem managed_of_mem_slotLayersFrom {lo hi : Nat} (h : id ∈ slotLayersFrom lo hi) : Managed id := by
  obtain ⟨i, -, -, hid⟩ := mem_slotLayersFrom.mp h
  exact Or.inl ⟨i, hid⟩

theorem addlayerId_not_mem_slotLayersFrom (taskId : UInt64) (lo hi : Nat) : addlayerId taskId ∉ slotLayersFrom lo hi := by
  intro h
  obtain ⟨i, -, -, hid⟩ := mem_slotLayersFrom.mp h
  obtain ⟨k, -, heq⟩ := mem_slotLayerIds.mp hid
  exact addlayerId_ne_slotLayerId taskId i k heq

/-! ## Slots of a request -/

theorem length_slotGroupsFrom_le (rounds : Nat) (overlays : List StaticOverlay) :
    (slotGroupsFrom rounds overlays).length ≤ rounds := by
  induction rounds generalizing overlays with
  | zero => simp [slotGroupsFrom]
  | succ rounds ih =>
    unfold slotGroupsFrom
    split
    · simp
    · simpa using ih _

theorem overlaySlotCount_le (overlays : List StaticOverlay) : overlaySlotCount overlays ≤ overlays.length :=
  length_slotGroupsFrom_le _ _

theorem overlaySlotCount_pos {overlays : List StaticOverlay} (h : overlays ≠ []) : 0 < overlaySlotCount overlays := by
  cases overlays with
  | nil => exact absurd rfl h
  | cons o overlays => simp [overlaySlotCount, overlaySlotGroups, slotGroupsFrom]

@[simp]
theorem overlaySlotCount_nil : overlaySlotCount [] = 0 := rfl

/-! ## What the calls do to the layers -/

/-- `r'` is `r` with these layers: the pool, the overlay source and what was drawn are the same. -/
structure Relaid (r : StaticRenderer) (layers : List String) (r' : StaticRenderer) : Prop where
  layers : r'.style.layers = layers
  source : r'.style.overlaySource = r.style.overlaySource
  slots : r'.slots = r.slots
  frames : r'.frames = r.frames

/-- Nothing that matters to the layers has changed. -/
def Kept (r r' : StaticRenderer) : Prop := Relaid r r.style.layers r'

theorem Kept.refl (r : StaticRenderer) : Kept r r := ⟨rfl, rfl, rfl, rfl⟩

variable {r r' r'' : StaticRenderer}

theorem Relaid.trans {l l' : List String} (h : Relaid r l r') (h' : Relaid r' l' r'') : Relaid r l' r'' :=
  ⟨h'.layers, h'.source.trans h.source, h'.slots.trans h.slots, h'.frames.trans h.frames⟩

variable {l : List String}

theorem Relaid.kept (h : Relaid r l r') (h' : Kept r' r'') : Relaid r l r'' :=
  h.layers ▸ h.trans h'

theorem Kept.relaid (h : Kept r r') (h' : Relaid r' l r'') : Relaid r l r'' :=
  Relaid.trans h h'

theorem Kept.trans (h : Kept r r') (h' : Kept r' r'') : Kept r r'' := Relaid.kept h h'

theorem nativeCall_ends (r : StaticRenderer) : Ends nativeCall r (fun _ => Kept r) (Kept r) := by
  unfold Ends nativeCall
  rcases r.style.faults with - | ⟨- | message, rest⟩
  · exact Kept.refl r
  · exact ⟨rfl, rfl, rfl, rfl⟩
  · exact ⟨rfl, rfl, rfl, rfl⟩

theorem addLayer_ends (id : String) (before : Option String) (r : StaticRenderer) :
    Ends (addLayer id before) r (fun _ r' => id ∉ r.style.layers ∧ Relaid r (splice before [id] r.style.layers) r') (Kept r) := by
  refine (nativeCall_ends r).bind fun _ r1 h1 => Ends.get_bind ?_
  split
  · exact Ends.of_error rfl h1
  · rename_i hid
    rw [h1.layers] at hid
    refine Ends.of_ok rfl ⟨hid, h1.relaid ⟨?_, rfl, rfl, rfl⟩⟩
    exact congrArg (splice before [id]) h1.layers

/-- Layers are installed all, or in part. -/
theorem installLayers_ends (before : Option String) (ids : List String) (r : StaticRenderer) :
    Ends (installLayers before ids) r (fun _ => Relaid r (spliceEach before ids r.style.layers))
      (fun r' => ∃ k, Relaid r (spliceEach before (ids.take k) r.style.layers) r') := by
  induction ids generalizing r with
  | nil => exact Ends.pure (Kept.refl r)
  | cons id ids ih =>
    have herr : ∀ r', Kept r r' → ∃ k, Relaid r (spliceEach before ((id :: ids).take k) r.style.layers) r' :=
      fun r' h => ⟨0, h⟩
    refine ((nativeCall_ends r).mono (fun _ _ h => h) herr).bind fun _ r1 h1 => ?_
    refine ((addLayer_ends id before r1).mono (fun _ _ h => h) fun r' h => herr r' (h1.trans h)).bind fun _ r2 h2 => ?_
    have h12 : Relaid r (splice before [id] r.style.layers) r2 := by
      have h := h1.relaid h2.2
      rwa [h1.layers] at h
    refine (ih r2).mono (fun _ r' h => ?_) fun r' h => ?_
    · rw [h12.layers] at h
      exact h12.trans h
    · obtain ⟨k, hk⟩ := h
      rw [h12.layers] at hk
      exact ⟨k + 1, h12.trans hk⟩

theorem erase_eq_filter (h : l.Nodup) (id : String) : l.erase id = l.filter fun a => decide (a ≠ id) := by
  rw [h.erase_eq_filter]
  refine List.filter_congr fun a _ => ?_
  by_cases ha : a = id
  · simp [ha]
  · simp [ha]

theorem filter_not_mem_cons (l ids : List String) (id : String) :
    (l.filter fun a => decide (a ≠ id)).filter (fun a => decide (a ∉ ids)) = l.filter fun a => decide (a ∉ id :: ids) := by
  rw [List.filter_filter]
  refine List.filter_congr fun a _ => ?_
  simp [Bool.and_comm]

/-- Removing the listed layers leaves the others. -/
theorem foldl_removeLayer (ids : List String) (r : StaticRenderer) (h : r.style.layers.Nodup) :
    Relaid r (r.style.layers.filter fun a => decide (a ∉ ids)) (ids.foldl (fun r id => removeLayer id r) r) := by
  induction ids generalizing r with
  | nil => exact ⟨by simp, rfl, rfl, rfl⟩
  | cons id ids ih =>
    have hlay : (removeLayer id r).style.layers = r.style.layers.filter fun a => decide (a ≠ id) := erase_eq_filter h id
    have hrest := ih (removeLayer id r) (hlay ▸ h.filter _)
    rw [hlay, filter_not_mem_cons] at hrest
    exact ⟨hrest.layers, hrest.source, hrest.slots, hrest.frames⟩

/-- `r'` is `r` with the slots below `m`, the new ones put where the pool stands. -/
structure Grown (r : StaticRenderer) (m : Nat) (r' : StaticRenderer) : Prop where
  le : r.slots.allocated ≤ m
  layers : r'.style.layers = spliceEach r.slots.currentBefore (slotLayersFrom r.slots.allocated m) r.style.layers
  source : r'.style.overlaySource = r.style.overlaySource
  slots : r'.slots = { r.slots with allocated := m }
  frames : r'.frames = r.frames

theorem Grown.of_kept {r r' : StaticRenderer} (h : Kept r r') : Grown r r.slots.allocated r' :=
  ⟨Nat.le_refl _, by simpa using h.layers, h.source, h.slots, h.frames⟩

/-- No layer of a slot that is not allocated is in the style. -/
def Unallocated (r : StaticRenderer) : Prop := ∀ i, r.slots.allocated ≤ i → ∀ id ∈ slotLayerIds i, id ∉ r.style.layers

/-- The pool grows by whole slots. -/
theorem growSlots_ends (n : Nat) (r : StaticRenderer) (hnd : r.style.layers.Nodup) (hun : Unallocated r) :
    Ends (growSlots n) r (fun _ => Grown r (r.slots.allocated + n))
      (fun r' => ∃ m, m ≤ r.slots.allocated + n ∧ Grown r m r') := by
  induction n generalizing r with
  | zero => exact Ends.pure (Grown.of_kept (Kept.refl r))
  | succ n ih =>
    have hins := installLayers_ends r.slots.currentBefore (slotLayerIds r.slots.allocated) r
    have hfresh : ∀ id ∈ slotLayerIds r.slots.allocated, id ∉ r.style.layers := hun _ (Nat.le_refl _)
    unfold growSlots
    cases hx : installSlotLayers r.slots.allocated r.slots.currentBefore r with
    | error e r1 =>
      -- what was added of the slot is taken back, so the layers are those of before
      obtain ⟨k, h1⟩ := hins.err_of hx
      have hnd1 : r1.style.layers.Nodup := by
        rw [h1.layers]
        exact nodup_spliceEach ((nodup_slotLayerIds _).sublist (List.take_sublist _ _)) hnd
          fun a ha => hfresh a (List.mem_of_mem_take ha)
      have hroll := foldl_removeLayer (slotLayerIds r.slots.allocated) r1 hnd1
      have hlay : (r1.style.layers.filter fun a => decide (a ∉ slotLayerIds r.slots.allocated)) = r.style.layers := by
        rw [h1.layers, filter_spliceEach_of_drop]
        · exact List.filter_eq_self.mpr fun a ha => decide_eq_true fun hmem => hfresh a hmem ha
        · intro a ha
          simp [List.mem_of_mem_take ha]
      rw [hlay] at hroll
      have hend : ∃ m, m ≤ r.slots.allocated + (n + 1) ∧ Grown r m (rollbackSlotLayers r.slots.allocated r1) :=
        ⟨r.slots.allocated, by omega, Grown.of_kept (h1.trans hroll)⟩
      exact Ends.of_error (e := e) (by simp only [hx]) hend
    | ok u r1 =>
      have h1 : Relaid r (spliceEach r.slots.currentBefore (slotLayerIds r.slots.allocated) r.style.layers) r1 := hins.ok_of hx
      let r2 : StaticRenderer := { r1 with slots := { r1.slots with allocated := r1.slots.allocated + 1 } }
      have hslots : r2.slots = { r.slots with allocated := r.slots.allocated + 1 } := by simp [r2, h1.slots]
      have hlay : r2.style.layers = spliceEach r.slots.currentBefore (slotLayerIds r.slots.allocated) r.style.layers := h1.layers
      have hnd2 : r2.style.layers.Nodup := hlay ▸ nodup_spliceEach (nodup_slotLayerIds _) hnd hfresh
      have hun2 : Unallocated r2 := by
        intro i hi id hid hmem
        rw [hslots] at hi
        rw [hlay, mem_spliceEach] at hmem
        rcases hmem with hmem | hmem
        · have heq := slotLayerIds_disjoint hid hmem
          dsimp only at hi
          omega
        · exact hun i (Nat.le_of_succ_le hi) id hid hmem
      have hgrow : ∀ m r', Grown r2 m r' → Grown r m r' := by
        intro m r' h
        have hle : r.slots.allocated + 1 ≤ m := by simpa [hslots] using h.le
        refine ⟨by omega, ?_, h.source.trans h1.source, by simp [h.slots, hslots], h.frames.trans h1.frames⟩
        rw [h.layers, hlay, hslots, ← spliceEach_append, ← slotLayersFrom_succ, slotLayersFrom_append (by omega) hle]
      have hend : Ends (growSlots n) r2 (fun _ => Grown r (r.slots.allocated + (n + 1)))
          (fun r' => ∃ m, m ≤ r.slots.allocated + (n + 1) ∧ Grown r m r') := by
        refine (ih r2 hnd2 hun2).mono (fun _ r' h => ?_) fun r' h => ?_
        · have h' := hgrow _ r' h
          rwa [hslots, show r.slots.allocated + 1 + n = r.slots.allocated + (n + 1) by omega] at h'
        · obtain ⟨m, hm, h⟩ := h
          rw [hslots] at hm
          exact ⟨m, by dsimp only at hm; omega, hgrow m r' h⟩
      unfold Ends at hend ⊢
      simp only [hx]
      exact hend

/-! ## Moving the pool -/

/-- Detaching takes out the listed layers, all of which are there. -/
theorem detachLayers_spec (ids : List String) (r : StaticRenderer) (hnd : r.style.layers.Nodup) (hids : ids.Nodup)
    (hsub : ∀ id ∈ ids, id ∈ r.style.layers) :
    (detachLayers ids r).1 = ids ∧ Relaid r (r.style.layers.filter fun a => decide (a ∉ ids)) (detachLayers ids r).2 := by
  induction ids generalizing r with
  | nil => exact ⟨rfl, by simp [detachLayers], rfl, rfl, rfl⟩
  | cons id ids ih =>
    obtain ⟨hnid, hids⟩ := List.nodup_cons.mp hids
    have hlay : (removeLayer id r).style.layers = r.style.layers.filter fun a => decide (a ≠ id) := erase_eq_filter hnd id
    have hsub' : ∀ a ∈ ids, a ∈ (removeLayer id r).style.layers := by
      intro a ha
      rw [hlay]
      refine List.mem_filter.mpr ⟨hsub a (List.mem_cons_of_mem id ha), decide_eq_true ?_⟩
      exact fun h => hnid (h ▸ ha)
    obtain ⟨htaken, hrest⟩ := ih (removeLayer id r) (hlay ▸ hnd.filter _) hids hsub'
    rw [hlay, filter_not_mem_cons] at hrest
    have hstep : detachLayers (id :: ids) r = (id :: (detachLayers ids (removeLayer id r)).1,
      (detachLayers ids (removeLayer id r)).2) := by
      simp only [detachLayers, if_pos (hsub id List.mem_cons_self)]
    rw [hstep, htaken]
    exact ⟨rfl, hrest.layers, hrest.source, hrest.slots, hrest.frames⟩

/-- `l'` has the layers of `l` in their order, and the listed ones somewhere among them. -/
structure Mixed (ids l l' : List String) : Prop where
  nodup : l'.Nodup
  mem : ∀ a, a ∈ l' ↔ a ∈ ids ∨ a ∈ l
  filter : ∀ p : String → Bool, (∀ a ∈ ids, p a = false) → l'.filter p = l.filter p

theorem Mixed.spliceEach {ids l : List String} (before : Option String) (hids : ids.Nodup) (hl : l.Nodup)
    (hd : ∀ a ∈ ids, a ∉ l) :
    Mixed ids l (spliceEach before ids l) :=
  ⟨nodup_spliceEach hids hl hd, fun _ => mem_spliceEach, fun _ hp => filter_spliceEach_of_drop hp⟩

theorem Mixed.cons {ids l l' : List String} {before : Option String} (h : Mixed ids (splice before [id] l) l') :
    Mixed (id :: ids) l l' := by
  refine ⟨h.nodup, fun a => ?_, fun p hp => ?_⟩
  · rw [h.mem, mem_splice, List.mem_singleton, List.mem_cons]
    tauto
  · rw [h.filter p fun a ha => hp a (List.mem_cons_of_mem id ha)]
    exact filter_splice_of_drop fun a ha => List.mem_singleton.mp ha ▸ hp id List.mem_cons_self

/-- Restoring layers puts them on top one by one; that all are back is said only when they are. -/
theorem foldl_restoreLayer (ids : List String) (b : Bool) (r : StaticRenderer) :
    ∃ layers, Relaid r layers (ids.foldl restoreLayer (b, r)).2 ∧
      ((ids.foldl restoreLayer (b, r)).1 = true → b = true ∧ layers = spliceEach none ids r.style.layers) := by
  induction ids generalizing b r with
  | nil => exact ⟨r.style.layers, Kept.refl r, fun h => ⟨h, rfl⟩⟩
  | cons id ids ih =>
    rw [List.foldl_cons]
    have hadd := addLayer_ends id none r
    cases hx : addLayer id none r with
    | ok u r1 =>
      have hstep : restoreLayer (b, r) id = (b, r1) := by simp only [restoreLayer, hx]
      have h1 := (hadd.ok_of hx).2
      obtain ⟨layers, hl, hres⟩ := ih b r1
      rw [hstep]
      refine ⟨layers, h1.trans hl, fun h => ?_⟩
      obtain ⟨hb, hlay⟩ := hres h
      rw [h1.layers] at hlay
      exact ⟨hb, hlay⟩
    | error e r1 =>
      have hstep : restoreLayer (b, r) id = (false, r1) := by simp only [restoreLayer, hx]
      obtain ⟨layers, hl, hres⟩ := ih false r1
      rw [hstep]
      refine ⟨layers, (hadd.err_of hx).relaid hl, fun h => ?_⟩
      exact absurd (hres h).1 Bool.false_ne_true

/-- A recovery that reports success has put every layer back on top. -/
theorem recoverFailedMoveAll_spec (consumed : String) (remaining : List String) (r : StaticRenderer) :
    ∃ layers, Relaid r layers (recoverFailedMoveAll consumed remaining r).2 ∧
      ((recoverFailedMoveAll consumed remaining r).1 = true →
        layers = spliceEach none (consumed :: remaining) r.style.layers) := by
  have hcall := nativeCall_ends r
  cases hx : nativeCall r with
  | ok u r1 =>
    have hstep : recoverFailedMoveAll consumed remaining r = (consumed :: remaining).foldl restoreLayer (true, r1) := by
      simp only [recoverFailedMoveAll, hx, List.foldl_cons]
    have h1 := hcall.ok_of hx
    obtain ⟨layers, hl, hres⟩ := foldl_restoreLayer (consumed :: remaining) true r1
    rw [hstep]
    exact ⟨layers, h1.relaid hl, fun h => h1.layers ▸ (hres h).2⟩
  | error e r1 =>
    have hstep : recoverFailedMoveAll consumed remaining r = remaining.foldl restoreLayer (false, r1) := by
      simp only [recoverFailedMoveAll, hx]
    obtain ⟨layers, hl, hres⟩ := foldl_restoreLayer remaining false r1
    rw [hstep]
    exact ⟨layers, (hcall.err_of hx).relaid hl, fun h => absurd (hres h).1 Bool.false_ne_true⟩

/-- A move that failed: the layers are somewhere, or known to be incomplete. -/
structure MoveFailed (ids : List String) (layers : List String) (r r' : StaticRenderer) : Prop where
  source : r'.style.overlaySource = r.style.overlaySource
  frames : r'.frames = r.frames
  slots : ∃ rebuild, r'.slots = { r.slots with currentBefore := none, needsReset := true, needsRebuild := rebuild }
  mixed : r'.slots.needsRebuild = true ∨ Mixed ids layers r'.style.layers

theorem reinsertLayers_ends (before : Option String) (ids : List String) (r : StaticRenderer) (hids : ids.Nodup)
    (hl : r.style.layers.Nodup) (hd : ∀ a ∈ ids, a ∉ r.style.layers) :
    Ends (reinsertLayers before ids) r (fun _ => Relaid r (spliceEach before ids r.style.layers))
      (MoveFailed ids r.style.layers r) := by
  induction ids generalizing r with
  | nil => exact Ends.pure (Kept.refl r)
  | cons id ids ih =>
    obtain ⟨hnid, hids'⟩ := List.nodup_cons.mp hids
    have hadd := addLayer_ends id before r
    unfold reinsertLayers
    cases hx : addLayer id before r with
    | ok u r1 =>
      have h1 := (hadd.ok_of hx).2
      have hl1 : r1.style.layers.Nodup := by
        rw [h1.layers]
        exact nodup_splice (List.pairwise_singleton _ id) hl fun a ha => List.mem_singleton.mp ha ▸ hd id List.mem_cons_self
      have hd1 : ∀ a ∈ ids, a ∉ r1.style.layers := by
        intro a ha hmem
        rw [h1.layers, mem_splice, List.mem_singleton] at hmem
        rcases hmem with rfl | hmem
        · exact hnid ha
        · exact hd a (List.mem_cons_of_mem id ha) hmem
      have hend := ih r1 hids' hl1 hd1
      rw [h1.layers] at hend
      have hend' : Ends (reinsertLayers before ids) r1 (fun _ => Relaid r (spliceEach before (id :: ids) r.style.layers))
          (MoveFailed (id :: ids) r.style.layers r) := by
        refine hend.mono (fun _ r' h => h1.trans h) fun r' h => ?_
        refine ⟨h.source.trans h1.source, h.frames.trans h1.frames, h1.slots ▸ h.slots, h.mixed.imp_right Mixed.cons⟩
      unfold Ends at hend' ⊢
      simp only [hx]
      exact hend'
    | error e r1 =>
      have h1 := hadd.err_of hx
      obtain ⟨layers, hrec, hall⟩ := recoverFailedMoveAll_spec id ids r1
      unfold Ends
      simp only [hx]
      refine ⟨hrec.source.trans h1.source, hrec.frames.trans h1.frames, ⟨_, by rw [hrec.slots, h1.slots]⟩, ?_⟩
      cases hrestored : (recoverFailedMoveAll id ids r1).1 with
      | false => exact Or.inl (by simp)
      | true =>
        refine Or.inr ?_
        have hlay : (recoverFailedMoveAll id ids r1).2.style.layers = spliceEach none (id :: ids) r.style.layers := by
          rw [hrec.layers, hall hrestored, h1.layers]
        rw [hlay]
        exact Mixed.spliceEach none hids hl hd

/-- `r'` is `r` with the whole pool standing at `before`. -/
structure MovedTo (before : Option String) (r r' : StaticRenderer) : Prop where
  layers : r'.style.layers = spliceEach before (slotLayers r.slots.allocated)
    (r.style.layers.filter fun a => decide (a ∉ slotLayers r.slots.allocated))
  source : r'.style.overlaySource = r.style.overlaySource
  slots : r'.slots = { r.slots with currentBefore := before, needsReset := false }
  frames : r'.frames = r.frames

theorem moveAllLayers_ends (before : Option String) (r : StaticRenderer) (hnd : r.style.layers.Nodup)
    (hsub : ∀ id ∈ slotLayers r.slots.allocated, id ∈ r.style.layers) :
    Ends (moveAllLayers before) r (fun _ => MovedTo before r)
      (MoveFailed (slotLayers r.slots.allocated) (r.style.layers.filter fun a => decide (a ∉ slotLayers r.slots.allocated))
        r) := by
  obtain ⟨htaken, hdet⟩ := detachLayers_spec (slotLayers r.slots.allocated) r hnd (nodup_slotLayers _) hsub
  have hd : ∀ a ∈ slotLayers r.slots.allocated, a ∉ (detachLayers (slotLayers r.slots.allocated) r).2.style.layers := by
    intro a ha hmem
    rw [hdet.layers] at hmem
    exact of_decide_eq_true (List.mem_filter.mp hmem).2 ha
  have hre := reinsertLayers_ends before (slotLayers r.slots.allocated) _ (nodup_slotLayers _) (hdet.layers ▸ hnd.filter _) hd
  rw [hdet.layers] at hre
  unfold moveAllLayers
  unfold Ends at hre ⊢
  simp only [htaken]
  cases hx : reinsertLayers before (slotLayers r.slots.allocated) (detachLayers (slotLayers r.slots.allocated) r).2 with
  | ok u r1 =>
    rw [hx] at hre
    exact ⟨hre.layers, hre.source.trans hdet.source, by simp [hre.slots, hdet.slots], hre.frames.trans hdet.frames⟩
  | error e r1 =>
    rw [hx] at hre
    exact ⟨hre.source.trans hdet.source, hre.frames.trans hdet.frames, hdet.slots ▸ hre.slots, hre.mixed⟩

end Biei
