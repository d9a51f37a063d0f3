import Biei.Lib.Fallible
import Biei.Renderer.Worker

/-!
# What the backend has loaded

A document counts as prepared for a revision and a partition when the worker was given a profile that says so.
-/

namespace Biei

/-- The worker was given this document for this revision and partition. -/
def Prepared (received : List PreparedProfile) (revision : StyleRevision) (partition : Option CredentialCachePartition)
    (document : String) : Prop :=
  ∃ p ∈ received, p.revision = revision ∧ p.authorizationPartition = partition ∧ p.styleJson = document

theorem Prepared.mono {received received' : List PreparedProfile} {revision : StyleRevision}
    {partition : Option CredentialCachePartition} {document : String} (h : Prepared received revision partition document)
    (hsub : received ⊆ received') : Prepared received' revision partition document := by
  obtain ⟨p, hp, hrest⟩ := h
  exact ⟨p, hsub hp, hrest⟩

/-! ## The backend -/

namespace MapLibreNativeBackend

/-- The document that loading the revision for the task would leave in place: that of a renderer which need not be built anew and
is recorded under the revision. -/
def keptDocument (b : MapLibreNativeBackend) (task : RenderTaskView) (revision : StyleRevision) : Option String :=
  b.activeRenderer.bind fun a =>
    if needsRebuild (some a) task.request.renderMode (.new task.request.renderMode task.pixelRatio) = false ∧
      a.loadedStyle = some revision then some a.document
    else none

theorem checkNative_ends (result : NativeResult) (err : String → RendererError) (b : MapLibreNativeBackend) :
    Ends (checkNative result err) b (fun _ b' => b' = b) (fun b' => b' = b) := by
  cases result with
  | ok => exact Ends.pure rfl
  | failed message => exact Ends.of_error rfl rfl
  | panicked message => exact Ends.of_error rfl rfl

theorem renderSize_ends (width height : UInt16) (b : MapLibreNativeBackend) :
    Ends (renderSize width height) b (fun _ b' => b' = b) (fun b' => b' = b) := by
  unfold renderSize
  split
  · exact Ends.of_error rfl rfl
  · exact Ends.pure rfl

/-- Only the renderer that is kept has changed. -/
structure Reworked (b b' : MapLibreNativeBackend) : Prop where
  style : b'.loadedStyle = b.loadedStyle
  drawings : b'.drawings = b.drawings

/-- The renderer is recorded under the style's revision, with the style's document or the one it was left with. -/
structure Ensured (task : RenderTaskView) (style : ResolvedStyle) (b b' : MapLibreNativeBackend) : Prop where
  reworked : Reworked b b'
  active : ∃ a, b'.activeRenderer = some a ∧ a.loadedStyle = some style.revision ∧
    (a.document = style.styleJson ∨ b.keptDocument task style.revision = some a.document)

/-- Nothing is recorded under the style's revision but the style's document and what was there before. -/
structure NotEnsured (style : ResolvedStyle) (b b' : MapLibreNativeBackend) : Prop where
  reworked : Reworked b b'
  active : ∀ a, b'.activeRenderer = some a → a.loadedStyle = some style.revision →
    a.document = style.styleJson ∨ b.activeRenderer = some a

theorem NotEnsured.refl (style : ResolvedStyle) (b : MapLibreNativeBackend) : NotEnsured style b b :=
  ⟨⟨rfl, rfl⟩, fun _ ha _ => Or.inr ha⟩

section

variable (parse : String → BaseStyle)

/-- A renderer that was built anew has the style loaded that it was built with; a failure leaves the one that was there. -/
theorem rebuildRenderer_ends (mode : RenderMode) (key : RendererKey) (task : RenderTaskView) (style : ResolvedStyle)
    (calls : NativeCalls) (b : MapLibreNativeBackend) :
    Ends (rebuildRenderer parse mode key style calls) b (fun _ => Ensured task style b) (NotEnsured style b) := by
  have hsame : ∀ b', b' = b → NotEnsured style b b' := fun b' hb => hb ▸ NotEnsured.refl style b
  refine ((checkNative_ends calls.build _ b).mono (fun _ _ h => h) hsame).bind fun _ b1 h1 => ?_
  subst h1
  refine ((checkNative_ends calls.load _ b1).mono (fun _ _ h => h) hsame).bind fun _ b2 h2 => ?_
  subst h2
  dsimp only
  split
  · exact Ends.of_error rfl (NotEnsured.refl style _)
  · exact Ends.of_ok (a := ()) rfl ⟨⟨rfl, rfl⟩, _, rfl, rfl, Or.inl rfl⟩

theorem attempted_loadedStyle (active : ActiveRenderer) (style : ResolvedStyle) (calls : NativeCalls) :
    (active.attempted parse style calls).loadedStyle = active.loadedStyle := by
  unfold ActiveRenderer.attempted
  split
  · rfl
  · rfl

variable {b : MapLibreNativeBackend}

/-- A renderer that is kept ends with the style loaded into it, or was recorded under the revision already. -/
theorem refreshRenderer_ends (task : RenderTaskView) (style : ResolvedStyle) (calls : NativeCalls)
    {active : ActiveRenderer} (hact : b.activeRenderer = some active)
    (hneed : needsRebuild (some active) task.request.renderMode (.new task.request.renderMode task.pixelRatio) = false) :
    Ends (refreshRenderer parse style calls) b (fun _ => Ensured task style b) (NotEnsured style b) := by
  by_cases hrec : active.loadedStyle = some style.revision
  · have hkept : b.keptDocument task style.revision = some active.document := by
      simp only [keptDocument, hact, Option.bind_some]
      rw [if_pos ⟨hneed, hrec⟩]
    refine Ends.of_ok (a := ()) (t := b) (by simp only [refreshRenderer, hact, if_pos hrec]) ?_
    exact ⟨⟨rfl, rfl⟩, active, hact, hrec, Or.inr hkept⟩
  · -- a load that fails leaves the old record, which is of another revision
    have hfailed : NotEnsured style b { b with activeRenderer := some (active.attempted parse style calls) } := by
      refine ⟨⟨rfl, rfl⟩, fun a ha hl => ?_⟩
      rw [← Option.some.inj ha, attempted_loadedStyle] at hl
      exact absurd hl hrec
    cases hload : calls.load with
    | failed message =>
      refine Ends.of_error (e := .error (styleLoadFailed style message)) ?_ hfailed
      simp only [refreshRenderer, hact, if_neg hrec, hload, checkNative]
      rfl
    | panicked message =>
      refine Ends.of_error (e := .panic message) ?_ hfailed
      simp only [refreshRenderer, hact, if_neg hrec, hload, checkNative]
      rfl
    | ok =>
      have hdoc : (active.attempted parse style calls).document = style.styleJson := by
        simp [ActiveRenderer.attempted, NativeCalls.replacesDocument, hload]
      unfold Ends refreshRenderer
      simp only [hact, if_neg hrec, hload, checkNative, pure, EStateM.pure]
      cases hpop : populate (active.attempted parse style calls).overlays calls with
      | mk result overlays =>
        cases result with
        | ok u => exact ⟨⟨rfl, rfl⟩, _, rfl, rfl, Or.inl hdoc⟩
        | error err =>
          refine ⟨⟨rfl, rfl⟩, fun a ha _ => Or.inl ?_⟩
          cases ha
          exact hdoc

/-- What a task needs ensured. -/
theorem ensureRendererForTask_eq (task : RenderTaskView) (calls : NativeCalls) :
    ∃ width height, ensureRendererForTask parse task calls = (renderSize width height >>= fun _ =>
      ensureRenderer parse task.request.renderMode (.new task.request.renderMode task.pixelRatio) calls) := by
  unfold ensureRendererForTask
  cases task.request with
  | tile z x y tileSize => exact ⟨tileSize, tileSize, rfl⟩
  | staticImage positioning width height overlays beforeLayer padding addlayer => exact ⟨width, height, rfl⟩

theorem ensureRendererForTask_ends (task : RenderTaskView) (style : ResolvedStyle) (calls : NativeCalls)
    (hstyle : b.loadedStyle = some style) :
    Ends (ensureRendererForTask parse task calls) b (fun _ => Ensured task style b) (NotEnsured style b) := by
  obtain ⟨width, height, heq⟩ := ensureRendererForTask_eq parse task calls
  rw [heq]
  have hsame : ∀ b', b' = b → NotEnsured style b b' := fun b' hb => hb ▸ NotEnsured.refl style b
  refine ((renderSize_ends width height b).mono (fun _ _ h => h) hsame).bind fun _ b1 h1 => ?_
  subst h1
  have hcur : Ends currentStyle b1 (fun s b' => s = style ∧ b' = b1) (NotEnsured style b1) :=
    Ends.of_ok (a := style) (t := b1) (by simp only [currentStyle, hstyle]) ⟨rfl, rfl⟩
  refine hcur.bind fun s b2 h2 => ?_
  obtain ⟨rfl, rfl⟩ := h2
  refine Ends.get_bind ?_
  dsimp only
  split
  · exact rebuildRenderer_ends parse _ _ task s calls b2
  · rename_i hneed
    cases hact : b2.activeRenderer with
    | none =>
      rw [hact] at hneed
      cases hmode : task.request.renderMode with
      | static => simp [needsRebuild] at hneed
      | tile => simp [needsRebuild] at hneed
    | some active =>
      rw [hact] at hneed
      exact refreshRenderer_ends parse task s calls hact (by simpa using hneed)

theorem loadProfile_ends (style : ResolvedStyle) (task : RenderTaskView) (calls : NativeCalls) (b : MapLibreNativeBackend) :
    Ends (loadProfile parse style task calls) b
      (fun _ b' => b'.loadedStyle = some style ∧ b'.drawings = b.drawings ∧ ∃ a, b'.activeRenderer = some a ∧
        (a.document = style.styleJson ∨ b.keptDocument task style.revision = some a.document))
      (fun b' => b'.drawings = b.drawings) := by
  have hset : Ends (modify fun b => { b with loadedStyle := some style } : BackendM Unit) b
      (fun _ b' => b' = { b with loadedStyle := some style }) (fun b' => b'.drawings = b.drawings) :=
    Ends.of_ok (a := ()) rfl rfl
  refine hset.bind fun _ b1 h1 => ?_
  subst h1
  refine (ensureRendererForTask_ends parse task style calls rfl).mono (fun _ b' h => ?_) fun b' h => h.reworked.drawings
  obtain ⟨a, ha, -, hdoc⟩ := h.active
  exact ⟨h.reworked.style, h.reworked.drawings, a, ha, hdoc⟩

/-- The renderer has drawn the task or not, and is the same as to what it has loaded. -/
structure Drawn (task : InternalTask) (active : ActiveRenderer) (b b' : MapLibreNativeBackend) : Prop where
  style : b'.loadedStyle = b.loadedStyle
  kept : ∃ a, b'.activeRenderer = some a ∧ a.loadedStyle = active.loadedStyle ∧ a.document = active.document
  drawings : b'.drawings = b.drawings ∨ b'.drawings = b.drawings ++ [⟨task, active.document⟩]

theorem drawStaticTask_ends (hash : AddLayerSource → UInt64) (task : InternalTask) (active : ActiveRenderer)
    (request : OverlayRequest) (r : StaticRenderer) (calls : NativeCalls) (b : MapLibreNativeBackend) :
    Ends (drawStaticTask hash task active request r calls) b (fun _ => Drawn task active b) (Drawn task active b) := by
  unfold Ends drawStaticTask
  cases runStatic (renderStaticWithOverlaysAndAddlayer hash request) r calls.staticFaults with
  | mk result r' =>
    have hdrawn : Drawn task active b { (if r.frames.length < r'.frames.length then b.logDrawing task active else b) with
        activeRenderer := some { active with overlays := some r' } } := by
      refine ⟨?_, ⟨_, rfl, rfl, rfl⟩, ?_⟩
      · split
        · rfl
        · rfl
      · split
        · exact Or.inr rfl
        · exact Or.inl rfl
    cases result with
    | ok u => exact hdrawn
    | error err => exact hdrawn

theorem drawTask_ends (hash : AddLayerSource → UInt64) (task : InternalTask) (calls : NativeCalls)
    {active : ActiveRenderer} (hact : b.activeRenderer = some active) :
    Ends (drawTask hash task calls) b (fun _ => Drawn task active b) (Drawn task active b) := by
  cases hreq : task.request with
  | tile z x y tileSize =>
    refine Ends.of_ok (a := ()) (t := b.logDrawing task active) (by simp only [drawTask, hact, hreq]) ?_
    exact ⟨rfl, ⟨active, hact, rfl, rfl⟩, Or.inr rfl⟩
  | staticImage positioning width height overlays beforeLayer padding addlayer =>
    cases hov : active.overlays with
    | none =>
      refine Ends.of_ok (a := ()) (t := b) (by simp only [drawTask, hact, hreq, hov]) ?_
      exact ⟨rfl, ⟨active, hact, rfl, rfl⟩, Or.inl rfl⟩
    | some r =>
      have hdraw := drawStaticTask_ends hash task active
        ⟨overlays, decide (positioning = .auto), beforeLayer, addlayer, task.id⟩ r calls b
      unfold Ends at hdraw ⊢
      simp only [drawTask, hact, hreq, hov]
      exact hdraw

theorem fitCamera_ends (task : InternalTask) (calls : NativeCalls) (b : MapLibreNativeBackend) :
    Ends (fitCamera task calls) b (fun _ b' => b' = b) (fun b' => b' = b) := by
  unfold fitCamera
  split
  · exact Ends.pure rfl
  · exact checkNative_ends calls.fit _ b

/-! ## Documents prepared for a task -/

/-- Everything drawn was drawn with a document prepared for the task's revision and partition. -/
def DrawingsOk (received : List PreparedProfile) (b : MapLibreNativeBackend) : Prop :=
  ∀ d ∈ b.drawings, Prepared received d.task.style d.task.partition d.document

/-- The style the backend was given is prepared for the revision and partition, and so is what its renderer has loaded if it is
recorded under the revision. -/
structure Holds (received : List PreparedProfile) (revision : StyleRevision) (partition : Option CredentialCachePartition)
    (b : MapLibreNativeBackend) : Prop where
  style : ∃ json, b.loadedStyle = some ⟨revision, json⟩ ∧ Prepared received revision partition json
  active : ∀ a, b.activeRenderer = some a → a.loadedStyle = some revision → Prepared received revision partition a.document

theorem DrawingsOk.mono {received received' : List PreparedProfile} (h : DrawingsOk received b)
    (hsub : received ⊆ received') : DrawingsOk received' b :=
  fun d hd => (h d hd).mono hsub

theorem Holds.mono {received received' : List PreparedProfile} {revision : StyleRevision}
    {partition : Option CredentialCachePartition} (h : Holds received revision partition b) (hsub : received ⊆ received') :
    Holds received' revision partition b := by
  obtain ⟨json, hjson, hp⟩ := h.style
  exact ⟨⟨json, hjson, hp.mono hsub⟩, fun a ha hl => (h.active a ha hl).mono hsub⟩

section Tasks

variable {received : List PreparedProfile} {partition : Option CredentialCachePartition}

/-- A profile that was prepared for the partition and loads leaves its document, unless one prepared for another is kept. -/
theorem Holds.of_load {style : ResolvedStyle} {task : RenderTaskView} {b b' : MapLibreNativeBackend}
    (hjson : Prepared received style.revision partition style.styleJson)
    (hkept : ∀ document, b.keptDocument task style.revision = some document → Prepared received style.revision partition document)
    (hstyle : b'.loadedStyle = some style)
    (hactive : ∃ a, b'.activeRenderer = some a ∧
      (a.document = style.styleJson ∨ b.keptDocument task style.revision = some a.document)) :
    Holds received style.revision partition b' := by
  obtain ⟨a, ha, hdoc⟩ := hactive
  refine ⟨⟨style.styleJson, hstyle, hjson⟩, fun a' ha' _ => ?_⟩
  rw [ha] at ha'
  cases ha'
  rcases hdoc with hdoc | hdoc
  · exact hdoc ▸ hjson
  · exact hkept _ hdoc

theorem keptDocument_active {b : MapLibreNativeBackend} {task : RenderTaskView} {revision : StyleRevision} {document : String}
    (h : b.keptDocument task revision = some document) :
    ∃ a, b.activeRenderer = some a ∧ a.loadedStyle = some revision ∧ a.document = document := by
  obtain ⟨a, ha, hsome⟩ := Option.bind_eq_some_iff.mp h
  split at hsome
  · rename_i hcond
    exact ⟨a, ha, hcond.2, Option.some.inj hsome⟩
  · cases hsome

/-- Rendering draws with a prepared document, and keeps prepared what is loaded, however it ends. -/
theorem render_ends (hash : AddLayerSource → UInt64) (task : InternalTask) (calls : NativeCalls) {b : MapLibreNativeBackend}
    (h : Holds received task.style task.partition b) (hd : DrawingsOk received b) :
    Ends (render parse hash task calls) b
      (fun _ b' => Holds received task.style task.partition b' ∧ DrawingsOk received b')
      (fun b' => Holds received task.style task.partition b' ∧ DrawingsOk received b') := by
  obtain ⟨json, hstyle, hjson⟩ := h.style
  have hens := ensureRendererForTask_ends parse (.ofTask task) ⟨task.style, json⟩ calls hstyle
  refine (hens.mono (fun _ _ hok => hok) fun b' hno => ?_).bind fun _ b1 h1 => ?_
  · refine ⟨⟨⟨json, hno.reworked.style.trans hstyle, hjson⟩, fun a ha hl => ?_⟩, fun d hmem =>
      hd d (hno.reworked.drawings ▸ hmem)⟩
    rcases hno.active a ha hl with hdoc | hold
    · exact hdoc ▸ hjson
    · exact h.active a hold hl
  · obtain ⟨active, hact, hrec, hdoc⟩ := h1.active
    have hprep : Prepared received task.style task.partition active.document := by
      rcases hdoc with hdoc | hdoc
      · exact hdoc ▸ hjson
      · obtain ⟨a0, ha0, hl0, hdoc0⟩ := keptDocument_active hdoc
        exact hdoc0 ▸ h.active a0 ha0 hl0
    have hholds1 : ∀ b', Drawn task active b1 b' → Holds received task.style task.partition b' ∧ DrawingsOk received b' := by
      intro b' hdr
      refine ⟨⟨⟨json, hdr.style.trans (h1.reworked.style.trans hstyle), hjson⟩, fun a ha _ => ?_⟩, fun d hmem => ?_⟩
      · obtain ⟨a', ha', -, hdoc'⟩ := hdr.kept
        rw [ha'] at ha
        rw [← Option.some.inj ha, hdoc']
        exact hprep
      · rcases hdr.drawings with hdrawings | hdrawings
        · rw [hdrawings, h1.reworked.drawings] at hmem
          exact hd d hmem
        · rw [hdrawings, h1.reworked.drawings, List.mem_append, List.mem_singleton] at hmem
          rcases hmem with hmem | rfl
          · exact hd d hmem
          · exact hprep
    have hnone : Drawn task active b1 b1 := ⟨rfl, ⟨active, hact, rfl, rfl⟩, Or.inl rfl⟩
    refine ((fitCamera_ends task calls b1).mono (fun _ _ he => he) fun b' he => ?_).bind fun _ b2 h2 => ?_
    · exact hholds1 b' (he ▸ hnone)
    · subst h2
      refine ((drawTask_ends hash task calls hact).mono (fun _ b' he => hholds1 b' he) fun b' he => hholds1 b' he).bind
        fun _ b3 h3 => ?_
      have hlast : ∀ b', b' = b3 → Holds received task.style task.partition b' ∧ DrawingsOk received b' := fun b' he => he ▸ h3
      refine ((checkNative_ends calls.draw _ b3).mono (fun _ _ he => he) hlast).bind fun _ b4 h4 => ?_
      subst h4
      exact (checkNative_ends calls.encode _ b4).mono (fun _ b' he => hlast b' he) hlast

end Tasks

end

end MapLibreNativeBackend

end Biei
