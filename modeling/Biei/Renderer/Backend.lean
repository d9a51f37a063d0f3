import Biei.Renderer.Overlay

/-!
# The native backend

`backend.rs`: the style a backend was given, the one native renderer it keeps, and when that renderer is built anew or made to
load a style. Native calls may fail or panic: how they turn out, a command is given with.
-/

namespace Biei

/-- A style document with the revision it is of. -/
structure ResolvedStyle where
  revision : StyleRevision
  styleJson : String
deriving DecidableEq, Repr

/-- What the actor is given of a task. -/
structure RenderTaskView where
  id : UInt64
  style : StyleRevision
  request : RenderRequest
  pixelRatio : PixelRatio
  outputFormat : ImageFormat
  deadline : Instant

def RenderTaskView.ofTask (task : InternalTask) : RenderTaskView :=
  ⟨task.id, task.style, task.request, task.pixelRatio, task.outputFormat, task.deadline⟩

/-- What a native renderer is built for. -/
structure RendererKey where
  renderMode : RenderMode
  pixelRatioBits : UInt32
deriving DecidableEq, Repr

def RendererKey.new (renderMode : RenderMode) (pixelRatio : PixelRatio) : RendererKey := ⟨renderMode, pixelRatio.value.bits⟩

/-- The one native renderer that is kept: what it was built for, the revision recorded for it, the style JSON last loaded into it,
and for a static renderer its overlay state. -/
structure ActiveRenderer where
  key : RendererKey
  loadedStyle : Option StyleRevision
  document : String
  overlays : Option StaticRenderer

/-- A call that draws: for which task, and the style JSON last loaded into the renderer that drew it. -/
structure Drawing where
  task : InternalTask
  document : String

structure MapLibreNativeBackend where
  loadedStyle : Option ResolvedStyle
  activeRenderer : Option ActiveRenderer
  drawings : List Drawing

def MapLibreNativeBackend.new : MapLibreNativeBackend := ⟨none, none, []⟩

/-- How code of the backend stops: with an error it returns, or by a panic that unwinds. -/
inductive Fault where
  | error (err : RendererError)
  | panic (message : String)

abbrev BackendM := EStateM Fault MapLibreNativeBackend

/-- How a native call turns out. -/
inductive NativeResult where
  | ok
  | failed (message : String)
  | panicked (message : String)

/-- How the native calls of one command turn out. A load that does not succeed may have replaced the document all the same. A
panic while a static image is put together is one of `fit` before it is drawn, and one of `draw` after. -/
structure NativeCalls where
  build : NativeResult
  load : NativeResult
  loadApplied : Bool
  populatePanic : Option String
  populateFaults : List (Option String)
  fit : NativeResult
  staticFaults : List (Option String)
  draw : NativeResult
  encode : NativeResult

/-- Every call succeeds. -/
def NativeCalls.fine : NativeCalls := ⟨.ok, .ok, false, none, [], .ok, [], .ok, .ok⟩

/-- A native call whose failure is reported as `err` says. -/
def checkNative (result : NativeResult) (err : String → RendererError) : BackendM Unit :=
  match result with
  | .ok => pure ()
  | .failed message => throw (.error (err message))
  | .panicked message => throw (.panic message)

/-- How a failure on the style stops a render. -/
def StyleError.fault : StyleError → Fault
  | .native message => .error (.renderFailed message)
  | .panicked message => .panic message

/-- The code of the static renderer, run within the backend. -/
def runStatic (x : RendererM Unit) (r : StaticRenderer) (faults : List (Option String)) :
    Except StyleError Unit × StaticRenderer :=
  match x { r with style := { r.style with faults := faults } } with
  | .ok () r' => (.ok (), r')
  | .error err r' => (.error err, r')

section

variable (parse : String → BaseStyle) (hash : AddLayerSource → UInt64)

/-- `render_size`. -/
def renderSize (width height : UInt16) : BackendM Unit :=
  if width = 0 ∨ height = 0 then throw (.error (.renderFailed "render size must be non-zero")) else pure ()

/-- A static renderer whose style has just been replaced by the document; its pool and sources are still those of before. -/
def loadedStatic (style : ResolvedStyle) (r : StaticRenderer) : StaticRenderer :=
  { r with style := ⟨(parse style.styleJson).layers, none, [], [], []⟩ }

/-- A static renderer that has just been built. -/
def builtStatic (style : ResolvedStyle) : StaticRenderer := loadedStatic parse style ⟨⟨[], none, [], [], []⟩, .new, .new, []⟩

/-- The overlay slots of a renderer that has just loaded a style; a tile renderer has none. -/
def populate (overlays : Option StaticRenderer) (calls : NativeCalls) : Except StyleError Unit × Option StaticRenderer :=
  match overlays, calls.populatePanic with
  | none, _ => (.ok (), none)
  | some r, some message => (.error (.panicked message), some r)
  | some r, none =>
    match runStatic populateStaticSlots r calls.populateFaults with
    | (.ok (), r') => (.ok (), some { r' with addlayerSources := .new })
    | (.error err, r') => (.error err, some r')

/-- How a failure to install the slots stops a load. -/
def setupFailed (style : ResolvedStyle) : StyleError → Fault
  | .native message => .error (.setupFailed style.revision.id message)
  | .panicked message => .panic message

def styleLoadFailed (style : ResolvedStyle) (message : String) : RendererError := .styleLoadFailed style.revision.id message

/-- Whether the document was replaced by the load, successful or not. -/
def NativeCalls.replacesDocument (calls : NativeCalls) : Bool :=
  match calls.load with
  | .ok => true
  | .failed _ => calls.loadApplied
  | .panicked _ => calls.loadApplied

/-- The kept renderer once the load has turned out, before its revision is recorded. -/
def ActiveRenderer.attempted (active : ActiveRenderer) (style : ResolvedStyle) (calls : NativeCalls) : ActiveRenderer :=
  if calls.replacesDocument then
    { active with document := style.styleJson, overlays := active.overlays.map (loadedStatic parse style) }
  else active

namespace MapLibreNativeBackend

/-- `style`: what was last given to load. -/
def currentStyle : BackendM ResolvedStyle := fun b =>
  match b.loadedStyle with
  | some style => .ok style b
  | none => .error (.error (.renderFailed "style has not been loaded in renderer backend")) b

/-- A native renderer of another kind, key or pool topology than wanted has to be built anew. -/
def needsRebuild (active : Option ActiveRenderer) (mode : RenderMode) (key : RendererKey) : Bool :=
  match active, mode with
  | some ⟨existing, _, _, some r⟩, .static => existing != key || r.slots.needsRebuild
  | some ⟨existing, _, _, none⟩, .tile => existing != key
  | some ⟨_, _, _, none⟩, .static => true
  | some ⟨_, _, _, some _⟩, .tile => true
  | none, _ => true

/-- Builds a renderer and loads the style into it; it is kept only when all of it succeeds. -/
def rebuildRenderer (mode : RenderMode) (key : RendererKey) (style : ResolvedStyle) (calls : NativeCalls) : BackendM Unit := do
  checkNative calls.build .renderFailed
  checkNative calls.load (styleLoadFailed style)
  let built :=
    match mode with
    | .static => some (builtStatic parse style)
    | .tile => none
  match populate built calls with
  | (.error err, _) => throw (setupFailed style err)
  | (.ok (), overlays) =>
    modify fun b => { b with activeRenderer := some ⟨key, some style.revision, style.styleJson, overlays⟩ }

/-- Loads the style into the kept renderer, unless the revision recorded for it is the wanted one. -/
def refreshRenderer (style : ResolvedStyle) (calls : NativeCalls) : BackendM Unit := fun b =>
  match b.activeRenderer with
  | none => .ok () b
  | some active =>
    if active.loadedStyle = some style.revision then .ok () b
    else
      let attempted := active.attempted parse style calls
      match checkNative calls.load (styleLoadFailed style) { b with activeRenderer := some attempted } with
      | .error fault b' => .error fault b'
      | .ok () b' =>
        let (result, overlays) := populate attempted.overlays calls
        let b'' := { b' with activeRenderer := some { attempted with loadedStyle := some style.revision, overlays := overlays } }
        match result with
        | .ok () => .ok () b''
        | .error err => .error (setupFailed style err) b''

/-- `ensure_static_renderer` and `ensure_tile_renderer`. -/
def ensureRenderer (mode : RenderMode) (key : RendererKey) (calls : NativeCalls) : BackendM Unit := do
  let style ← currentStyle
  let active := (← get).activeRenderer
  if needsRebuild active mode key then rebuildRenderer parse mode key style calls
  else refreshRenderer parse style calls

def ensureStaticRenderer (key : RendererKey) (calls : NativeCalls) : BackendM Unit := ensureRenderer parse .static key calls

def ensureTileRenderer (key : RendererKey) (calls : NativeCalls) : BackendM Unit := ensureRenderer parse .tile key calls

def ensureRendererForTask (task : RenderTaskView) (calls : NativeCalls) : BackendM Unit :=
  match task.request with
  | .tile _ _ _ tileSize => do
    renderSize tileSize tileSize
    ensureTileRenderer parse (.new .tile task.pixelRatio) calls
  | .staticImage _ width height _ _ _ _ => do
    renderSize width height
    ensureStaticRenderer parse (.new .static task.pixelRatio) calls

def loadProfile (style : ResolvedStyle) (task : RenderTaskView) (calls : NativeCalls) : BackendM Unit := do
  modify fun b => { b with loadedStyle := some style }
  ensureRendererForTask parse task calls

/-- The native renderer draws the task with the document it has. -/
def logDrawing (b : MapLibreNativeBackend) (task : InternalTask) (active : ActiveRenderer) : MapLibreNativeBackend :=
  { b with drawings := b.drawings ++ [⟨task, active.document⟩] }

/-- A static image is drawn once its overlays are in place, if they get there. -/
def drawStaticTask (task : InternalTask) (active : ActiveRenderer) (request : OverlayRequest) (r : StaticRenderer)
    (calls : NativeCalls) : BackendM Unit := fun b =>
  let (result, r') := runStatic (renderStaticWithOverlaysAndAddlayer hash request) r calls.staticFaults
  let b := if r.frames.length < r'.frames.length then b.logDrawing task active else b
  let b := { b with activeRenderer := some { active with overlays := some r' } }
  match result with
  | .ok () => .ok () b
  | .error err => .error err.fault b

def drawTask (task : InternalTask) (calls : NativeCalls) : BackendM Unit := fun b =>
  match b.activeRenderer with
  | none => .ok () b
  | some active =>
    match task.request, active.overlays with
    | .tile .., _ => .ok () (b.logDrawing task active)
    | .staticImage positioning _ _ overlays beforeLayer _ addlayer, some r =>
      drawStaticTask hash task active ⟨overlays, decide (positioning = .auto), beforeLayer, addlayer, task.id⟩ r calls b
    | .staticImage .., none => .ok () b

/-- The camera of a static image is fitted to its bounds or overlays. -/
def fitCamera (task : InternalTask) (calls : NativeCalls) : BackendM Unit :=
  match task.request with
  | .tile .. => pure ()
  | .staticImage .. => checkNative calls.fit .renderFailed

def render (task : InternalTask) (calls : NativeCalls) : BackendM Unit := do
  ensureRendererForTask parse (.ofTask task) calls
  fitCamera task calls
  drawTask hash task calls
  checkNative calls.draw .renderFailed
  checkNative calls.encode .renderFailed

def errorInvalidatesLoadedState : RendererError → Bool
  | .renderFailed _ => false
  | .styleLoadFailed .. => true
  | .setupFailed .. => true
  | .styleNotReady .. => true
  | .sourceFetchFailed .. => true
  | .timeout => true
  | .actorDead => true

/-- `reset_loaded_state`: neither the style nor the renderer counts as loaded. -/
def reset (b : MapLibreNativeBackend) : MapLibreNativeBackend :=
  { b with
    loadedStyle := none
    activeRenderer := b.activeRenderer.map fun active => { active with loadedStyle := none } }

end MapLibreNativeBackend

end

end Biei
