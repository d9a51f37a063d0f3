import Biei.Lib.Run
import Biei.Lib.Splice
import Biei.Types

/-!
# Overlays on a static renderer

`features.rs`, `layers.rs`, `pin.rs`, `slots.rs` and `addlayer.rs`: how a request's overlays are divided over slots, the pool of
slot layers a static renderer keeps across requests, and the layer and source that one request brings along. A layer is its id;
the style holds its layers bottom to top. Any native call may fail: which ones do, a request is given with.
-/

namespace Biei

/-- `MAX_STATIC_OVERLAYS`. -/
def maxStaticOverlays : Nat := 64

/-! ## The slots of a request -/

def pathHasFill (path : PathOverlay) : Bool := path.fillColor.isSome

/-- A path that is only stroked; a run of these shares one slot. -/
def isStrokeOnlyPath : StaticOverlay → Bool
  | .path path => !pathHasFill path
  | .geoJson _ => false
  | .pin _ => false

def strokeOnlyPathRunLen (overlays : List StaticOverlay) : Nat := (overlays.takeWhile isStrokeOnlyPath).length

/-- The groups taken from the front of what remains; every group takes at least one overlay, so as many rounds as overlays do. -/
def slotGroupsFrom : Nat → List StaticOverlay → List (List StaticOverlay)
  | 0, _ => []
  | rounds + 1, remaining =>
    if remaining.isEmpty then []
    else
      let groupLen := max (strokeOnlyPathRunLen remaining) 1
      remaining.take groupLen :: slotGroupsFrom rounds (remaining.drop groupLen)

/-- `overlay_slot_groups`: one slot for each run of consecutive stroke-only paths, and one for every other overlay. -/
def overlaySlotGroups (overlays : List StaticOverlay) : List (List StaticOverlay) := slotGroupsFrom overlays.length overlays

def overlaySlotCount (overlays : List StaticOverlay) : Nat := (overlaySlotGroups overlays).length

/-! ## Layer ids -/

/-- The id of the layer that draws one kind of geometry of a slot. -/
def slotLayerId (idx : Nat) (kind : String) : String := "biei-overlay-" ++ toString idx ++ "-" ++ kind

def slotFillLayerId (idx : Nat) : String := slotLayerId idx "fill"

def slotLineLayerId (idx : Nat) : String := slotLayerId idx "line"

def slotCircleLayerId (idx : Nat) : String := slotLayerId idx "circle"

def slotSymbolLayerId (idx : Nat) : String := slotLayerId idx "symbol"

def slotLayerIds (idx : Nat) : List String :=
  [slotFillLayerId idx, slotLineLayerId idx, slotCircleLayerId idx, slotSymbolLayerId idx]

/-- The id a request's own layer is given, whatever id it came with. -/
def addlayerId (taskId : UInt64) : String := "__biei_addlayer_" ++ toString taskId.toNat

def PinSize.letter : PinSize → String
  | .small => "s"
  | .medium => "m"
  | .large => "l"

def pinImageId (pin : PinOverlay) : String :=
  "biei-pin-" ++ pin.size.letter ++ "-" ++ pin.label.getD "dot" ++ "-" ++ pin.color ++ "-x2"

/-- The image ids of the pins among the overlays, each once, in order of first appearance. -/
def pinImageIds (overlays : List StaticOverlay) : List String :=
  overlays.foldl (fun ids overlay =>
    match overlay with
    | .pin pin => if pinImageId pin ∈ ids then ids else ids ++ [pinImageId pin]
    | .path _ => ids
    | .geoJson _ => ids) []

/-! ## The renderer's state -/

/-- `maplibre_native::StyleError`, and the panic of a search that has to succeed. -/
inductive StyleError where
  | native (message : String)
  | panicked (message : String)
deriving DecidableEq, Repr

/-- The native style: its layers bottom to top, the overlays whose features the shared overlay source holds (`none` without the
source), the request-local sources and the images. `faults` says of the native calls to come which fail, and how. -/
structure Style where
  layers : List String
  overlaySource : Option (List StaticOverlay)
  sources : List (String × String)
  images : List String
  faults : List (Option String)

/-- Lazy, high-water-mark pool for overlay layers. -/
structure OverlaySlotPool where
  /-- Number of slot layer sets currently in the style. -/
  allocated : Nat
  maxSize : Nat
  /-- Where the allocated layers stand, when `needsReset` is not set. -/
  currentBefore : Option String
  /-- A failed move left layers spread across positions. -/
  needsReset : Bool
  /-- A failed move left layers missing. -/
  needsRebuild : Bool
  /-- The shared source holds data of a request that was drawn. -/
  hasData : Bool
deriving DecidableEq, Repr

/-- The pool of a freshly loaded style. -/
def OverlaySlotPool.new : OverlaySlotPool := ⟨0, maxStaticOverlays, none, false, false, false⟩

/-- The request-local sources kept on the loaded style, with the least recently used first in `lru`. -/
structure AddLayerSourceCache where
  entries : List (String × AddLayerSource)
  lru : List String
  capacity : Nat

/-- `ADDLAYER_SOURCE_CACHE_CAPACITY`. -/
def addlayerSourceCacheCapacity : Nat := 64

def AddLayerSourceCache.new : AddLayerSourceCache := ⟨[], [], addlayerSourceCacheCapacity⟩

/-- What `render_static_with_overlays_and_addlayer` is asked for; `prepared` when the union of the overlays has been built
already. -/
structure OverlayRequest where
  overlays : List StaticOverlay
  prepared : Bool
  beforeLayer : Option String
  addlayer : Option AddLayer
  taskId : UInt64

/-- A call of `render_static`: for which request, and the visible layers at that moment. -/
structure Frame where
  request : OverlayRequest
  layers : List String

/-- A static renderer with a loaded style, its slots, its request-local sources, and what it has drawn so far. -/
structure StaticRenderer where
  style : Style
  slots : OverlaySlotPool
  addlayerSources : AddLayerSourceCache
  frames : List Frame

/-- Code that works on the renderer and may fail, keeping what it did until then. -/
abbrev RendererM := EStateM StyleError StaticRenderer

/-- The layers of the slots from `lo` on and below `hi`, in slot order. -/
def slotLayersFrom (lo hi : Nat) : List String := (List.range' lo (hi - lo)).flatMap slotLayerIds

/-- The layers of the slots below `n`. -/
def slotLayers (n : Nat) : List String := slotLayersFrom 0 n

namespace StaticRenderer

/-- How many slots the features in the shared source are divided over. -/
def shownSlots (r : StaticRenderer) : Nat := (r.style.overlaySource.map overlaySlotCount).getD 0

/-- The layers that draw something: a slot's filters select nothing when no feature carries its index. -/
def visibleLayers (r : StaticRenderer) : List String :=
  r.style.layers.filter fun id => decide (id ∉ slotLayersFrom r.shownSlots r.slots.allocated)

end StaticRenderer

/-! ## Native calls -/

/-- One native call that may fail. -/
def nativeCall : RendererM Unit := fun r =>
  match r.style.faults with
  | [] => .ok () r
  | none :: rest => .ok () { r with style := { r.style with faults := rest } }
  | some message :: rest => .error (.native message) { r with style := { r.style with faults := rest } }

/-- `add_layer_before` and, without a layer named, `add_layer`: directly below the named layer, or on top. -/
def addLayer (id : String) (before : Option String) : RendererM Unit := do
  nativeCall
  let r ← get
  if id ∈ r.style.layers then
    throw (.native ("Layer " ++ id ++ " already exists"))
  else
    set { r with style := { r.style with layers := splice before [id] r.style.layers } }

def removeLayer (id : String) (r : StaticRenderer) : StaticRenderer :=
  { r with style := { r.style with layers := r.style.layers.erase id } }

/-- `add_source`. -/
def addSource (id json : String) : RendererM Unit := do
  nativeCall
  let r ← get
  if r.style.sources.any fun entry => entry.1 == id then
    throw (.native ("Source " ++ id ++ " already exists"))
  else
    set { r with style := { r.style with sources := r.style.sources ++ [(id, json)] } }

def removeSource (id : String) (r : StaticRenderer) : StaticRenderer :=
  { r with style := { r.style with sources := r.style.sources.filter fun entry => entry.1 != id } }

def removeImages (ids : List String) (r : StaticRenderer) : StaticRenderer :=
  { r with style := { r.style with images := r.style.images.filter fun id => decide (id ∉ ids) } }

def setSourceGeojson (overlays : List StaticOverlay) : RendererM Unit := fun r =>
  match r.style.overlaySource with
  | none => .error (.native "overlay source `biei-overlays-src` is missing or not a GeoJsonSource") r
  | some _ => .ok () { r with style := { r.style with overlaySource := some overlays } }

/-! ## The slot pool -/

/-- `populate_static_slots`: the shared source on a freshly loaded style, and a pool with nothing allocated. -/
def populateStaticSlots : RendererM Unit := do
  nativeCall
  nativeCall
  modify fun r => { r with style := { r.style with overlaySource := some [] }, slots := .new }

/-- Builds each layer from its template and adds it, in order. -/
def installLayers (before : Option String) : List String → RendererM Unit
  | [] => pure ()
  | id :: ids => do
    nativeCall
    addLayer id before
    installLayers before ids

def installSlotLayers (idx : Nat) (before : Option String) : RendererM Unit := installLayers before (slotLayerIds idx)

/-- Removes whatever was added for the slot. -/
def rollbackSlotLayers (idx : Nat) (r : StaticRenderer) : StaticRenderer :=
  (slotLayerIds idx).foldl (fun r id => removeLayer id r) r

/-- The loop of `ensure_capacity`: as many more slots, each wholly or not at all. -/
def growSlots : Nat → RendererM Unit
  | 0 => pure ()
  | n + 1 => fun r =>
    match installSlotLayers r.slots.allocated r.slots.currentBefore r with
    | .ok () r' => growSlots n { r' with slots := { r'.slots with allocated := r'.slots.allocated + 1 } }
    | .error err r' => .error err (rollbackSlotLayers r.slots.allocated r')

def ensureCapacity (needed : Nat) : RendererM Unit := fun r =>
  growSlots (min needed r.slots.maxSize - r.slots.allocated) r

/-- The first phase of a move: takes every listed layer that is there out of the style. -/
def detachLayers : List String → StaticRenderer → List String × StaticRenderer
  | [], r => ([], r)
  | id :: ids, r =>
    if id ∈ r.style.layers then
      let (taken, r') := detachLayers ids (removeLayer id r)
      (id :: taken, r')
    else detachLayers ids r

/-- Puts a layer on top, and says whether it is back. -/
def restoreLayer (restored : Bool × StaticRenderer) (id : String) : Bool × StaticRenderer :=
  match addLayer id none restored.2 with
  | .ok () r => (restored.1, r)
  | .error _ r => (false, r)

/-- `recover_failed_move_all`: the consumed layer is built anew from its template, and it and the remaining ones go on top. -/
def recoverFailedMoveAll (consumed : String) (remaining : List String) (r : StaticRenderer) : Bool × StaticRenderer :=
  let rebuilt :=
    match nativeCall r with
    | .ok () r => restoreLayer (true, r) consumed
    | .error _ r => (false, r)
  remaining.foldl restoreLayer rebuilt

/-- The second phase of a move: reinserts what was taken, in order. -/
def reinsertLayers (before : Option String) : List String → RendererM Unit
  | [] => pure ()
  | id :: rest => fun r =>
    match addLayer id before r with
    | .ok () r' => reinsertLayers before rest r'
    | .error err r' =>
      let (restored, r'') := recoverFailedMoveAll id rest r'
      .error err { r'' with
        slots := { r''.slots with
          currentBefore := none, needsReset := true, needsRebuild := r''.slots.needsRebuild || !restored } }

/-- `move_all_layers`: repositions every allocated layer in one sweep. -/
def moveAllLayers (before : Option String) : RendererM Unit := fun r =>
  let (taken, r') := detachLayers (slotLayers r.slots.allocated) r
  match reinsertLayers before taken r' with
  | .ok () r'' => .ok () { r'' with slots := { r''.slots with currentBefore := before, needsReset := false } }
  | .error err r'' => .error err r''

/-- `register_pin_images`, from the images registered so far: a pin whose image cannot be drawn stops it, one that cannot be added
also takes the registered ones back. -/
def registerPinImages : List String → List String → RendererM Unit
  | _, [] => pure ()
  | registered, id :: ids => do
    nativeCall
    fun r =>
      match nativeCall r with
      | .ok () r' =>
        registerPinImages (registered ++ [id]) ids { r' with style := { r'.style with images := r'.style.images ++ [id] } }
      | .error err r' => .error err (removeImages registered r')

/-- A move is needed when the previous position is degenerate or differs from the wanted one. -/
def reposition (before : Option String) : RendererM Unit := fun r =>
  if r.slots.needsReset || r.slots.currentBefore != before then moveAllLayers before r else .ok () r

/-- The union of the overlays is built, unless the caller brings it. -/
def buildOverlayGeojson (prepared : Bool) : RendererM Unit := if prepared then pure () else nativeCall

/-- `assign_slots` with overlays, once the slots are there. -/
def assignOverlays (overlays : List StaticOverlay) (prepared : Bool) (before : Option String) : RendererM Unit := do
  reposition before
  buildOverlayGeojson prepared
  setSourceGeojson overlays
  registerPinImages [] (pinImageIds overlays)
  modify fun r => { r with slots := { r.slots with hasData := true } }

/-- `assign_slots` without overlays: the source is emptied, unless it is known to be empty. -/
def clearOverlays : RendererM Unit := do
  if (← get).slots.hasData then do
    setSourceGeojson []
    modify fun r => { r with slots := { r.slots with hasData := false } }
  else pure ()

def assignSlots (overlays : List StaticOverlay) (prepared : Bool) (before : Option String) : RendererM Unit := do
  let maxSize := (← get).slots.maxSize
  if maxSize < overlays.length then
    throw (.native ("overlay count " ++ toString overlays.length ++ " exceeds pool max " ++ toString maxSize))
  else do
    ensureCapacity (overlaySlotCount overlays)
    if overlays.isEmpty then clearOverlays else assignOverlays overlays prepared before

/-! ## The request's own layer and source -/

namespace AddLayerSourceCache

/-- `touch`: the id becomes the most recently used. -/
def touch (cache : AddLayerSourceCache) (id : String) : AddLayerSourceCache :=
  { cache with lru := cache.lru.filter (fun cached => cached != id) ++ [id] }

/-- `stable_source_id`, of the hash of the tileset id and the JSON. -/
def stableSourceId (hash : AddLayerSource → UInt64) (source : AddLayerSource) : String :=
  "__biei_addlayer_source_" ++ String.ofList (List.leftpad 16 '0' (Nat.toDigits 16 (hash source).toNat))

/-- `vacant_id`: the id itself, or the first suffix that makes it free. -/
def vacantId (cache : AddLayerSourceCache) (baseId : String) : Option String :=
  let taken (id : String) := cache.entries.any fun entry => entry.1 == id
  if !taken baseId then some baseId
  else
    ((List.range' 1 (cache.entries.length + 1)).map fun suffix => baseId ++ "_" ++ toString suffix).find? fun id => !taken id

/-- Takes the entry of the id out. -/
def removeEntry (cache : AddLayerSourceCache) (id : String) : AddLayerSourceCache :=
  { cache with entries := cache.entries.filter fun entry => entry.1 != id }

end AddLayerSourceCache

/-- Evicts least recently used sources while the cache is full. -/
def evictSources : Nat → StaticRenderer → StaticRenderer
  | 0, r => r
  | rounds + 1, r =>
    if r.addlayerSources.capacity ≤ r.addlayerSources.entries.length then
      match r.addlayerSources.lru with
      | [] => r
      | evicted :: lru =>
        let cache := { r.addlayerSources.removeEntry evicted with lru := lru }
        evictSources rounds (removeSource evicted { r with addlayerSources := cache })
    else r

section

variable (hash : AddLayerSource → UInt64)

/-- `AddLayerSourceCache::ensure`: the id of a source with this content, and whether it is newly added. -/
def ensureSource (source : AddLayerSource) : RendererM (String × Bool) := fun r =>
  match r.addlayerSources.entries.find? fun entry => decide (entry.2 = source) with
  | some entry => .ok (entry.1, false) { r with addlayerSources := r.addlayerSources.touch entry.1 }
  | none =>
    let r := evictSources r.addlayerSources.lru.length r
    match r.addlayerSources.vacantId (AddLayerSourceCache.stableSourceId hash source) with
    | none => .error (.panicked "bounded addlayer source cache always has a vacant suffix") r
    | some id =>
      match (do nativeCall; addSource id source.json : RendererM Unit) r with
      | .ok () r' =>
        .ok (id, true) { r' with
          addlayerSources := { r'.addlayerSources with
            entries := r'.addlayerSources.entries ++ [(id, source)], lru := r'.addlayerSources.lru ++ [id] } }
      | .error err r' => .error err r'

/-- `remove_if_present`. -/
def removeSourceIfPresent (id : String) (r : StaticRenderer) : StaticRenderer :=
  if r.addlayerSources.entries.any fun entry => entry.1 == id then
    let cache := { r.addlayerSources.removeEntry id with lru := r.addlayerSources.lru.filter fun cached => cached != id }
    removeSource id { r with addlayerSources := cache }
  else r

/-- Rewrites the layer's JSON, builds the layer and adds it under its internal id. -/
def placeAddlayer (before : Option String) (taskId : UInt64) : RendererM Unit := do
  nativeCall
  nativeCall
  addLayer (addlayerId taskId) before

/-- The source the layer brings along, if it does; the id when it is newly added. -/
def addlayerSource (addlayer : AddLayer) : RendererM (Option String) :=
  match addlayer.source with
  | some source => do
    let (id, newlyAdded) ← ensureSource hash source
    pure (if newlyAdded then some id else none)
  | none => pure none

/-- A newly added source is taken back when the layer cannot be placed. -/
def placeOrTakeBack (before : Option String) (taskId : UInt64) (newlyAdded : Option String) : RendererM Unit := fun r =>
  match placeAddlayer before taskId r with
  | .ok () r' => .ok () r'
  | .error err r' =>
    match newlyAdded with
    | some id => .error err (removeSourceIfPresent id r')
    | none => .error err r'

def installAddlayer (addlayer : AddLayer) (before : Option String) (taskId : UInt64) : RendererM Unit := do
  let newlyAdded ← addlayerSource hash addlayer
  placeOrTakeBack before taskId newlyAdded

/-! ## Drawing a request -/

/-- `render_static`, with the pin images taken back afterwards. -/
def drawStatic (request : OverlayRequest) : RendererM Unit := fun r =>
  match nativeCall { r with frames := r.frames ++ [⟨request, r.visibleLayers⟩] } with
  | .ok () r' => .ok () (removeImages (pinImageIds request.overlays) r')
  | .error err r' => .error err (removeImages (pinImageIds request.overlays) r')

def renderStaticWithOverlays (request : OverlayRequest) : RendererM Unit := do
  assignSlots request.overlays request.prepared request.beforeLayer
  drawStatic request

/-- The request is drawn and its own layer removed, on every way out. -/
def renderAndRemove (request : OverlayRequest) : RendererM Unit := fun r =>
  match renderStaticWithOverlays request r with
  | .ok () r' => .ok () (removeLayer (addlayerId request.taskId) r')
  | .error err r' => .error err (removeLayer (addlayerId request.taskId) r')

/-- Wraps `renderStaticWithOverlays` with the request's own layer. -/
def renderStaticWithOverlaysAndAddlayer (request : OverlayRequest) : RendererM Unit :=
  match request.addlayer with
  | none => renderStaticWithOverlays request
  | some addlayer => do
    installAddlayer hash addlayer request.beforeLayer request.taskId
    renderAndRemove request

end

/-! ## One renderer and its requests -/

/-- The layers of a loaded base style; the style document has no two layers of one id. -/
structure BaseStyle where
  layers : List String
  nodup : layers.Nodup

/-- A renderer that has just loaded the base style. -/
def StaticRenderer.fresh (base : BaseStyle) : StaticRenderer where
  style := ⟨base.layers, some [], [], [], []⟩
  slots := .new
  addlayerSources := .new
  frames := []

namespace Overlay

/-- A request on the renderer, with the native calls that fail during it. -/
structure Action where
  request : OverlayRequest
  faults : List (Option String)

/-- The renderer a request is drawn on: `ensure_static_renderer` rebuilds one whose pool lost layers. -/
def ensured (base : BaseStyle) (r : StaticRenderer) : StaticRenderer :=
  if r.slots.needsRebuild then { StaticRenderer.fresh base with frames := r.frames } else r

/-- The renderer when the request of the action begins. -/
def started (base : BaseStyle) (r : StaticRenderer) (a : Action) : StaticRenderer :=
  let r := ensured base r
  { r with style := { r.style with faults := a.faults } }

/-- What a request leaves behind, drawn or failed. -/
def next (hash : AddLayerSource → UInt64) (base : BaseStyle) (r : StaticRenderer) (a : Action) : StaticRenderer :=
  match renderStaticWithOverlaysAndAddlayer hash a.request (started base r a) with
  | .ok () r' => r'
  | .error _ r' => r'

def machine (hash : AddLayerSource → UInt64) (base : BaseStyle) : Machine StaticRenderer Action where
  init := StaticRenderer.fresh base
  step r a := some (next hash base r a)

end Overlay

end Biei
