import Biei.Lib.OrderedSet
import Biei.Basic

/-!
# Domain types

`types.rs`: what a render task carries, what a node publishes of itself, and how a task ends. Identifiers stay strings, floating
point numbers are their bit patterns, and a JSON document is its parsed value.
-/

namespace Biei

/-! ## Namespaces and authorization -/

/-- `MAX_AUTHORIZATION_NAMESPACES`. -/
def maxAuthorizationNamespaces : Nat := 1024

/-- `MAX_AUTHORIZATION_NAMESPACE_BYTES`. -/
def maxAuthorizationNamespaceBytes : Nat := 256

/-- `char::is_control`: the code points of category `Cc`. -/
def isControl (c : Char) : Bool := c.toNat < 0x20 || (0x7f ≤ c.toNat && c.toNat < 0xa0)

/-- The check every namespace of a set has to pass. -/
def isNamespace (s : String) : Bool :=
  !s.isEmpty && decide (s.utf8ByteSize ≤ maxAuthorizationNamespaceBytes) && !s.toList.any isControl

/-- A bounded, normalized set of delivery namespaces: sorted, without duplicates, and the wildcard only alone. -/
structure NamespaceSet where
  names : OrderedSet String
  nonempty : names.toList ≠ []
  bounded : names.toList.length ≤ maxAuthorizationNamespaces
  valid : ∀ s ∈ names, isNamespace s = true
  canonical : "*" ∈ names → names.toList = ["*"]

namespace NamespaceSet

/-- A set is told by its names. -/
theorem ext_names {a b : NamespaceSet} (h : a.names = b.names) : a = b := by
  cases a
  cases b
  simpa using h

instance : DecidableEq NamespaceSet := fun a b =>
  decidable_of_iff (a.names = b.names) ⟨ext_names, fun h => h ▸ rfl⟩

/-- A set grows by the names given at most. -/
theorem length_extend_le (s : OrderedSet String) (l : List String) : (s.extend l).toList.length ≤ s.toList.length + l.length := by
  have hins : ∀ (a : String) (l : List String), (OrderedSet.insertList a l).length ≤ l.length + 1 := by
    intro a l
    induction l with
    | nil => simp [OrderedSet.insertList]
    | cons b l ih =>
      simp only [OrderedSet.insertList]
      split
      · simp
      · split
        · simp
        · simp only [List.length_cons]
          omega
  induction l generalizing s with
  | nil => simp [OrderedSet.extend]
  | cons a l ih =>
    refine (ih (s.insert a)).trans ?_
    have h := hins a s.toList
    simp only [OrderedSet.insert, List.length_cons]
    omega

/-- The set of the wildcard alone. -/
def wildcard : NamespaceSet where
  names := ⟨["*"], List.pairwise_singleton _ _⟩
  nonempty := by simp
  bounded := by simp [maxAuthorizationNamespaces]
  valid := by
    intro s hs
    rw [List.mem_singleton.mp hs]
    decide
  canonical := fun _ => rfl

section

variable {namespaces : List String}

/-- The set of some names has a name. -/
theorem extend_ne_nil (hlen : ¬(namespaces = [] ∨ namespaces.length > maxAuthorizationNamespaces)) :
    (OrderedSet.empty.extend namespaces).toList ≠ [] := by
  intro hnil
  obtain ⟨s, hs⟩ := List.exists_mem_of_ne_nil namespaces fun h => hlen (Or.inl h)
  have hmem : s ∈ OrderedSet.empty.extend namespaces := OrderedSet.mem_extend.mpr (Or.inr hs)
  rw [OrderedSet.mem_def, hnil] at hmem
  cases hmem

/-- The set has no more names than were given. -/
theorem extend_bounded (hlen : ¬(namespaces = [] ∨ namespaces.length > maxAuthorizationNamespaces)) :
    (OrderedSet.empty.extend namespaces).toList.length ≤ maxAuthorizationNamespaces := by
  have h := length_extend_le OrderedSet.empty namespaces
  simp only [OrderedSet.empty, List.length_nil] at h
  simp only [OrderedSet.empty]
  omega

/-- The set has only names that were given. -/
theorem mem_of_mem_extend {s : String} (hs : s ∈ OrderedSet.empty.extend namespaces) : s ∈ namespaces :=
  (OrderedSet.mem_extend.mp hs).resolve_left (OrderedSet.not_mem_empty s)

/-- The names of the set are namespaces. -/
theorem extend_valid (hvalid : ¬¬∀ s ∈ namespaces, isNamespace s = true) : ∀ s ∈ OrderedSet.empty.extend namespaces,
    isNamespace s = true :=
  fun s hs => not_not.mp hvalid s (mem_of_mem_extend hs)

/-- A set with the star has no other name. -/
theorem extend_canonical (hstar : "*" ∉ namespaces) (hs : "*" ∈ OrderedSet.empty.extend namespaces) :
    (OrderedSet.empty.extend namespaces).toList = ["*"] :=
  absurd (mem_of_mem_extend hs) hstar

end

/-- `try_new`: checks the namespaces, sorts them and drops duplicates; a set with the wildcard is the wildcard. -/
def tryNew (namespaces : List String) : Except String NamespaceSet :=
  if hlen : namespaces = [] ∨ namespaces.length > maxAuthorizationNamespaces then
    .error "namespace set must be non-empty and bounded"
  else if hvalid : ¬∀ s ∈ namespaces, isNamespace s = true then
    .error "namespace must be non-empty, bounded, and contain no control characters"
  else if hstar : "*" ∈ namespaces then
    .ok wildcard
  else
    .ok {
      names := OrderedSet.empty.extend namespaces
      nonempty := extend_ne_nil hlen
      bounded := extend_bounded hlen
      valid := extend_valid hvalid
      canonical := extend_canonical hstar }

/-- `try_from_shared`: the checks of `try_new`, and that the namespaces are in canonical order already. -/
def tryFromShared (namespaces : List String) : Except String NamespaceSet :=
  if hlen : namespaces = [] ∨ namespaces.length > maxAuthorizationNamespaces then
    .error "namespace set must be non-empty and bounded"
  else if hvalid : ¬∀ s ∈ namespaces, isNamespace s = true then
    .error "namespace must be non-empty, bounded, and contain no control characters"
  else if hcanonical : ¬namespaces.IsChain (· < ·) ∨ ("*" ∈ namespaces ∧ namespaces ≠ ["*"]) then
    .error "shared namespace set must be sorted, unique, and canonical"
  else
    .ok {
      names := ⟨namespaces, List.isChain_iff_pairwise.mp (not_not.mp fun h => hcanonical (Or.inl h))⟩
      nonempty := fun h => hlen (Or.inl h)
      bounded := Nat.le_of_not_lt fun h => hlen (Or.inr h)
      valid := not_not.mp hvalid
      canonical := fun hstar => not_not.mp fun h => hcanonical (Or.inr ⟨hstar, h⟩) }

/-- Whether this caller grant satisfies every required namespace. The binary search of the sorted names is membership. -/
def allows (self required : NamespaceSet) : Bool :=
  if self.names.toList.head? = some "*" then true
  else required.names.toList.all fun s => decide (s ≠ "*") && decide (s ∈ self.names)

/-- Every grant satisfies itself: the wildcard stands alone, and any other set has none. -/
@[simp]
theorem allows_self (a : NamespaceSet) : a.allows a = true := by
  unfold allows
  split
  · rfl
  · rename_i hhead
    rw [List.all_eq_true]
    intro s hs
    have hne : s ≠ "*" := by
      intro hstar
      subst hstar
      exact hhead (by rw [a.canonical hs]; rfl)
    simp [hne, OrderedSet.mem_def, hs]

end NamespaceSet

/-- `CredentialCachePartition`: an opaque one-way partition, 32 bytes. -/
structure CredentialCachePartition where
  digest : Vector UInt8 32
deriving DecidableEq

/-- `MAX_PROVIDER_BEARER_TOKEN_BYTES`. -/
def maxProviderBearerTokenBytes : Nat := 4096

/-- ASCII control and ASCII whitespace bytes, which a token may not hold. -/
def isTokenByte (c : Char) : Bool := !(c.toNat < 0x21 || c.toNat == 0x7f)

/-- The verified caller credential forwarded to the configured delivery provider. -/
structure ProviderBearerToken where
  value : String
  valid : value.isEmpty = false ∧ value.utf8ByteSize ≤ maxProviderBearerTokenBytes ∧ value.toList.all isTokenByte = true
deriving DecidableEq

def ProviderBearerToken.tryNew (value : String) : Except String ProviderBearerToken :=
  if h : value.isEmpty = false ∧ value.utf8ByteSize ≤ maxProviderBearerTokenBytes ∧ value.toList.all isTokenByte = true then
    .ok ⟨value, h⟩
  else .error "provider bearer token must be non-empty, bounded, and contain no whitespace"

structure RenderAuthorization where
  readableNamespaces : NamespaceSet
  cachePartition : CredentialCachePartition
  providerBearerToken : ProviderBearerToken
deriving DecidableEq

/-! ## Request identifiers -/

/-- `MAX_LEN` of a request identifier. -/
def maxRequestIdLen : Nat := 128

/-- The token characters of RFC 7230 that are neither letters nor digits. -/
def tokenPunctuation : List Nat := [0x21, 0x23, 0x24, 0x25, 0x26, 0x27, 0x2a, 0x2b, 0x2d, 0x2e, 0x5e, 0x5f, 0x60, 0x7c, 0x7e]

/-- `is_valid` of `request_id.rs`. -/
def isRequestId (value : String) : Bool :=
  !value.isEmpty && decide (value.utf8ByteSize ≤ maxRequestIdLen) &&
    value.toList.all fun c => c.isAlphanum || tokenPunctuation.contains c.toNat

/-- A request identifier; whatever comes from outside, or over the wire, is checked. -/
structure RequestId where
  value : String
  valid : isRequestId value = true
deriving DecidableEq

/-! ## Styles, scales and requests -/

inductive RouteTier where
  | renderCacheHit
  | tier1WarmTracking
  | tier2HrwBl
  | tier3DrainSwap
  | tier4Overflow
deriving DecidableEq, Repr

/-- Cluster-wide node identity. -/
structure NodeId where
  id : String
deriving DecidableEq, Repr

structure StyleId where
  id : String
deriving DecidableEq, Repr

/-- A style identifier with its version; another version is another revision. -/
structure StyleRevision where
  id : StyleId
  version : UInt64
deriving DecidableEq, Repr

inductive RenderMode where
  | static
  | tile
deriving DecidableEq, Repr

inductive Scale where
  | x1
  | x2
deriving DecidableEq, Repr

/-- A 32-bit float, by its bits. -/
structure F32 where
  bits : UInt32
deriving DecidableEq, Repr

/-- A 64-bit float, by its bits. -/
structure F64 where
  bits : UInt64
deriving DecidableEq, Repr

/-- The pixel ratio 1.0. -/
def F32.one : F32 := ⟨0x3F800000⟩

/-- The pixel ratio 2.0. -/
def F32.two : F32 := ⟨0x40000000⟩

/-- MapLibre's pixel ratio. The field is private and only ever made from a scale, so it is 1.0 or 2.0. -/
structure PixelRatio where
  value : F32
  made : value = .one ∨ value = .two
deriving DecidableEq

/-- `to_scale`: at least 1.5, of 1.0 and 2.0, is 2.0. -/
def PixelRatio.toScale (r : PixelRatio) : Scale := if r.value = .two then .x2 else .x1

def PixelRatio.ofScale : Scale → PixelRatio
  | .x1 => ⟨.one, Or.inl rfl⟩
  | .x2 => ⟨.two, Or.inr rfl⟩

/-- A ratio is told by its scale. -/
@[simp]
theorem PixelRatio.ofScale_toScale (r : PixelRatio) : PixelRatio.ofScale r.toScale = r := by
  obtain ⟨value, rfl | rfl⟩ := r
  · rfl
  · rfl

inductive ImageFormat where
  | png
  | webp
  | jpeg
deriving DecidableEq, Repr

inductive CachePolicy where
  | cacheable
  | oneShot
deriving DecidableEq, Repr

structure SourceRef where
  hash : UInt64
  policy : CachePolicy
deriving DecidableEq, Repr

structure LngLat where
  lon : F64
  lat : F64
deriving DecidableEq, Repr

/-- How a static image locates its viewport. -/
inductive Positioning where
  | center (lon lat zoom : F64) (bearing pitch : F32)
  | bbox (minLon minLat maxLon maxLat : F64)
  | auto
deriving DecidableEq, Repr

structure Padding where
  top : UInt16
  right : UInt16
  bottom : UInt16
  left : UInt16
deriving DecidableEq, Repr

structure AddLayerSource where
  tilesetId : String
  json : String
deriving DecidableEq, Repr

structure AddLayer where
  json : String
  hash : UInt64
  source : Option AddLayerSource
deriving DecidableEq, Repr

structure PathOverlay where
  strokeWidth : Option F32
  strokeColor : Option String
  strokeOpacity : Option F32
  fillColor : Option String
  fillOpacity : Option F32
  coordinates : List LngLat
deriving DecidableEq, Repr

/-- The characters of a JSON number. -/
def isNumberChar (c : Char) : Bool := c.isDigit || c == '-' || c == '+' || c == '.' || c == 'e' || c == 'E'

/-- A JSON number begins with a digit or a minus sign. -/
def isNumberText (text : String) : Bool :=
  text.toList.all isNumberChar && text.toList.head?.any fun c => c.isDigit || c == '-'

/-- `serde_json::Number`, by the text it is printed with. -/
structure JsonNumber where
  text : String
  valid : isNumberText text = true

/-- A parsed JSON document; an object keeps its fields in the order of the map. -/
inductive Json where
  | null
  | bool (b : Bool)
  | number (n : JsonNumber)
  | string (s : String)
  | array (items : List Json)
  | object (fields : List (String × Json))

structure GeoJsonOverlay where
  featureCollection : Json

inductive PinSize where
  | small
  | medium
  | large
deriving DecidableEq, Repr

structure PinOverlay where
  size : PinSize
  label : Option String
  color : String
  coordinate : LngLat
deriving DecidableEq, Repr

inductive StaticOverlay where
  | path (overlay : PathOverlay)
  | geoJson (overlay : GeoJsonOverlay)
  | pin (overlay : PinOverlay)

/-- The render shape a task is requesting. -/
inductive RenderRequest where
  | tile (z : UInt8) (x y : UInt32) (tileSize : UInt16)
  | staticImage (positioning : Positioning) (width height : UInt16) (overlays : List StaticOverlay) (beforeLayer : Option String)
      (padding : Padding) (addlayer : Option AddLayer)

def RenderRequest.renderMode : RenderRequest → RenderMode
  | .tile .. => .tile
  | .staticImage .. => .static

structure WorkerProfile where
  style : StyleRevision
  renderMode : RenderMode
  scale : Scale
deriving DecidableEq, Repr

/-- Process-local view of a task in flight. -/
structure InternalTask where
  id : UInt64
  requestId : RequestId
  authorization : Option RenderAuthorization
  style : StyleRevision
  source : Option SourceRef
  request : RenderRequest
  pixelRatio : PixelRatio
  outputFormat : ImageFormat
  arrivedAt : Instant
  deadline : Instant
  forwardingHops : UInt8

def InternalTask.workerProfile (task : InternalTask) : WorkerProfile :=
  ⟨task.style, task.request.renderMode, task.pixelRatio.toScale⟩

/-! ## What a node publishes -/

/-- Worker info as the dispatcher sees it. -/
structure WorkerView where
  id : UInt32
  loadedProfile : Option WorkerProfile
  queueDepth : Nat
deriving DecidableEq, Repr

/-- Dispatcher-facing view of a node. -/
structure NodeStateView where
  id : NodeId
  acceptsNewRenders : Bool
  workers : List WorkerView
deriving DecidableEq, Repr

/-- At least one worker has soft-limit headroom for SLA-oriented routing. -/
def NodeStateView.hasCapacity (n : NodeStateView) (blCapacityPerWorker : Nat) : Bool :=
  n.acceptsNewRenders && n.workers.any fun w => decide (w.queueDepth < blCapacityPerWorker)

def NodeStateView.hasAdmissionCapacity (n : NodeStateView) (queueCapacityPerWorker : Nat) : Bool :=
  n.acceptsNewRenders && n.workers.any fun w => decide (w.queueDepth < queueCapacityPerWorker)

/-! ## Outcomes -/

structure RenderOutput where
  bytes : Bytes
  format : ImageFormat
deriving DecidableEq, Repr

inductive RejectionReason where
  | queueFull
  | noCapacity
  | rendererDegraded
  | drainTooSlow
  | unknownStyle
  | hopLimitExceeded
  | forwardFailed
  | deadlineTooClose
  | deadlineExceeded
deriving DecidableEq, Repr

def RejectionReason.isRetryableAtForward : RejectionReason → Bool
  | .queueFull => true
  | .noCapacity => true
  | .rendererDegraded => true
  | .drainTooSlow => true
  | .unknownStyle => false
  | .hopLimitExceeded => false
  | .forwardFailed => false
  | .deadlineTooClose => false
  | .deadlineExceeded => false

inductive FailureKind where
  | renderTimeout
  | rendererDead
  | styleUnavailable
  | styleNotReady
  | sourceUnavailable
  | preparationTimeout
  | other
deriving DecidableEq, Repr

/-- What a renderer can fail with. -/
inductive RendererError where
  | styleLoadFailed (styleId : StyleId) (source : String)
  | setupFailed (styleId : StyleId) (source : String)
  | styleNotReady (styleId : StyleId) (version : UInt64)
  | sourceFetchFailed (hash : UInt64) (source : String)
  | renderFailed (message : String)
  | timeout
  | actorDead
deriving DecidableEq, Repr

/-- How a task ended. -/
inductive TaskResult where
  | completed (routeTier : RouteTier) (output : RenderOutput)
  | rejected (reason : RejectionReason)
  | failed (error : String) (kind : FailureKind)
deriving DecidableEq, Repr

structure ForwardCandidate where
  nodeId : NodeId
  drainWorker : Option UInt32
deriving DecidableEq, Repr

inductive Decision where
  | local (routeTier : RouteTier) (workerHint : Option UInt32) (fallbackCandidates : List ForwardCandidate)
  | forward (routeTier : RouteTier) (candidates : List ForwardCandidate)
  | reject (reason : RejectionReason)
deriving DecidableEq, Repr

end Biei
