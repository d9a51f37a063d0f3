import Biei.Filesource.Response

/-!
# The resource cache

The process-wide cache of resources, which MapLibre Native reads as its `Database` file source. What it evicts is not its own
choice here: an entry may be gone at any time.
-/

namespace Biei.Filesource

def kindLabel : ResourceKind → String
  | .style => "style"
  | .source => "source"
  | .tile => "tile"
  | .glyphs => "glyphs"
  | .spriteImage => "sprite_image"
  | .spriteJson => "sprite_json"
  | .image => "image"
  | .unknown => "other"

structure ResourceRequestKey where
  url : String
  kind : String
  range : Option (Nat × Nat)
  tile : Option ResourceTileKey
deriving DecidableEq

/-- `ResourceRequestKey::from_request`. -/
def ResourceRequest.key (request : ResourceRequest) : ResourceRequestKey :=
  ⟨request.url, kindLabel request.kind, request.dataRange, request.tile⟩

/-- `ResourceCache`: the response held for each key. -/
abbrev ResourceCache := ResourceRequestKey → Option Response

inductive CacheLookup where
  | hit (response : Response)
  | revalidate (response : Response)
  | miss
deriving DecidableEq

def isCacheableResponse (response : Response) : Bool :=
  response.error.isNone && !response.noContent && !response.notModified && response.data.isSome

namespace ResourceCache

/-- `fresh_until`. -/
def freshUntil (cache : ResourceCache) (now : SystemTime) (key : ResourceRequestKey) : Option SystemTime :=
  (cache key).bind fun response => response.expires.filter fun expires => now < expires

def lookup (cache : ResourceCache) (now : SystemTime) (key : ResourceRequestKey) : CacheLookup :=
  match cache key with
  | none => .miss
  | some response =>
    if (response.expires.any fun expires => expires ≤ now) || (response.mustRevalidate && response.expires.isNone) then
      .revalidate response
    else .hit response

def store (cache : ResourceCache) (key : ResourceRequestKey) (response : Response) : ResourceCache :=
  if isCacheableResponse response then Function.update cache key (some response) else cache

def invalidate (cache : ResourceCache) (key : ResourceRequestKey) : ResourceCache := Function.update cache key none

end ResourceCache

def cacheMiss : Response := { Response.failed .notFound "resource cache miss" with noContent := true }

/-- `DatabaseFileSource::request`: what was found, and what is answered. -/
def databaseRequest (cache : ResourceCache) (now : SystemTime) (request : ResourceRequest) : CacheLookup × Response :=
  if request.storagePolicy ≠ .permanent then (.miss, cacheMiss)
  else
    match cache.lookup now request.key with
    | .hit response => (.hit response, response)
    | .revalidate response => (.revalidate response, { response with mustRevalidate := true })
    | .miss => (.miss, cacheMiss)

end Biei.Filesource
