import Biei.Http.Headers

/-!
# Responses of the file source

How `mmpf-mln-filesource` maps what an origin answers onto the responses of MapLibre Native, and what it writes down about their
freshness. A response of `304` has no body: it is completed from a prior response, which is put together from what the request
brings and from what the cache holds.
-/

namespace Biei.Filesource

/-! ## What MapLibre Native asks and gets -/

inductive ResourceKind where
  | unknown
  | style
  | source
  | tile
  | glyphs
  | spriteImage
  | spriteJson
  | image
deriving DecidableEq

inductive StoragePolicy where
  | permanent
  | volatile
deriving DecidableEq

inductive Priority where
  | regular
  | low
deriving DecidableEq

structure ResourceTileKey where
  urlTemplate : String
  pixelRatio : Nat
  x : Int
  y : Int
  z : Int
deriving DecidableEq

structure ResourceRequest where
  url : String
  kind : ResourceKind
  storagePolicy : StoragePolicy
  /-- `loading_methods.has_cache()`. -/
  hasCache : Bool
  priority : Priority
  dataRange : Option (Nat × Nat)
  tile : Option ResourceTileKey
  priorData : Option Bytes
  priorEtag : Option String
  priorModified : Option SystemTime
  priorExpires : Option SystemTime
deriving DecidableEq

inductive ErrorReason where
  | notFound
  | server
  | connection
  | rateLimit
  | other
deriving DecidableEq

structure ResponseError where
  reason : ErrorReason
  message : String
deriving DecidableEq

structure Response where
  error : Option ResponseError := none
  noContent : Bool := false
  notModified : Bool := false
  mustRevalidate : Bool := false
  data : Option Bytes := none
  modified : Option SystemTime := none
  expires : Option SystemTime := none
  etag : Option String := none
  retryAfter : Option SystemTime := none
deriving DecidableEq

namespace Response

/-- `Response::data`. -/
def ofData (body : Bytes) : Response := { data := some body }

/-- `Response::no_content`. -/
def empty : Response := { noContent := true }

/-- `Response::not_modified`. -/
def unmodified : Response := { notModified := true }

/-- `Response::error`. -/
def failed (reason : ErrorReason) (message : String) : Response := { error := some ⟨reason, message⟩ }

end Response

/-! ## Cache policy -/

def revalidatedFallbackTtl : Duration := 60 * second

def heuristicFreshnessDivisor : Nat := 10

def minHeuristicFreshness : Duration := 60 * second

def maxHeuristicFreshness : Duration := 3600 * second

def defaultHeuristicFreshness : Duration := 300 * second

inductive CachePolicy where
  | store
  | remove
  | unchanged
deriving DecidableEq

def parsedCacheControl (headers : HeaderMap) : Option ParsedCacheControl := parseValues (headers.getAllStr "cache-control")

def cachePolicyForResponse (storagePolicy : StoragePolicy) (headers : HeaderMap) : CachePolicy :=
  if storagePolicy ≠ .permanent then .unchanged
  else if (parsedCacheControl headers).any fun control => control.noStore || control.private then .remove
  else .store

/-- `shared_max_age`: `s-maxage`, or else `max-age`. -/
def sharedMaxAge (control : Option ParsedCacheControl) : Option Duration :=
  (control.bind fun control => control.sMaxage.or control.maxAge).map fun seconds => seconds * second

def responseCurrentAge (env : HttpEnv) (headers : HeaderMap) (now : SystemTime) : Duration :=
  let age := (((headers.getStr "age").bind fun age => parseUnsigned u64Bound (trim age)).map fun seconds =>
    seconds * second).getD 0
  let apparentAge := ((headerDate env headers "date").bind fun date => durationSince now date).getD 0
  max age apparentAge

/-- `heuristic_expires`: a tenth of the age since `Last-Modified`, clamped, or a short default. -/
def heuristicExpires (env : HttpEnv) (headers : HeaderMap) (now : SystemTime) : Option SystemTime :=
  let ttl := (((headerDate env headers "last-modified").bind fun modified => durationSince now modified).map fun age =>
    min (max (age / heuristicFreshnessDivisor) minHeuristicFreshness) maxHeuristicFreshness).getD defaultHeuristicFreshness
  checkedAddTime now ttl

/-! ## Prior responses -/

structure PriorResponse where
  data : Option Bytes := none
  etag : Option String := none
  modified : Option SystemTime := none
  expires : Option SystemTime := none
  mustRevalidate : Bool := false

def priorResponseWithCache (request : ResourceRequest) (cached : Option Response) : PriorResponse where
  data := request.priorData.or (cached.bind fun response => response.data)
  etag := request.priorEtag.or (cached.bind fun response => response.etag)
  modified := request.priorModified.or (cached.bind fun response => response.modified)
  expires := request.priorExpires.or (cached.bind fun response => response.expires)
  mustRevalidate := cached.any fun response => response.mustRevalidate

/-- Whether a response is to be validated before each use: its own demand, or the prior one's when it has no `Cache-Control`. -/
def requiresValidation (control : Option ParsedCacheControl) (prior : PriorResponse) : Bool :=
  match control with
  | some control => control.noCache || control.mustRevalidate || control.sMaxage.isSome
  | none => prior.mustRevalidate

/-- Whether a response is `no-cache`, or inherits that from the prior one. -/
def isNoCache (control : Option ParsedCacheControl) (prior : PriorResponse) : Bool :=
  (control.any fun control => control.noCache) ||
    (control.isNone && prior.mustRevalidate && prior.expires == some unixEpoch)

/-- What a response inherits of the prior one's expiry. -/
def inheritedExpires (prior : PriorResponse) (now : SystemTime) : Option SystemTime :=
  match prior.expires with
  | some expires => if prior.data.isSome && expires ≤ now then checkedAddTime now revalidatedFallbackTtl else some expires
  | none => none

def responseExpires (env : HttpEnv) (headers : HeaderMap) (prior : PriorResponse) (now : SystemTime) : Option SystemTime :=
  let control := parsedCacheControl headers
  if requiresValidation control prior && isNoCache control prior then some unixEpoch
  else
    ((((sharedMaxAge control).map fun maxAge => maxAge - responseCurrentAge env headers now).bind (checkedAddTime now)).or
      (headerDate env headers "expires")).or
      ((inheritedExpires prior now).or
        (if requiresValidation control prior then none else heuristicExpires env headers now))

def withCacheMetadata (env : HttpEnv) (response : Response) (headers : HeaderMap) (prior : PriorResponse) (now : SystemTime) :
    Response :=
  { response with
    etag := (((headers.getStr "etag").map String.ofList).or prior.etag).or response.etag
    modified := ((headerDate env headers "last-modified").or prior.modified).or response.modified
    expires := (responseExpires env headers prior now).or response.expires
    mustRevalidate := requiresValidation (parsedCacheControl headers) prior || response.mustRevalidate }

/-! ## Mapping -/

/-- `parse_retry_after`. -/
def parseRetryAfter (env : HttpEnv) (now : SystemTime) (value : List Char) : Option SystemTime :=
  ((parseUnsigned u64Bound (trim value)).bind fun seconds => checkedAddTime now (seconds * second)).or
    (env.parseHttpDate (trim value))

/-- `response_from_http`. -/
def responseFromHttp (env : HttpEnv) (status : Nat) (headers : HeaderMap) (body : Bytes) (kind : ResourceKind)
    (prior : PriorResponse) (now : SystemTime) : Response :=
  if status = 200 ∨ status = 206 then withCacheMetadata env (.ofData body) headers {} now
  else if status = 204 then .empty
  else if status = 304 then withCacheMetadata env .unmodified headers prior now
  else if (status = 404 ∨ status = 410) ∧ kind = .tile then .empty
  else if status = 404 ∨ status = 410 then .failed .notFound ("HTTP " ++ toString status)
  else if status = 429 then
    { Response.failed .rateLimit "HTTP 429" with retryAfter := (headers.getStr "retry-after").bind (parseRetryAfter env now) }
  else if 500 ≤ status ∧ status ≤ 599 then .failed .server ("HTTP " ++ toString status)
  else .failed .other ("HTTP " ++ toString status)

/-- `materialize_not_modified`: the body of the prior response, under the metadata of the `304`. -/
def materializeNotModified (response : Response) (prior : PriorResponse) : Option Response :=
  prior.data.map fun data => { response with notModified := false, data := some data }

end Biei.Filesource
