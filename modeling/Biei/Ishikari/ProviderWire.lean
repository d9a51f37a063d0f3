import Biei.Ishikari.ProviderRoute

/-!
# Provider resources on the wire

What the owner of a resource answers in, how the client of the internal listener reads it, and what is served of it:
`upstream.rs`, `conditional.rs`, `provider.rs` and `internal_transport.rs`. The clients of HTTP and `httpdate` are not part of the
repository.
-/

namespace Biei.Ishikari

open Provider (HttpError ProviderEnv ProviderResource Validators statusText)
open Storage (Peer PeerFetchError ScoredPeer)

/-- The first instant of the year 10000, which no date of HTTP is after. -/
def httpDateBound : SystemTime := 253402300800 * second

/-- `httpdate` both ways: what it writes, or nothing when it panics, it reads again to the second. -/
structure WireEnv extends ProviderEnv where
  fmtHttpDate : SystemTime → Option (List Char)
  fmtHttpDate_isSome : ∀ t, (fmtHttpDate t).isSome = true ↔ t < httpDateBound
  fmtHttpDate_second : ∀ t, fmtHttpDate (t / second * second) = fmtHttpDate t
  isFieldText_fmtHttpDate : ∀ t text, fmtHttpDate t = some text → IsFieldText text
  parseHttpDate_fmtHttpDate : ∀ t text, fmtHttpDate t = some text → parseHttpDate text = some (t / second * second)

/-! ## Validators -/

/-- `last_modified_http_date`; nothing when it panics. -/
def lastModifiedHttpDate (env : WireEnv) (validators : Validators) : Option (Option (List Char)) :=
  match validators.lastModified with
  | none => some none
  | some t => (env.fmtHttpDate t).map some

/-- `split_entity_tag_list`. -/
def splitEntityTagList (quoted : Bool) (tag : List Char) : List Char → List (List Char)
  | [] => [trim tag]
  | c :: rest =>
    if c = '\"' then splitEntityTagList (!quoted) (tag ++ [c]) rest
    else if c = ',' ∧ quoted = false then trim tag :: splitEntityTagList quoted [] rest
    else splitEntityTagList quoted (tag ++ [c]) rest

def stripWeak (etag : List Char) : List Char := (stripLead "W/".toList etag).getD etag

def ifNoneMatchMatches (ifNoneMatch : List Char) (etag : Option (List Char)) : Bool :=
  (splitEntityTagList false [] ifNoneMatch).any fun candidate =>
    candidate == ['*'] || etag.any fun etag => stripWeak candidate == stripWeak etag

/-- `Validators::not_modified`. -/
def notModified (env : WireEnv) (validators : Validators) (request : HeaderMap) : Bool :=
  if !(request.getAll "if-none-match").isEmpty then
    (request.getAllStr "if-none-match").any fun value => ifNoneMatchMatches value validators.etag
  else
    match (request.getAll "if-modified-since").head?, validators.lastModified with
    | some value, some lastModified =>
      match (headerToStr value).bind env.parseHttpDate with
      | some since => decide (lastModified / second * second ≤ since)
      | none => false
    | _, _ => false

/-! ## Responses -/

structure HttpResponse where
  status : Nat
  headers : HeaderMap
  body : Bytes

/-- `bytes_response`, without a `Cache-Control`. -/
def bytesResponse (body : Bytes) (contentType : String) : HttpResponse := ⟨200, ⟨[("content-type", utf8 contentType)]⟩, body⟩

/-- `apply_cache_metadata`; nothing when it panics. -/
def applyCacheMetadata (env : WireEnv) (r : ProviderResource) (headers : HeaderMap) : Option HeaderMap := do
  let cacheControl ← headerFromText r.cacheControl
  let age ← headerFromText r.ageSeconds.repr.toList
  let lastModified ← lastModifiedHttpDate env r.validators
  let headers := (headers.insert "cache-control" cacheControl).insert "age" age
  some ((headers.insertText "etag" r.validators.etag).insertText "last-modified" lastModified)

/-- `apply_internal_headers`; nothing when it panics. -/
def applyInternalHeaders (env : WireEnv) (r : ProviderResource) (headers : HeaderMap) : Option HeaderMap := do
  let cacheControl ← headerFromText r.cacheControl
  let age ← headerFromText r.ageSeconds.repr.toList
  let lastModified ← lastModifiedHttpDate env r.validators
  let headers := (headers.insert "x-ishikari-provider-cache-control" cacheControl).insert "x-ishikari-provider-age" age
  let headers := headers.insertText "x-ishikari-provider-etag" r.validators.etag
  let headers := headers.insertText "x-ishikari-provider-last-modified" lastModified
  some (headers.insertText "content-encoding" r.contentEncoding)

/-- `ProviderResource::internal_response`. -/
def internalResponse (env : WireEnv) (r : ProviderResource) (contentType : String) : Option HttpResponse :=
  let response := bytesResponse r.bytes contentType
  (applyInternalHeaders env r response.headers).map fun headers => { response with headers }

/-- `ProviderResource::public_response`. -/
def publicResponse (env : WireEnv) (r : ProviderResource) (request : HeaderMap) (body : Bytes) (contentType : String) :
    Option HttpResponse :=
  if notModified env r.validators request then
    (applyCacheMetadata env r ⟨[]⟩).map fun headers => ⟨304, headers, []⟩
  else
    let response := bytesResponse body contentType
    (applyCacheMetadata env r response.headers).map fun headers =>
      { response with headers := headers.insertText "content-encoding" r.contentEncoding }

inductive InternalProviderNegative where
  | notFound
  | gone
deriving DecidableEq, Repr

def InternalProviderNegative.asStr : InternalProviderNegative → String
  | .notFound => "not-found"
  | .gone => "gone"

def InternalProviderNegative.parse (value : List Char) : Option InternalProviderNegative :=
  if value = "not-found".toList then some .notFound else if value = "gone".toList then some .gone else none

def providerNegativeHeader : String := "x-ishikari-provider-negative"

/-- The response that an error is turned into. -/
def errorResponse (error : HttpError) : HttpResponse :=
  ⟨error.status, ⟨[("content-type", utf8 "text/plain; charset=utf-8")]⟩, utf8 error.message⟩

/-- `internal_provider_fetch_error`, and the response of an error that it returns. -/
def internalProviderFetchError (error : HttpError) : HttpResponse :=
  let response := errorResponse error
  let marked := fun (marker : InternalProviderNegative) =>
    { response with headers := response.headers.insert providerNegativeHeader (utf8 marker.asStr) }
  if error.status = 404 then marked .notFound else if error.status = 410 then marked .gone else response

/-- What the internal handlers answer with what the owner's fetch gives; nothing when they panic. -/
def ownerResponse (env : WireEnv) (resource : ResourceName) : Except HttpError ProviderResource → Option HttpResponse
  | .ok r => internalResponse env r resource.contentType
  | .error e => some (internalProviderFetchError e)

/-! ## The client -/

/-- A response as the client receives it: chunk by chunk, to its end or to an error. -/
structure PeerReply where
  status : Nat
  headers : HeaderMap
  contentLength : Option Nat
  chunks : List Bytes
  failure : Option String

/-- What comes of a request to a peer. -/
inductive PeerSend where
  /-- There is no response, of a failure to connect in time or another. -/
  | failed (retryable : Bool) (error : String)
  | answered (reply : PeerReply)

/-- The reply is the response, received whole. -/
structure HttpResponse.Delivers (response : HttpResponse) (reply : PeerReply) : Prop where
  status : reply.status = response.status
  headers : reply.headers = response.headers.received
  contentLength : ∀ length, reply.contentLength = some length → length = response.body.length
  body : reply.chunks.flatten = response.body
  complete : reply.failure = none

/-- `InternalFetchResponse`, as far as a provider resource is read from it. -/
structure ProviderFetchResponse where
  bytes : Bytes
  providerCacheControl : Option (List Char)
  providerAgeSeconds : Option Nat
  providerEtag : Option (List Char)
  providerLastModified : Option (List Char)
  contentEncoding : Option (List Char)

/-- `internal_response_body_limit` of a provider path. -/
def providerBodyLimit (path : Bytes) : Nat :=
  if (utf8 "/_internal/provider/fonts/").isPrefixOf path then 1024 * 1024
  else if (utf8 "/_internal/provider/styles/").isPrefixOf path then
    if (utf8 "/style.json").isSuffixOf path then 2 * 1024 * 1024
    else if (utf8 "/sprite") <:+: path then 8 * 1024 * 1024
    else 64 * 1024 * 1024
  else 64 * 1024 * 1024

/-- `authoritative_provider_negative`. -/
def authoritativeProviderNegative (path : Bytes) (status : Nat) (headers : HeaderMap) : Option InternalProviderNegative :=
  if !(utf8 "/_internal/provider/").isPrefixOf path then none
  else
    match (headers.getStr providerNegativeHeader).bind InternalProviderNegative.parse with
    | some .notFound => if status = 404 then some .notFound else none
    | some .gone => if status = 410 then some .gone else none
    | none => none

def exceedsLimit (limit : Nat) : PeerFetchError :=
  .fatal ("peer response body exceeds the " ++ toString limit ++ "-byte route limit")

/-- The loop of `read_bounded_body`. -/
def readChunks (limit : Nat) (failure : Option String) (body : Bytes) : List Bytes → Except PeerFetchError Bytes
  | [] =>
    match failure with
    | none => .ok body
    | some error => .error (.fatal error)
  | chunk :: chunks =>
    match checkedAdd body.length chunk.length with
    | none => .error (.fatal "peer response body length overflowed usize")
    | some nextLen => if nextLen > limit then .error (exceedsLimit limit) else readChunks limit failure (body ++ chunk) chunks

/-- `read_bounded_body`. -/
def readBoundedBody (reply : PeerReply) (limit : Nat) : Except PeerFetchError Bytes :=
  if reply.contentLength.any fun length => decide (length > limit) then .error (exceedsLimit limit)
  else readChunks limit reply.failure [] reply.chunks

/-- `HttpInternalTransport::fetch` of a provider path. -/
def fetchProviderPath (env : WireEnv) (path : Bytes) : PeerSend → Except PeerFetchError ProviderFetchResponse
  | .failed retryable error => .error (if retryable then .retryable error else .fatal error)
  | .answered reply =>
    match authoritativeProviderNegative path reply.status reply.headers with
    | some .notFound => .error .providerNotFound
    | some .gone => .error .providerGone
    | none =>
      let status := statusText env.toProviderEnv reply.status
      if reply.status = 404 then .error .notFound
      else if reply.status = 429 ∨ (500 ≤ reply.status ∧ reply.status < 600) then .error (.retryable ("peer returned " ++ status))
      else if ¬(200 ≤ reply.status ∧ reply.status < 300) then .error (.fatal ("peer returned unexpected status " ++ status))
      else do
        let bytes ← readBoundedBody reply (providerBodyLimit path)
        .ok
          { bytes
            providerCacheControl := reply.headers.getStr "x-ishikari-provider-cache-control"
            providerAgeSeconds := (reply.headers.getStr "x-ishikari-provider-age").bind (parseUnsigned u64Bound)
            providerEtag := reply.headers.getStr "x-ishikari-provider-etag"
            providerLastModified := reply.headers.getStr "x-ishikari-provider-last-modified"
            contentEncoding := reply.headers.getStr "content-encoding" }

/-- `ProviderResource::from_peer`. -/
def fromPeer (env : WireEnv) (response : ProviderFetchResponse) : Except String ProviderResource := do
  match response.providerCacheControl with
  | none => .error "peer provider response is missing cache policy"
  | some cacheControl =>
    match response.providerAgeSeconds with
    | none => .error "peer provider response is missing age"
    | some ageSeconds =>
      .ok
        { bytes := response.bytes
          cacheControl
          ageSeconds
          validators := ⟨response.providerEtag, response.providerLastModified.bind env.parseHttpDate⟩
          contentEncoding := response.contentEncoding }

/-! ## The route -/

inductive ProviderRouteOutcome where
  | resource (response : ProviderFetchResponse)
  | notFound
  | gone

/-- The loop of `route_provider_response_candidates`, with what fetching from each peer gives. -/
def routeProviderCandidates (isSelf : Peer → Bool) (fetch : Peer → Except PeerFetchError ProviderFetchResponse) :
    List ScoredPeer → Option ProviderRouteOutcome
  | [] => none
  | candidate :: candidates =>
    if isSelf candidate.peer then none
    else
      match fetch candidate.peer with
      | .ok response => some (.resource response)
      | .error .providerNotFound => some .notFound
      | .error .providerGone => some .gone
      | .error error => if error.isRetryable then routeProviderCandidates isSelf fetch candidates else none

/-- `route_peer_resource`: nothing when the resource is to be fetched locally. -/
def routePeerResource (env : WireEnv) : Option ProviderRouteOutcome → Except HttpError (Option ProviderResource)
  | none => .ok none
  | some .notFound => .error ⟨404, "not found"⟩
  | some .gone => .error ⟨410, "gone"⟩
  | some (.resource response) =>
    match fromPeer env response with
    | .ok r => .ok (some r)
    | .error _ => .ok none

/-- A resource by way of its candidates, with what comes of a request to each peer. -/
def routeResource (env : WireEnv) (resource : ResourceName) (isSelf : Peer → Bool) (send : Peer → PeerSend)
    (candidates : List ScoredPeer) : Except HttpError (Option ProviderResource) :=
  routePeerResource env
    (routeProviderCandidates isSelf (fun peer => fetchProviderPath env resource.internalPath (send peer)) candidates)

end Biei.Ishikari
