import Biei.Provider.Policy

/-!
# Provider bodies and the answers of origins

Decoding and validating a body, and what ishikari makes of an origin's answer: a whole representation, a `304` that renews the one
it holds, or a miss that may be kept for a while. What a request asks for is the origin's to honour: any answer may come to any
request.
-/

namespace Biei.Provider

/-- `HttpError`: a status and a message. -/
structure HttpError where
  status : Nat
  message : String
deriving DecidableEq

inductive BodyValidation where
  | bytes
  | json
deriving DecidableEq

/-- What is needed of code that is not here. -/
structure ProviderEnv extends HttpEnv where
  /-- `Url::parse(url).scheme()`. -/
  scheme : String → Option String
  /-- `StatusCode::canonical_reason`. -/
  canonicalReason : Nat → Option String
  /-- Reading up to so many decoded bytes from `GzDecoder`. -/
  gunzip : Bytes → Nat → Except String Bytes
  /-- `serde_json::from_slice::<IgnoredAny>`: its error, if any. -/
  ignoreJson : Bytes → Option String
  /-- `serde_json::from_slice::<Value>`: its error, if any. -/
  parseJsonValue : Bytes → Option String

/-! ## Bodies -/

def badGateway (message : String) : HttpError := ⟨502, message⟩

def providerBodyTooLarge (resource : String) : HttpError := badGateway (resource ++ " body too large")

/-- `decode_provider_body`. -/
def decodeProviderBody (env : ProviderEnv) (body : Bytes) (contentEncoding : Option (List Char)) (maxBytes : Nat)
    (resource : String) : Except HttpError Bytes :=
  match (contentEncoding.map trim).filter fun value => !value.isEmpty && !eqIgnoreAsciiCase value "identity".toList with
  | none => if body.length > maxBytes then .error (providerBodyTooLarge resource) else .ok body
  | some encoding =>
    if !eqIgnoreAsciiCase encoding "gzip".toList && !eqIgnoreAsciiCase encoding "x-gzip".toList then
      .error (badGateway (resource ++ " upstream content-encoding unsupported: " ++ String.ofList encoding))
    else
      match env.gunzip body (maxBytes + 1) with
      | .error error => .error (badGateway (resource ++ " upstream gzip invalid: " ++ error))
      | .ok decoded =>
        if decoded.length > maxBytes then .error (badGateway (resource ++ " decoded body too large")) else .ok decoded

/-- `validate_body`. -/
def validateBody (env : ProviderEnv) (body : Bytes) (contentEncoding : Option (List Char)) (validation : BodyValidation)
    (maxBytes : Nat) (resource : String) : Except HttpError Unit :=
  match validation with
  | .bytes => .ok ()
  | .json =>
    match decodeProviderBody env body contentEncoding maxBytes resource with
    | .error error => .error error
    | .ok decoded =>
      match env.ignoreJson decoded with
      | some error => .error (badGateway (resource ++ " JSON invalid: " ++ error))
      | none => .ok ()

/-- `media_type_eq`. -/
def mediaTypeEq (value expected : List Char) : Bool :=
  eqIgnoreAsciiCase (trim (((splitOnce ';' value).map Prod.fst).getD value)) expected

/-- `validate_content_type`: a missing one is accepted. -/
def validateContentType (contentType : Option (List Char)) (accepted : List String) (resource : String) : Except HttpError Unit :=
  if accepted.isEmpty then .ok ()
  else
    match contentType with
    | none => .ok ()
    | some contentType =>
      if accepted.any fun candidate => mediaTypeEq contentType candidate.toList then .ok ()
      else .error (badGateway (resource ++ " upstream content-type unsupported: " ++ String.ofList contentType))

/-! ## Representations -/

structure Validators where
  etag : Option (List Char)
  lastModified : Option SystemTime
deriving DecidableEq

structure FetchedProviderResource where
  bytes : Bytes
  policy : CachePolicy
  validators : Validators
  contentEncoding : Option (List Char)
  initialAge : Duration
deriving DecidableEq

structure FetchedProviderNegative where
  status : Nat
  policy : NegativeCachePolicy
  initialAge : Duration
deriving DecidableEq

inductive ProviderOriginOutcome where
  | modified (fetched : FetchedProviderResource)
  | notModified (fetched : FetchedProviderResource)
  | negative (negative : FetchedProviderNegative)
deriving DecidableEq

structure CachedProviderRepresentation where
  bytes : Bytes
  cacheControl : List Char
  validators : Validators
  contentEncoding : Option (List Char)
deriving DecidableEq

/-! ## Answers -/

/-- How the reading of a body ends. -/
inductive BodyEnd where
  | complete
  | failed
deriving DecidableEq

/-- An HTTP answer, with the time at which it is complete and the time that it took. -/
structure HttpReply where
  status : Nat
  headers : HeaderMap
  contentLength : Option Nat
  chunks : List Bytes
  ending : BodyEnd
  received : SystemTime
  delay : Duration

/-- A body that an object store has, with what it says about it. -/
structure StoredObject where
  size : Nat
  contentType : Option (List Char)
  cacheControl : Option (List Char)
  contentEncoding : Option (List Char)
  etag : Option (List Char)
  lastModified : SystemTime
  /-- The bytes, unless reading them fails. -/
  body : Option Bytes

inductive ObjectReply where
  | unresolved
  | notModified
  | notFound
  | failed
  | found (object : StoredObject)

inductive OriginAnswer where
  /-- `admit_fetch` finds the queue full. -/
  | queueFull
  /-- `admit_fetch` finds the semaphore closed. -/
  | unavailable
  | timedOut
  /-- The request fails before there is an answer. -/
  | transportFailed
  | http (reply : HttpReply)
  | object (reply : ObjectReply)

/-- `joined_header_values`. -/
def joinedHeaderValues (headers : HeaderMap) (name : String) : Option (List Char) :=
  let values := headers.getAllStr name
  if values.isEmpty then none else some (", ".toList.intercalate values)

/-- A coding other than `identity`. -/
def namedCoding (value : List Char) : Bool := !eqIgnoreAsciiCase (trim value) "identity".toList

/-- The largest of the numbers, if any. -/
def largest? (numbers : List Nat) : Option Nat := numbers.foldl (fun m n => some (max (m.getD 0) n)) none

/-- `corrected_initial_age`. -/
def correctedInitialAge (env : HttpEnv) (headers : HeaderMap) (responseReceived : SystemTime) (responseDelay : Duration) :
    Duration :=
  let ages := (headers.getAllStr "age").filterMap fun value => parseUnsigned u64Bound (trim value)
  let ageValue := ((largest? ages).map fun seconds => seconds * second).getD 0
  let apparentAge := ((headerDate env headers "date").bind fun date => durationSince responseReceived date).getD 0
  max apparentAge (durationSaturatingAdd ageValue responseDelay)

/-- `revalidated_provider_resource` from the headers of a `304`, or from nothing more than an object store's word. -/
def revalidatedProviderResource (env : HttpEnv) (cached : CachedProviderRepresentation) (resource : String)
    (reply : Option HttpReply) : FetchedProviderResource :=
  let cacheControlValues := (reply.map fun r => r.headers.getAllStr "cache-control").getD []
  { bytes := cached.bytes
    policy :=
      if cacheControlValues.isEmpty then cachePolicy resource (some cached.cacheControl)
      else cachePolicyValues resource cacheControlValues
    validators :=
      ⟨(reply.bind fun r => r.headers.getStr "etag").or cached.validators.etag,
        (reply.bind fun r => headerDate env r.headers "last-modified").or cached.validators.lastModified⟩
    contentEncoding :=
      match reply.bind fun r => joinedHeaderValues r.headers "content-encoding" with
      | some value => if namedCoding value then some (trim value) else none
      | none => cached.contentEncoding
    initialAge := (reply.map fun r => correctedInitialAge env r.headers r.received r.delay).getD 0 }

/-- Reading the body chunk by chunk, up to the limit. -/
def readBody (maxBytes : Nat) (resource : String) (ending : BodyEnd) (body : Bytes) : List Bytes → Except HttpError Bytes
  | [] =>
    match ending with
    | .complete => .ok body
    | .failed => .error (badGateway (resource ++ " upstream body failed"))
  | chunk :: rest =>
    if body.length + chunk.length > maxBytes then .error (providerBodyTooLarge resource)
    else readBody maxBytes resource ending (body ++ chunk) rest

/-- `Display` of a status. -/
def statusText (env : ProviderEnv) (status : Nat) : String :=
  toString status ++ " " ++ (env.canonicalReason status).getD "<unknown status code>"

/-- `require_complete_provider_status`. -/
def requireCompleteProviderStatus (env : ProviderEnv) (status : Nat) (resource : String) : Except HttpError Unit :=
  if status = 200 then .ok () else .error (badGateway (resource ++ " upstream returned " ++ statusText env status))

/-- What the endpoints pass to the fetcher. -/
structure ProviderRequest where
  maxBytes : Nat
  resource : String
  acceptedContentTypes : List String
  bodyValidation : BodyValidation
  url : String
deriving DecidableEq

/-- The age that counts against the freshness an origin names; against a lifetime of our own none does. -/
def initialAge (env : HttpEnv) (reply : HttpReply) (explicit : Bool) : Duration :=
  if explicit then correctedInitialAge env reply.headers reply.received reply.delay else 0

/-- `fetch_http_provider`, from the answer to its request. -/
def fetchHttpProvider (env : ProviderEnv) (request : ProviderRequest) (revalidate : Option CachedProviderRepresentation)
    (reply : HttpReply) : Except HttpError ProviderOriginOutcome := do
  let resource := request.resource
  if reply.status = 304 then
    match revalidate with
    | none => .error (badGateway (resource ++ " upstream returned an unsolicited 304"))
    | some cached => .ok (.notModified (revalidatedProviderResource env.toHttpEnv cached resource (some reply)))
  else if reply.status = 404 ∨ reply.status = 410 then
    let (policy, explicit) := negativeCachePolicyWithFreshnessValues (reply.headers.getAllStr "cache-control")
    .ok (.negative ⟨reply.status, policy, initialAge env.toHttpEnv reply explicit⟩)
  else
    requireCompleteProviderStatus env reply.status resource
    if reply.contentLength.any fun size => request.maxBytes < size then .error (providerBodyTooLarge resource)
    else
      validateContentType (reply.headers.getStr "content-type") request.acceptedContentTypes resource
      let (policy, explicit) := cachePolicyWithFreshnessValues resource (reply.headers.getAllStr "cache-control")
      let body ← readBody request.maxBytes resource reply.ending [] reply.chunks
      .ok (.modified
        { bytes := body
          policy
          validators := ⟨reply.headers.getStr "etag", headerDate env.toHttpEnv reply.headers "last-modified"⟩
          contentEncoding := (joinedHeaderValues reply.headers "content-encoding").filter namedCoding
          initialAge := initialAge env.toHttpEnv reply explicit })

/-- `fetch_object_store_provider`, from the answer to its request. -/
def fetchObjectStoreProvider (env : ProviderEnv) (request : ProviderRequest) (revalidate : Option CachedProviderRepresentation) :
    ObjectReply → Except HttpError ProviderOriginOutcome
  | .unresolved => .error (badGateway (request.resource ++ " upstream store init failed"))
  | .notModified =>
    match revalidate with
    | some cached => .ok (.notModified (revalidatedProviderResource env.toHttpEnv cached request.resource none))
    | none => .error (badGateway (request.resource ++ " upstream GET failed"))
  | .notFound => .ok (.negative ⟨404, negativeCachePolicyValues [], 0⟩)
  | .failed => .error (badGateway (request.resource ++ " upstream GET failed"))
  | .found object =>
    if object.size > request.maxBytes then .error (providerBodyTooLarge request.resource)
    else do
      validateContentType object.contentType request.acceptedContentTypes request.resource
      match object.body with
      | none => .error (badGateway (request.resource ++ " upstream body failed"))
      | some body =>
        if body.length > request.maxBytes then .error (providerBodyTooLarge request.resource)
        else
          .ok (.modified
            { bytes := body
              policy := cachePolicy request.resource object.cacheControl
              validators := ⟨object.etag, if object.lastModified = unixEpoch then none else some object.lastModified⟩
              contentEncoding := object.contentEncoding.filter namedCoding
              initialAge := 0 })

/-- What an answer gives before the body is validated, or `none` when it is not one to a request for such a URL. -/
def fetchProvider (env : ProviderEnv) (request : ProviderRequest) (revalidate : Option CachedProviderRepresentation)
    (answer : OriginAnswer) : Option (Except HttpError ProviderOriginOutcome) :=
  match answer with
  | .queueFull => some (.error ⟨503, request.resource ++ " upstream fetch queue full"⟩)
  | .unavailable => some (.error ⟨503, request.resource ++ " upstream fetch unavailable"⟩)
  | .timedOut => some (.error ⟨504, request.resource ++ " upstream timed out"⟩)
  | answer =>
    match env.scheme request.url, answer with
    | none, _ => some (.error (badGateway (request.resource ++ " upstream URL invalid")))
    | some scheme, .http reply =>
      if scheme = "http" ∨ scheme = "https" then some (fetchHttpProvider env request revalidate reply) else none
    | some scheme, .transportFailed =>
      if scheme = "http" ∨ scheme = "https" then some (.error (badGateway (request.resource ++ " upstream GET failed"))) else none
    | some scheme, .object reply =>
      if scheme = "http" ∨ scheme = "https" then none else some (fetchObjectStoreProvider env request revalidate reply)
    | some _, _ => none

/-- `fetch_limited_bytes_uncached`: the body of a whole representation is validated, that of a renewed one is not read again. -/
def fetchLimitedBytesUncached (env : ProviderEnv) (request : ProviderRequest) (revalidate : Option CachedProviderRepresentation)
    (answer : OriginAnswer) : Option (Except HttpError ProviderOriginOutcome) :=
  (fetchProvider env request revalidate answer).map fun result => do
    let fetched ← result
    match fetched with
    | .modified resource =>
      validateBody env resource.bytes resource.contentEncoding request.bodyValidation request.maxBytes request.resource
      .ok fetched
    | .notModified _ => .ok fetched
    | .negative _ => .ok fetched

end Biei.Provider
