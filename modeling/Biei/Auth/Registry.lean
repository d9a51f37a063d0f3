import Biei.Auth.Token

/-!
# Registries

A registry is a JSON document that lists credentials by their digests, with what each may do. `RegistrySnapshot::parse` checks the
document and puts the namespaces of each credential into canonical form; `authorize` decides a request by it.
-/

namespace Biei

/-! ## The document -/

inductive DeliveryAction where
  | renderStatic
  | read
deriving DecidableEq, Repr

structure CredentialGrantWire where
  credentialSha256 : String
  principalId : String
  enabled : Bool
  namespaces : List String
  actions : List DeliveryAction
  allowedOrigins : List String
  allowMissingOrigin : Bool

structure RegistrySnapshotWire where
  schemaVersion : UInt32
  registryId : String
  revision : UInt64
  credentials : List CredentialGrantWire

/-- With `serde_json`, that reads the document. -/
structure RegistryEnv extends AuthEnv where
  registryFromSlice : Bytes → Except String RegistrySnapshotWire

/-- What a credential may do. -/
structure CredentialGrant where
  credentialSha256 : Digest
  principalId : String
  enabled : Bool
  namespaces : List String
  actions : List DeliveryAction
  allowedOrigins : List String
  allowMissingOrigin : Bool
deriving DecidableEq

/-- The credentials are a map; a digest is listed once. -/
structure RegistrySnapshot where
  revision : UInt64
  credentials : List (Digest × CredentialGrant)
deriving DecidableEq

/-! ## Checks -/

def maxCredentialsPerRegistry : Nat := 100000

def maxPrincipalIdBytes : Nat := 256

def maxNamespacesPerCredential : Nat := 1024

def maxOriginsPerCredential : Nat := 128

def validateBoundedLabel (name value : String) (maxBytes : Nat) : Except String Unit :=
  if value.isEmpty ∨ value.utf8ByteSize > maxBytes ∨ value.toList.any isControl then
    .error (name ++ " must be non-empty, bounded, and contain no control characters")
  else .ok ()

def decodeLowerHex (c : Char) : Except String Nat :=
  if c.isDigit then .ok (c.toNat - 48)
  else if 97 ≤ c.toNat ∧ c.toNat ≤ 102 then .ok (c.toNat - 97 + 10)
  else .error "credential_sha256 must use lowercase hexadecimal"

def decodeSha256 (value : String) : Except String Digest := do
  if value.utf8ByteSize ≠ 64 then .error "credential_sha256 must be 64 lowercase hexadecimal characters"
  else
    let nibbles ← value.toList.mapM decodeLowerHex
    .ok (Vector.ofFn fun i => UInt8.ofNat (16 * nibbles.getD (2 * i.val) 0 + nibbles.getD (2 * i.val + 1) 0))

/-- The check that a declared origin and the origin of a referrer share. -/
def originOf (url : Url) (text : String) : Except String String :=
  if (url.scheme ≠ "http" ∧ url.scheme ≠ "https") ∨ url.host = none ∨ url.username ≠ "" ∨ url.password ≠ none then .error text
  else if url.origin = "null" then .error "opaque origins are not supported"
  else .ok url.origin

def normalizeDeclaredOrigin (env : AuthEnv) (raw : String) : Except String String :=
  match env.urlParse raw with
  | none => .error "parse origin"
  | some url =>
    if url.path ≠ "/" ∨ url.query ≠ none ∨ url.fragment ≠ none then .error "origin must be HTTP(S)"
    else originOf url "origin must be HTTP(S)"

def normalizeRefererOrigin (env : AuthEnv) (raw : String) : Except String String :=
  match env.urlParse raw with
  | none => .error "parse referer"
  | some url => originOf url "referer must be HTTP(S)"

/-- The namespaces sorted and without duplicates; with the wildcard, the wildcard alone. -/
def canonicalNamespaces (namespaces : List String) : List String :=
  let sorted := (OrderedSet.empty.extend namespaces).toList
  if "*" ∈ sorted then ["*"] else sorted

/-- The namespaces of a grant are checked, but not the wildcard. -/
def validateNamespaces (namespaces : List String) : Except String Unit :=
  if namespaces.isEmpty ∨ namespaces.length > maxNamespacesPerCredential then
    .error "credential namespaces must be non-empty and bounded"
  else namespaces.forM fun name => if name ≠ "*" then validateBoundedLabel "namespace" name 256 else .ok ()

/-- One turn of the loop of `parse`. -/
def parseGrant (env : AuthEnv) (credentials : List (Digest × CredentialGrant)) (grant : CredentialGrantWire) :
    Except String (List (Digest × CredentialGrant)) := do
  let digest ← decodeSha256 grant.credentialSha256
  if (credentials.lookup digest).isSome then .error "auth registry contains a duplicate credential digest"
  else
    validateBoundedLabel "principal_id" grant.principalId maxPrincipalIdBytes
    validateNamespaces grant.namespaces
    if grant.actions.isEmpty then .error "credential actions must not be empty"
    else if grant.allowedOrigins.length > maxOriginsPerCredential then .error "credential has too many allowed origins"
    else
      let allowedOrigins ← grant.allowedOrigins.mapM (normalizeDeclaredOrigin env)
      .ok (credentials ++ [(digest,
        { credentialSha256 := digest
          principalId := grant.principalId
          enabled := grant.enabled
          namespaces := canonicalNamespaces grant.namespaces
          actions := grant.actions.dedup
          allowedOrigins
          allowMissingOrigin := grant.allowMissingOrigin })])

/-- `RegistrySnapshot::parse`. -/
def RegistrySnapshot.parse (env : RegistryEnv) (expectedRegistryId : String) (body : Bytes) : Except String RegistrySnapshot := do
  let wire ← env.registryFromSlice body
  if wire.schemaVersion ≠ 1 then .error "unsupported auth registry schema_version"
  else if wire.registryId ≠ expectedRegistryId then .error "auth registry id does not match configured registry"
  else if wire.credentials.length > maxCredentialsPerRegistry then .error "auth registry has too many credentials"
  else
    let credentials ← wire.credentials.foldlM (parseGrant env.toAuthEnv) []
    .ok ⟨wire.revision, credentials⟩

/-! ## Decisions -/

/-- The part of `authorize_origin` after the headers are read. -/
def originAllowed (grant : CredentialGrant) : Option String → Except AuthFailure Unit
  | some origin => if origin ∈ grant.allowedOrigins then .ok () else .error .forbidden
  | none => if grant.allowMissingOrigin then .ok () else .error .forbidden

/-- A header that must be an origin when it is there. -/
def originHeader (headers : HeaderMap) (name : String) (normalize : String → Except String String) :
    Except AuthFailure (Option String) :=
  match singleHeader headers name with
  | .error e => .error e
  | .ok none => .ok none
  | .ok (some raw) =>
    match normalize raw with
    | .error _ => .error .forbidden
    | .ok origin => .ok (some origin)

def authorizeOrigin (env : AuthEnv) (headers : HeaderMap) (grant : CredentialGrant) : Except AuthFailure Unit :=
  if grant.allowedOrigins.isEmpty then .ok ()
  else
    match originHeader headers "origin" (normalizeDeclaredOrigin env) with
    | .error e => .error e
    | .ok (some origin) => originAllowed grant (some origin)
    | .ok none =>
      match originHeader headers "referer" (normalizeRefererOrigin env) with
      | .error e => .error e
      | .ok origin => originAllowed grant origin

structure AuthorizedDelivery where
  principalId : String
  registryId : String
  readableNamespaces : List String
  cachePartition : Digest
  presentedToken : String
  propagateAccessToken : Bool
deriving DecidableEq

/-- A request whose token names a registry, before the registry is looked at. -/
structure Presentation where
  presented : PresentedCredential
  registryId : String
  credential : String
deriving DecidableEq

/-- `authorize` up to its `snapshot`: the token and what is in it, for a registry that is configured. -/
def present (env : AuthEnv) (configured : String → Bool) (headers : HeaderMap) (query : Option String) :
    Except AuthFailure Presentation := do
  let presented ← deliveryToken env headers query
  let (registryId, credential) ← parseTokenEnvelope presented.value
  if configured registryId then .ok ⟨presented, registryId, credential⟩ else .error .invalidCredential

/-- Whether the grant is for the namespace. The binary search of the sorted namespaces is membership. -/
def CredentialGrant.covers (grant : CredentialGrant) (requiredNamespace : String) : Bool :=
  grant.namespaces.head? == some "*" || grant.namespaces.contains requiredNamespace

/-- `authorize` after its `snapshot`. -/
def decideRequest (env : AuthEnv) (snapshot : RegistrySnapshot) (headers : HeaderMap) (p : Presentation)
    (requiredNamespace : Option String) (action : DeliveryAction) : Except AuthFailure AuthorizedDelivery :=
  match (snapshot.credentials.lookup (credentialDigest env p.registryId p.credential)).filter fun grant => grant.enabled &&
      grant.credentialSha256 == credentialDigest env p.registryId p.credential with
  | none => .error .invalidCredential
  | some grant =>
    if requiredNamespace.any (fun n => !grant.covers n) || !grant.actions.contains action then .error .forbidden
    else
      match authorizeOrigin env headers grant with
      | .error e => .error e
      | .ok () => .ok
        { principalId := grant.principalId
          registryId := p.registryId
          readableNamespaces := grant.namespaces
          cachePartition := credentialCachePartition env p.registryId p.credential snapshot.revision
          presentedToken := p.presented.value
          propagateAccessToken := p.presented.fromQuery }

/-- `authorize`, with what `snapshot` gives. -/
def authorize (env : AuthEnv) (configured : String → Bool) (snapshotOf : String → Option RegistrySnapshot) (headers : HeaderMap)
    (query requiredNamespace : Option String) (action : DeliveryAction) : Except AuthFailure AuthorizedDelivery := do
  let p ← present env configured headers query
  match snapshotOf p.registryId with
  | none => .error .unavailable
  | some snapshot => decideRequest env snapshot headers p requiredNamespace action

end Biei
