import Biei.Auth.Ingress
import Biei.Lib.BinarySearch

/-!
# Namespace labels as they are stored

`NamespaceSet` of `types.rs`, and the namespaces of a registry grant, on the vectors that the code keeps: sorted by a sort, freed
of duplicates by a pass over neighbours, and searched by a binary search. What the labels stand for is `meaning`.
-/

namespace Biei

namespace Labels

/-- The namespaces that labels stand for: all of them with the wildcard, and else those that are listed. -/
def meaning (labels : List String) : Set String := {name | "*" ∈ labels ∨ name ∈ labels}

/-- `slice::binary_search` of strings. -/
def binarySearch (labels : List String) (name : String) : Except Nat Nat := BinarySearch.binarySearchBy (compare · name) labels

/-- `sort_unstable` and `dedup`; the wildcard, if it is found, alone. `try_new` and `RegistrySnapshot::parse` have the same
lines. -/
def canonical (labels : List String) : List String :=
  let sorted := (labels.mergeSort fun a b => decide (a ≤ b)).destutter (· ≠ ·)
  if (binarySearch sorted "*").isOk then ["*"] else sorted

/-- The check of one label. -/
def isRejected (label : String) : Bool :=
  label.isEmpty || decide (label.utf8ByteSize > maxAuthorizationNamespaceBytes) || label.toList.any isControl

/-- `try_new`. -/
def tryNew (namespaces : List String) : Except String (List String) :=
  if namespaces.isEmpty || decide (namespaces.length > maxAuthorizationNamespaces) then
    .error "namespace set must be non-empty and bounded"
  else if namespaces.any isRejected then
    .error "namespace must be non-empty, bounded, and contain no control characters"
  else .ok (canonical namespaces)

/-- `windows(2)`. -/
def windows2 (labels : List String) : List (String × String) := labels.zip labels.tail

/-- `try_from_shared`. -/
def tryFromShared (namespaces : List String) : Except String (List String) :=
  if namespaces.isEmpty || decide (namespaces.length > maxAuthorizationNamespaces) then
    .error "namespace set must be non-empty and bounded"
  else if namespaces.any isRejected then
    .error "namespace must be non-empty, bounded, and contain no control characters"
  else if (windows2 namespaces).any (fun pair => decide (pair.1 ≥ pair.2)) ||
      (namespaces.any (· == "*") && !(namespaces.length == 1 && namespaces.head? == some "*")) then
    .error "shared namespace set must be sorted, unique, and canonical"
  else .ok namespaces

/-- `allows`. -/
def allows (self required : List String) : Bool :=
  if self.head?.any (· == "*") then true else required.all fun name => name != "*" && (binarySearch self name).isOk

/-- `serialize`. -/
def toJson (labels : List String) : Json := .array (labels.map .string)

/-- `deserialize`. -/
def fromJson (json : Json) : Except String (List String) := do
  let items ← json.asArray
  let namespaces ← items.mapM Json.asString
  tryNew namespaces

end Labels

/-- The namespace test of `authorize`: it fails when the first label is not the wildcard and the namespace is not found. -/
def CredentialGrant.passes (grant : CredentialGrant) (requiredNamespace : String) : Bool :=
  !(grant.namespaces.head?.all (· != "*") && !(Labels.binarySearch grant.namespaces requiredNamespace).isOk)

/-! ## The rule of authorization

What `authorize` is for, in terms of the request and of what the registry says, without the order in which the code looks at them.
-/

/-- The configured registries. `RegistryCatalog::parse` takes only identifiers that pass `validate_registry_id`. -/
structure RegistryCatalog where
  ids : List String
  valid : ∀ id ∈ ids, validateRegistryId id = .ok ()

/-- `catalog.get(registry_id).is_some()`. -/
def RegistryCatalog.contains (catalog : RegistryCatalog) (registryId : String) : Bool := catalog.ids.contains registryId

/-! ## The presented credential -/

/-- The value is the word `bearer`, in any case, a space and the token. -/
structure IsBearer (value : Bytes) (token : String) : Prop where
  text : ∃ scheme, headerToStr value = some (scheme ++ ' ' :: token.toList) ∧ scheme.map Char.toLower = "bearer".toList
  nonempty : token ≠ ""
  unbroken : ∀ c ∈ token.toList, isWhitespace c = false

/-- The values of the parameter `access_token`. -/
def accessTokens (env : AuthEnv) (query : Option String) : List String :=
  match query with
  | none => []
  | some query => ((env.formUrlencodedParse query).filter fun pair => pair.1 == "access_token").map Prod.snd

/-- The request presents one credential: in the header, or in the query. -/
inductive Presents (env : AuthEnv) (headers : HeaderMap) (query : Option String) (token : String) : Prop
  | header (value : Bytes) (honly : headers.getAll "authorization" = [value]) (hbearer : IsBearer value token)
      (hquery : accessTokens env query = [])
  | parameter (hheader : headers.getAll "authorization" = []) (honly : accessTokens env query = [token])

/-- The part of a token after the registry: not empty, bounded, without control characters and white space. -/
structure IsCredential (credential : String) : Prop where
  nonempty : credential ≠ ""
  bounded : credential.utf8ByteSize ≤ maxCredentialBytes
  bytes : ∀ c ∈ credential.toList, isTokenByte c = true

/-- The registry of a token is what stands before its first dot. -/
structure IsEnvelope (token registryId credential : String) : Prop where
  text : token.toList = registryId.toList ++ '.' :: credential.toList
  first : '.' ∉ registryId.toList

/-! ## The origin -/

/-- The only value of the header, normalized, is the origin. -/
structure HeaderOrigin (headers : HeaderMap) (name : String) (normalize : String → Except String String) (origin : String) :
    Prop where
  normalized : ∃ value text, headers.getAll name = [value] ∧ headerToStr value = some text ∧
    normalize (String.ofList text) = .ok origin

/-- What the grant says of the request's origin. The referrer counts only where there is no origin. -/
inductive OriginPermitted (env : AuthEnv) (headers : HeaderMap) (grant : CredentialGrant) : Prop
  | undeclared (hnone : grant.allowedOrigins = [])
  | origin (origin : String) (hheader : HeaderOrigin headers "origin" (normalizeDeclaredOrigin env) origin)
      (hdeclared : origin ∈ grant.allowedOrigins)
  | referer (origin : String) (habsent : headers.getAll "origin" = [])
      (hheader : HeaderOrigin headers "referer" (normalizeRefererOrigin env) origin) (hdeclared : origin ∈ grant.allowedOrigins)
  | missing (habsent : headers.getAll "origin" = []) (habsent' : headers.getAll "referer" = [])
      (hallowed : grant.allowMissingOrigin = true)

/-! ## The request -/

/-- The grant permits the action on the namespace, if one is asked for, from where the request comes. -/
structure Permits (env : AuthEnv) (headers : HeaderMap) (requiredNamespace : Option String) (action : DeliveryAction)
    (grant : CredentialGrant) : Prop where
  enabled : grant.enabled = true
  covered : ∀ name, requiredNamespace = some name → name ∈ Labels.meaning grant.namespaces
  granted : action ∈ grant.actions
  origin : OriginPermitted env headers grant

/-- A request that is authorized: it presents one credential of a configured registry, of which the snapshot has a grant that
permits what is asked for. -/
structure IsAuthorized (env : AuthEnv) (catalog : RegistryCatalog) (snapshotOf : String → Option RegistrySnapshot)
    (headers : HeaderMap)
    (query requiredNamespace : Option String) (action : DeliveryAction) (token registryId credential : String)
    (snapshot : RegistrySnapshot) (grant : CredentialGrant) : Prop where
  presented : Presents env headers query token
  envelope : IsEnvelope token registryId credential
  configured : registryId ∈ catalog.ids
  wellFormed : IsCredential credential
  available : snapshotOf registryId = some snapshot
  listed : (credentialDigest env registryId credential, grant) ∈ snapshot.credentials
  permitted : Permits env headers requiredNamespace action grant

end Biei
