import Biei.Auth.Registry
import Biei.ForwardResponse

/-!
# From a decision to a task

What the ingress of the renderer makes of an authorized delivery, and how the authorization of a task travels to a peer. Both
sides check what they are given.
-/

namespace Biei

/-- `handle_public_path_with_request_id`, when a request has been authorized: `none` stands for the panic of an `expect`. -/
def renderAuthorization (authorized : AuthorizedDelivery) : Option RenderAuthorization :=
  match NamespaceSet.tryFromShared authorized.readableNamespaces with
  | .error _ => none
  | .ok readableNamespaces =>
    match ProviderBearerToken.tryNew authorized.presentedToken with
    | .error _ => none
    | .ok providerBearerToken => some ⟨readableNamespaces, ⟨authorized.cachePartition⟩, providerBearerToken⟩

/-! ## On the wire -/

namespace Json

/-- A field that must be there once. -/
def requiredField (fields : List (String × Json)) (name : String) : Except String Json :=
  match fields.filter fun field => field.1 == name with
  | [] => .error ("missing field `" ++ name ++ "`")
  | [(_, value)] => .ok value
  | _ :: _ :: _ => .error ("duplicate field `" ++ name ++ "`")

def asString : Json → Except String String
  | .string s => .ok s
  | _ => .error "invalid type: expected a string"

def asU8 : Json → Except String UInt8
  | .number n =>
    match parseUnsigned 256 n.text.toList with
    | some b => .ok (UInt8.ofNat b)
    | none => .error "invalid value: expected u8"
  | _ => .error "invalid type: expected u8"

def asArray : Json → Except String (List Json)
  | .array items => .ok items
  | _ => .error "invalid type: expected a sequence"

end Json

def NamespaceSet.toJson (set : NamespaceSet) : Json := .array (set.names.toList.map .string)

/-- A set that comes over the wire is made anew. -/
def NamespaceSet.fromJson (json : Json) : Except String NamespaceSet := do
  let items ← json.asArray
  let namespaces ← items.mapM Json.asString
  NamespaceSet.tryNew namespaces

def CredentialCachePartition.toJson (partition : CredentialCachePartition) : Json :=
  .array (partition.digest.toList.map fun b => .ofNat b.toNat)

def CredentialCachePartition.fromJson (json : Json) : Except String CredentialCachePartition := do
  let items ← json.asArray
  let bytes ← items.mapM Json.asU8
  if h : bytes.length = 32 then .ok ⟨⟨bytes.toArray, h⟩⟩ else .error "invalid length: expected an array of length 32"

def ProviderBearerToken.toJson (token : ProviderBearerToken) : Json := .string token.value

def ProviderBearerToken.fromJson (json : Json) : Except String ProviderBearerToken := do
  let value ← json.asString
  ProviderBearerToken.tryNew value

namespace RenderAuthorization

def toJson (authorization : RenderAuthorization) : Json :=
  .object
    [("readable_namespaces", authorization.readableNamespaces.toJson), ("cache_partition", authorization.cachePartition.toJson),
      ("provider_bearer_token", authorization.providerBearerToken.toJson)]

/-- The authorization from its three parts. -/
def fromParts (namespaces partition token : Json) : Except String RenderAuthorization := do
  let readableNamespaces ← NamespaceSet.fromJson namespaces
  let cachePartition ← CredentialCachePartition.fromJson partition
  let providerBearerToken ← ProviderBearerToken.fromJson token
  .ok ⟨readableNamespaces, cachePartition, providerBearerToken⟩

/-- A structure is read from an object, or from the sequence of its fields. -/
def fromJson : Json → Except String RenderAuthorization
  | .object fields => do
    let namespaces ← Json.requiredField fields "readable_namespaces"
    let partition ← Json.requiredField fields "cache_partition"
    let token ← Json.requiredField fields "provider_bearer_token"
    fromParts namespaces partition token
  | .array [namespaces, partition, token] => fromParts namespaces partition token
  | .array _ => .error "invalid length: expected struct RenderAuthorization with 3 elements"
  | _ => .error "invalid type: expected struct RenderAuthorization"

end RenderAuthorization

end Biei
