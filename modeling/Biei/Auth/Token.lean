import Biei.Http.Headers
import Biei.Lib.Slice
import Biei.Types

/-!
# Tokens

The delivery tokens of `mmpf-auth`: where a request carries one, and what is in it. A token names a registry and holds a
credential of that registry, with a dot between them.
-/

namespace Biei

/-- What is used of a parsed URL. -/
structure Url where
  scheme : String
  host : Option String
  username : String
  password : Option String
  path : String
  query : Option String
  fragment : Option String
  /-- `origin().ascii_serialization()`. -/
  origin : String

/-- SHA-256 digests. -/
abbrev Digest := Vector UInt8 32

/-- What authorization needs of code that is not here: `url` and `sha2`. -/
structure AuthEnv where
  urlParse : String → Option Url
  formUrlencodedParse : String → List (String × String)
  sha256 : Bytes → Digest

inductive AuthFailure where
  | invalidCredential
  | forbidden
  | unavailable
deriving DecidableEq, Repr

/-- `single_header`. -/
def singleHeader (headers : HeaderMap) (name : String) : Except AuthFailure (Option String) :=
  match headers.getAll name with
  | [] => .ok none
  | [value] =>
    match headerToStr value with
    | none => .error .forbidden
    | some text => .ok (some (String.ofList text))
  | _ :: _ :: _ => .error .forbidden

/-! ## The presented token -/

structure PresentedCredential where
  value : String
  fromQuery : Bool
deriving DecidableEq

def bearerToken (headers : HeaderMap) : Except AuthFailure (Option String) :=
  match headers.getAll "authorization" with
  | [] => .ok none
  | [value] =>
    match headerToStr value with
    | none => .error .invalidCredential
    | some text =>
      match splitOnce ' ' text with
      | none => .error .invalidCredential
      | some (scheme, token) =>
        if scheme.map Char.toLower ≠ "bearer".toList ∨ token.isEmpty ∨ token.any isWhitespace then .error .invalidCredential
        else .ok (some (String.ofList token))
  | _ :: _ :: _ => .error .invalidCredential

def accessTokenFromQuery (env : AuthEnv) (query : Option String) : Except AuthFailure (Option String) :=
  match query with
  | none => .ok none
  | some query =>
    match (env.formUrlencodedParse query).filter fun pair => pair.1 == "access_token" with
    | [] => .ok none
    | [(_, value)] => .ok (some value)
    | _ :: _ :: _ => .error .invalidCredential

def deliveryToken (env : AuthEnv) (headers : HeaderMap) (query : Option String) : Except AuthFailure PresentedCredential := do
  let bearer ← bearerToken headers
  let query ← accessTokenFromQuery env query
  match bearer, query with
  | some _, some _ => .error .invalidCredential
  | some token, none => .ok ⟨token, false⟩
  | none, some token => .ok ⟨token, true⟩
  | none, none => .error .invalidCredential

/-! ## What is in a token -/

def maxRegistryIdBytes : Nat := 64

def maxCredentialBytes : Nat := 4096

def isRegistryIdChar (c : Char) : Bool := c.isLower || c.isDigit || c == '-' || c == '_'

def validateRegistryId (registryId : String) : Except String Unit :=
  if registryId.isEmpty ∨ registryId.utf8ByteSize > maxRegistryIdBytes then
    .error ("auth registry id must contain 1..=" ++ toString maxRegistryIdBytes ++ " bytes")
  else if !registryId.toList.all isRegistryIdChar then
    .error "auth registry id must use lowercase ASCII letters, digits, `-`, or `_`"
  else .ok ()

/-- `parse_token_envelope`: the registry and the credential. -/
def parseTokenEnvelope (token : String) : Except AuthFailure (String × String) :=
  match splitOnce '.' token.toList with
  | none => .error .invalidCredential
  | some (registryId, credential) =>
    match validateRegistryId (String.ofList registryId) with
    | .error _ => .error .invalidCredential
    | .ok () =>
      if credential.isEmpty ∨ (String.ofList credential).utf8ByteSize > maxCredentialBytes ∨ !credential.all isTokenByte then
        .error .invalidCredential
      else .ok (String.ofList registryId, String.ofList credential)

/-! ## Digests -/

/-- A registry and a credential of it, each after its length. -/
def digestInput (registryId credential : String) : Bytes :=
  beBytes 8 registryId.utf8ByteSize ++ utf8 registryId ++ beBytes 8 credential.utf8ByteSize ++ utf8 credential

def digestDomain : Bytes := utf8 "mmpf-object-store-auth-v1\x00"

def cachePartitionDomain : Bytes := utf8 "mmpf-delivery-cache-partition-v1\x00"

def credentialDigest (env : AuthEnv) (registryId credential : String) : Digest :=
  env.sha256 (digestDomain ++ digestInput registryId credential)

def credentialCachePartition (env : AuthEnv) (registryId credential : String) (registryRevision : UInt64) : Digest :=
  env.sha256 (cachePartitionDomain ++ beBytes 8 registryRevision.toNat ++ digestInput registryId credential)

end Biei
