import Biei.Http.Headers
import Biei.Lib.Run

/-!
# The URL policy

Which hosts a resource request may reach. A literal address is checked when the URL is accepted, a name when it is resolved, and a
redirect before it is followed: addresses that are not public are for the configured private hosts only.
-/

namespace Biei.Filesource

/-! ## Addresses -/

/-- `Ipv4Addr`: its octets. -/
structure Ipv4Addr where
  a : BitVec 8
  b : BitVec 8
  c : BitVec 8
  d : BitVec 8
deriving DecidableEq

namespace Ipv4Addr

/-- `u32::from`. -/
def toU32 (address : Ipv4Addr) : BitVec 32 := address.a ++ address.b ++ address.c ++ address.d

def isUnspecified (address : Ipv4Addr) : Bool := address.toU32 = 0

def isPrivate (address : Ipv4Addr) : Bool :=
  address.a = 10 ∨ (address.a = 172 ∧ 16 ≤ address.b ∧ address.b ≤ 31) ∨ (address.a = 192 ∧ address.b = 168)

def isLoopback (address : Ipv4Addr) : Bool := address.a = 127

def isLinkLocal (address : Ipv4Addr) : Bool := address.a = 169 ∧ address.b = 254

def isMulticast (address : Ipv4Addr) : Bool := 224 ≤ address.a ∧ address.a ≤ 239

def isBroadcast (address : Ipv4Addr) : Bool := address.toU32 = 0xffffffff

def isDocumentation (address : Ipv4Addr) : Bool :=
  (address.a = 192 ∧ address.b = 0 ∧ address.c = 2) ∨ (address.a = 198 ∧ address.b = 51 ∧ address.c = 100) ∨
    (address.a = 203 ∧ address.b = 0 ∧ address.c = 113)

/-- The address whose octets are the bytes of two segments. -/
def ofSegments (high low : BitVec 16) : Ipv4Addr :=
  ⟨(high >>> 8).setWidth 8, high.setWidth 8, (low >>> 8).setWidth 8, low.setWidth 8⟩

end Ipv4Addr

/-- `Ipv6Addr`: its segments. -/
structure Ipv6Addr where
  segments : Vector (BitVec 16) 8
deriving DecidableEq

namespace Ipv6Addr

/-- Whether the first segments are these. -/
def leads (address : Ipv6Addr) (segments : List (BitVec 16)) : Bool :=
  address.segments.toList.take segments.length = segments

/-- `to_ipv4`: of the addresses that are compatible with IPv4, or mapped from it. -/
def toIpv4 (address : Ipv6Addr) : Option Ipv4Addr :=
  if address.leads [0, 0, 0, 0, 0] ∧ (address.segments[5] = 0 ∨ address.segments[5] = 0xffff) then
    some (.ofSegments address.segments[6] address.segments[7])
  else none

def isUnspecified (address : Ipv6Addr) : Bool := address.segments.toList = [0, 0, 0, 0, 0, 0, 0, 0]

def isLoopback (address : Ipv6Addr) : Bool := address.segments.toList = [0, 0, 0, 0, 0, 0, 0, 1]

def isMulticast (address : Ipv6Addr) : Bool := address.segments[0] &&& 0xff00 = 0xff00

def isUniqueLocal (address : Ipv6Addr) : Bool := address.segments[0] &&& 0xfe00 = 0xfc00

def isUnicastLinkLocal (address : Ipv6Addr) : Bool := address.segments[0] &&& 0xffc0 = 0xfe80

end Ipv6Addr

inductive IpAddr where
  | v4 (address : Ipv4Addr)
  | v6 (address : Ipv6Addr)
deriving DecidableEq

def isForbiddenIpv4 (address : Ipv4Addr) : Bool :=
  address.isUnspecified || address.isPrivate || address.isLoopback || address.isLinkLocal || address.isMulticast ||
    address.isBroadcast || address.isDocumentation ||
    address.toU32 >>> 24 == 0 ||
    address.toU32 &&& 0xffc00000 == 0x64400000 ||  -- 100.64.0.0/10, shared address space
    address.toU32 &&& 0xffffff00 == 0xc0000000 ||  -- 192.0.0.0/24, protocol assignments
    address.toU32 &&& 0xfffe0000 == 0xc6120000 ||  -- 198.18.0.0/15, benchmarking
    address.toU32 &&& 0xf0000000 == 0xf0000000     -- reserved, and limited broadcast

def isForbiddenIpv6 (address : Ipv6Addr) : Bool :=
  match address.toIpv4 with
  | some mapped => isForbiddenIpv4 mapped
  | none =>
    if address.leads [0x0064, 0xff9b, 0, 0, 0, 0] then isForbiddenIpv4 (.ofSegments address.segments[6] address.segments[7])
    else
      address.isUnspecified || address.isLoopback || address.isMulticast || address.isUniqueLocal || address.isUnicastLinkLocal ||
        address.leads [0x0064, 0xff9b, 0x0001] ||  -- local-use NAT64
        address.leads [0x2002] ||                  -- deprecated 6to4 transition addresses
        address.leads [0x2001, 0] ||               -- Teredo transition addresses
        address.leads [0x2001, 0x0db8]             -- documentation

def isForbiddenAddress : IpAddr → Bool
  | .v4 address => isForbiddenIpv4 address
  | .v6 address => isForbiddenIpv6 address

/-! ## URLs -/

/-- `url::Host`. -/
inductive Host where
  | domain (name : List Char)
  | ipv4 (address : Ipv4Addr)
  | ipv6 (address : Ipv6Addr)
deriving DecidableEq

/-- What is used of a `url::Url`: the port is the known default where the URL has none. -/
structure Url where
  scheme : List Char
  host : Option Host
  port : Option Nat
  query : Option (List Char)
deriving DecidableEq

/-- `url::Origin`: an opaque origin is told apart by a number. -/
inductive Origin where
  | tuple (scheme : List Char) (host : Host) (port : Nat)
  | opaqueOrigin (id : Nat)
deriving DecidableEq

/-- What is needed of code that is not here: the texts of hosts and the pairs of queries, of `url`, and its origins of the schemes
without hosts. -/
structure UrlEnv where
  hostToString : Host → List Char
  queryPairs : List Char → List (List Char × List Char)
  otherOrigin : Url → Origin

def Url.origin (env : UrlEnv) (url : Url) : Origin :=
  match url.host, url.port with
  | some host, some port =>
    if url.scheme ∈ ["ftp".toList, "http".toList, "https".toList, "ws".toList, "wss".toList] then .tuple url.scheme host port
    else env.otherOrigin url
  | _, _ => env.otherOrigin url

/-! ## The policy -/

/-- `trim_end_matches('.')`. -/
def trimEndDots (text : List Char) : List Char := (text.reverse.dropWhile (· == '.')).reverse

/-- A host as the policy compares it: without the dots at its end, in lower case. -/
def canonicalHost (host : List Char) : List Char := (trimEndDots host).map Char.toLower

structure ResourceUrlPolicy where
  privateHosts : List (List Char)

namespace ResourceUrlPolicy

def new (privateHosts : List (List Char)) : ResourceUrlPolicy :=
  ⟨(privateHosts.map fun host => canonicalHost (trim host)).filter fun host => !host.isEmpty⟩

/-- Whether a canonical host is one that the pattern names. -/
def patternMatches (pattern host : List Char) : Bool :=
  match stripLead "*.".toList pattern with
  | some rest => host != rest && ('.' :: rest).isSuffixOf host
  | none => host == pattern

def allowsPrivateHost (policy : ResourceUrlPolicy) (host : List Char) : Bool :=
  policy.privateHosts.any fun pattern => patternMatches pattern (canonicalHost host)

/-- `host.to_string().trim_matches(['[', ']'])`, in lower case. -/
def hostLabel (env : UrlEnv) (host : Host) : List Char :=
  let bracket := fun c : Char => c == '[' || c == ']'
  ((((env.hostToString host).dropWhile bracket).reverse.dropWhile bracket).reverse).map Char.toLower

def permitsUrlWithoutDns (env : UrlEnv) (policy : ResourceUrlPolicy) (url : Url) : Bool :=
  if url.scheme ≠ "http".toList ∧ url.scheme ≠ "https".toList then false
  else
    match url.host with
    | none => false
    | some (.ipv4 address) => !isForbiddenAddress (.v4 address) || policy.allowsPrivateHost (hostLabel env (.ipv4 address))
    | some (.ipv6 address) => !isForbiddenAddress (.v6 address) || policy.allowsPrivateHost (hostLabel env (.ipv6 address))
    | some (.domain _) => true

end ResourceUrlPolicy

/-! ## Resolution -/

inductive ResolveError where
  | lookup
  | permissionDenied (message : List Char)
deriving DecidableEq

/-- `FilteringResolver::resolve`, where `lookup` is `tokio::net::lookup_host` at that moment. -/
def FilteringResolver.resolve (policy : ResourceUrlPolicy) (lookup : List Char → Option (List IpAddr)) (name : List Char) :
    Except ResolveError (List IpAddr) :=
  match lookup (canonicalHost name) with
  | none => .error .lookup
  | some found =>
    let addresses := found.filter fun address => policy.allowsPrivateHost (canonicalHost name) || !isForbiddenAddress address
    if addresses.isEmpty then
      .error (.permissionDenied ("resource host ".toList ++ canonicalHost name ++ " resolves only to blocked addresses".toList))
    else .ok addresses

/-- The addresses that a request for the URL may be connected to: its literal address, or those that its name is resolved to. -/
def ConnectsTo (policy : ResourceUrlPolicy) (lookup : List Char → Option (List IpAddr)) (url : Url) (address : IpAddr) : Prop :=
  match url.host with
  | none => False
  | some (.ipv4 literal) => address = .v4 literal
  | some (.ipv6 literal) => address = .v6 literal
  | some (.domain name) => ∃ addresses, FilteringResolver.resolve policy lookup name = .ok addresses ∧ address ∈ addresses

/-! ## Redirects -/

def Url.credentialed (env : UrlEnv) (url : Url) : Bool :=
  ((url.query.map env.queryPairs).getD []).any fun pair => pair.1 == "access_token".toList

def credentialedRedirectStaysOnOrigin (env : UrlEnv) (previous : List Url) (target : Url) : Bool :=
  match previous.find? (Url.credentialed env) with
  | none => true
  | some credentialed => credentialed.origin env == target.origin env

inductive RedirectAction where
  | follow
  | error (message : String)
deriving DecidableEq

/-- The redirect policy of `build_filtered_http_client`. -/
def redirectAction (env : UrlEnv) (policy : ResourceUrlPolicy) (previous : List Url) (target : Url) : RedirectAction :=
  if 10 ≤ previous.length then .error "too many resource redirects"
  else if !credentialedRedirectStaysOnOrigin env previous target then
    .error "credential-bearing resource redirect changes origin"
  else if policy.permitsUrlWithoutDns env target then .follow
  else .error "resource redirect target is blocked"

/-- A request and its redirects: the URLs requested so far, in order. -/
def redirects (env : UrlEnv) (policy : ResourceUrlPolicy) (initial : Url) : Machine (List Url) Url where
  init := [initial]
  step := fun previous target => if redirectAction env policy previous target = .follow then some (previous ++ [target]) else none

/-! ## Ranges -/

namespace Ipv6Addr

/-- `2002::/16`. -/
def IsSixToFour (address : Ipv6Addr) : Prop := address.segments[0] = 0x2002

/-- `2001::/32`. -/
def IsTeredo (address : Ipv6Addr) : Prop := address.segments[0] = 0x2001 ∧ address.segments[1] = 0

/-- `64:ff9b:1::/48`. -/
def IsLocalNat64 (address : Ipv6Addr) : Prop :=
  address.segments[0] = 0x0064 ∧ address.segments[1] = 0xff9b ∧ address.segments[2] = 1

/-- `fc00::/7`. -/
def InUniqueLocal (address : Ipv6Addr) : Prop := address.segments[0] >>> 9 = 0xfc00 >>> 9

/-- `fe80::/10`. -/
def InLinkLocal (address : Ipv6Addr) : Prop := address.segments[0] >>> 6 = 0xfe80 >>> 6

/-- The ranges of IPv6 that are never public. -/
def IsConfined (address : Ipv6Addr) : Prop :=
  address.IsSixToFour ∨ address.IsTeredo ∨ address.IsLocalNat64 ∨ address.InUniqueLocal ∨ address.InLinkLocal

/-- The segments one by one. -/
theorem toList_segments (address : Ipv6Addr) : address.segments.toList =
    [address.segments[0], address.segments[1], address.segments[2], address.segments[3], address.segments[4], address.segments[5],
      address.segments[6], address.segments[7]] := by
  refine List.ext_getElem (by simp) fun i hi _ => ?_
  rw [Vector.length_toList] at hi
  interval_cases i <;> simp

/-- No address of these ranges begins with zeros, or with the well-known prefix of NAT64. -/
theorem IsConfined.embeds_nothing {address : Ipv6Addr} (h : address.IsConfined) :
    address.segments[0] ≠ 0 ∧ ¬ (address.segments[0] = 0x0064 ∧ address.segments[2] = 0) := by
  rcases h with h | ⟨h, -⟩ | ⟨h, -, hlocal⟩ | h | h
  · exact ⟨by rw [h]; decide, fun hnat => absurd (h.symm.trans hnat.1) (by decide)⟩
  · exact ⟨by rw [h]; decide, fun hnat => absurd (h.symm.trans hnat.1) (by decide)⟩
  · exact ⟨by rw [h]; decide, fun hnat => absurd (hlocal.symm.trans hnat.2) (by decide)⟩
  · refine ⟨fun hzero => ?_, fun hnat => ?_⟩
    · rw [InUniqueLocal, hzero] at h
      exact absurd h (by decide)
    · rw [InUniqueLocal, hnat.1] at h
      exact absurd h (by decide)
  · refine ⟨fun hzero => ?_, fun hnat => ?_⟩
    · rw [InLinkLocal, hzero] at h
      exact absurd h (by decide)
    · rw [InLinkLocal, hnat.1] at h
      exact absurd h (by decide)

end Ipv6Addr

end Biei.Filesource
