import Biei.Config
import Biei.Http.Headers

/-!
# Cache policy of provider resources

How ishikari reads the `Cache-Control` of an upstream: whether the bytes enter its shared cache, how long they are fresh, how much
longer they may be served while they are revalidated, and the policy it gives downstream.
-/

namespace Biei.Provider

def styleCacheControl : String := "public, max-age=300, s-maxage=3600, stale-while-revalidate=86400"

def glyphSpriteCacheControl : String := "public, max-age=86400, s-maxage=604800, stale-while-revalidate=604800"

def stylePositiveTtl : Duration := 300 * second

def glyphSpritePositiveTtl : Duration := 86400 * second

def providerNegativeTtl : Duration := 30 * second

def maxProviderTtlSeconds : Nat := 7 * 86400

def maxProviderTtl : Duration := maxProviderTtlSeconds * second

structure CachePolicy where
  /-- When false, the bytes are returned but never kept. -/
  store : Bool
  fresh : Duration
  /-- How long past `fresh` the entry is served while it is revalidated. -/
  swr : Duration
  responseCacheControl : List Char
deriving DecidableEq

structure NegativeCachePolicy where
  store : Bool
  fresh : Duration
deriving DecidableEq

def positiveTtl (resource : String) : Duration :=
  if resource = "glyph" ∨ resource = "sprite" then glyphSpritePositiveTtl else stylePositiveTtl

def defaultResponseCacheControl (resource : String) : String :=
  if resource = "style" then styleCacheControl
  else if resource = "glyph" ∨ resource = "sprite" then glyphSpriteCacheControl
  else "no-cache"

/-- `CachePolicy::defaulted`. -/
def CachePolicy.defaulted (resource : String) : CachePolicy :=
  ⟨true, positiveTtl resource, 0, (defaultResponseCacheControl resource).toList⟩

/-- Whether a response may not enter a shared cache without being validated each time. -/
def bypasses (control : ParsedCacheControl) : Bool := control.noStore || control.noCache || control.private

def clampSeconds (seconds : Nat) : Nat := min seconds maxProviderTtlSeconds

/-- The directives, joined by commas. -/
def joinDirectives (directives : List String) : List Char := (", ".intercalate directives).toList

/-- `normalized_cache_control`. -/
def normalizedCacheControl (resource : String) (control : ParsedCacheControl) : List Char :=
  if control.noStore then "no-store".toList
  else if control.noCache then "no-cache".toList
  else if control.private then ("private, max-age=" ++ toString ((control.maxAge.map clampSeconds).getD 0)).toList
  else
    let defaultFresh := positiveTtl resource / second
    let maxAge := (control.maxAge.map clampSeconds).getD (if control.sMaxage.isSome then 0 else defaultFresh)
    let sMaxage := ((control.sMaxage.map clampSeconds).or (control.maxAge.map clampSeconds)).getD defaultFresh
    let swr := (control.staleWhileRevalidate.map clampSeconds).getD 0
    joinDirectives
      (["public", "max-age=" ++ toString maxAge, "s-maxage=" ++ toString sMaxage] ++
        (if !(control.mustRevalidate || control.proxyRevalidate) && 0 < swr then ["stale-while-revalidate=" ++ toString swr] else
          []) ++
        (if control.mustRevalidate then ["must-revalidate"]
          else if control.proxyRevalidate then ["proxy-revalidate"]
          else []) ++
        (if control.noTransform then ["no-transform"] else []) ++
        (if control.immutable then ["immutable"] else []))

/-- The values name a `max-age` or an `s-maxage`. -/
def hasExplicitFreshness (control : Option ParsedCacheControl) : Bool :=
  control.any fun control => control.maxAge.isSome || control.sMaxage.isSome

def clampTtl (seconds : Nat) : Duration := min (seconds * second) maxProviderTtl

/-- `cache_policy_with_freshness_values`. -/
def cachePolicyWithFreshnessValues (resource : String) (upstream : List (List Char)) : CachePolicy × Bool :=
  match parseValues upstream with
  | none => (.defaulted resource, false)
  | some control =>
    let responseCacheControl := normalizedCacheControl resource control
    let explicit := hasExplicitFreshness (some control)
    if bypasses control then (⟨false, 0, 0, responseCacheControl⟩, explicit)
    else
      let fresh := ((control.sMaxage.or control.maxAge).map clampTtl).getD (positiveTtl resource)
      let swr := if control.mustRevalidate || control.proxyRevalidate then 0 else
        (control.staleWhileRevalidate.map clampTtl).getD 0
      (⟨true, fresh, swr, responseCacheControl⟩, explicit)

def cachePolicyValues (resource : String) (upstream : List (List Char)) : CachePolicy :=
  (cachePolicyWithFreshnessValues resource upstream).1

/-- `cache_policy`: of one field, if there is one. -/
def cachePolicy (resource : String) (upstream : Option (List Char)) : CachePolicy := cachePolicyValues resource upstream.toList

/-- `negative_cache_policy_with_freshness_values`. -/
def negativeCachePolicyWithFreshnessValues (upstream : List (List Char)) : NegativeCachePolicy × Bool :=
  match parseValues upstream with
  | none => (⟨true, providerNegativeTtl⟩, false)
  | some control =>
    let explicit := hasExplicitFreshness (some control)
    if bypasses control then (⟨false, 0⟩, explicit)
    else
      let fresh := ((control.sMaxage.or control.maxAge).map fun seconds => seconds * second).getD providerNegativeTtl
      (⟨true, min fresh providerNegativeTtl⟩, explicit)

def negativeCachePolicyValues (upstream : List (List Char)) : NegativeCachePolicy :=
  (negativeCachePolicyWithFreshnessValues upstream).1

end Biei.Provider
