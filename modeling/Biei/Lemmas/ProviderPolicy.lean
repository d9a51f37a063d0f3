import Biei.Lemmas.CacheControl
import Biei.Lemmas.Provider
import Biei.Lib.Fallible

/-! # Lemmas on the policies of provider resources -/

namespace Biei.Provider

open Fetcher

/-! ## Printed policies -/

section Printed

variable (resource : String) (control : ParsedCacheControl)

/-- The numbers of a printed policy that is public. -/
def printedMaxAge : Nat :=
  (control.maxAge.map clampSeconds).getD (if control.sMaxage.isSome then 0 else positiveTtl resource / second)

def printedSMaxage : Nat :=
  ((control.sMaxage.map clampSeconds).or (control.maxAge.map clampSeconds)).getD (positiveTtl resource / second)

def printedSwr : Option Nat :=
  let swr := (control.staleWhileRevalidate.map clampSeconds).getD 0
  if !(control.mustRevalidate || control.proxyRevalidate) && 0 < swr then some swr else none

/-- What is read of a printed policy. -/
def reread : ParsedCacheControl :=
  if control.noStore then { noStore := true }
  else if control.noCache then { noCache := true }
  else if control.private then { «private» := true, maxAge := some ((control.maxAge.map clampSeconds).getD 0) }
  else
    { mustRevalidate := control.mustRevalidate
      proxyRevalidate := !control.mustRevalidate && control.proxyRevalidate
      noTransform := control.noTransform
      immutable := control.immutable
      maxAge := some (printedMaxAge resource control)
      sMaxage := some (printedSMaxage resource control)
      staleWhileRevalidate := printedSwr control }

/-- The tokens of a printed policy. -/
def printedTokens : List (List Char) :=
  if control.noStore then ["no-store".toList]
  else if control.noCache then ["no-cache".toList]
  else if control.private then ["private".toList, secondsToken "max-age" ((control.maxAge.map clampSeconds).getD 0)]
  else
    ["public".toList, secondsToken "max-age" (printedMaxAge resource control),
      secondsToken "s-maxage" (printedSMaxage resource control)] ++
      ((printedSwr control).map (secondsToken "stale-while-revalidate")).toList ++
      (if control.mustRevalidate then ["must-revalidate".toList]
        else if control.proxyRevalidate then ["proxy-revalidate".toList]
        else []) ++
      (if control.noTransform then ["no-transform".toList] else []) ++
      (if control.immutable then ["immutable".toList] else [])

end Printed

theorem toList_secondsToken {name lead : String} (hlead : lead.toList = name.toList ++ ['=']) (n : Nat) :
    (lead ++ toString n).toList = secondsToken name n := by
  rw [String.toList_append, hlead, List.append_assoc]
  rfl

theorem toList_maxAge (n : Nat) : ("max-age=" ++ toString n).toList = secondsToken "max-age" n :=
  toList_secondsToken (by simp) n

theorem toList_sMaxage (n : Nat) : ("s-maxage=" ++ toString n).toList = secondsToken "s-maxage" n :=
  toList_secondsToken (by simp) n

theorem toList_swr (n : Nat) : ("stale-while-revalidate=" ++ toString n).toList = secondsToken "stale-while-revalidate" n :=
  toList_secondsToken (by simp) n

theorem normalizedCacheControl_eq (resource : String) (control : ParsedCacheControl) :
    normalizedCacheControl resource control = ", ".toList.intercalate (printedTokens resource control) := by
  unfold normalizedCacheControl printedTokens
  split
  · simp
  · split
    · simp
    · split
      · simp [secondsToken, List.intercalate]
      · have hswr : (if !(control.mustRevalidate || control.proxyRevalidate) &&
            0 < (control.staleWhileRevalidate.map clampSeconds).getD 0 then
              ["stale-while-revalidate=" ++ toString ((control.staleWhileRevalidate.map clampSeconds).getD 0)] else []).map
                String.toList =
            ((printedSwr control).map (secondsToken "stale-while-revalidate")).toList := by
          unfold printedSwr
          simp only
          split
          · rw [List.map_singleton, toList_swr]
            rfl
          · rfl
        rw [joinDirectives, String.toList_intercalate]
        simp only [List.map_append, List.map_cons, List.map_nil, hswr, apply_ite (List.map String.toList), toList_maxAge,
          toList_sMaxage]
        rfl

theorem clampSeconds_lt (n : Nat) : clampSeconds n < u64Bound := by
  have hbound : maxProviderTtlSeconds < u64Bound := by decide
  unfold clampSeconds
  omega

theorem positiveTtl_div_lt (resource : String) : positiveTtl resource / second < u64Bound := by
  unfold positiveTtl
  split <;> decide

theorem printedMaxAge_lt (resource : String) (control : ParsedCacheControl) : printedMaxAge resource control < u64Bound := by
  unfold printedMaxAge
  cases control.maxAge with
  | some n => exact clampSeconds_lt n
  | none =>
    simp only [Option.map_none, Option.getD_none]
    split
    · decide
    · exact positiveTtl_div_lt resource

theorem printedSMaxage_lt (resource : String) (control : ParsedCacheControl) : printedSMaxage resource control < u64Bound := by
  unfold printedSMaxage
  cases control.sMaxage with
  | some n => exact clampSeconds_lt n
  | none =>
    cases control.maxAge with
    | some n => exact clampSeconds_lt n
    | none => exact positiveTtl_div_lt resource

variable {control : ParsedCacheControl} {n : Nat}

theorem printedSwr_lt (h : printedSwr control = some n) : n < u64Bound := by
  unfold printedSwr at h
  extract_lets swr at h
  split at h
  · rw [← Option.some.inj h]
    unfold swr
    cases control.staleWhileRevalidate with
    | some n => exact clampSeconds_lt n
    | none => decide
  · nomatch h

/-! ## What is read of one token -/

theorem summary_maxAge (h : n < u64Bound) : summary [directive (secondsToken "max-age" n)] = { maxAge := some n } := by
  rw [directive_secondsToken (by decide)]
  show ({ maxAge := some ((parseDeltaSeconds n.repr.toList).getD 0) } : ParsedCacheControl) = _
  rw [parseDeltaSeconds_repr h]
  rfl

theorem summary_sMaxage (h : n < u64Bound) : summary [directive (secondsToken "s-maxage" n)] = { sMaxage := some n } := by
  rw [directive_secondsToken (by decide)]
  show ({ sMaxage := some ((parseDeltaSeconds n.repr.toList).getD 0) } : ParsedCacheControl) = _
  rw [parseDeltaSeconds_repr h]
  rfl

theorem summary_swr (h : n < u64Bound) :
    summary [directive (secondsToken "stale-while-revalidate" n)] = { staleWhileRevalidate := some n } := by
  rw [directive_secondsToken (by decide)]
  show ({ staleWhileRevalidate := some ((parseDeltaSeconds n.repr.toList).getD 0) } : ParsedCacheControl) = _
  rw [parseDeltaSeconds_repr h]
  rfl

/-- What is read of the tokens without a number. -/
theorem summary_flags :
    summary [directive "public".toList] = {} ∧ summary [directive "private".toList] = { «private» := true } ∧
      summary [directive "no-store".toList] = { noStore := true } ∧ summary [directive "no-cache".toList] = { noCache := true } ∧
      summary [directive "must-revalidate".toList] = { mustRevalidate := true } ∧
      summary [directive "proxy-revalidate".toList] = { proxyRevalidate := true } ∧
      summary [directive "no-transform".toList] = { noTransform := true } ∧
      summary [directive "immutable".toList] = { immutable := true } := by
  decide +kernel

variable {resource : String}

/-- The tokens of a printed policy are tokens. -/
theorem isPrintedToken_of_mem :
    ∀ token ∈ printedTokens resource control, IsPrintedToken token := by
  intro token htoken
  have hmaxAge := isPrintedToken_secondsToken (show ∀ c ∈ "max-age".toList, _ by decide)
  have hsMaxage := isPrintedToken_secondsToken (show ∀ c ∈ "s-maxage".toList, _ by decide)
  have hswr := isPrintedToken_secondsToken (show ∀ c ∈ "stale-while-revalidate".toList, _ by decide)
  unfold printedTokens at htoken
  split at htoken
  · rw [List.mem_singleton.mp htoken]
    decide
  split at htoken
  · rw [List.mem_singleton.mp htoken]
    decide
  split at htoken
  · rcases List.mem_cons.mp htoken with rfl | htoken
    · decide
    · rw [List.mem_singleton.mp htoken]
      exact hmaxAge _
  · simp only [List.mem_append, List.mem_cons, List.not_mem_nil, or_false, Option.mem_toList,
      Option.map_eq_some_iff] at htoken
    rcases htoken with ((((rfl | rfl | rfl) | ⟨n, -, rfl⟩) | h) | h) | h
    · decide
    · exact hmaxAge _
    · exact hsMaxage _
    · exact hswr _
    · split at h
      · rw [List.mem_singleton.mp h]
        decide
      · split at h
        · rw [List.mem_singleton.mp h]
          decide
        · nomatch h
    · split at h
      · rw [List.mem_singleton.mp h]
        decide
      · nomatch h
    · split at h
      · rw [List.mem_singleton.mp h]
        decide
      · nomatch h

/-- What is read of a printed policy. -/
theorem parseValues_normalizedCacheControl (resource : String) (control : ParsedCacheControl) :
    parseValues [normalizedCacheControl resource control] = some (reread resource control) := by
  rw [parseValues_eq, List.isEmpty_cons, if_neg Bool.false_ne_true, List.flatMap_singleton, normalizedCacheControl_eq,
    directives_joined isPrintedToken_of_mem]
  obtain ⟨hpublic, hprivate, hnoStore, hnoCache, hmust, hproxy, htransform, himmutable⟩ := summary_flags
  congr 1
  unfold printedTokens reread
  split
  · exact hnoStore
  · split
    · exact hnoCache
    · split
      · rw [List.map_cons, summary_cons, hprivate, List.map_singleton, summary_maxAge]
        · rfl
        · cases control.maxAge with
          | some n => exact clampSeconds_lt n
          | none => decide
      · have hswr : summary (((printedSwr control).map (secondsToken "stale-while-revalidate")).toList.map directive) =
            { staleWhileRevalidate := printedSwr control } := by
          cases h : printedSwr control with
          | none => rfl
          | some n => exact summary_swr (printedSwr_lt h)
        have hhead : summary [directive "public".toList, directive (secondsToken "max-age" (printedMaxAge resource control)),
            directive (secondsToken "s-maxage" (printedSMaxage resource control))] =
            { maxAge := some (printedMaxAge resource control), sMaxage := some (printedSMaxage resource control) } := by
          rw [summary_cons, hpublic, summary_cons, summary_maxAge (printedMaxAge_lt _ _), summary_sMaxage (printedSMaxage_lt _ _)]
          rfl
        simp only [List.map_append, List.map_cons, List.map_nil, summary_append, hhead, hswr, apply_ite (List.map directive),
          apply_ite summary, hmust, hproxy, htransform, himmutable, summary_nil]
        cases control.mustRevalidate <;> cases control.proxyRevalidate <;> cases control.noTransform <;>
          cases control.immutable <;>
          simp [ParsedCacheControl.merge]

/-! ## The policy that is read back -/

theorem clampSeconds_of_le (h : n ≤ maxProviderTtlSeconds) : clampSeconds n = n := Nat.min_eq_left h

theorem clampSeconds_le (n : Nat) : clampSeconds n ≤ maxProviderTtlSeconds := Nat.min_le_right _ _

theorem clampTtl_clampSeconds (n : Nat) : clampTtl (clampSeconds n) = clampTtl n := by
  rw [clampTtl, clampTtl, clampSeconds]
  rcases Nat.le_total n maxProviderTtlSeconds with h | h
  · rw [Nat.min_eq_left h]
  · have hmul : maxProviderTtl ≤ n * second := Nat.mul_le_mul_right second h
    rw [Nat.min_eq_right h, Nat.min_eq_right hmul]
    exact Nat.min_self _

theorem positiveTtl_div_le (resource : String) : positiveTtl resource / second ≤ maxProviderTtlSeconds := by
  unfold positiveTtl
  split <;> decide

theorem clampTtl_positiveTtl (resource : String) : clampTtl (positiveTtl resource / second) = positiveTtl resource := by
  unfold positiveTtl
  split <;> rfl

theorem printedMaxAge_le (resource : String) (control : ParsedCacheControl) :
    printedMaxAge resource control ≤ maxProviderTtlSeconds := by
  unfold printedMaxAge
  cases control.maxAge with
  | some n => exact clampSeconds_le n
  | none =>
    simp only [Option.map_none, Option.getD_none]
    split
    · exact Nat.zero_le _
    · exact positiveTtl_div_le resource

theorem printedSMaxage_le (resource : String) (control : ParsedCacheControl) :
    printedSMaxage resource control ≤ maxProviderTtlSeconds := by
  unfold printedSMaxage
  cases control.sMaxage with
  | some n => exact clampSeconds_le n
  | none =>
    cases control.maxAge with
    | some n => exact clampSeconds_le n
    | none => exact positiveTtl_div_le resource

/-- The stale window that is printed, when one is. -/
theorem printedSwr_eq_some (h : printedSwr control = some n) :
    0 < n ∧ n ≤ maxProviderTtlSeconds ∧ (control.mustRevalidate || control.proxyRevalidate) = false ∧
      (control.staleWhileRevalidate.map clampSeconds).getD 0 = n := by
  unfold printedSwr at h
  extract_lets swr at h
  split at h
  · rename_i hprinted
    simp only [Bool.and_eq_true, Bool.not_eq_true', decide_eq_true_eq] at hprinted
    obtain rfl := Option.some.inj h
    refine ⟨hprinted.2, ?_, hprinted.1, rfl⟩
    unfold swr
    cases control.staleWhileRevalidate with
    | some n => exact clampSeconds_le n
    | none => exact Nat.zero_le _
  · nomatch h

theorem printedSwr_eq_none (h : printedSwr control = none)
    (hrevalidate : (control.mustRevalidate || control.proxyRevalidate) = false) :
    (control.staleWhileRevalidate.map clampSeconds).getD 0 = 0 := by
  unfold printedSwr at h
  extract_lets swr at h
  rw [hrevalidate] at h
  split at h
  · nomatch h
  · rename_i hprinted
    simpa using hprinted

/-- A policy that is public is printed in full. -/
theorem reread_of_public (hnoStore : control.noStore = false) (hnoCache : control.noCache = false)
    (hprivate : control.private = false) :
    reread resource control =
      { mustRevalidate := control.mustRevalidate
        proxyRevalidate := !control.mustRevalidate && control.proxyRevalidate
        noTransform := control.noTransform
        immutable := control.immutable
        maxAge := some (printedMaxAge resource control)
        sMaxage := some (printedSMaxage resource control)
        staleWhileRevalidate := printedSwr control } := by
  rw [reread, hnoStore, hnoCache, hprivate]
  rfl

theorem printedSwr_reread (hnoStore : control.noStore = false) (hnoCache : control.noCache = false)
    (hprivate : control.private = false) :
    printedSwr (reread resource control) = printedSwr control := by
  rw [reread_of_public hnoStore hnoCache hprivate]
  conv_lhs => rw [printedSwr]
  cases h : printedSwr control with
  | none =>
    refine if_neg ?_
    rw [Option.map_none, Option.getD_none]
    simp only [Nat.lt_irrefl, decide_false, Bool.and_false, Bool.false_eq_true, not_false_eq_true]
  | some n =>
    obtain ⟨hpos, hle, hrevalidate, -⟩ := printedSwr_eq_some h
    rw [Bool.or_eq_false_iff] at hrevalidate
    simp only [hrevalidate, Option.map_some, Option.getD_some, clampSeconds_of_le hle, hpos, decide_true, Bool.and_false,
      Bool.or_false,
      Bool.not_false, Bool.and_true, if_true]

/-- What is read of a printed policy is printed the same. -/
theorem printedTokens_reread (resource : String) (control : ParsedCacheControl) :
    printedTokens resource (reread resource control) = printedTokens resource control := by
  cases hnoStore : control.noStore with
  | true => simp only [reread, printedTokens, hnoStore, if_true]
  | false =>
  cases hnoCache : control.noCache with
  | true => simp only [reread, printedTokens, hnoStore, hnoCache, if_true, Bool.false_eq_true, if_false]
  | false =>
  cases hprivate : control.private with
  | true =>
    have hclamp : clampSeconds ((control.maxAge.map clampSeconds).getD 0) = (control.maxAge.map clampSeconds).getD 0 := by
      refine clampSeconds_of_le ?_
      cases control.maxAge with
      | some n => exact clampSeconds_le n
      | none => exact Nat.zero_le _
    simp only [reread, printedTokens, hnoStore, hnoCache, hprivate, if_true, Bool.false_eq_true, if_false, Option.map_some,
      Option.getD_some, hclamp]
  | false =>
    have hswr : printedSwr (reread resource control) = printedSwr control := printedSwr_reread hnoStore hnoCache hprivate
    have hmaxAge : printedMaxAge resource (reread resource control) = printedMaxAge resource control := by
      rw [reread_of_public hnoStore hnoCache hprivate]
      exact clampSeconds_of_le (printedMaxAge_le resource control)
    have hsMaxage : printedSMaxage resource (reread resource control) = printedSMaxage resource control := by
      rw [reread_of_public hnoStore hnoCache hprivate]
      exact clampSeconds_of_le (printedSMaxage_le resource control)
    conv_lhs => rw [printedTokens, hmaxAge, hsMaxage, hswr, reread_of_public hnoStore hnoCache hprivate]
    conv_rhs => rw [printedTokens]
    rw [hnoStore, hnoCache, hprivate]
    cases control.mustRevalidate <;> rfl

/-- The policy of a parse. -/
def policyOf (resource : String) (control : ParsedCacheControl) : CachePolicy :=
  if bypasses control then ⟨false, 0, 0, normalizedCacheControl resource control⟩
  else
    ⟨true, ((control.sMaxage.or control.maxAge).map clampTtl).getD (positiveTtl resource),
      if control.mustRevalidate || control.proxyRevalidate then 0 else (control.staleWhileRevalidate.map clampTtl).getD 0,
      normalizedCacheControl resource control⟩

variable {values : List (List Char)}

theorem cachePolicyWithFreshnessValues_eq (h : parseValues values = some control) :
    cachePolicyWithFreshnessValues resource values = (policyOf resource control, hasExplicitFreshness (some control)) := by
  unfold cachePolicyWithFreshnessValues policyOf
  rw [h]
  simp only
  split <;> rfl

theorem clampTtl_printedSMaxage (resource : String) (control : ParsedCacheControl) :
    clampTtl (printedSMaxage resource control) = ((control.sMaxage.or control.maxAge).map clampTtl).getD
      (positiveTtl resource) := by
  unfold printedSMaxage
  cases control.sMaxage with
  | some n =>
    rw [Option.map_some, Option.some_or, Option.some_or, Option.map_some, Option.getD_some, Option.getD_some]
    exact clampTtl_clampSeconds n
  | none =>
    rw [Option.map_none, Option.none_or, Option.none_or]
    cases control.maxAge with
    | some n =>
      rw [Option.map_some, Option.map_some, Option.getD_some, Option.getD_some]
      exact clampTtl_clampSeconds n
    | none =>
      rw [Option.map_none, Option.map_none, Option.getD_none, Option.getD_none]
      exact clampTtl_positiveTtl resource

theorem clampTtl_zero : clampTtl 0 = 0 := by rw [clampTtl, Nat.zero_mul, Nat.zero_min]

theorem getD_map_clampTtl (seconds : Option Nat) : (seconds.map clampTtl).getD 0 = clampTtl
    ((seconds.map clampSeconds).getD 0) := by
  cases seconds with
  | some n =>
    rw [Option.map_some, Option.map_some, Option.getD_some, Option.getD_some]
    exact (clampTtl_clampSeconds n).symm
  | none =>
    rw [Option.map_none, Option.map_none, Option.getD_none]
    exact clampTtl_zero.symm

/-- The stale window that is read back is the one there was. -/
theorem swr_reread (control : ParsedCacheControl) :
    (if (control.mustRevalidate || !control.mustRevalidate && control.proxyRevalidate) = true then 0
      else ((printedSwr control).map clampTtl).getD 0) =
      if (control.mustRevalidate || control.proxyRevalidate) = true then 0
      else (control.staleWhileRevalidate.map clampTtl).getD 0 := by
  have hor : (control.mustRevalidate || !control.mustRevalidate && control.proxyRevalidate) =
      (control.mustRevalidate || control.proxyRevalidate) := by cases control.mustRevalidate <;> rfl
  rw [hor]
  cases hrevalidate : control.mustRevalidate || control.proxyRevalidate with
  | true => rfl
  | false =>
    rw [if_neg Bool.false_ne_true, if_neg Bool.false_ne_true, getD_map_clampTtl control.staleWhileRevalidate]
    cases h : printedSwr control with
    | none =>
      rw [printedSwr_eq_none h hrevalidate, Option.map_none, Option.getD_none]
      exact clampTtl_zero.symm
    | some n => rw [(printedSwr_eq_some h).2.2.2, Option.map_some, Option.getD_some]

/-- A printed policy is read back as itself. -/
theorem policyOf_reread (resource : String) (control : ParsedCacheControl) :
    policyOf resource (reread resource control) = policyOf resource control := by
  have hprinted : normalizedCacheControl resource (reread resource control) = normalizedCacheControl resource control := by
    rw [normalizedCacheControl_eq, printedTokens_reread, ← normalizedCacheControl_eq]
  have hbypasses : bypasses (reread resource control) = bypasses control := by
    unfold bypasses reread
    cases control.noStore <;> cases control.noCache <;> cases control.private <;> rfl
  cases hb : bypasses control with
  | true => simp only [policyOf, hbypasses, hb, if_true, hprinted]
  | false =>
    simp only [bypasses, Bool.or_eq_false_iff] at hb
    obtain ⟨⟨hnoStore, hnoCache⟩, hprivate⟩ := hb
    have hfresh : (((some (printedSMaxage resource control)).or (some (printedMaxAge resource control))).map clampTtl).getD
        (positiveTtl resource) = ((control.sMaxage.or control.maxAge).map clampTtl).getD (positiveTtl resource) := by
      rw [Option.some_or, Option.map_some, Option.getD_some]
      exact clampTtl_printedSMaxage resource control
    have hb : bypasses control = false := by rw [bypasses, hnoStore, hnoCache, hprivate]; rfl
    rw [policyOf, hbypasses, policyOf, hprinted, hb, if_neg Bool.false_ne_true, if_neg Bool.false_ne_true,
      reread_of_public hnoStore hnoCache hprivate]
    exact congrArg₂ (fun fresh swr => CachePolicy.mk true fresh swr _) hfresh (swr_reread control)

/-! ## Policies of values -/

theorem exists_parseValues (h : values ≠ []) : ∃ control, parseValues values = some control := by
  rw [parseValues_eq, if_neg (by simpa using h)]
  exact ⟨_, rfl⟩

theorem cachePolicyValues_eq (h : parseValues values = some control) :
    cachePolicyValues resource values = policyOf resource control := by
  rw [cachePolicyValues, cachePolicyWithFreshnessValues_eq h]

theorem responseCacheControl_policyOf (resource : String) (control : ParsedCacheControl) :
    (policyOf resource control).responseCacheControl = normalizedCacheControl resource control := by
  unfold policyOf
  split <;> rfl

/-- The policy of values is that of what is printed for them. -/
theorem cachePolicy_printed (resource : String) (h : values ≠ []) :
    cachePolicy resource (some (cachePolicyValues resource values).responseCacheControl) = cachePolicyValues resource values := by
  obtain ⟨control, hcontrol⟩ := exists_parseValues h
  rw [cachePolicyValues_eq hcontrol, responseCacheControl_policyOf, cachePolicy, Option.toList_some,
    cachePolicyValues_eq (parseValues_normalizedCacheControl resource control), policyOf_reread]

theorem clampTtl_le (n : Nat) : clampTtl n ≤ maxProviderTtl := Nat.min_le_right _ _

theorem getD_map_clampTtl_le {seconds : Option Nat} {default : Duration} (h : default ≤ maxProviderTtl) :
    (seconds.map clampTtl).getD default ≤ maxProviderTtl := by
  cases seconds with
  | some n =>
    rw [Option.map_some, Option.getD_some]
    exact clampTtl_le n
  | none =>
    rw [Option.map_none, Option.getD_none]
    exact h

theorem windows_policyOf_le (resource : String) (control : ParsedCacheControl) :
    (policyOf resource control).fresh ≤ maxProviderTtl ∧ (policyOf resource control).swr ≤ maxProviderTtl := by
  have hdefault : positiveTtl resource ≤ maxProviderTtl := by
    unfold positiveTtl
    split
    · exact Nat.mul_le_mul_right second (show 86400 ≤ maxProviderTtlSeconds by decide)
    · exact Nat.mul_le_mul_right second (show 300 ≤ maxProviderTtlSeconds by decide)
  unfold policyOf
  split
  · exact ⟨Nat.zero_le _, Nat.zero_le _⟩
  · refine ⟨getD_map_clampTtl_le hdefault, ?_⟩
    split
    · exact Nat.zero_le _
    · exact getD_map_clampTtl_le (Nat.zero_le _)

/-! ## Policies of entries -/

/-- A policy that has no stale window, or is that of what is printed for it. -/
def CachePolicy.Settled (resource : String) (policy : CachePolicy) : Prop :=
  policy.swr = 0 ∨ cachePolicy resource (some policy.responseCacheControl) = policy

theorem settled_cachePolicyValues (resource : String) (values : List (List Char)) :
    (cachePolicyValues resource values).Settled resource := by
  by_cases h : values = []
  · subst h
    exact Or.inl rfl
  · exact Or.inr (cachePolicy_printed resource h)

def ProviderOriginOutcome.Settled (resource : String) : ProviderOriginOutcome → Prop
  | .modified fetched => fetched.policy.Settled resource
  | .notModified fetched => fetched.policy.Settled resource
  | .negative _ => True

theorem settled_revalidatedProviderResource (env : HttpEnv) (cached : CachedProviderRepresentation) (resource : String)
    (reply : Option HttpReply) : (revalidatedProviderResource env cached resource reply).policy.Settled resource := by
  unfold revalidatedProviderResource
  dsimp only
  split
  · exact settled_cachePolicyValues resource _
  · exact settled_cachePolicyValues resource _

variable {env : ProviderEnv} {request : ProviderRequest} {revalidate : Option CachedProviderRepresentation}

variable {outcome : ProviderOriginOutcome}

theorem fetchHttpProvider_settled {reply : HttpReply} (h : fetchHttpProvider env request revalidate reply = .ok outcome) :
    outcome.Settled request.resource := by
  unfold fetchHttpProvider at h
  dsimp only at h
  split at h
  · split at h
    · cases h
    · cases h
      exact settled_revalidatedProviderResource _ _ _ _
  · split at h
    · cases h
      trivial
    · obtain ⟨_, -, h⟩ := Except.bind_eq_ok_iff.mp h
      split at h
      · cases h
      · obtain ⟨_, -, h⟩ := Except.bind_eq_ok_iff.mp h
        obtain ⟨_, -, h⟩ := Except.bind_eq_ok_iff.mp h
        cases h
        exact settled_cachePolicyValues _ _

theorem fetchObjectStoreProvider_settled {reply : ObjectReply}
    (h : fetchObjectStoreProvider env request revalidate reply = .ok outcome) : outcome.Settled request.resource := by
  unfold fetchObjectStoreProvider at h
  split at h
  · cases h
  · split at h
    · cases h
      exact settled_revalidatedProviderResource _ _ _ _
    · cases h
  · cases h
    trivial
  · cases h
  · split at h
    · cases h
    · obtain ⟨_, -, h⟩ := Except.bind_eq_ok_iff.mp h
      split at h
      · cases h
      · split at h
        · cases h
        · cases h
          exact settled_cachePolicyValues _ _

theorem fetchProvider_settled {answer : OriginAnswer} (h : fetchProvider env request revalidate answer = some (.ok outcome)) :
    outcome.Settled request.resource := by
  unfold fetchProvider at h
  split at h
  · cases h
  · cases h
  · cases h
  · split at h
    · cases h
    · split at h
      · exact fetchHttpProvider_settled (Option.some.inj h)
      · cases h
    · split at h <;> cases h
    · split at h
      · cases h
      · exact fetchObjectStoreProvider_settled (Option.some.inj h)
    · cases h

/-- Whatever a fetch ends with has a settled policy. -/
theorem fetch_settled {answer : OriginAnswer}
    (h : fetchLimitedBytesUncached env request revalidate answer = some (.ok outcome)) : outcome.Settled request.resource := by
  unfold fetchLimitedBytesUncached at h
  obtain ⟨result, hresult, hdone⟩ := Option.map_eq_some_iff.mp h
  obtain ⟨fetched, rfl, hchecked⟩ := Except.bind_eq_ok_iff.mp hdone
  have hsettled := fetchProvider_settled hresult
  cases fetched with
  | modified resource =>
    dsimp only at hchecked
    obtain ⟨_, -, hok⟩ := Except.bind_eq_ok_iff.mp hchecked
    cases hok
    exact hsettled
  | notModified resource =>
    cases hchecked
    exact hsettled
  | negative miss =>
    cases hchecked
    exact hsettled

/-- An entry keeps what was printed for its policy, and that policy is settled. -/
def CachedProviderFetch.Settled (resource : String) : CachedProviderFetch → Prop
  | .found e => e.cacheControl = e.policy.responseCacheControl ∧ e.policy.Settled resource
  | .negative _ => True

theorem ProviderOriginOutcome.Settled.entry {now : Instant}
    {e : CachedProviderFetch} (h : outcome.Settled resource) (he : outcome.entry now = some e) : e.Settled resource := by
  unfold ProviderOriginOutcome.entry at he
  split at he
  · cases he
  · split at he <;> cases he
    · exact ⟨rfl, h⟩
    · exact ⟨rfl, h⟩
    · trivial

/-- What an actor is about to store. -/
def Phase.Pending (resource : String) : Phase → Prop
  | .storing outcome => outcome.Settled resource
  | .deciding outcome => outcome.Settled resource
  | _ => True

variable {s : Fetcher}

theorem Does.pending {a : Actor} {m : Move} (h : Does env s a m)
    (hbefore : a.phase.Pending a.request.resource) : m.phase.Pending a.request.resource := by
  have hm := h.moved
  obtain ⟨request, background, phase⟩ := a
  cases hm with
  | answered hresult =>
    unfold afterFetch
    split
    · split <;> trivial
    · exact fetch_settled hresult
  | stored => exact hbefore
  | unhindered _ => unfold allowed; split <;> trivial
  | lapsed => unfold allowed; split <;> trivial
  | hindered _ _ => unfold refusedRevalidation; split <;> trivial
  | _ => trivial

/-- Every entry, and everything that is about to be stored, is settled. -/
structure Fetcher.Settled (s : Fetcher) : Prop where
  entries : s.Everywhere fun _ key e => e.Settled key.resource
  pending : ∀ (i : Nat) (a : Actor), s.actors[i]? = some a → a.phase.Pending a.request.resource

theorem Fetcher.Settled.init (env : ProviderEnv) (start : Instant) : (fetcher env start).init.Settled :=
  ⟨Fetcher.Everywhere.init env start, fun i a h => by
    rw [show (fetcher env start).init.actors = [] from rfl] at h
    cases h⟩

theorem Fetcher.Settled.step {s s' : Fetcher} {act : Action} (h : s.Settled) (hstep : s.step env act = some s') :
    s'.Settled := by
  refine ⟨h.entries.step (fun _ _ _ _ he => he) (fun i a outcome e ha hp he => ?_) hstep, ?_⟩
  · have hpending := h.pending i a ha
    rw [hp] at hpending
    exact ProviderOriginOutcome.Settled.entry hpending he
  · rcases step_cases hstep with ⟨i, a, m, ha, hd, rfl⟩ | ⟨endpoint, url, rfl⟩ | ⟨d, rfl⟩ | ⟨key, rfl⟩ | ⟨key, rfl⟩
    · intro j b hb
      rcases apply_actors_cases ha hb with ⟨-, rfl⟩ | ⟨p, hp, rfl⟩ | ⟨-, hb⟩
      · exact hd.pending (h.pending i a ha)
      · obtain ⟨_, _, r, -, -, rfl⟩ := hd.spawned hp
        trivial
      · exact h.pending j b hb
    · intro j b hb
      rcases getElem?_concat_cases hb with ⟨-, rfl⟩ | hb
      · trivial
      · exact h.pending j b hb
    · exact h.pending
    · exact h.pending
    · exact h.pending

theorem settled_of_reachable {start : Instant} (h : (fetcher env start).Reachable s) : s.Settled :=
  h.invariant (Fetcher.Settled.init env start) fun _ _ _ hi hs => hi.step hs

/-- An entry that is stale has the policy of what is printed for it. -/
theorem cachePolicy_of_stale {start : Instant} (h : (fetcher env start).Reachable s)
    {key : ProviderFetchCacheKey} {e : FoundEntry} (he : s.entries key = some (.found e))
    (hstale : (CachedProviderFetch.found e).freshness s.now = .stale) :
    e.cacheControl = e.policy.responseCacheControl ∧ cachePolicy key.resource (some e.cacheControl) = e.policy := by
  obtain ⟨hprinted, hsettled⟩ := (settled_of_reachable h).entries.entries key _ he
  obtain ⟨-, hfresh, hend⟩ := (timely_of_reachable h).timed.entries key _ he
  refine ⟨hprinted, ?_⟩
  rcases hsettled with hswr | hsettled
  · -- Without a stale window an entry is expired as soon as it is not fresh.
    rw [hswr, Nat.add_zero, ← hfresh] at hend
    unfold CachedProviderFetch.freshness CachedProviderFetch.freshUntil CachedProviderFetch.staleUntil at hstale
    simp only [hend] at hstale
    split at hstale
    · nomatch hstale
    · nomatch hstale
  · rw [hprinted]
    exact hsettled

/-- An entry after answers that renew it, each stored when it comes. -/
def renewedEntry (env : HttpEnv) (resource : String) : FoundEntry → List (Option HttpReply × Instant) → FoundEntry
  | e, [] => e
  | e, (reply, storedAt) :: rest =>
    renewedEntry env resource
      (foundEntry (revalidatedProviderResource env ⟨e.bytes, e.cacheControl, e.validators, e.contentEncoding⟩ resource reply)
        storedAt) rest

/-- An answer that says nothing about caching. -/
def SaysNothing (reply : Option HttpReply) : Prop := ∀ r, reply = some r → r.headers.getAllStr "cache-control" = []

theorem policy_revalidated {env : HttpEnv} {cached : CachedProviderRepresentation} {reply : Option HttpReply}
    (h : SaysNothing reply) : (revalidatedProviderResource env cached resource reply).policy =
      cachePolicy resource (some cached.cacheControl) := by
  unfold revalidatedProviderResource
  cases reply with
  | none => rfl
  | some r =>
    dsimp only
    rw [Option.map_some, Option.getD_some, h r rfl]
    rfl

/-- However often it is renewed, a settled policy stays. -/
theorem policy_renewedEntry {env : HttpEnv} (replies : List (Option HttpReply × Instant))
    (hreplies : ∀ r ∈ replies, SaysNothing r.1) : ∀ e : FoundEntry, cachePolicy resource (some e.cacheControl) = e.policy →
      e.cacheControl = e.policy.responseCacheControl → (renewedEntry env resource e replies).policy = e.policy := by
  induction replies with
  | nil => exact fun e _ _ => rfl
  | cons r replies ih =>
    intro e hpolicy hprinted
    rw [List.forall_mem_cons] at hreplies
    have hrenewed : (revalidatedProviderResource env ⟨e.bytes, e.cacheControl, e.validators, e.contentEncoding⟩ resource
      r.1).policy =
        e.policy := (policy_revalidated hreplies.1).trans hpolicy
    rw [renewedEntry, ih hreplies.2]
    · exact hrenewed
    · show cachePolicy resource (some (revalidatedProviderResource _ _ _ _).policy.responseCacheControl) = _
      rw [hrenewed, ← hprinted, hpolicy]
      exact hrenewed.symm
    · rfl

end Biei.Provider
