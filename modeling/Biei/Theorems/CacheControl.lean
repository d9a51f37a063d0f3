import Biei.Lemmas.ProviderPolicy
import Biei.Theorems.Provider

/-! # Cache-Control is read conservatively -/

namespace Biei

open Quoted

/-- Cache-Control is read conservatively. The iterator ends, and yields what stands between the commas outside quotes, where a
quote that is not closed takes the rest of its field; the parse of more fields is the merge of the parses, whatever the order;
more directives never make it looser; malformed numbers count as zero and large ones as the largest; and the reducer of one
directive agrees with the parse. -/
theorem cache_control_conservative :
    (∀ text, Directives.collect text = some (directives text)) ∧
    (∀ text, ∃ init last, text = [','].intercalate (init ++ [last]) ∧ (∀ piece ∈ init, Balanced true ',' piece) ∧
      (Balanced true ',' last ∨ Unterminated true ',' last)) ∧
    (∀ init last, (∀ piece ∈ init, Balanced true ',' piece) → (Balanced true ',' last ∨ Unterminated true ',' last) →
      directives ([','].intercalate (init ++ [last])) =
        (((init ++ [last]).map trim).filter fun token => !token.isEmpty).map directive) ∧
    (∀ values values', parseValues (values ++ values') =
      Option.merge ParsedCacheControl.merge (parseValues values) (parseValues values')) ∧
    (∀ values values', values.Perm values' → parseValues values = parseValues values') ∧
    (∀ values values', (values = [] ↔ values' = []) → (values.flatMap directives).Perm (values'.flatMap directives) →
      parseValues values = parseValues values') ∧
    (∀ values values' control, parseValues values = some control → values.flatMap directives ⊆ values'.flatMap directives →
      values' ≠ [] → ∃ control', parseValues values' = some control' ∧ control.NotLooser control') ∧
    (∀ d : Directive, d.deltaSeconds.getD 0 = match d.value with
      | some value => if value ≠ [] ∧ value.all Char.isDigit = true then min (decimal value) (2 ^ 64 - 1) else 0
      | none => 0) ∧
    ∀ values, (parseValues values).bind ParsedCacheControl.maxAge = conservativeDeltaSecondsValues values "max-age" ∧
      (parseValues values).bind ParsedCacheControl.sMaxage = conservativeDeltaSecondsValues values "s-maxage" ∧
      (parseValues values).bind ParsedCacheControl.staleWhileRevalidate =
        conservativeDeltaSecondsValues values "stale-while-revalidate" := by
  have hperm : ∀ values values', (values = [] ↔ values' = []) → (values.flatMap directives).Perm (values'.flatMap directives) →
      parseValues values = parseValues values' := by
    intro values values' hempty hperm
    rw [parseValues_eq, parseValues_eq, summary_perm hperm]
    simp only [List.isEmpty_iff, hempty]
  refine ⟨Directives.collect_eq, fun text => ?_, fun init last hinit hlast => ?_, fun values values' => ?_,
    fun values values' h => ?_,
    hperm, fun values values' control hcontrol hsub hne => ?_, fun d => ?_, fun values => ?_⟩
  · obtain ⟨init, last, -, h⟩ := exists_pieces true (show ',' ≠ '\"' by decide) text
    exact ⟨init, last, h⟩
  · rw [directives_eq, fieldPieces, pieces_intercalate (by decide) hinit hlast]
  · rw [parseValues_eq, parseValues_eq, parseValues_eq, List.flatMap_append]
    cases values with
    | nil => cases values' <;> rfl
    | cons value values =>
      cases values' with
      | nil => simp
      | cons value' values' => simp only [List.cons_append, List.isEmpty_cons, summary_append]; rfl
  · exact hperm values values' ⟨fun hnil => (hnil ▸ h).nil_eq.symm, fun hnil => (hnil ▸ h).eq_nil⟩ (h.flatMap_right directives)
  · rw [parseValues_eq] at hcontrol
    rw [parseValues_eq, if_neg (by simpa using hne)]
    split at hcontrol
    · nomatch hcontrol
    · cases hcontrol
      exact ⟨_, rfl, notLooser_summary hsub⟩
  · unfold Directive.deltaSeconds
    cases d.value with
    | none => rfl
    | some value =>
      rw [Option.bind_some, parseDeltaSeconds_eq]
      by_cases hvalue : value ≠ [] ∧ value.all Char.isDigit = true
      · rw [if_pos hvalue]
        exact (if_pos hvalue).symm
      · rw [if_neg hvalue]
        exact (if_neg hvalue).symm
  · rw [parseValues_eq]
    cases values with
    | nil => exact ⟨rfl, rfl, rfl⟩
    | cons value values => exact ⟨rfl, rfl, rfl⟩

/-- Two fields in either order. -/
theorem cache_control_conservative_reordered :
    parseValues ["max-age=60".toList, "extension=\"private,no-store\"".toList] =
      parseValues ["extension=\"private,no-store\"".toList, "max-age=60".toList] :=
  cache_control_conservative.2.2.2.2.1 _ _ (List.Perm.swap _ _ [])

end Biei

namespace Biei.Provider

/-- A printed policy is a fixed point: whatever the kind and the values, what is printed for them is a header value that is read
back as the same policy, with bounded windows; and an entry that is reached as stale keeps its policy through any answers that
renew it and say nothing. -/
theorem normalized_cache_control_fixed :
    (∀ resource values, values ≠ [] →
      cachePolicy resource (some (cachePolicyValues resource values).responseCacheControl) = cachePolicyValues resource values ∧
      (cachePolicyValues resource values).fresh ≤ maxProviderTtl ∧ (cachePolicyValues resource values).swr ≤ maxProviderTtl ∧
      ∃ value, headerFromText (cachePolicyValues resource values).responseCacheControl = some value ∧
        headerToStr value = some (cachePolicyValues resource values).responseCacheControl) ∧
    ∀ env start s, (fetcher env start).Reachable s → ∀ key e, s.entries key = some (.found e) →
      (CachedProviderFetch.found e).freshness s.now = .stale → ∀ replies, (∀ r ∈ replies, SaysNothing r.1) →
        (renewedEntry env.toHttpEnv key.resource e replies).policy = e.policy := by
  refine ⟨fun resource values h => ?_, fun env start s hs key e he hstale replies hreplies => ?_⟩
  · obtain ⟨control, hcontrol⟩ := exists_parseValues h
    have hwindows := windows_policyOf_le resource control
    refine ⟨cachePolicy_printed resource h, ?_, ?_, ?_⟩
    · rw [cachePolicyValues_eq hcontrol]
      exact hwindows.1
    · rw [cachePolicyValues_eq hcontrol]
      exact hwindows.2
    · have hvisible := isVisible_joined (isPrintedToken_of_mem : ∀ token ∈ printedTokens resource control, _)
      rw [← normalizedCacheControl_eq, ← responseCacheControl_policyOf, ← cachePolicyValues_eq hcontrol] at hvisible
      exact ⟨_, headerFromText_eq_some hvisible, headerToStr_eq_some_iff.mpr ⟨hvisible, rfl⟩⟩
  · obtain ⟨hprinted, hpolicy⟩ := cachePolicy_of_stale hs he hstale
    exact policy_renewedEntry replies hreplies e hpolicy hprinted

open WindowExample in
/-- Repeated and unknown directives, for a style; and a style that is reached as stale, renewed by a `304` without headers and by
one that was lost. -/
theorem normalized_cache_control_fixed_style :
    (let policy := cachePolicyValues "style" ["s-maxage=60, stale-while-revalidate=9999999".toList, "s-maxage=120".toList]
     cachePolicy "style" (some policy.responseCacheControl) = policy ∧ policy.fresh ≤ maxProviderTtl ∧
       policy.swr ≤ maxProviderTtl ∧
        ∃ value, headerFromText policy.responseCacheControl = some value ∧ headerToStr value = some policy.responseCacheControl) ∧
      ∃ s e, (fetcher env 0).Reachable s ∧ s.entries key = some (.found e) ∧
        (CachedProviderFetch.found e).freshness s.now = .stale ∧
        (renewedEntry env.toHttpEnv key.resource e [(some ⟨304, ⟨[]⟩, none, [], .complete, 0, 0⟩, 0), (none, 0)]).policy =
          e.policy := by
  refine ⟨normalized_cache_control_fixed.1 "style" _ (List.cons_ne_nil _ _), ?_⟩
  obtain ⟨s, hs, hp⟩ := Machine.exists_of_guardedRun (fetcher env 0) (fun _ _ => true) (forbidden.take 10)
    (fun s => (s.entries key).any fun entry => entry.representation.isSome && entry.freshness s.now == .stale) (by decide)
  have hreach : (fetcher env 0).Reachable s := hs.mono fun _ _ _ => trivial
  obtain ⟨entry, hentry, hstale⟩ := (Option.any_eq_true _ _).mp hp
  rw [Bool.and_eq_true] at hstale
  cases entry with
  | negative e => exact absurd hstale.1 Bool.false_ne_true
  | found e =>
    refine ⟨s, e, hreach, hentry, beq_iff_eq.mp hstale.2, ?_⟩
    refine normalized_cache_control_fixed.2 env 0 s hreach key e hentry (beq_iff_eq.mp hstale.2) _ fun r hr => ?_
    rcases List.mem_cons.mp hr with rfl | hr
    · rintro _ ⟨⟩
      rfl
    · rw [List.mem_singleton.mp hr]
      rintro _ ⟨⟩

/-! ## Ages -/

/-- The values declare a `max-age` or an `s-maxage`. -/
def DeclaresFreshness (headers : HeaderMap) : Prop :=
  hasExplicitFreshness (parseValues (headers.getAllStr "cache-control")) = true

/-- The answer took no time, and neither its `Age` nor its `Date` says that it is old. -/
def IsBrandNew (env : HttpEnv) (reply : HttpReply) : Prop :=
  reply.delay = 0 ∧ (∀ value ∈ reply.headers.getAllStr "age", ∀ n, parseUnsigned u64Bound (trim value) = some n → n = 0) ∧
    ∀ date, headerDate env reply.headers "date" = some date → reply.received ≤ date

theorem getD_foldl_largest (numbers : List Nat) : ∀ m : Option Nat,
    ((numbers.foldl (fun m n => some (max (m.getD 0) n)) m).getD 0 = 0 ↔ m.getD 0 = 0 ∧ ∀ n ∈ numbers, n = 0) := by
  induction numbers with
  | nil => simp
  | cons n numbers ih =>
    intro m
    rw [List.foldl_cons, ih, Option.getD_some, List.forall_mem_cons, Nat.max_eq_zero_iff, and_assoc]

/-- The age that is charged is zero for brand new answers only. -/
theorem correctedInitialAge_eq_zero_iff (env : HttpEnv) (reply : HttpReply) :
    correctedInitialAge env reply.headers reply.received reply.delay = 0 ↔ IsBrandNew env reply := by
  have hages : ((largest? ((reply.headers.getAllStr "age").filterMap fun value => parseUnsigned u64Bound (trim value))).map
      fun seconds => seconds * second).getD 0 = 0 ↔
      ∀ value ∈ reply.headers.getAllStr "age", ∀ n, parseUnsigned u64Bound (trim value) = some n → n = 0 := by
    have hseconds : ∀ o : Option Nat, ((o.map fun seconds => seconds * second).getD 0 = 0 ↔ o.getD 0 = 0) := by
      intro o
      cases o with
      | none => exact Iff.rfl
      | some n =>
        rw [Option.map_some, Option.getD_some, Option.getD_some, Nat.mul_eq_zero]
        exact or_iff_left (by decide)
    rw [hseconds, largest?, getD_foldl_largest]
    simp only [Option.getD_none, true_and, List.mem_filterMap]
    exact ⟨fun h value hvalue n hn => h n ⟨value, hvalue, hn⟩, fun h n ⟨value, hvalue, hn⟩ => h value hvalue n hn⟩
  have hdate : ((headerDate env reply.headers "date").bind fun date => durationSince reply.received date).getD 0 = 0 ↔
      ∀ date, headerDate env reply.headers "date" = some date → reply.received ≤ date := by
    cases headerDate env reply.headers "date" with
    | none => simp
    | some date =>
      simp only [Option.bind_some, durationSince, Option.some.injEq, forall_eq']
      split
      · exact Nat.sub_eq_zero_iff_le
      · rename_i hlater
        exact iff_of_true rfl (Nat.le_of_lt (Nat.lt_of_not_le hlater))
  have hsum : ∀ a b : Duration, durationSaturatingAdd a b = 0 ↔ a = 0 ∧ b = 0 := by
    intro a b
    have hmax : 0 < durationMax := by decide
    unfold durationSaturatingAdd
    constructor
    · intro h
      rcases Nat.min_eq_zero_iff.mp h with h | h
      · exact Nat.add_eq_zero_iff.mp h
      · exact absurd h (Nat.pos_iff_ne_zero.mp hmax)
    · rintro ⟨rfl, rfl⟩
      exact Nat.zero_min _
  rw [correctedInitialAge, Nat.max_eq_zero_iff, hsum, hages, hdate, IsBrandNew]
  tauto

/-- A `200` answer, as it is fetched. -/
theorem fetchHttpProvider_modified {env : ProviderEnv} {request : ProviderRequest}
    {revalidate : Option CachedProviderRepresentation}
    {reply : HttpReply} {whole : FetchedProviderResource}
      (h : fetchHttpProvider env request revalidate reply = .ok (.modified whole)) :
    whole.policy = cachePolicyValues request.resource (reply.headers.getAllStr "cache-control") ∧
      whole.initialAge = initialAge env.toHttpEnv reply
        (cachePolicyWithFreshnessValues request.resource (reply.headers.getAllStr "cache-control")).2 := by
  unfold fetchHttpProvider at h
  dsimp only at h
  split at h
  · split at h <;> cases h
  · split at h
    · cases h
    · obtain ⟨_, -, h⟩ := Except.bind_eq_ok_iff.mp h
      split at h
      · cases h
      · obtain ⟨_, -, h⟩ := Except.bind_eq_ok_iff.mp h
        obtain ⟨_, -, h⟩ := Except.bind_eq_ok_iff.mp h
        cases h
        exact ⟨rfl, rfl⟩

/-- The age of a `304` is that of a `200` with the same headers, and neither is charged without a declared lifetime: exactly where
a lifetime is declared, or the answer is brand new. -/
theorem revalidated_age_agrees_iff {env : ProviderEnv} {request : ProviderRequest}
    {revalidate : Option CachedProviderRepresentation}
    {cached : CachedProviderRepresentation} {reply reply' : HttpReply} {whole renewed : FetchedProviderResource}
    (hwhole : fetchHttpProvider env request revalidate reply = .ok (.modified whole))
    (hrenewed : fetchHttpProvider env request (some cached) reply' = .ok (.notModified renewed))
    (hheaders : reply'.headers = reply.headers) (hreceived : reply'.received = reply.received)
      (hdelay : reply'.delay = reply.delay)
    (hvalues : reply.headers.getAllStr "cache-control" ≠ []) :
    (renewed.initialAge = whole.initialAge ∧
      (∀ storedAt, (foundEntry renewed storedAt).freshUntil = (foundEntry whole storedAt).freshUntil ∧
        (foundEntry renewed storedAt).staleUntil = (foundEntry whole storedAt).staleUntil) ∧
      (¬ DeclaresFreshness reply.headers → renewed.initialAge = 0 ∧ whole.initialAge = 0)) ↔
    DeclaresFreshness reply.headers ∨ IsBrandNew env.toHttpEnv reply := by
  obtain ⟨hpolicy, hage⟩ := fetchHttpProvider_modified hwhole
  obtain ⟨control, hcontrol⟩ := exists_parseValues hvalues
  obtain ⟨-, _, hcached, rfl⟩ := fetchHttpProvider_notModified hrenewed
  cases hcached
  have hage' : (revalidatedProviderResource env.toHttpEnv cached request.resource (some reply')).initialAge =
      correctedInitialAge env.toHttpEnv reply.headers reply.received reply.delay := by
    rw [← hheaders, ← hreceived, ← hdelay]
    rfl
  have hpolicy' : (revalidatedProviderResource env.toHttpEnv cached request.resource (some reply')).policy = whole.policy := by
    unfold revalidatedProviderResource
    simp only [Option.map_some, Option.getD_some, hheaders, List.isEmpty_iff, hvalues, if_false, hpolicy]
  have hdeclares : DeclaresFreshness reply.headers ↔ hasExplicitFreshness (some control) = true := by
    rw [DeclaresFreshness, hcontrol]
  rw [cachePolicyWithFreshnessValues_eq hcontrol] at hage
  rw [← correctedInitialAge_eq_zero_iff, hage', hdeclares]
  unfold initialAge at hage
  constructor
  · rintro ⟨hsame, -, hnone⟩
    by_cases hexplicit : hasExplicitFreshness (some control) = true
    · exact Or.inl hexplicit
    · exact Or.inr (hnone hexplicit).1
  · rintro h
    have hsame : correctedInitialAge env.toHttpEnv reply.headers reply.received reply.delay = whole.initialAge := by
      rw [hage]
      split
      · rfl
      · rename_i hexplicit
        exact h.resolve_left hexplicit
    refine ⟨hsame, fun storedAt => ?_, fun hexplicit => ?_⟩
    · simp only [foundEntry, hage', hpolicy', hsame, and_self]
    · have hzero := h.resolve_left hexplicit
      exact ⟨hzero, hsame.symm.trans hzero⟩

/-- The headers of an origin behind a cache. -/
def agedHeaders (cacheControl : String) : HeaderMap := ⟨[("cache-control", utf8 cacheControl), ("age", utf8 "900")]⟩

def agedReply (cacheControl : String) (status : Nat) : HttpReply :=
  ⟨status, agedHeaders cacheControl, none, [utf8 "\x7b\x7d"], .complete, 0, 0⟩

def agedEnv : ProviderEnv where
  parseHttpDate := fun _ => none
  scheme := fun _ => some "https"
  canonicalReason := fun _ => none
  gunzip := fun _ _ => .error ""
  ignoreJson := fun _ => none
  parseJsonValue := fun _ => none

def agedRequest : ProviderRequest := Endpoint.request .style "https://tiles.example/style.json"

def agedCached : CachedProviderRepresentation := ⟨utf8 "\x7b\x7d", [], ⟨none, none⟩, none⟩

/-- With a lifetime, both are charged. -/
theorem revalidated_age_agrees_declared : ∃ whole renewed,
    fetchHttpProvider agedEnv agedRequest none (agedReply "max-age=3600" 200) = .ok (.modified whole) ∧
    fetchHttpProvider agedEnv agedRequest (some agedCached) (agedReply "max-age=3600" 304) = .ok (.notModified renewed) ∧
    renewed.initialAge = whole.initialAge := by
  refine ⟨_, _, rfl, rfl, ?_⟩
  have hdeclares : DeclaresFreshness (agedHeaders "max-age=3600") := by
    unfold DeclaresFreshness
    decide +kernel
  exact ((revalidated_age_agrees_iff (show fetchHttpProvider agedEnv agedRequest none (agedReply "max-age=3600" 200) = _ from rfl)
    (show fetchHttpProvider agedEnv agedRequest (some agedCached) (agedReply "max-age=3600" 304) = _ from rfl) rfl rfl rfl
    (by decide +kernel)).mpr (Or.inl hdeclares)).1

/-- With a stale window and no lifetime, the age that came along is charged to a `304` but not to a `200`. -/
theorem revalidated_age_charged : ∃ whole renewed,
    fetchHttpProvider agedEnv agedRequest none (agedReply "stale-while-revalidate=86400" 200) = .ok (.modified whole) ∧
    fetchHttpProvider agedEnv agedRequest (some agedCached) (agedReply "stale-while-revalidate=86400" 304) =
      .ok (.notModified renewed) ∧
    (agedHeaders "stale-while-revalidate=86400").getAllStr "cache-control" ≠ [] ∧
    ¬ DeclaresFreshness (agedHeaders "stale-while-revalidate=86400") ∧
    whole.initialAge = 0 ∧ renewed.initialAge = 900 * second := by
  refine ⟨_, _, rfl, rfl, by decide +kernel, ?_, ?_, ?_⟩
  · unfold DeclaresFreshness
    decide +kernel
  · decide +kernel
  · decide +kernel

end Biei.Provider
