import Biei.Filesource.Requests
import Biei.Lib.Update

/-!
# What a fetch does to the cache

Only two answers change the cache: one with a complete body, and a `304` to a request for which a body is known.
-/

namespace Biei.Filesource

variable {env : HttpEnv}

/-! ## Responses -/

/-- A body that was read is the chunks it came in. -/
theorem readBody_ok {maxBytes : Nat} {ending : BodyEnd} {body read : Bytes} {chunks : List Bytes}
    (h : readBody maxBytes ending body chunks = .ok read) : ending = .complete ∧ read = body ++ chunks.flatten := by
  induction chunks generalizing body with
  | nil =>
    cases ending with
    | complete => exact ⟨rfl, by simpa [readBody] using h.symm⟩
    | failed label => simp [readBody] at h
    | timedOut => simp [readBody] at h
  | cons chunk rest ih =>
    unfold readBody at h
    split at h
    · cases h
    · split at h
      · cases h
      · obtain ⟨hend, hread⟩ := ih h
        exact ⟨hend, by simpa using hread⟩

/-- A body that was not read changes nothing. -/
theorem readBody_error {maxBytes : Nat} {ending : BodyEnd} {body : Bytes} {chunks : List Bytes} {attempt : FetchAttempt}
    (h : readBody maxBytes ending body chunks = .error attempt) :
    attempt.cachePolicy = .unchanged ∧ attempt.negativeCacheTtl = none := by
  induction chunks generalizing body with
  | nil =>
    cases ending with
    | complete => simp [readBody] at h
    | failed label =>
      simp only [readBody, Except.error.injEq] at h
      rw [← h]
      exact ⟨rfl, rfl⟩
    | timedOut =>
      simp only [readBody, Except.error.injEq] at h
      rw [← h]
      exact ⟨rfl, rfl⟩
  | cons chunk rest ih =>
    unfold readBody at h
    split at h
    · simp only [Except.error.injEq] at h
      rw [← h]
      exact ⟨rfl, rfl⟩
    · split at h
      · simp only [Except.error.injEq] at h
        rw [← h]
        exact ⟨rfl, rfl⟩
      · exact ih h

/-- The response a fetch has for the cache, with the status and the headers it was made from: a `304` for which a body is known,
or a complete body. -/
inductive Fetched (env : HttpEnv) (now : SystemTime) (request : ResourceRequest) (cached : Option Response) :
    Answer → Nat → HeaderMap → Response → Prop where
  | materialized {headers : HeaderMap} {contentLength : Option Nat} {chunks : List Bytes} {ending : BodyEnd} {body : Bytes}
      (hdata : (priorResponseWithCache request cached).data = some body) :
      Fetched env now request cached (.http 304 headers contentLength chunks ending) 304 headers
        { withCacheMetadata env .unmodified headers (priorResponseWithCache request cached) now with
          notModified := false, data := some body }
  | full {status : Nat} {headers : HeaderMap} {contentLength : Option Nat} {chunks : List Bytes} {ending : BodyEnd} {body : Bytes}
      (hstatus : status = 200 ∨ status = 206)
      (hlength : (contentLength.any fun length => maxResourceBytes request.kind < length) = false)
      (hread : readBody (maxResourceBytes request.kind) ending [] chunks = .ok body) :
      Fetched env now request cached (.http status headers contentLength chunks ending) status headers
        (withCacheMetadata env (.ofData body) headers {} now)

section Fetched

variable {now : SystemTime} {request : ResourceRequest} {cached : Option Response} {answer : Answer} {status : Nat}
  {headers : HeaderMap} {response : Response}

/-- What a fetch does with the response it has for the cache. -/
theorem Fetched.attempt (h : Fetched env now request cached answer status headers response) :
    (fetchOnceInner env now request cached answer).cachePolicy = cachePolicyForResponse request.storagePolicy headers ∧
      (fetchOnceInner env now request cached answer).cacheResponse.getD (fetchOnceInner env now request cached answer).response =
        response := by
  cases h with
  | materialized hdata =>
    simp only [fetchOnceInner, notModifiedAttempt, materializeNotModified, hdata, if_true, Option.map_some, Option.getD_some,
      true_and]
    simp [responseFromHttp]
  | full hstatus hlength hread =>
    have h304 : status ≠ 304 := by rcases hstatus with rfl | rfl <;> decide
    have hok : ¬ (status ≠ 200 ∧ status ≠ 206) := by tauto
    simp only [fetchOnceInner, if_neg h304, if_neg hok, hlength, Bool.false_eq_true, if_false, hread, Option.getD_none, true_and]
    simp [responseFromHttp, hstatus]

/-- What a fetch can come to. -/
theorem fetchOnceInner_cases (env : HttpEnv) (now : SystemTime) (request : ResourceRequest) (cached : Option Response)
    (answer : Answer) :
    (fetchOnceInner env now request cached answer).cachePolicy = .unchanged ∨
      ∃ status headers response, Fetched env now request cached answer status headers response := by
  cases answer with
  | failed label => exact Or.inl rfl
  | timedOut => exact Or.inl rfl
  | http status headers contentLength chunks ending =>
    by_cases h304 : status = 304
    · subst h304
      cases hdata : (priorResponseWithCache request cached).data with
      | none =>
        left
        simp only [fetchOnceInner, notModifiedAttempt, materializeNotModified, hdata, if_true, Option.map_none]
        split <;> rfl
      | some body => exact Or.inr ⟨304, headers, _, .materialized hdata⟩
    · by_cases hok : status ≠ 200 ∧ status ≠ 206
      · left
        simp only [fetchOnceInner, if_neg h304, if_pos hok]
        split <;> rfl
      · have hstatus : status = 200 ∨ status = 206 := by
          by_cases h200 : status = 200
          · exact Or.inl h200
          · exact Or.inr (by_contra fun h206 => hok ⟨h200, h206⟩)
        cases hlength : contentLength.any fun length => maxResourceBytes request.kind < length with
        | true =>
          left
          simp only [fetchOnceInner, if_neg h304, if_neg hok, hlength, if_true]
        | false =>
          cases hread : readBody (maxResourceBytes request.kind) ending [] chunks with
          | error attempt =>
            left
            simp only [fetchOnceInner, if_neg h304, if_neg hok, hlength, Bool.false_eq_true, if_false, hread]
            exact (readBody_error hread).1
          | ok body => exact Or.inr ⟨status, headers, _, .full hstatus hlength hread⟩

/-- What a fetch has for the cache can be kept there. -/
theorem Fetched.cacheable (h : Fetched env now request cached answer status headers response) :
    isCacheableResponse response = true := by
  cases h <;> rfl

/-- The answer that a response came from. -/
theorem Fetched.answer_eq (h : Fetched env now request cached answer status headers response) :
    ∃ contentLength chunks ending, answer = .http status headers contentLength chunks ending := by
  cases h <;> exact ⟨_, _, _, rfl⟩

end Fetched

/-- What is kept, is kept for a permanent resource that may be stored. -/
theorem cachePolicyForResponse_store {storagePolicy : StoragePolicy} {headers : HeaderMap}
    (h : cachePolicyForResponse storagePolicy headers = .store) :
    storagePolicy = .permanent ∧ ((parsedCacheControl headers).any fun control => control.noStore || control.private) =
      false := by
  unfold cachePolicyForResponse at h
  split at h
  · cases h
  · rename_i hperm
    split at h
    · cases h
    · rename_i hany
      exact ⟨by simpa using hperm, by simpa using hany⟩

/-! ## Steps -/

variable {i : Nat} {answer : Answer} {s : System} {f : Fetch}

/-- The end of a fetch that has nothing for the cache. -/
theorem receive_unchanged (h : (fetchOnceInner env s.now f.request f.cached answer).cachePolicy = .unchanged) :
    (s.receive env i f answer).cache = s.cache ∧ (s.receive env i f answer).provenance = s.provenance ∧
      (s.receive env i f answer).noCache = s.noCache := by
  simp only [System.receive, finishFetch, h, and_self]

/-- What the end of a fetch that has a response for the cache does. -/
theorem Fetched.receive {status : Nat} {headers : HeaderMap} {response : Response}
    (hf : Fetched env s.now f.request f.cached answer status headers response) :
    (cachePolicyForResponse f.request.storagePolicy headers = .store ∧
        (s.receive env i f answer).cache = Function.update s.cache f.request.key (some response) ∧
        (s.receive env i f answer).provenance = Function.update s.provenance f.request.key (some ⟨status, headers, s.now⟩) ∧
        (s.receive env i f answer).noCache =
          Function.update s.noCache f.request.key (noCacheAfter status headers (s.noCache f.request.key))) ∨
      (cachePolicyForResponse f.request.storagePolicy headers = .remove ∧
        (s.receive env i f answer).cache = Function.update s.cache f.request.key none ∧
        (s.receive env i f answer).provenance = Function.update s.provenance f.request.key none ∧
        (s.receive env i f answer).noCache = s.noCache) ∨
      (cachePolicyForResponse f.request.storagePolicy headers = .unchanged ∧ (s.receive env i f answer).cache = s.cache ∧
        (s.receive env i f answer).provenance = s.provenance ∧ (s.receive env i f answer).noCache = s.noCache) := by
  obtain ⟨hpolicy, hresponse⟩ := hf.attempt
  obtain ⟨contentLength, chunks, ending, rfl⟩ := hf.answer_eq
  cases hp : cachePolicyForResponse f.request.storagePolicy headers with
  | store =>
    rw [hp] at hpolicy
    refine Or.inl ⟨rfl, ?_⟩
    simp only [System.receive, finishFetch, hpolicy, ResourceCache.store, hresponse, hf.cacheable, if_true, and_self]
  | remove =>
    rw [hp] at hpolicy
    refine Or.inr (Or.inl ⟨rfl, ?_⟩)
    simp only [System.receive, finishFetch, hpolicy, ResourceCache.invalidate, and_self]
  | unchanged =>
    rw [hp] at hpolicy
    exact Or.inr (Or.inr ⟨rfl, receive_unchanged hpolicy⟩)

/-- An entry that is there after a fetch has ended was there before, or is what the fetch stored. -/
theorem receive_cache_eq_some {key : ResourceRequestKey} {response : Response}
    (h : (s.receive env i f answer).cache key = some response) :
    (s.cache key = some response ∧ (s.receive env i f answer).provenance key = s.provenance key ∧
        (s.receive env i f answer).noCache key = s.noCache key) ∨
      (key = f.request.key ∧ ∃ status headers, Fetched env s.now f.request f.cached answer status headers response ∧
        cachePolicyForResponse f.request.storagePolicy headers = .store ∧
        (s.receive env i f answer).provenance key = some ⟨status, headers, s.now⟩ ∧
        (s.receive env i f answer).noCache key = noCacheAfter status headers (s.noCache key)) := by
  rcases fetchOnceInner_cases env s.now f.request f.cached answer with hun | ⟨status, headers, r, hf⟩
  · obtain ⟨hc, hp, hn⟩ := receive_unchanged (i := i) hun
    rw [hc] at h
    rw [hp, hn]
    exact Or.inl ⟨h, rfl, rfl⟩
  · rcases hf.receive (i := i) with ⟨hstore, hc, hp, hn⟩ | ⟨-, hc, hp, hn⟩ | ⟨-, hc, hp, hn⟩
    · rw [hc] at h
      rcases update_eq_some h with ⟨rfl, hr⟩ | ⟨hne, h⟩
      · cases hr
        refine Or.inr ⟨rfl, status, headers, hf, hstore, ?_, ?_⟩
        · rw [hp, Function.update_self]
        · rw [hn, Function.update_self]
      · rw [hp, hn, Function.update_of_ne hne, Function.update_of_ne hne]
        exact Or.inl ⟨h, rfl, rfl⟩
    · rw [hc] at h
      obtain ⟨hne, h⟩ := update_none_eq_some h
      rw [hp, hn, Function.update_of_ne hne]
      exact Or.inl ⟨h, rfl, rfl⟩
    · rw [hc] at h
      rw [hp, hn]
      exact Or.inl ⟨h, rfl, rfl⟩

section Receive

variable (env : HttpEnv) (s : System) (i : Nat) (f : Fetch) (answer : Answer)

/-- The end of a fetch leaves the rest as it was. -/
theorem receive_frame : (s.receive env i f answer).now = s.now ∧ (s.receive env i f answer).origin = s.origin ∧
    (s.receive env i f answer).served = s.served ∧
    (s.receive env i f answer).fetches = s.fetches.set i { f with finished := true } := by
  unfold System.receive
  dsimp only
  split <;> exact ⟨rfl, rfl, rfl, rfl⟩

end Receive

/-- A step ends a fetch only when that is answered and under way. -/
theorem step_receive {s s' : System} (h : s.step env (.receive i) = some s') :
    ∃ f answer, s.fetches[i]? = some f ∧ f.answer = some answer ∧ f.finished = false ∧ s' = s.receive env i f answer := by
  unfold System.step at h
  dsimp only at h
  cases hf : s.fetches[i]? with
  | none => rw [hf] at h; cases h
  | some f =>
    rw [hf] at h
    cases ha : f.answer with
    | none => simp [ha] at h
    | some answer =>
      simp only [ha] at h
      cases hfin : f.finished with
      | true => simp [hfin] at h
      | false =>
        simp only [hfin, Bool.false_eq_true, if_false, Option.some.injEq] at h
        exact ⟨f, answer, rfl, ha, hfin, h.symm⟩

/-- A step answers a fetch only once. -/
theorem step_answer {s s' : System} (h : s.step env (.answer i answer) = some s') :
    ∃ f, s.fetches[i]? = some f ∧ f.answer = none ∧
      s' = { s with
        fetches := s.fetches.set i { f with answer := some answer }
        served := (answer.states (s.origin f.request.key).body).map (fun r => (f.request.key, r)) ++ s.served } := by
  unfold System.step at h
  dsimp only at h
  cases hf : s.fetches[i]? with
  | none => rw [hf] at h; cases h
  | some f =>
    rw [hf] at h
    cases ha : f.answer with
    | some answer' => simp [ha] at h
    | none =>
      simp only [ha, Option.isSome_none, Bool.false_eq_true, if_false, Option.some.injEq] at h
      exact ⟨f, rfl, ha, h.symm⟩

/-! ## Requests to the network file source -/

/-- A cache after a change. -/
def ResourceCache.apply (cache : ResourceCache) : Option (ResourceRequestKey × Option Response) → ResourceCache
  | some (key, value) => Function.update cache key value
  | none => cache

theorem finishFetch_eq_apply (cache : ResourceCache) (key : ResourceRequestKey) (attempt : FetchAttempt) :
    finishFetch cache key attempt = cache.apply (attempt.write key) := by
  unfold finishFetch FetchAttempt.write
  cases attempt.cachePolicy with
  | store =>
    dsimp only [ResourceCache.store]
    split <;> rfl
  | remove => rfl
  | unchanged => rfl

/-- What a step changes. -/
theorem step_cache {s s' : System} {a : Action} (h : s.step env a = some s') : s'.cache = s.cache.apply (s.write env a) := by
  cases a with
  | advance d =>
    unfold System.step at h
    dsimp only at h
    split at h
    · cases h
      rfl
    · cases h
  | change key representation =>
    cases h
    rfl
  | evict key =>
    cases h
    rfl
  | send request =>
    cases h
    rfl
  | answer i answer =>
    obtain ⟨f, -, -, rfl⟩ := step_answer h
    rfl
  | receive i =>
    obtain ⟨f, answer, hf, hanswer, -, rfl⟩ := step_receive h
    have hattempted : s.attempted env i = some (f, fetchOnceInner env s.now f.request f.cached answer) := by
      simp [System.attempted, hf, hanswer]
    have hcache : (s.receive env i f answer).cache =
        finishFetch s.cache f.request.key (fetchOnceInner env s.now f.request f.cached answer) := by
      unfold System.receive
      dsimp only
      split <;> rfl
    rw [hcache, finishFetch_eq_apply, System.write, hattempted]
    rfl

/-! ### Fresh entries -/

variable {cache : ResourceCache}

theorem freshUntil_eq_some {now expires : SystemTime} {key : ResourceRequestKey} (h : cache.freshUntil now key = some expires) :
    ∃ response, cache key = some response ∧ response.expires = some expires ∧ now < expires := by
  obtain ⟨response, hentry, hfilter⟩ := Option.bind_eq_some_iff.mp h
  obtain ⟨hexpires, hlt⟩ := Option.filter_eq_some_iff.mp hfilter
  exact ⟨response, hentry, hexpires, by simpa using hlt⟩

theorem freshUntil_eq_none {now : SystemTime} {key : ResourceRequestKey} (h : cache.freshUntil now key = none)
    {response : Response} {expires : SystemTime} (hentry : cache key = some response)
      (hexpires : response.expires = some expires) :
    expires ≤ now := by
  by_contra hlt
  have hsome : cache.freshUntil now key = some expires := by
    unfold ResourceCache.freshUntil
    rw [hentry, Option.bind_some, hexpires, Option.filter_eq_some_iff]
    exact ⟨rfl, by simpa using hlt⟩
  rw [h] at hsome
  cases hsome

/-- The `Database` source answers a fresh entry as it is. -/
theorem databaseRequest_of_fresh {now expires : SystemTime} {request : ResourceRequest} {response : Response}
    (hpolicy : usesSharedCache request.storagePolicy = true) (hentry : cache request.key = some response)
    (hexpires : response.expires = some expires) (hlt : now < expires) : (databaseRequest cache now request).2 = response := by
  have hpermanent : request.storagePolicy = .permanent := by simpa [usesSharedCache] using hpolicy
  have hlookup : cache.lookup now request.key = .hit response := by
    simp [ResourceCache.lookup, hentry, hexpires, Nat.not_le.mpr hlt]
  simp [databaseRequest, hpermanent, hlookup]

/-! ### Steps -/

namespace NetworkSource

variable {s s' : NetworkSource} {i : Nat} {q : PendingRequest} {a : SourceAction}

/-- What one step can do. -/
inductive Steps (env : HttpEnv) (s : NetworkSource) : SourceAction → NetworkSource → Prop where
  | net {a : Action} {net : System} (h : s.net.step env a = some net) : Steps env s (.net a)
      { net
        negativeCache := s.refusing env a
        requests := s.requests
        responses := s.responding env a
        successes := s.succeeded a
        heard := s.hears a }
  | forget {a : SourceAction} (key : ResourceRequestKey) :
      Steps env s a { s with negativeCache := Function.update s.negativeCache key none }
  | request {a : SourceAction} (request : ResourceRequest) (minimumUpdateInterval : Duration) : Steps env s a
      { s with requests := s.requests ++ [⟨request, minimumUpdateInterval, .entered, s.successes request.key⟩] }
  | look {a : SourceAction} {i : Nat} {q : PendingRequest} (hq : q ∈ s.requests) (hphase : q.phase = .entered) :
      Steps env s a (s.setPhase i q (s.looked q))
  | wake {a : SourceAction} {i : Nat} {q : PendingRequest} (hq : q ∈ s.requests) {deferral : RefreshDeferral}
      {wakesAt : SystemTime}
      {served : Response} (hphase : q.phase = .deferred deferral wakesAt served) :
      Steps env s a (s.setPhase i q (s.woken q deferral served))
  | refuse {a : SourceAction} {i : Nat} {q : PendingRequest} (hq : q ∈ s.requests) {lookedAt : SystemTime}
      {entry : Option Response}
      {negative : NegativeCacheEntry} (hphase : q.phase = .passed lookedAt entry) (hnegative : s.refusal q = some negative)
      (hlive : s.net.now < negative.expiresAt) : Steps env s a (s.setPhase i q (.refused negative s.net.now lookedAt entry))
  | expire {a : SourceAction} {i : Nat} {q : PendingRequest} (hq : q ∈ s.requests) (key : ResourceRequestKey) : Steps env s a
      { s.setPhase i q .coalesced with negativeCache := Function.update s.negativeCache key none }
  | coalesce {a : SourceAction} {i : Nat} {q : PendingRequest} (hq : q ∈ s.requests) : Steps env s a (s.setPhase i q .coalesced)
  | attempt {a : SourceAction} {q : PendingRequest} {net : System} (h : s.net.step env (.send q.request) = some net) :
      Steps env s a { s with net }
  | conclude {a : SourceAction} {i : Nat} {q : PendingRequest} (hq : q ∈ s.requests) (response : Response) :
      Steps env s a (s.setPhase i q (.fetched response))
  | cancel {a : SourceAction} {i : Nat} {q : PendingRequest} (hq : q ∈ s.requests) : Steps env s a (s.setPhase i q .cancelled)

theorem netStep_cases {a : Action} (h : s.netStep env a = some s') : Steps env s (.net a) s' := by
  unfold netStep at h
  obtain ⟨net, hnet, rfl⟩ := Option.map_eq_some_iff.mp h
  exact .net hnet

theorem consult_cases {lookedAt : SystemTime} {entry : Option Response} (hq : q ∈ s.requests)
    (hphase : q.phase = .passed lookedAt entry) :
    Steps env s a (s.consult i q lookedAt entry) := by
  unfold NetworkSource.consult
  split
  · rename_i negative hnegative
    split
    · rename_i hlive
      exact .refuse hq hphase hnegative hlive
    · exact .expire hq _
  · exact .coalesce hq

theorem step_cases (h : s.step env a = some s') : Steps env s a s' := by
  cases a with
  | net a =>
    cases a with
    | send request => cases h
    | _ => exact netStep_cases h
  | forget key =>
    cases h
    exact .forget key
  | request request minimumUpdateInterval =>
    cases h
    exact .request request minimumUpdateInterval
  | look i =>
    obtain ⟨q, hq, hstep⟩ := Option.bind_eq_some_iff.mp h
    unfold requestStep at hstep
    dsimp only at hstep
    split at hstep
    · rename_i hphase
      cases hstep
      exact .look (List.mem_of_getElem? hq) hphase
    · cases hstep
  | wake i =>
    obtain ⟨q, hq, hstep⟩ := Option.bind_eq_some_iff.mp h
    unfold requestStep at hstep
    dsimp only at hstep
    split at hstep
    · rename_i deferral wakesAt served hphase
      split at hstep
      · cases hstep
        exact .wake (List.mem_of_getElem? hq) hphase
      · cases hstep
    · cases hstep
  | consult i =>
    obtain ⟨q, hq, hstep⟩ := Option.bind_eq_some_iff.mp h
    unfold requestStep at hstep
    dsimp only at hstep
    split at hstep
    · rename_i lookedAt entry hphase
      cases hstep
      exact consult_cases (List.mem_of_getElem? hq) hphase
    · cases hstep
  | attempt i =>
    obtain ⟨q, hq, hstep⟩ := Option.bind_eq_some_iff.mp h
    unfold requestStep at hstep
    dsimp only at hstep
    split at hstep
    · obtain ⟨net, hnet, rfl⟩ := Option.map_eq_some_iff.mp hstep
      exact .attempt hnet
    · cases hstep
  | conclude i j =>
    obtain ⟨q, hq, hstep⟩ := Option.bind_eq_some_iff.mp h
    unfold requestStep at hstep
    dsimp only at hstep
    split at hstep
    · split at hstep
      · cases hstep
        exact .conclude (List.mem_of_getElem? hq) _
      · cases hstep
    · cases hstep
  | cancel i =>
    obtain ⟨q, hq, hstep⟩ := Option.bind_eq_some_iff.mp h
    cases hstep
    exact .cancel (List.mem_of_getElem? hq)

theorem mem_setPhase {phase : RequestPhase} {q' : PendingRequest} (h : q' ∈ (s.setPhase i q phase).requests) :
    q' ∈ s.requests ∨ q' = { q with phase } := List.mem_or_eq_of_mem_set h

end NetworkSource

end Biei.Filesource
