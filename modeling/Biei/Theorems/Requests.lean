import Biei.Lemmas.Filesource

/-!
# Requests that wait, and requests that are refused

A request that waited is told that nothing has changed when the entry of its key is fresh, whatever that has become. What it is
told is right as long as no fetch stores another representation of the key during the wait.

An answer that something is missing is remembered for at most 15 s, and a later `200` does not remove it. It is given only to
requests that find nothing fresh in the shared cache.
-/

namespace Biei.Filesource

variable {env : HttpEnv}

/-! ## Deferred refreshes -/

/-- The same representation: body and `ETag`. -/
def Response.SameAs (response served : Response) : Prop := response.data = served.data ∧ response.etag = served.etag

instance (response served : Response) : Decidable (response.SameAs served) := inferInstanceAs (Decidable (_ ∧ _))

/-- What is said after the wait is said of the representation that was served: no other one is in the shared cache, and the expiry
that is told is that of an entry with it. -/
structure UnchangedSince (told served : Response) (entry : Option Response) : Prop where
  same : ∀ response, entry = some response → response.SameAs served
  expires : ∀ e, told.expires = some e → ∃ response, entry = some response ∧ response.expires = some e ∧ response.SameAs served

/-- No fetch stores another representation of a key than a request that waits for the key was served. -/
def NetworkSource.keepsServed (env : HttpEnv) (s : NetworkSource) : SourceAction → Bool
  | .net a =>
    match s.net.write env a with
    | some (key, some response) => s.requests.all fun q =>
      match q.phase with
      | .deferred _ _ served => decide (q.request.key = key → response.SameAs served)
      | _ => true
    | _ => true
  | _ => true

/-! ### What a request sees of the entry -/

/-- While a request waits, the shared cache has nothing for it but what it was served. After the wait it is told so. -/
def PendingRequest.Served (cache : ResourceCache) (q : PendingRequest) : Prop :=
  match q.phase with
  | .deferred _ _ served => ∀ response, cache q.request.key = some response → response.SameAs served
  | .unmodified told served entry => UnchangedSince told served entry
  | _ => True

namespace PendingRequest.Served

variable {s : NetworkSource} {q : PendingRequest}

/-- A change that keeps what was served. -/
theorem apply {a : Action} (h : q.Served s.net.cache) (hq : q ∈ s.requests) (hkeeps : s.keepsServed env (.net a) = true) :
    q.Served (s.net.cache.apply (s.net.write env a)) := by
  cases hphase : q.phase with
  | deferred deferral wakesAt served =>
    simp only [Served, hphase] at h ⊢
    intro response hresponse
    unfold NetworkSource.keepsServed at hkeeps
    cases hwrite : s.net.write env a with
    | none =>
      rw [hwrite] at hresponse
      exact h response hresponse
    | some write =>
      obtain ⟨key, value⟩ := write
      rw [hwrite] at hresponse
      by_cases hkey : q.request.key = key
      · rw [ResourceCache.apply, hkey, Function.update_self] at hresponse
        obtain rfl := hresponse
        simp only [hwrite] at hkeeps
        have hall := List.all_eq_true.mp hkeeps q hq
        simp only [hphase, decide_eq_true_eq] at hall
        exact hall hkey
      · rw [ResourceCache.apply, Function.update_of_ne hkey] at hresponse
        exact h response hresponse
  | unmodified told served entry => simpa only [Served, hphase] using h
  | _ => simp only [Served, hphase]

/-- Who falls asleep was served the entry. -/
theorem looked (s : NetworkSource) (q : PendingRequest) : PendingRequest.Served s.net.cache { q with phase := s.looked q } := by
  unfold NetworkSource.looked Served
  dsimp only
  split
  · rename_i hphase
    split at hphase
    · rename_i hconsults
      split at hphase
      · rename_i expires hfresh
        obtain ⟨rfl, rfl, rfl⟩ := RequestPhase.deferred.inj hphase
        obtain ⟨response, hentry, hexpires, hlt⟩ := freshUntil_eq_some hfresh
        simp only [NetworkSource.consults, Bool.and_eq_true] at hconsults
        rw [databaseRequest_of_fresh hconsults.1 hentry hexpires hlt, hentry]
        intro response' hresponse
        cases hresponse
        exact ⟨rfl, rfl⟩
      · cases hphase
    · cases hphase
  · rename_i hphase
    split at hphase
    · split at hphase <;> cases hphase
    · cases hphase
  · trivial

/-- What is told after the wait is the expiry of the entry. -/
theorem woken {deferral : RefreshDeferral} {wakesAt : SystemTime} {served : Response} (h : q.Served s.net.cache)
    (hphase : q.phase = .deferred deferral wakesAt served) :
    PendingRequest.Served s.net.cache { q with phase := s.woken q deferral served } := by
  unfold NetworkSource.woken
  simp only [Served, hphase] at h
  dsimp only
  split
  · rename_i told htold
    refine ⟨h, fun e he => ?_⟩
    unfold completeDeferredRefresh at htold
    split at htold
    · cases htold
    · cases htold
      obtain ⟨response, hentry, hexpires, -⟩ := freshUntil_eq_some he
      exact ⟨response, hentry, hexpires, h response hentry⟩
  · trivial

end PendingRequest.Served

namespace NetworkSource

variable {s s' : NetworkSource}

/-- Every request has what it was served. -/
def AllServed (s : NetworkSource) : Prop := ∀ q ∈ s.requests, q.Served s.net.cache

theorem AllServed.setPhase (h : s.AllServed) {i : Nat} {q : PendingRequest} {phase : RequestPhase} {q' : PendingRequest}
    (hq' : q' ∈ (s.setPhase i q phase).requests) (hnew : PendingRequest.Served s.net.cache { q with phase }) :
    q'.Served s.net.cache := by
  rcases mem_setPhase hq' with hq' | rfl
  · exact h q' hq'
  · exact hnew

/-- One step that keeps what was served. -/
theorem AllServed.step (h : s.AllServed) {a : SourceAction} (hkeeps : s.keepsServed env a = true)
    (hstep : s.step env a = some s') :
    s'.AllServed := by
  intro q' hq'
  cases step_cases hstep with
  | net hnet =>
    rw [step_cache hnet]
    exact (h q' hq').apply hq' hkeeps
  | forget key => exact h q' hq'
  | request request minimumUpdateInterval =>
    rcases List.mem_append.mp hq' with hq' | hq'
    · exact h q' hq'
    · rw [List.mem_singleton.mp hq']
      trivial
  | look hq hphase => exact h.setPhase hq' (.looked s _)
  | wake hq hphase => exact h.setPhase hq' ((h _ hq).woken hphase)
  | refuse hq hphase hnegative hlive => exact h.setPhase hq' trivial
  | expire hq key => exact h.setPhase hq' trivial
  | coalesce hq => exact h.setPhase hq' trivial
  | attempt hnet =>
    rw [step_cache hnet]
    exact h q' hq'
  | conclude hq response => exact h.setPhase hq' trivial
  | cancel hq => exact h.setPhase hq' trivial

end NetworkSource

theorem clockBound_pos : 0 < clockBound := Nat.two_pow_pos 63

namespace DeferralExample

def noDates : HttpEnv := ⟨fun _ => none⟩

def resource : ResourceRequest :=
  ⟨"https://tiles.test/0", .tile, .permanent, true, .regular, none, none, none, none, none, none⟩

/-- A request that may not use what is cached. -/
def networkOnly : ResourceRequest := { resource with hasCache := false }

def full (digit : UInt8) (body : Bytes) : Answer := .http 200 ⟨[("etag", [34, digit, 34])]⟩ none [body] .complete

def source : Machine NetworkSource SourceAction := networkSource noDates ⟨0, clockBound_pos⟩ fun _ => ⟨[1], some "\"1\""⟩

/-- A renderer fetches the resource, which is fresh for 300 s. A second one is served that, and its refresh is deferred. -/
def served : List SourceAction :=
  [.request resource 0, .look 0, .consult 0, .attempt 0, .net (.answer 0 (full 49 [1])), .net (.receive 0), .conclude 0 0,
    .request resource 0, .look 1]

end DeferralExample

theorem negativeCacheTtl_le {now : SystemTime} {status : Nat} {kind : ResourceKind} {storagePolicy : StoragePolicy}
    {headers : HeaderMap}
    {maximum ttl : Duration} (h : negativeCacheTtl env now status kind storagePolicy headers maximum = some ttl) :
      ttl ≤ maximum := by
  unfold negativeCacheTtl at h
  dsimp only at h
  split at h
  · cases h
  · obtain ⟨hsome, -⟩ := Option.filter_eq_some_iff.mp h
    split at hsome
    · cases hsome
      exact Nat.min_le_right _ _
    · split at hsome
      · cases hsome
        exact Nat.le_refl _
      · cases hsome

theorem fetchOnceInner_negativeCacheTtl_le {now : SystemTime} {request : ResourceRequest} {cached : Option Response}
    {answer : Answer}
    {ttl : Duration} (h : (fetchOnceInner env now request cached answer).negativeCacheTtl = some ttl) :
      ttl ≤ maxNegativeCacheTtl := by
  unfold fetchOnceInner at h
  split at h
  · cases h
  · cases h
  · dsimp only at h
    split at h
    · unfold notModifiedAttempt at h
      dsimp only at h
      split at h
      · split at h <;> cases h
      · cases h
    · split at h
      · split at h
        · cases h
        · exact negativeCacheTtl_le h
      · split at h
        · cases h
        · split at h
          · rename_i attempt hread
            rw [(readBody_error hread).2] at h
            cases h
          · cases h

/-! ### What a request has seen -/

/-- The shared cache had nothing fresh for a request that looked. -/
def NothingFresh (lookedAt : SystemTime) (entry : Option Response) : Prop :=
  ∀ response expires, entry = some response → response.expires = some expires → expires ≤ lookedAt

/-- An entry of the negative cache is of use for a bounded time. -/
def NegativeCacheEntry.Bounded (negative : NegativeCacheEntry) : Prop :=
    negative.expiresAt ≤ negative.enteredAt + maxNegativeCacheTtl

/-- What is known of a request that has looked at the shared cache. -/
def PendingRequest.Looked (q : PendingRequest) : Prop :=
  match q.phase with
  | .passed lookedAt entry => NetworkSource.consults q = true → NothingFresh lookedAt entry
  | .refused negative answeredAt lookedAt entry =>
    NetworkSource.consults q = true ∧ NothingFresh lookedAt entry ∧ answeredAt < negative.expiresAt ∧ negative.Bounded
  | _ => True

namespace NetworkSource

variable {s s' : NetworkSource}

theorem looked_looked (s : NetworkSource) (q : PendingRequest) : PendingRequest.Looked { q with phase := s.looked q } := by
  unfold NetworkSource.looked
  dsimp only
  split
  · split
    · trivial
    · rename_i hnone
      exact fun _ response expires hentry hexpires => freshUntil_eq_none hnone hentry hexpires
  · rename_i hconsults
    exact fun hno => absurd hno hconsults

theorem looked_woken (s : NetworkSource) (q : PendingRequest) (deferral : RefreshDeferral) (served : Response) :
    PendingRequest.Looked { q with phase := s.woken q deferral served } := by
  unfold NetworkSource.woken
  dsimp only
  split
  · trivial
  · rename_i hnone
    unfold completeDeferredRefresh at hnone
    split at hnone
    · rename_i hfresh
      simp only [Bool.and_eq_true, Option.isNone_iff_eq_none] at hfresh
      exact fun _ response expires hentry hexpires => freshUntil_eq_none hfresh.2 hentry hexpires
    · cases hnone

/-- What holds of the negative cache and of those who have looked. -/
structure Remembers (s : NetworkSource) : Prop where
  bounded : ∀ key negative, s.negativeCache key = some negative → negative.Bounded
  looked : ∀ q ∈ s.requests, q.Looked

theorem Remembers.setPhase (h : s.Remembers) {i : Nat} {q : PendingRequest} {phase : RequestPhase}
    (hnew : PendingRequest.Looked { q with phase }) : (s.setPhase i q phase).Remembers := by
  refine ⟨h.bounded, fun q' hq' => ?_⟩
  rcases mem_setPhase hq' with hq' | rfl
  · exact h.looked q' hq'
  · exact hnew

/-- An entry leaves the negative cache. -/
theorem Remembers.forget (h : s.Remembers) (key : ResourceRequestKey) :
    ({ s with negativeCache := Function.update s.negativeCache key none } : NetworkSource).Remembers := by
  refine ⟨fun key' negative hentry => ?_, h.looked⟩
  dsimp only at hentry
  by_cases hkey : key' = key
  · rw [hkey] at hentry
    simp at hentry
  · rw [Function.update_of_ne hkey] at hentry
    exact h.bounded key' negative hentry

/-- What enters the negative cache. -/
theorem Remembers.refusing (h : s.Remembers) (a : Action) (key : ResourceRequestKey) (negative : NegativeCacheEntry)
    (hentry : s.refusing env a key = some negative) : negative.Bounded := by
  cases a with
  | receive i =>
    unfold NetworkSource.refusing at hentry
    dsimp only at hentry
    cases hattempted : s.net.attempted env i with
    | none =>
      rw [hattempted] at hentry
      exact h.bounded key negative hentry
    | some attempted =>
      obtain ⟨f, attempt⟩ := attempted
      rw [hattempted] at hentry
      dsimp only at hentry
      cases httl : attempt.negativeCacheTtl with
      | none =>
        rw [httl] at hentry
        exact h.bounded key negative hentry
      | some ttl =>
        rw [httl] at hentry
        dsimp only at hentry
        split at hentry
        · by_cases hkey : key = f.request.key
          · rw [hkey, Function.update_self] at hentry
            cases hentry
            unfold System.attempted at hattempted
            obtain ⟨f', -, hf'⟩ := Option.bind_eq_some_iff.mp hattempted
            obtain ⟨answer, -, heq⟩ := Option.map_eq_some_iff.mp hf'
            cases heq
            exact Nat.add_le_add_left (fetchOnceInner_negativeCacheTtl_le httl) _
          · rw [Function.update_of_ne hkey] at hentry
            exact h.bounded key negative hentry
        · exact h.bounded key negative hentry
  | _ => exact h.bounded key negative hentry

/-- One step. -/
theorem Remembers.step (h : s.Remembers) {a : SourceAction} (hstep : s.step env a = some s') : s'.Remembers := by
  cases step_cases hstep with
  | net hnet =>
    exact ⟨h.refusing _, h.looked⟩
  | forget key => exact h.forget key
  | request request minimumUpdateInterval =>
    refine ⟨h.bounded, fun q' hq' => ?_⟩
    rcases List.mem_append.mp hq' with hq' | hq'
    · exact h.looked q' hq'
    · rw [List.mem_singleton.mp hq']
      trivial
  | look hq hphase => exact h.setPhase (looked_looked s _)
  | wake hq hphase => exact h.setPhase (looked_woken s _ _ _)
  | @refuse _ i q hq lookedAt entry negative hphase hnegative hlive =>
    have hlooked := h.looked q hq
    simp only [PendingRequest.Looked, hphase] at hlooked
    unfold NetworkSource.refusal at hnegative
    split at hnegative
    · rename_i hconsults
      exact h.setPhase ⟨hconsults, hlooked hconsults, hlive, h.bounded _ negative hnegative⟩
    · cases hnegative
  | @expire _ i q hq key =>
    have hset : (s.setPhase i q .coalesced).Remembers := h.setPhase trivial
    exact hset.forget key
  | coalesce hq => exact h.setPhase trivial
  | attempt hnet => exact ⟨h.bounded, h.looked⟩
  | conclude hq response => exact h.setPhase trivial
  | cancel hq => exact h.setPhase trivial

end NetworkSource

/-- Who is told that something is missing without a fetch: a request that may use what is cached, that has found nothing fresh in
the shared cache, within 15 s since the negative entry was made. -/
theorem refused_only_without_fresh_entry {start : Fin clockBound} {origin : ResourceRequestKey → Representation}
    {s : NetworkSource}
    (h : (networkSource env start origin).Reachable s) {q : PendingRequest} (hq : q ∈ s.requests) {negative : NegativeCacheEntry}
    {answeredAt lookedAt : SystemTime} {entry : Option Response}
      (hphase : q.phase = .refused negative answeredAt lookedAt entry) :
    usesSharedCache q.request.storagePolicy = true ∧ q.request.hasCache = true ∧
      (∀ response expires, entry = some response → response.expires = some expires → expires ≤ lookedAt) ∧
      answeredAt < negative.expiresAt ∧ negative.expiresAt ≤ negative.enteredAt + maxNegativeCacheTtl := by
  have hremembers : s.Remembers := by
    refine h.invariant ⟨?_, ?_⟩ fun _ _ _ hs hstep => NetworkSource.Remembers.step hs hstep
    · intro key negative hentry
      cases hentry
    · intro q hq
      cases hq
  have hlooked := hremembers.looked q hq
  simp only [PendingRequest.Looked, hphase, NetworkSource.consults, Bool.and_eq_true] at hlooked
  obtain ⟨⟨hpolicy, hcache⟩, hfresh, hlive, hbounded⟩ := hlooked
  exact ⟨hpolicy, hcache, hfresh, hlive, hbounded⟩

namespace NegativeExample

def noDates : HttpEnv := ⟨fun _ => none⟩

def resource : ResourceRequest :=
  ⟨"https://tiles.test/0", .tile, .permanent, true, .regular, none, none, none, none, none, none⟩

/-- A request that may not use what is cached. -/
def networkOnly : ResourceRequest := { resource with hasCache := false }

def source : Machine NetworkSource SourceAction := networkSource noDates ⟨0, clockBound_pos⟩ fun _ => ⟨[1], none⟩

def missing : Answer := .http 404 ⟨[]⟩ none [] .complete

/-- A body that is to be validated before each use. -/
def found : Answer := .http 200 ⟨[("cache-control", "no-cache".toUTF8.toList)]⟩ none [[1]] .complete

/-- A tile is missing; five seconds later it is there for who may not use what is cached; and then somebody asks who may. -/
def reappearing : List SourceAction :=
  [.request resource 0, .look 0, .consult 0, .attempt 0, .net (.answer 0 missing), .net (.receive 0), .conclude 0 0,
    .net (.advance (5 * second)),
    .request networkOnly 0, .look 1, .consult 1, .attempt 1, .net (.answer 1 found), .net (.receive 1), .conclude 1 1,
    .request resource 0, .look 2, .consult 2]

theorem reappearing_run : ((source.run source.init reappearing).any fun s => s.requests.any fun q =>
    match q.phase with
    | .refused negative _ _ entry => decide (negative.successes < q.successes) && entry.any fun r => decide (r.data = some [1])
    | _ => false) = true := by
  decide +kernel

end NegativeExample

open NegativeExample in
/-- A request is told that the tile is missing, from before there was a `200` for it. -/
theorem negative_outlives_success : ∃ s, source.Reachable s ∧ ∃ q ∈ s.requests, ∃ negative answeredAt lookedAt entry,
    q.phase = .refused negative answeredAt lookedAt entry ∧ negative.successes < q.successes := by
  obtain ⟨s, hs, hany⟩ := (Option.any_eq_true _ _).mp reappearing_run
  obtain ⟨q, hq, hp⟩ := List.any_eq_true.mp hany
  refine ⟨s, Machine.reachable_of_run hs, q, hq, ?_⟩
  split at hp
  · rename_i negative answeredAt lookedAt entry hphase
    simp only [Bool.and_eq_true, decide_eq_true_eq] at hp
    exact ⟨negative, answeredAt, lookedAt, entry, hphase, hp.1⟩
  · cases hp

open NegativeExample in
/-- There too, nothing fresh was found. -/
theorem refused_only_without_fresh_entry_reappearing : ∃ s, source.Reachable s ∧ ∃ q ∈ s.requests,
    ∃ negative answeredAt lookedAt entry, q.phase = .refused negative answeredAt lookedAt entry ∧
      ∀ response expires, entry = some response → response.expires = some expires → expires ≤ lookedAt := by
  obtain ⟨s, hs, hany⟩ := (Option.any_eq_true _ _).mp reappearing_run
  obtain ⟨q, hq, hp⟩ := List.any_eq_true.mp hany
  split at hp
  · rename_i negative answeredAt lookedAt entry hphase
    have hreach := Machine.reachable_of_run hs
    exact ⟨s, hreach, q, hq, negative, answeredAt, lookedAt, entry, hphase,
      (refused_only_without_fresh_entry hreach hq hphase).2.2.1⟩
  · cases hp

end Biei.Filesource
