import Biei.Lemmas.Filesource

/-!
# Bodies and validators in the resource cache

A fetch takes the body and the `ETag` of its prior response separately, each from its request or else from the cache.
-/

namespace Biei.Filesource

variable {env : HttpEnv}

/-! ## Origins -/

/-- The `ETag` names the body. -/
def Representation.named (names : String → Bytes) (r : Representation) : Bool := r.etag.all fun e => names e == r.body

/-- What an origin that has `r` may answer to a request with the validator: a body comes with its own `ETag`, and a `304` to
`If-None-Match` says that the body is the one named there. -/
def Answer.honest (names : String → Bytes) (r : Representation) (validator : Option ConditionalValidator) : Answer → Bool
  | .http status headers _ chunks ending =>
    if status = 200 ∨ status = 206 then headerEtag headers == r.etag && (ending != .complete || chunks.flatten == r.body)
    else if status = 304 then
      (headerEtag headers == none || headerEtag headers == r.etag) &&
        (match validator with
        | some (.etag e) => names e == r.body
        | _ => true)
    else true
  | .failed _ => true
  | .timedOut => true

/-- What a request brings of a prior response comes from one that the origin served; the body may be left out. -/
def ResourceRequest.priorsFromOne (request : ResourceRequest) (served : List (ResourceRequestKey × Representation)) : Bool :=
  (request.priorData == none && request.priorEtag == none && request.priorModified == none && request.priorExpires == none) ||
    served.any fun p => p.1 == request.key && request.priorEtag == p.2.etag && request.priorData.all fun data => data == p.2.body

/-- What is assumed of the origins and of the renderers' requests. -/
def System.assumed (names : ResourceRequestKey → String → Bytes) (s : System) : Action → Bool
  | .change key r => r.named (names key)
  | .send request => request.priorsFromOne s.served
  | .answer i answer =>
    (s.fetches[i]?).all fun f =>
      answer.honest (names f.request.key) (s.origin f.request.key) (conditionalValidator f.prior)
  | .advance _ => true
  | .evict _ => true
  | .receive _ => true

/-- The body and the `ETag` of a prior response have one source: a request that brings an `ETag` without the body finds that
`ETag` in the cache, and one that brings a body without an `ETag` finds none there. A `304` that does not answer `If-None-Match`
brings no `ETag`, unless the body is the origin's. -/
def System.unmixed (s : System) : Action → Bool
  | .send request =>
    if request.priorData.isSome then request.priorEtag.isSome || (s.consulted request).all fun r => r.etag.isNone
    else request.priorEtag.isNone || (s.consulted request).all fun r => r.etag == request.priorEtag
  | .answer i (.http 304 headers _ _ _) =>
    (s.fetches[i]?).all fun f =>
      f.prior.etag.isSome || headerEtag headers == none || f.prior.data.all fun data => data == (s.origin f.request.key).body
  | _ => true

/-! ## Pairs -/

/-- The body and the `ETag`, when both are there, were served together. -/
def Pairs (served : List (ResourceRequestKey × Representation)) (key : ResourceRequestKey) (data : Option Bytes)
    (etag : Option String) : Prop :=
  ∀ body e, data = some body → etag = some e → (key, (⟨body, some e⟩ : Representation)) ∈ served

/-- Every entry of the cache is a body with an `ETag` that the origin served it with. -/
def System.Paired (s : System) : Prop := ∀ key response, s.cache key = some response →
    Pairs s.served key response.data response.etag

section Pairs

variable {served served' : List (ResourceRequestKey × Representation)} {key : ResourceRequestKey} {data : Option Bytes}
  {etag etag' : Option String}

theorem Pairs.mono (h : Pairs served key data etag) (hsub : served ⊆ served') : Pairs served' key data etag :=
  fun body e hb he => hsub (h body e hb he)

theorem Pairs.or (h : Pairs served key data etag) (h' : Pairs served key data etag') : Pairs served key data (etag.or etag') := by
  intro body e hb he
  cases etag with
  | some e' => exact h body e hb he
  | none => exact h' body e hb he

theorem Pairs.none_etag : Pairs served key data none := fun _ _ _ he => nomatch he

theorem Pairs.of_served {r : Representation} (h : (key, r) ∈ served) (hd : data = none ∨ data = some r.body)
    (he : etag = r.etag) :
    Pairs served key data etag := by
  intro body e hb hee
  rcases hd with hd | hd
  · rw [hd] at hb
    cases hb
  · rw [hd] at hb
    cases hb
    have hr : r = ⟨r.body, some e⟩ := by rw [← hee, he]
    rw [← hr]
    exact h

end Pairs

/-! ## The invariant -/

/-- What an answer brings for the cache is paired. -/
def AnswerPaired (served : List (ResourceRequestKey × Representation)) (f : Fetch) : Answer → Prop
  | .http status headers _ chunks ending =>
    ((status = 200 ∨ status = 206) → ending = .complete → Pairs served f.request.key (some chunks.flatten) (headerEtag headers)) ∧
      (status = 304 → Pairs served f.request.key f.prior.data (headerEtag headers))
  | .failed _ => True
  | .timedOut => True

variable {answer : Answer} {f : Fetch}

theorem AnswerPaired.mono {served served' : List (ResourceRequestKey × Representation)}
    (h : AnswerPaired served f answer) (hsub : served ⊆ served') : AnswerPaired served' f answer := by
  cases answer with
  | http status headers contentLength chunks ending =>
    exact ⟨fun hs he => (h.1 hs he).mono hsub, fun hs => (h.2 hs).mono hsub⟩
  | failed label => trivial
  | timedOut => trivial

structure PairInv (names : ResourceRequestKey → String → Bytes) (s : System) : Prop where
  named : ∀ key, (s.origin key).named (names key) = true
  servedNamed : ∀ p ∈ s.served, p.2.named (names p.1) = true
  paired : s.Paired
  priors : ∀ f ∈ s.fetches, Pairs s.served f.request.key f.prior.data f.prior.etag
  answered : ∀ f ∈ s.fetches, ∀ answer, f.answer = some answer → AnswerPaired s.served f answer

variable {names : ResourceRequestKey → String → Bytes} {s s' : System}

/-- A prior response of one source is paired. -/
theorem pairs_prior (hs : PairInv names s) (request : ResourceRequest) (hassumed : s.assumed names (.send request) = true)
    (hunmixed : s.unmixed (.send request) = true) :
    Pairs s.served request.key (priorResponseWithCache request (s.consulted request)).data
      (priorResponseWithCache request (s.consulted request)).etag := by
  have hcached : ∀ r, s.consulted request = some r → Pairs s.served request.key r.data r.etag := by
    intro r hr
    unfold System.consulted at hr
    split at hr
    · exact hs.paired _ r hr
    · cases hr
  have hrequest : Pairs s.served request.key request.priorData request.priorEtag := by
    simp only [System.assumed, ResourceRequest.priorsFromOne, Bool.or_eq_true, Bool.and_eq_true, beq_iff_eq, List.any_eq_true,
      Prod.exists] at hassumed
    rcases hassumed with ⟨⟨⟨-, he⟩, -⟩, -⟩ | ⟨key, r, hmem, ⟨rfl, he⟩, hd⟩
    · rw [he]
      exact Pairs.none_etag
    · refine Pairs.of_served hmem ?_ he
      cases hpd : request.priorData with
      | none => exact Or.inl rfl
      | some data =>
        rw [hpd] at hd
        exact Or.inr (congrArg some (by simpa using hd))
  simp only [System.unmixed] at hunmixed
  -- the body and the `ETag` are each the request's, or else the cache's
  cases hd : request.priorData with
  | some data =>
    cases he : request.priorEtag with
    | some e =>
      rw [hd, he] at hrequest
      simpa only [priorResponseWithCache, hd, he, Option.some_or] using hrequest
    | none =>
      simp only [hd, he, Option.isSome_some, Option.isSome_none, Bool.false_or, if_true, Option.all_eq_true,
        Option.isNone_iff_eq_none]
        at hunmixed
      have hnone : (s.consulted request).bind (fun response => response.etag) = none := by
        rw [Option.bind_eq_none_iff]
        exact hunmixed
      simp only [priorResponseWithCache, he, Option.none_or, hnone]
      exact Pairs.none_etag
  | none =>
    cases hc : s.consulted request with
    | none =>
      intro body e hb
      simp [priorResponseWithCache, hd] at hb
    | some r =>
      cases he : request.priorEtag with
      | some e =>
        simp only [hd, he, hc, Option.isSome_none, Bool.false_eq_true, if_false, Option.isNone_some, Bool.false_or,
          Option.all_some,
          beq_iff_eq] at hunmixed
        simp only [priorResponseWithCache, hd, he, Option.none_or, Option.some_or, Option.bind_some]
        rw [← hunmixed]
        exact hcached r hc
      | none =>
        simp only [priorResponseWithCache, hd, he, Option.none_or, Option.bind_some]
        exact hcached r hc

/-- What an honest answer brings is paired with what it says. -/
theorem answerPaired_of_honest (hs : PairInv names s) {i : Nat} (hf : s.fetches[i]? = some f)
    (hassumed : s.assumed names (.answer i answer) = true) (hunmixed : s.unmixed (.answer i answer) = true) :
    AnswerPaired ((answer.states (s.origin f.request.key).body).map (fun r => (f.request.key, r)) ++ s.served) f answer := by
  have hprior := hs.priors f (List.mem_of_getElem? hf)
  cases answer with
  | failed label => trivial
  | timedOut => trivial
  | http status headers contentLength chunks ending =>
    simp only [System.assumed, hf, Option.all_some, Answer.honest] at hassumed
    constructor
    · intro hstatus hending
      rw [if_pos hstatus] at hassumed
      simp only [hending, bne_self_eq_false, Bool.false_or, Bool.and_eq_true, beq_iff_eq] at hassumed
      refine Pairs.of_served (List.mem_append_left _ (List.mem_map_of_mem
        (a := ⟨(s.origin f.request.key).body, headerEtag headers⟩) ?_))
        (Or.inr (congrArg some hassumed.2)) rfl
      simp only [Answer.states]
      rw [if_pos (by tauto)]
      exact List.mem_singleton_self _
    · rintro rfl
      rw [if_neg (by decide), if_pos rfl] at hassumed
      simp only [Bool.and_eq_true] at hassumed
      intro body e hbody he
      have hsays : (f.request.key, (⟨(s.origin f.request.key).body, some e⟩ : Representation)) ∈
          (Answer.states (s.origin f.request.key).body (.http 304 headers contentLength chunks ending)).map
            (fun r => (f.request.key, r)) ++ s.served := by
        simp [Answer.states, he]
      -- the body is the one the origin has: the `ETag` that was sent names both
      have hsame : (s.origin f.request.key).body = body := by
        cases hpe : f.prior.etag with
        | some sent =>
          have hnames : names f.request.key sent = (s.origin f.request.key).body := by
            have h := hassumed.2
            simp only [conditionalValidator, hpe, Option.map_some, Option.some_or] at h
            simpa using h
          have hserved := hs.servedNamed _ (hprior body sent hbody hpe)
          simp only [Representation.named, Option.all_some, beq_iff_eq] at hserved
          rw [← hnames, hserved]
        | none =>
          simp only [System.unmixed, hf, Option.all_some, hpe, Option.isSome_none, Bool.false_or, he, hbody, Bool.or_eq_true,
            beq_iff_eq] at hunmixed
          rcases hunmixed with h | h
          · cases h
          · exact h.symm
      rw [← hsame]
      exact hsays

/-- What an honest answer says of a body is true. -/
theorem states_named {names : String → Bytes} {r : Representation} {validator : Option ConditionalValidator}
    (hr : r.named names = true) (h : answer.honest names r validator = true) {said : Representation}
    (hsaid : said ∈ answer.states r.body) : said.named names = true := by
  cases answer with
  | failed label => cases hsaid
  | timedOut => cases hsaid
  | http status headers contentLength chunks ending =>
    simp only [Answer.states] at hsaid
    split at hsaid
    · rename_i hstatus
      obtain rfl := List.mem_singleton.mp hsaid
      have hetag : headerEtag headers = none ∨ headerEtag headers = r.etag := by
        simp only [Answer.honest] at h
        split at h
        · simp only [Bool.and_eq_true, beq_iff_eq] at h
          exact Or.inr h.1
        · split at h
          · simp only [Bool.and_eq_true, Bool.or_eq_true, beq_iff_eq] at h
            exact h.1
          · tauto
      rcases hetag with hetag | hetag
      · rw [hetag]
        rfl
      · rw [hetag]
        exact hr
    · cases hsaid

/-- The invariant holds initially. -/
theorem pairInv_init {start : Fin clockBound} {origin : ResourceRequestKey → Representation}
    (h : ∀ key, (origin key).named (names key) = true) : PairInv names (system env start origin).init where
  named := h
  servedNamed := fun _ hp => nomatch hp
  paired := fun _ _ hc => nomatch hc
  priors := fun _ hf => nomatch hf
  answered := fun _ hf => nomatch hf

/-- What is stored from an answer that is paired, with a prior response that is paired, is paired. -/
theorem Fetched.pairs {served : List (ResourceRequestKey × Representation)} {now : SystemTime}
    {status : Nat} {headers : HeaderMap} {response : Response}
    (h : Fetched env now f.request f.cached answer status headers response)
      (hprior : Pairs served f.request.key f.prior.data f.prior.etag)
    (hanswer : AnswerPaired served f answer) : Pairs served f.request.key response.data response.etag := by
  cases h with
  | materialized hdata =>
    have hnew : Pairs served f.request.key f.prior.data (headerEtag headers) := hanswer.2 rfl
    have hboth : Pairs served f.request.key f.prior.data (((headerEtag headers).or f.prior.etag).or none) :=
      (hnew.or hprior).or Pairs.none_etag
    have hbody : f.prior.data = some _ := hdata
    rw [hbody] at hboth
    exact hboth
  | full hstatus hlength hread =>
    obtain ⟨hending, hbody⟩ := readBody_ok hread
    rw [List.nil_append] at hbody
    have hnew := hanswer.1 hstatus hending
    rw [← hbody] at hnew
    exact (hnew.or Pairs.none_etag).or Pairs.none_etag

/-- A step that meets the assumptions and mixes no sources keeps the invariant. -/
theorem pairInv_step (hs : PairInv names s) {a : Action} (hassumed : s.assumed names a = true) (hunmixed : s.unmixed a = true)
    (h : s.step env a = some s') : PairInv names s' := by
  cases a with
  | advance d =>
    simp only [System.step, Option.ite_none_right_eq_some, Option.some.injEq] at h
    obtain ⟨-, rfl⟩ := h
    exact ⟨hs.named, hs.servedNamed, hs.paired, hs.priors, hs.answered⟩
  | change key r =>
    simp only [System.step, Option.some.injEq] at h
    subst h
    refine ⟨fun k => ?_, hs.servedNamed, hs.paired, hs.priors, hs.answered⟩
    by_cases hk : k = key
    · subst hk
      simpa [System.assumed] using hassumed
    · simpa [hk] using hs.named k
  | evict key =>
    simp only [System.step, Option.some.injEq] at h
    subst h
    refine ⟨hs.named, hs.servedNamed, fun k response hk => ?_, hs.priors, hs.answered⟩
    exact hs.paired k response (update_none_eq_some hk).2
  | send request =>
    simp only [System.step, Option.some.injEq] at h
    subst h
    refine ⟨hs.named, hs.servedNamed, hs.paired, fun f hf => ?_, fun f hf answer hanswer => ?_⟩
    · rcases List.mem_append.mp hf with hf | hf
      · exact hs.priors f hf
      · obtain rfl := List.mem_singleton.mp hf
        exact pairs_prior hs request hassumed hunmixed
    · rcases List.mem_append.mp hf with hf | hf
      · exact hs.answered f hf answer hanswer
      · obtain rfl := List.mem_singleton.mp hf
        cases hanswer
  | answer i answer =>
    obtain ⟨f, hf, -, rfl⟩ := step_answer h
    have hsub : s.served ⊆ (answer.states (s.origin f.request.key).body).map (fun r => (f.request.key, r)) ++ s.served :=
      List.subset_append_right _ _
    refine ⟨hs.named, fun p hp => ?_, fun k r hk => (hs.paired k r hk).mono hsub, fun g hg => ?_, fun g hg answer' hg' => ?_⟩
    · rcases List.mem_append.mp hp with hp | hp
      · obtain ⟨r, hr, rfl⟩ := List.mem_map.mp hp
        simp only [System.assumed, hf, Option.all_some] at hassumed
        exact states_named (hs.named _) hassumed hr
      · exact hs.servedNamed p hp
    · rcases List.mem_or_eq_of_mem_set hg with hg | rfl
      · exact (hs.priors g hg).mono hsub
      · exact (hs.priors f (List.mem_of_getElem? hf)).mono hsub
    · rcases List.mem_or_eq_of_mem_set hg with hg | rfl
      · exact (hs.answered g hg answer' hg').mono hsub
      · cases hg'
        exact answerPaired_of_honest hs hf hassumed hunmixed
  | receive i =>
    obtain ⟨f, answer, hf, ha, -, rfl⟩ := step_receive h
    obtain ⟨hnow, horigin, hserved, hfetches⟩ := receive_frame env s i f answer
    have hmem := List.mem_of_getElem? hf
    -- every fetch is as it was, but for the one that is finished
    have hkept : ∀ g ∈ (s.receive env i f answer).fetches, ∃ g' ∈ s.fetches, g'.request = g.request ∧ g'.cached = g.cached ∧
        g'.answer = g.answer := by
      intro g hg
      rw [hfetches] at hg
      rcases List.mem_or_eq_of_mem_set hg with hg | rfl
      · exact ⟨g, hg, rfl, rfl, rfl⟩
      · exact ⟨f, hmem, rfl, rfl, rfl⟩
    refine ⟨fun k => horigin ▸ hs.named k, hserved ▸ hs.servedNamed, fun k response hk => ?_, fun g hg => ?_,
      fun g hg answer' hg' => ?_⟩
    · rw [hserved]
      rcases receive_cache_eq_some hk with ⟨hk, -⟩ | ⟨rfl, status, headers, hfetched, -⟩
      · exact hs.paired k response hk
      · exact hfetched.pairs (hs.priors f hmem) (hs.answered f hmem answer ha)
    · obtain ⟨g', hg', hr, hcached, -⟩ := hkept g hg
      have h := hs.priors g' hg'
      unfold Fetch.prior at h ⊢
      rw [hserved, ← hr, ← hcached]
      exact h
    · obtain ⟨g', hg'', hr, hcached, hga⟩ := hkept g hg
      have h := hs.answered g' hg'' answer' (hga.trans hg')
      rw [hserved]
      obtain ⟨request, cached, answer₀, finished⟩ := g
      obtain ⟨request', cached', answer₁, finished'⟩ := g'
      dsimp only at hr hcached
      subst hr hcached
      exact h

/-! ## The result -/

/-- However fetches overlap, and whatever is evicted or changes at the origins, also back to what was there before: as long as no
fetch takes the body of its prior response from one source and the `ETag` from another, every entry of the cache pairs a body with
an `ETag` that the origin served it with. -/
theorem cache_paired_of_unmixed {start : Fin clockBound} {origin : ResourceRequestKey → Representation}
    (horigin : ∀ key, (origin key).named (names key) = true)
    (h : (system env start origin).ReachedBy (fun s a => (s.assumed names a && s.unmixed a) = true) s) : s.Paired := by
  have hinv : PairInv names s := h.invariant (pairInv_init horigin) fun t a t' ht hg hstep => by
    obtain ⟨hassumed, hunmixed⟩ := Bool.and_eq_true_iff.mp hg
    exact pairInv_step ht hassumed hunmixed hstep
  exact hinv.paired

namespace PairExample

def noDates : HttpEnv := ⟨fun _ => none⟩

def request : ResourceRequest :=
  ⟨"https://tiles.test/0", .tile, .permanent, true, .regular, none, none, none, none, none, none⟩

def tagged (_ : ResourceRequestKey) (e : String) : Bytes := if e = "\"1\"" then [1] else [2]

def one : Representation := ⟨[1], some "\"1\""⟩

def two : Representation := ⟨[2], some "\"2\""⟩

/-- `200` with the body and the `ETag` of the first representation, or of the second. -/
def full (digit : UInt8) (body : Bytes) : Answer := .http 200 ⟨[("etag", [34, digit, 34])]⟩ none [body] .complete

def notModified : Answer := .http 304 ⟨[]⟩ none [] .complete

def machine : Machine System Action := system noDates ⟨0, by decide⟩ fun _ => one

/-- A renderer that had the first representation asks with its `ETag` only, once another one has fetched the second and the origin
has gone back to the first. -/
def goingBack : List Action :=
  [.send request, .answer 0 (full 49 [1]), .receive 0, .advance (300 * second),
    .change request.key two, .send request, .answer 1 (full 50 [2]), .receive 1, .advance (300 * second),
    .change request.key one,
    .send { request with priorEtag := some "\"1\"", priorExpires := some (300 * second) },
    .answer 2 notModified, .receive 2]

/-- The same without the second renderer. -/
def revalidated : List Action :=
  [.send request, .answer 0 (full 49 [1]), .receive 0, .advance (300 * second),
    .send { request with priorEtag := some "\"1\"", priorExpires := some (300 * second) },
    .answer 1 notModified, .receive 1]

end PairExample

open PairExample in
/-- A `304` to a renderer that is alone with its entry. -/
theorem cache_paired_of_unmixed_revalidated :
    ∃ s : System, machine.ReachedBy (fun s a => (s.assumed tagged a && s.unmixed a) = true) s ∧
      ((s.cache request.key).any fun r => r.etag == some "\"1\"") = true ∧ s.Paired := by
  obtain ⟨s, hs, hp⟩ := Machine.exists_of_guardedRun machine (fun s a => s.assumed tagged a && s.unmixed a) revalidated
    (fun s => (s.cache request.key).any fun r => r.etag == some "\"1\"") (by decide +kernel)
  exact ⟨s, hs, hp, cache_paired_of_unmixed (fun _ => rfl) hs⟩

open PairExample in
/-- The second body is stored under the first one's `ETag`. -/
theorem cache_mixes_versions :
    (∀ key, one.named (tagged key) = true) ∧
      ∃ s : System, machine.ReachedBy (fun s a => s.assumed tagged a = true) s ∧ ¬ s.Paired := by
  obtain ⟨s, hs, hp⟩ := Machine.exists_of_guardedRun machine (System.assumed tagged) goingBack
    (fun s => (s.cache request.key).any fun r => r.data == some [2] && r.etag == some "\"1\"" &&
      !s.served.contains (request.key, ⟨[2], some "\"1\""⟩)) (by decide +kernel)
  refine ⟨fun _ => rfl, s, hs, fun hpaired => ?_⟩
  obtain ⟨r, hr, hp⟩ := (Option.any_eq_true _ _).mp hp
  simp only [Bool.and_eq_true, beq_iff_eq, Bool.not_eq_true', List.contains_eq_mem, decide_eq_false_iff_not] at hp
  exact hp.2 (hpaired _ r hr _ _ hp.1.1 hp.1.2)

/-! ## Freshness of the resource cache -/

/-! ## Expiry -/

variable {now : SystemTime}

/-- A point within an hour of the clock can be represented. -/
theorem checkedAddTime_of_clock {d : Duration} (hnow : now < clockBound) (hd : d ≤ maxHeuristicFreshness) :
    checkedAddTime now d = some (now + d) := by
  unfold checkedAddTime
  have hbound : clockBound + maxHeuristicFreshness < systemTimeBound := by decide
  exact if_pos (lt_of_le_of_lt (Nat.add_le_add (Nat.le_of_lt hnow) hd) hbound)

/-- What is guessed is at most an hour. -/
theorem heuristicExpires_bounded (env : HttpEnv) (headers : HeaderMap) (hnow : now < clockBound) :
    ∃ e, heuristicExpires env headers now = some e ∧ e ≤ now + maxHeuristicFreshness := by
  have hguess : ∀ age : Option Duration,
      (age.map fun age => min (max (age / heuristicFreshnessDivisor) minHeuristicFreshness) maxHeuristicFreshness).getD
        defaultHeuristicFreshness ≤ maxHeuristicFreshness := by
    intro age
    cases age with
    | none => decide
    | some age => exact Nat.min_le_right _ _
  have hbound := hguess ((headerDate env headers "last-modified").bind fun modified => durationSince now modified)
  exact ⟨_, checkedAddTime_of_clock hnow hbound, Nat.add_le_add_left hbound now⟩

/-- The expiry of a response with a body that demands no validation. -/
theorem responseExpires_bounded (env : HttpEnv) (headers : HeaderMap) (hnow : now < clockBound)
    (hfree : requiresValidation (parsedCacheControl headers) {} = false) :
    ∃ e, responseExpires env headers {} now = some e ∧
      (e ≤ now + max ((sharedMaxAge (parsedCacheControl headers)).getD 0) maxHeuristicFreshness ∨
        headerDate env headers "expires" = some e) := by
  obtain ⟨guess, hguess, hle⟩ := heuristicExpires_bounded env headers hnow
  have hlate : guess ≤ now + max ((sharedMaxAge (parsedCacheControl headers)).getD 0) maxHeuristicFreshness :=
    le_trans hle (Nat.add_le_add_left (Nat.le_max_right _ _) now)
  simp only [responseExpires, hfree, Bool.false_and, Bool.false_eq_true, if_false, inheritedExpires, Option.none_or, hguess]
  -- an explicit lifetime, when it can be added to the clock; else the `Expires` date; else the guess
  cases hadd : ((sharedMaxAge (parsedCacheControl headers)).map fun maxAge => maxAge - responseCurrentAge env headers now).bind
      (checkedAddTime now) with
  | some e =>
    refine ⟨e, rfl, Or.inl ?_⟩
    obtain ⟨left, hleft, hsum⟩ := Option.bind_eq_some_iff.mp hadd
    obtain ⟨maxAge, hmax, rfl⟩ := Option.map_eq_some_iff.mp hleft
    unfold checkedAddTime at hsum
    split at hsum
    · cases hsum
      rw [hmax]
      exact Nat.add_le_add_left (le_trans (Nat.sub_le _ _) (Nat.le_max_left _ _)) now
    · cases hsum
  | none =>
    cases hexp : headerDate env headers "expires" with
    | some e => exact ⟨e, rfl, Or.inr rfl⟩
    | none => exact ⟨guess, rfl, Or.inl hlate⟩

/-- A response that is `no-cache`, or inherits that, has expired from the start. -/
theorem responseExpires_of_noCache {headers : HeaderMap} {prior : PriorResponse}
    (hvalidate : requiresValidation (parsedCacheControl headers) prior = true)
    (hno : isNoCache (parsedCacheControl headers) prior = true) : responseExpires env headers prior now = some unixEpoch := by
  simp only [responseExpires, hvalidate, hno, Bool.and_self, if_true]

/-! ## What should hold -/

/-- What the cache answers without forcing validation is not expired, or has no expiry and demands no validation. -/
def System.ServesFresh (s : System) : Prop :=
  ∀ request response reply, databaseRequest s.cache s.now request = (.hit response, reply) → reply = response ∧
    ((∃ e, response.expires = some e ∧ s.now < e) ∨ (response.expires = none ∧ response.mustRevalidate = false))

/-- Every entry that was stored from a `200` that demands no validation expires, no later than its own lifetime or an hour after
it was received, or at its `Expires` date. -/
def System.Expires (env : HttpEnv) (s : System) : Prop :=
  ∀ key response, s.cache key = some response → ∃ p, s.provenance key = some p ∧
    (p.status = 200 → requiresValidation (parsedCacheControl p.headers) {} = false →
      ∃ e, response.expires = some e ∧
        (e ≤ p.receivedAt + max ((sharedMaxAge (parsedCacheControl p.headers)).getD 0) maxHeuristicFreshness ∨
          headerDate env p.headers "expires" = some e))

/-- A response for the cache that is `no-store` or `private` leaves no entry. -/
def System.Removes (env : HttpEnv) (s : System) : Prop :=
  ∀ i s' f answer status headers response, s.step env (.receive i) = some s' → s.fetches[i]? = some f → f.answer = some answer →
    f.request.storagePolicy = .permanent → Fetched env s.now f.request f.cached answer status headers response →
    ((parsedCacheControl headers).any fun control => control.noStore || control.private) = true → s'.cache f.request.key = none

/-- An entry whose latest response was `no-cache` is not answered without validation. -/
def System.ValidatesNoCache (s : System) : Prop :=
  ∀ request response reply, s.noCache request.key = true → databaseRequest s.cache s.now request ≠ (.hit response, reply)

/-- A `304` without `Cache-Control` that is to be stored for a key whose latest response was `no-cache` was asked for by a request
that found the `no-cache` entry in the cache, and brings no other expiry. -/
def System.inheritsNoCache (s : System) : Action → Bool
  | .receive i =>
    (s.fetches[i]?).all fun f =>
      match f.answer with
      | some (.http 304 headers _ _ _) =>
        (parsedCacheControl headers).isSome || f.prior.data.isNone || !usesSharedCache f.request.storagePolicy ||
          !s.noCache f.request.key ||
          ((f.cached.any fun r => r.mustRevalidate && r.expires == some unixEpoch) &&
            (f.request.priorExpires == none || f.request.priorExpires == some unixEpoch))
      | _ => true
  | _ => true

/-! ## Invariants -/

theorem lookup_hit {cache : ResourceCache} {key : ResourceRequestKey} {response : Response}
    (h : cache.lookup now key = .hit response) :
    cache key = some response ∧
      ((∃ e, response.expires = some e ∧ now < e) ∨ (response.expires = none ∧ response.mustRevalidate = false)) := by
  unfold ResourceCache.lookup at h
  cases hc : cache key with
  | none => simp [hc] at h
  | some r =>
    simp only [hc] at h
    split at h
    · cases h
    · rename_i hfresh
      obtain rfl := CacheLookup.hit.inj h
      refine ⟨rfl, ?_⟩
      cases he : r.expires with
      | some e => exact Or.inl ⟨e, rfl, by simpa [he] using hfresh⟩
      | none => exact Or.inr ⟨rfl, by simpa [he] using hfresh⟩

theorem databaseRequest_hit {cache : ResourceCache} {request : ResourceRequest} {response reply : Response}
    (h : databaseRequest cache now request = (.hit response, reply)) : cache.lookup now request.key = .hit response ∧
      reply = response := by
  unfold databaseRequest at h
  split at h
  · cases h
  · cases hl : cache.lookup now request.key with
    | hit r =>
      simp only [hl, Prod.mk.injEq, CacheLookup.hit.injEq] at h
      obtain ⟨rfl, rfl⟩ := h
      exact ⟨rfl, rfl⟩
    | revalidate r => simp [hl] at h
    | miss => simp [hl] at h

theorem servesFresh (s : System) : s.ServesFresh := by
  intro request response reply h
  obtain ⟨hl, hreply⟩ := databaseRequest_hit h
  exact ⟨hreply, (lookup_hit hl).2⟩

theorem removes (env : HttpEnv) (s : System) : s.Removes env := by
  intro i s' f answer status headers response hstep hf hanswer hperm hfetched hno
  obtain ⟨f', answer', hf', hanswer', -, rfl⟩ := step_receive hstep
  obtain rfl : f = f' := by simpa [hf] using hf'
  obtain rfl : answer = answer' := by simpa [hanswer] using hanswer'
  have hremove : cachePolicyForResponse f.request.storagePolicy headers = .remove := by
    unfold cachePolicyForResponse
    rw [if_neg (by simpa using hperm), if_pos hno]
  rcases hfetched.receive (i := i) with ⟨hp, -⟩ | ⟨-, hc, -⟩ | ⟨hp, -⟩
  · rw [hremove] at hp
    cases hp
  · rw [hc, Function.update_self]
  · rw [hremove] at hp
    cases hp

/-- The clock can be represented, and every entry expires. -/
structure ExpiryInv (env : HttpEnv) (s : System) : Prop where
  clock : s.now < clockBound
  expires : s.Expires env

theorem expiryInv_step (hs : ExpiryInv env s) {a : Action} (h : s.step env a = some s') : ExpiryInv env s' := by
  cases a with
  | advance d =>
    simp only [System.step, Option.ite_none_right_eq_some, Option.some.injEq] at h
    obtain ⟨hclock, rfl⟩ := h
    exact ⟨hclock, hs.expires⟩
  | change key r =>
    simp only [System.step, Option.some.injEq] at h
    subst h
    exact ⟨hs.clock, hs.expires⟩
  | evict key =>
    simp only [System.step, Option.some.injEq] at h
    subst h
    refine ⟨hs.clock, fun k response hk => ?_⟩
    obtain ⟨hne, hk⟩ := update_none_eq_some hk
    obtain ⟨p, hp, hrest⟩ := hs.expires k response hk
    exact ⟨p, (Function.update_of_ne hne none s.provenance).trans hp, hrest⟩
  | send request =>
    simp only [System.step, Option.some.injEq] at h
    subst h
    exact ⟨hs.clock, hs.expires⟩
  | answer i answer =>
    obtain ⟨f, -, -, rfl⟩ := step_answer h
    exact ⟨hs.clock, hs.expires⟩
  | receive i =>
    obtain ⟨f, answer, -, -, -, rfl⟩ := step_receive h
    obtain ⟨hnow, -⟩ := receive_frame env s i f answer
    refine ⟨by rw [hnow]; exact hs.clock, fun k response hk => ?_⟩
    rcases receive_cache_eq_some hk with ⟨hk, hp, -⟩ | ⟨-, status, headers, hfetched, -, hp, -⟩
    · rw [hp]
      exact hs.expires k response hk
    · refine ⟨⟨status, headers, s.now⟩, hp, fun hstatus hfree => ?_⟩
      -- a `304` does not have the status asked for
      cases hfetched with
      | materialized hdata => exact absurd hstatus (by simp)
      | full _ hlength hread =>
        obtain ⟨e, he, hle⟩ := responseExpires_bounded env headers hs.clock hfree
        exact ⟨e, by simp [withCacheMetadata, he], hle⟩

/-- Every entry whose latest response was `no-cache` has expired from the start, and demands validation. -/
def NoCacheInv (s : System) : Prop :=
  ∀ key response, s.cache key = some response → s.noCache key = true →
    response.mustRevalidate = true ∧ response.expires = some unixEpoch

/-- What is stored for a response that is `no-cache`, or inherits that, has expired from the start. -/
theorem withCacheMetadata_noCache {headers : HeaderMap} {prior : PriorResponse} (response : Response)
    (hvalidate : requiresValidation (parsedCacheControl headers) prior = true)
    (hno : isNoCache (parsedCacheControl headers) prior = true) :
    (withCacheMetadata env response headers prior now).mustRevalidate = true ∧
      (withCacheMetadata env response headers prior now).expires = some unixEpoch := by
  simp only [withCacheMetadata, hvalidate, responseExpires_of_noCache hvalidate hno, Bool.true_or, Option.some_or, and_self]

theorem noCacheInv_step (hs : NoCacheInv s) {a : Action} (hguard : s.inheritsNoCache a = true) (h : s.step env a = some s') :
    NoCacheInv s' := by
  cases a with
  | advance d =>
    simp only [System.step, Option.ite_none_right_eq_some, Option.some.injEq] at h
    obtain ⟨-, rfl⟩ := h
    exact hs
  | change key r =>
    simp only [System.step, Option.some.injEq] at h
    subst h
    exact hs
  | evict key =>
    simp only [System.step, Option.some.injEq] at h
    subst h
    intro k response hk hno
    exact hs k response (update_none_eq_some hk).2 hno
  | send request =>
    simp only [System.step, Option.some.injEq] at h
    subst h
    exact hs
  | answer i answer =>
    obtain ⟨f, -, -, rfl⟩ := step_answer h
    exact hs
  | receive i =>
    obtain ⟨f, answer, hf, ha, -, rfl⟩ := step_receive h
    intro k response hk hno
    rcases receive_cache_eq_some hk with ⟨hk, -, hn⟩ | ⟨rfl, status, headers, hfetched, hstore, -, hn⟩
    · rw [hn] at hno
      exact hs k response hk hno
    · rw [hn] at hno
      -- by its own `Cache-Control`, or by what it inherits
      cases hcontrol : parsedCacheControl headers with
      | some control =>
        have hctl : control.noCache = true := by simpa [noCacheAfter, hcontrol] using hno
        have hvalidate : ∀ prior, requiresValidation (parsedCacheControl headers) prior = true := by
          intro prior
          simp [requiresValidation, hcontrol, hctl]
        have hisNo : ∀ prior, isNoCache (parsedCacheControl headers) prior = true := by
          intro prior
          simp [isNoCache, hcontrol, hctl]
        cases hfetched with
        | materialized hdata => exact withCacheMetadata_noCache _ (hvalidate _) (hisNo _)
        | full _ hlength hread => exact withCacheMetadata_noCache _ (hvalidate _) (hisNo _)
      | none =>
        simp only [noCacheAfter, hcontrol, Bool.and_eq_true, beq_iff_eq] at hno
        obtain ⟨rfl, hbefore⟩ := hno
        cases hfetched with
        | full hstatus hlength hread => exact absurd hstatus (by decide)
        | materialized hdata =>
          have hperm : usesSharedCache f.request.storagePolicy = true := by
            simp [usesSharedCache, (cachePolicyForResponse_store hstore).1]
          have hdata' : f.prior.data = some _ := hdata
          simp only [System.inheritsNoCache, hf, Option.all_some, ha, hcontrol, Option.isSome_none, hdata', Option.isNone_some,
            hperm,
            hbefore, Bool.not_true, Bool.false_or, Bool.and_eq_true, Bool.or_eq_true, beq_iff_eq] at hguard
          obtain ⟨hcached, hexpires⟩ := hguard
          obtain ⟨r, hr, hr'⟩ := (Option.any_eq_true _ _).mp hcached
          simp only [Bool.and_eq_true, beq_iff_eq] at hr'
          have hmust : (priorResponseWithCache f.request f.cached).mustRevalidate = true := by
            simp [priorResponseWithCache, hr, hr'.1]
          have hpriorExpires : (priorResponseWithCache f.request f.cached).expires = some unixEpoch := by
            rcases hexpires with he | he
            · simp [priorResponseWithCache, hr, he, hr'.2]
            · simp [priorResponseWithCache, he]
          refine withCacheMetadata_noCache _ ?_ ?_
          · simp [requiresValidation, hcontrol, hmust]
          · simp [isNoCache, hcontrol, hmust, hpriorExpires]

/-! ## The result -/

/-- In every state: what the cache answers is fresh, every entry from a `200` expires in time, and `no-store` leaves no entry. In
every run whose `304`s inherit `no-cache` from the entry they validate: an entry whose latest response was `no-cache` is not
answered without validation. -/
theorem resource_cache_fresh (env : HttpEnv) (start : Fin clockBound) (origin : ResourceRequestKey → Representation) :
    (∀ s, (system env start origin).Reachable s → s.ServesFresh ∧ s.Expires env ∧ s.Removes env) ∧
      ∀ s, (system env start origin).ReachedBy (fun s a => s.inheritsNoCache a = true) s → s.ValidatesNoCache := by
  refine ⟨fun s hs => ?_, fun s hs request response reply hno h => ?_⟩
  · have hinv : ExpiryInv env s := hs.invariant ⟨start.isLt, fun _ _ hc => nomatch hc⟩ fun t a t' ht hstep =>
      expiryInv_step ht hstep
    exact ⟨servesFresh s, hinv.expires, removes env s⟩
  · have hinv : NoCacheInv s := hs.invariant (fun _ _ hc => nomatch hc) fun t a t' ht hg hstep => noCacheInv_step ht hg hstep
    obtain ⟨hl, -⟩ := databaseRequest_hit h
    obtain ⟨hc, hfresh⟩ := lookup_hit hl
    obtain ⟨-, hexpires⟩ := hinv request.key response hc hno
    rcases hfresh with ⟨e, he, hlt⟩ | ⟨he, -⟩
    · rw [hexpires] at he
      cases he
      exact absurd hlt (Nat.not_lt_zero _)
    · rw [hexpires] at he
      cases he

namespace FreshnessExample

def machine : Machine System Action := system ⟨fun _ => none⟩ ⟨0, by decide⟩ fun _ => ⟨[1], some "\"1\""⟩

def request : ResourceRequest :=
  ⟨"https://tiles.test/0", .tile, .permanent, true, .regular, none, none, none, none, none, none⟩

/-- A request that is made for the entry as `expires` has it, with its body and its `ETag`. -/
def revalidation (expires : SystemTime) : ResourceRequest :=
  { request with priorData := some [1], priorEtag := some "\"1\"", priorExpires := some expires }

/-- `Cache-Control: max-age=1`, with an `ETag`. -/
def oneSecond : HeaderMap := ⟨[("etag", [34, 49, 34]), ("cache-control", [109, 97, 120, 45, 97, 103, 101, 61, 49])]⟩

/-- `Cache-Control: no-cache`, with an `ETag`. -/
def noCache : HeaderMap := ⟨[("etag", [34, 49, 34]), ("cache-control", [110, 111, 45, 99, 97, 99, 104, 101])]⟩

def full (headers : HeaderMap) : Answer := .http 200 headers none [[1]] .complete

def notModified (headers : HeaderMap) : Answer := .http 304 headers none [] .complete

/-- An entry that is `no-cache`, and is validated by a `304` that does not say so again. -/
def inherited : List Action :=
  [.send request, .answer 0 (full noCache), .receive 0, .advance second,
    .send (revalidation unixEpoch), .answer 1 (notModified ⟨[]⟩), .receive 1]

/-- Two renderers find an expired entry. The first one's `304` makes it `no-cache`; the second one's says nothing. -/
def overtaken : List Action :=
  [.send request, .answer 0 (full oneSecond), .receive 0, .advance second,
    .send (revalidation second), .answer 1 (notModified noCache), .receive 1,
    .send (revalidation second), .answer 2 (notModified ⟨[]⟩), .receive 2]

end FreshnessExample

open FreshnessExample in
/-- The entry that was validated by a `304` without `Cache-Control` is still `no-cache`. -/
theorem resource_cache_fresh_inherited :
    ∃ s : System, machine.ReachedBy (fun s a => s.inheritsNoCache a = true) s ∧
      ((s.cache request.key).isSome && s.noCache request.key) = true ∧ s.ValidatesNoCache := by
  obtain ⟨s, hs, hp⟩ := Machine.exists_of_guardedRun machine System.inheritsNoCache inherited
    (fun s => (s.cache request.key).isSome && s.noCache request.key) (by decide +kernel)
  exact ⟨s, hs, hp, (resource_cache_fresh _ _ _).2 s hs⟩

open FreshnessExample in
/-- An entry whose latest response was `no-cache` is answered as fresh, after a `304` without `Cache-Control`. -/
theorem no_cache_lost : ∃ s : System, machine.Reachable s ∧ ¬ s.ValidatesNoCache := by
  obtain ⟨s, hs, hp⟩ := Machine.exists_of_guardedRun machine (fun _ _ => true) overtaken
    (fun s => s.noCache request.key && match databaseRequest s.cache s.now request with
      | (.hit _, _) => true
      | _ => false) (by decide +kernel)
  refine ⟨s, hs.mono fun _ _ _ => trivial, fun hval => ?_⟩
  obtain ⟨hno, hp⟩ := Bool.and_eq_true_iff.mp hp
  cases hd : databaseRequest s.cache s.now request with
  | mk found reply =>
    cases found with
    | hit response => exact hval request response reply hno hd
    | revalidate response => simp [hd] at hp
    | miss => simp [hd] at hp

end Biei.Filesource
