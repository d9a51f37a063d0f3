import Biei.Lemmas.Provider
import Biei.Lib.Fallible

/-! # Lemmas on provider bodies -/

namespace Biei.Provider

open Fetcher

/-! ## Codings -/

/-- What `decode_provider_body` makes of a content encoding. -/
inductive Coding where
  | identity
  | gzip
  | unsupported
deriving DecidableEq

def contentCoding (contentEncoding : Option (List Char)) : Coding :=
  match (contentEncoding.map trim).filter fun value => !value.isEmpty && !eqIgnoreAsciiCase value "identity".toList with
  | none => .identity
  | some encoding =>
    if !eqIgnoreAsciiCase encoding "gzip".toList && !eqIgnoreAsciiCase encoding "x-gzip".toList then .unsupported else .gzip

/-- Decoding by the coding alone; what is decoded, when it succeeds. -/
def decodeAs (env : ProviderEnv) (body : Bytes) (maxBytes : Nat) : Coding → Option Bytes
  | .identity => if body.length > maxBytes then none else some body
  | .gzip =>
    match env.gunzip body (maxBytes + 1) with
    | .error _ => none
    | .ok decoded => if decoded.length > maxBytes then none else some decoded
  | .unsupported => none

variable {env : ProviderEnv}

/-- What a body decodes to depends on the coding that its encoding names. -/
theorem decodeProviderBody_eq_ok {body decoded : Bytes} {contentEncoding : Option (List Char)} {maxBytes : Nat}
    {resource : String} : decodeProviderBody env body contentEncoding maxBytes resource = .ok decoded ↔
      decodeAs env body maxBytes (contentCoding contentEncoding) = some decoded := by
  unfold decodeProviderBody contentCoding
  cases (contentEncoding.map trim).filter fun value => !value.isEmpty && !eqIgnoreAsciiCase value "identity".toList with
  | none =>
    simp only [decodeAs]
    split <;> simp
  | some encoding =>
    simp only
    split
    · simp [decodeAs]
    · simp only [decodeAs]
      cases env.gunzip body (maxBytes + 1) with
      | error error => simp
      | ok bytes =>
        simp only
        split <;> simp

/-- Trimming twice is trimming once. -/
theorem trim_trim (text : List Char) : trim (trim text) = trim text := by
  have htrim : ∀ l : List Char, trim l = (l.dropWhile isWhitespace).rdropWhile isWhitespace := fun _ => rfl
  rw [htrim (trim text), htrim text]
  -- What is dropped from the right leaves the head, which is not white space.
  have hhead : ((text.dropWhile isWhitespace).rdropWhile isWhitespace).dropWhile isWhitespace =
      (text.dropWhile isWhitespace).rdropWhile isWhitespace := by
    refine List.dropWhile_eq_self_iff.mpr fun hl => ?_
    have hpre := List.rdropWhile_prefix isWhitespace (text.dropWhile isWhitespace)
    rw [hpre.getElem hl]
    exact List.dropWhile_eq_self_iff.mp (List.dropWhile_idempotent isWhitespace text) (Nat.lt_of_lt_of_le hl hpre.length_le)
  rw [hhead, List.rdropWhile_idempotent]

/-- A coding is named by the trimmed text as by the text. -/
theorem contentCoding_trim (value : List Char) : contentCoding (some (trim value)) = contentCoding (some value) := by
  unfold contentCoding
  rw [Option.map_some, Option.map_some, trim_trim]

/-- A text that names no coding is `identity`. -/
theorem contentCoding_of_not_named {value : List Char} (h : namedCoding value = false) :
    contentCoding (some value) = .identity := by
  unfold namedCoding at h
  unfold contentCoding
  rw [Option.map_some, Option.filter_some, h, Bool.and_false, if_neg Bool.false_ne_true]

/-- The encoding that a `304` leaves names the coding that its headers name, or the one there was. -/
theorem contentCoding_revalidated (env : HttpEnv) (cached : CachedProviderRepresentation) (resource : String) (reply : HttpReply)
    (h : ∀ value, joinedHeaderValues reply.headers "content-encoding" = some value →
      contentCoding (some value) = contentCoding cached.contentEncoding) :
    contentCoding (revalidatedProviderResource env cached resource (some reply)).contentEncoding =
      contentCoding cached.contentEncoding := by
  unfold revalidatedProviderResource
  simp only [Option.bind_some]
  cases hv : joinedHeaderValues reply.headers "content-encoding" with
  | none => rfl
  | some value =>
    rw [← h value hv]
    simp only
    split
    · exact contentCoding_trim value
    · rename_i hnamed
      rw [contentCoding_of_not_named (Bool.eq_false_iff.mpr hnamed)]
      rfl

/-! ## What a fetch accepts -/

/-- A body that is validated as JSON decodes, within the limit, to a document that the validation accepts. -/
def ValidJson (env : ProviderEnv) (request : ProviderRequest) (bytes : Bytes) (contentEncoding : Option (List Char)) : Prop :=
  request.bodyValidation = .json → ∃ decoded,
    decodeProviderBody env bytes contentEncoding request.maxBytes request.resource = .ok decoded ∧ env.ignoreJson decoded = none

variable {request : ProviderRequest} {bytes : Bytes}

/-- The same body under an encoding that names the same coding. -/
theorem ValidJson.recoded {enc enc' : Option (List Char)}
    (h : ValidJson env request bytes enc) (hcoding : contentCoding enc' = contentCoding enc) :
      ValidJson env request bytes enc' := by
  intro hjson
  obtain ⟨decoded, hd, hok⟩ := h hjson
  refine ⟨decoded, decodeProviderBody_eq_ok.mpr ?_, hok⟩
  rw [hcoding]
  exact decodeProviderBody_eq_ok.mp hd

/-- What `validate_body` accepts. -/
theorem validJson_of_validateBody {enc : Option (List Char)}
    (h : validateBody env bytes enc request.bodyValidation request.maxBytes request.resource = .ok ()) :
      ValidJson env request bytes enc := by
  intro hjson
  rw [hjson] at h
  unfold validateBody at h
  simp only at h
  split at h
  · cases h
  · rename_i decoded hd
    split at h
    · cases h
    · exact ⟨decoded, hd, ‹_›⟩

/-- What an outcome hands on: the body of a representation, under its encoding. -/
def ProviderOriginOutcome.Carries (V : Bytes → Option (List Char) → Prop) : ProviderOriginOutcome → Prop
  | .modified fetched => V fetched.bytes fetched.contentEncoding
  | .notModified fetched => V fetched.bytes fetched.contentEncoding
  | .negative _ => True

variable {revalidate : Option CachedProviderRepresentation} {fetched : FetchedProviderResource}

/-- Only a `304` to a revalidation renews a representation. -/
theorem fetchHttpProvider_notModified {reply : HttpReply}
    (h : fetchHttpProvider env request revalidate reply = .ok (.notModified fetched)) :
    reply.status = 304 ∧ ∃ cached, revalidate = some cached ∧
      fetched = revalidatedProviderResource env.toHttpEnv cached request.resource (some reply) := by
  unfold fetchHttpProvider at h
  simp only at h
  split at h
  · rename_i hstatus
    refine ⟨hstatus, ?_⟩
    split at h
    · cases h
    · rename_i cached
      cases h
      exact ⟨cached, rfl, rfl⟩
  · split at h
    · cases h
    · obtain ⟨_, -, h⟩ := Except.bind_eq_ok_iff.mp h
      split at h
      · cases h
      · obtain ⟨_, -, h⟩ := Except.bind_eq_ok_iff.mp h
        obtain ⟨_, -, h⟩ := Except.bind_eq_ok_iff.mp h
        cases h

theorem fetchObjectStoreProvider_notModified {reply : ObjectReply}
    (h : fetchObjectStoreProvider env request revalidate reply = .ok (.notModified fetched)) :
    ∃ cached, revalidate = some cached ∧ fetched = revalidatedProviderResource env.toHttpEnv cached request.resource none := by
  unfold fetchObjectStoreProvider at h
  split at h
  · cases h
  · split at h
    · rename_i cached
      cases h
      exact ⟨cached, rfl, rfl⟩
    · cases h
  · cases h
  · cases h
  · split at h
    · cases h
    · obtain ⟨_, -, h⟩ := Except.bind_eq_ok_iff.mp h
      split at h
      · cases h
      · split at h <;> cases h

/-- What a representation was renewed from, and by what. -/
theorem fetchProvider_notModified {answer : OriginAnswer}
    (h : fetchProvider env request revalidate answer = some (.ok (.notModified fetched))) :
    ∃ cached reply, revalidate = some cached ∧
      fetched = revalidatedProviderResource env.toHttpEnv cached request.resource reply ∧
      ∀ r, reply = some r → answer = .http r ∧ r.status = 304 := by
  unfold fetchProvider at h
  split at h
  · cases h
  · cases h
  · cases h
  · split at h
    · cases h
    · rename_i reply _ _ _ _
      split at h
      · obtain ⟨hstatus, cached, hc, hf⟩ := fetchHttpProvider_notModified (Option.some.inj h)
        exact ⟨cached, some reply, hc, hf, fun r hr => by cases hr; exact ⟨rfl, hstatus⟩⟩
      · cases h
    · split at h <;> cases h
    · split at h
      · cases h
      · obtain ⟨cached, hc, hf⟩ := fetchObjectStoreProvider_notModified (Option.some.inj h)
        exact ⟨cached, none, hc, hf, fun r hr => by cases hr⟩
    · cases h

/-- A `304` to a revalidation names the coding that the representation has, if it names one. -/
def KeepsCoding (cached : CachedProviderRepresentation) (reply : HttpReply) : Prop :=
  ∀ value, joinedHeaderValues reply.headers "content-encoding" = some value →
    contentCoding (some value) = contentCoding cached.contentEncoding

variable {outcome : ProviderOriginOutcome}

/-- What a fetch hands on is valid: it was validated, or it renews what was. -/
theorem fetch_carries {answer : OriginAnswer} (h : fetchLimitedBytesUncached env request revalidate answer = some (.ok outcome))
    (hcached : ∀ cached, revalidate = some cached → ValidJson env request cached.bytes cached.contentEncoding)
    (hcoding : ∀ reply cached, answer = .http reply → reply.status = 304 → revalidate = some cached →
      request.bodyValidation = .json →
      KeepsCoding cached reply) : outcome.Carries (ValidJson env request) := by
  unfold fetchLimitedBytesUncached at h
  obtain ⟨result, hresult, hdone⟩ := Option.map_eq_some_iff.mp h
  obtain ⟨fetched, rfl, hchecked⟩ := Except.bind_eq_ok_iff.mp hdone
  cases fetched with
  | modified resource =>
    dsimp only at hchecked
    obtain ⟨_, hvalid, hok⟩ := Except.bind_eq_ok_iff.mp hchecked
    cases hok
    exact validJson_of_validateBody hvalid
  | notModified resource =>
    cases hchecked
    obtain ⟨cached, reply, hrev, rfl, hreply⟩ := fetchProvider_notModified hresult
    intro hjson
    refine (hcached cached hrev).recoded ?_ hjson
    cases reply with
    | none => rfl
    | some r =>
      obtain ⟨hanswer, hstatus⟩ := hreply r rfl
      exact contentCoding_revalidated _ cached _ r (hcoding r cached hanswer hstatus hrev hjson)
  | negative miss =>
    cases hchecked
    trivial

/-! ## Where bodies go -/

/-- What an actor hands on in its phase. -/
def Phase.Carries (V : Bytes → Option (List Char) → Prop) : Phase → Prop
  | .fetching (some cached) => V cached.bytes cached.contentEncoding
  | .storing outcome => outcome.Carries V
  | .deciding outcome => outcome.Carries V
  | .inserting outcome _ => outcome.Carries V
  | .removing outcome => outcome.Carries V
  | .clearing outcome => outcome.Carries V
  | .completing (.ok outcome) => outcome.Carries V
  | .returned (.ok r) => V r.bytes r.contentEncoding
  | _ => True

/-- The body of an entry. -/
def CachedProviderFetch.Carries (V : Bytes → Option (List Char) → Prop) : CachedProviderFetch → Prop
  | .found e => V e.bytes e.contentEncoding
  | .negative _ => True

/-- The endpoints ask for one and the same thing under one key. -/
theorem request_eq_of_key_eq {endpoint endpoint' : Endpoint} {url url' : String}
    (h : (endpoint.request url).key = (endpoint'.request url').key) : endpoint.request url = endpoint'.request url' := by
  cases endpoint <;> cases endpoint' <;> simp_all [ProviderRequest.key, Endpoint.request]

/-- A body is valid for a key when it is for whoever asks under the key. -/
def ValidFor (env : ProviderEnv) (key : ProviderFetchCacheKey) (bytes : Bytes) (contentEncoding : Option (List Char)) : Prop :=
  ∀ endpoint url, (Endpoint.request endpoint url).key = key → ValidJson env (endpoint.request url) bytes contentEncoding

/-- What an outcome hands on, for one validity and for another that follows from it. -/
theorem ProviderOriginOutcome.Carries.mono {V W : Bytes → Option (List Char) → Prop}
    (h : outcome.Carries V) (hVW : ∀ bytes enc, V bytes enc → W bytes enc) : outcome.Carries W := by
  cases outcome with
  | modified fetched => exact hVW _ _ h
  | notModified fetched => exact hVW _ _ h
  | negative miss => trivial

variable {V : Bytes → Option (List Char) → Prop} {e : CachedProviderFetch}

/-- The entry made from an outcome has its body. -/
theorem ProviderOriginOutcome.Carries.entry {now : Instant} (h : outcome.Carries V) (he : outcome.entry now = some e) :
    e.Carries V := by
  unfold ProviderOriginOutcome.entry at he
  split at he
  · cases he
  · split at he <;> cases he
    · exact h
    · exact h
    · trivial

/-- What the leader and its followers return has the outcome's body. -/
theorem ProviderOriginOutcome.Carries.response
    {r : ProviderResource} (h : outcome.Carries V) (hr : leaderResponse (.ok outcome) = .ok r) : V r.bytes r.contentEncoding := by
  cases outcome with
  | modified fetched =>
    cases hr
    exact h
  | notModified fetched =>
    cases hr
    exact h
  | negative miss => cases hr

/-- A result that a leader completes, as it is returned. -/
theorem carries_leaderResponse {result : Except HttpError ProviderOriginOutcome}
    (h : (Phase.completing result).Carries V) : (Phase.returned (leaderResponse result)).Carries V := by
  cases result with
  | error error => trivial
  | ok outcome =>
    cases hr : leaderResponse (.ok outcome) with
    | error error => trivial
    | ok r => exact ProviderOriginOutcome.Carries.response h hr

theorem carries_afterFetch {background : Bool} {result : Except HttpError ProviderOriginOutcome}
    (h : ∀ outcome, result = .ok outcome → outcome.Carries V) : (afterFetch background result).Carries V := by
  cases result with
  | error error => cases background <;> trivial
  | ok outcome => exact h outcome rfl

/-- What an entry that is served has. -/
theorem carries_intoResult (h : e.Carries V) (now : Instant) :
    (Phase.returned (e.intoResult now)).Carries V := by
  cases e with
  | found e => exact h
  | negative e => trivial

variable {s : Fetcher} {a : Actor} {m : Move}

/-- What an actor hands on after a step of its own. -/
theorem carries_of_move (env : ProviderEnv)
    (h : s.move a = some m) (hbefore : a.phase.Carries V) (hheld : ∀ e ∈ a.phase.held, e.Carries V)
    (hchannel : ∀ c r, a.phase = .following c → s.inflight.channels c = .closed (some (.ok r)) → V r.bytes r.contentEncoding) :
    m.phase.Carries V := by
  have hm : Moved env s a.request a.background a.phase m := moved_of_move h
  obtain ⟨request, background, phase⟩ := a
  cases hm with
  | answered _ => cases h
  | dropped => trivial
  | stored => exact hbefore
  | decided _ => exact hbefore
  | decidedAgainst _ => exact hbefore
  | inserted => exact hbefore
  | removed => exact hbefore
  | cleared => exact hbefore
  | completed => exact carries_leaderResponse hbefore
  | unhindered _ => unfold allowed; split <;> trivial
  | lapsed => unfold allowed; split <;> trivial
  | hindered _ _ => unfold refusedRevalidation; split <;> trivial
  | gave => exact carries_intoResult (hheld _ (List.mem_singleton_self _)) _
  | received hclosed =>
    rename_i outcome
    cases outcome with
    | error error => trivial
    | ok r => exact hchannel _ r rfl hclosed
  | _ => trivial

/-- Only a leader that completes a result sends anything. -/
theorem Does.sends (h : Does env s a m) {o : Except HttpError ProviderResource} (hm : m.flight = some (.drop (some o))) :
    ∃ result, a.phase = .completing result ∧ o = leaderResponse result := by
  have hmoved := h.moved
  obtain ⟨request, background, phase⟩ := a
  cases hmoved with
  | completed =>
    cases hm
    exact ⟨_, rfl, rfl⟩
  | _ => cases hm

/-- Every body that is stored, handed on or sent is valid for whoever asked for it. -/
structure Fetcher.Valid (env : ProviderEnv) (s : Fetcher) : Prop where
  requests : ∀ (i : Nat) (a : Actor), s.actors[i]? = some a → ∃ endpoint url, a.request = Endpoint.request endpoint url
  entries : s.Everywhere fun _ key e => e.Carries (ValidFor env key)
  carried : ∀ (i : Nat) (a : Actor), s.actors[i]? = some a → a.phase.Carries (ValidJson env a.request)
  sent : ∀ (i : Nat) (a : Actor) (c : Nat) (r : ProviderResource), s.actors[i]? = some a → a.phase = .following c →
    s.inflight.channels c = .closed (some (.ok r)) → ValidJson env a.request r.bytes r.contentEncoding

/-- What is valid for an actor is valid for its key. -/
theorem validFor_iff {endpoint : Endpoint} {url : String} (ha : a.request = endpoint.request url) {enc : Option (List Char)} :
    ValidFor env a.key bytes enc ↔ ValidJson env a.request bytes enc := by
  constructor
  · intro h
    rw [ha]
    exact h endpoint url (congrArg ProviderRequest.key ha.symm)
  · intro h endpoint' url' hkey
    rw [show a.key = a.request.key from rfl, ha] at hkey
    rw [request_eq_of_key_eq hkey, ← ha]
    exact h

theorem CachedProviderFetch.Carries.mono {V W : Bytes → Option (List Char) → Prop} (h : e.Carries V)
    (hVW : ∀ bytes enc, V bytes enc → W bytes enc) : e.Carries W := by
  cases e with
  | found e => exact hVW _ _ h
  | negative e => trivial

/-- The channel of a follower after a move: as it was, or closed by the leader of the follower's key. -/
theorem Fetcher.Led.channels {i : Nat} (hl : s.Led)
    {key : ProviderFetchCacheKey} {c : Nat} (hf : s.inflight.Follows key c) {o : Except HttpError ProviderResource}
    (hc : (s.apply i a m).inflight.channels c = .closed (some o)) :
    s.inflight.channels c = .closed (some o) ∨ (key = a.key ∧ m.flight = some (.drop (some o))) := by
  rw [apply_inflight] at hc
  cases hm : m.flight with
  | none =>
    rw [hm] at hc
    exact Or.inl hc
  | some f =>
    rw [hm] at hc
    cases f with
    | lead => exact Or.inl (hf.channels_lead.symm.trans hc)
    | drop outcome =>
      rcases hf.channels_dropGuard hl.flights hc with hc | ⟨hkey, rfl⟩
      · exact Or.inl hc
      · exact Or.inr ⟨hkey, rfl⟩

/-- A move whose actor hands on what is valid. -/
theorem Fetcher.Valid.apply (h : s.Valid env) (hl : s.Led) {i : Nat} (ha : s.actors[i]? = some a) (hd : Does env s a m)
    (hentries : (s.apply i a m).Everywhere fun _ key e => e.Carries (ValidFor env key))
    (hcarried : m.phase.Carries (ValidJson env a.request)) : (s.apply i a m).Valid env := by
  obtain ⟨endpoint, url, hreq⟩ := h.requests i a ha
  refine ⟨fun j b hb => ?_, hentries, fun j b hb => ?_, fun j b c r hb hp hc => ?_⟩
  · rcases apply_actors_cases ha hb with ⟨-, rfl⟩ | ⟨p, -, rfl⟩ | ⟨-, hb⟩
    · exact ⟨endpoint, url, hreq⟩
    · exact ⟨endpoint, url, hreq⟩
    · exact h.requests j b hb
  · rcases apply_actors_cases ha hb with ⟨-, rfl⟩ | ⟨p, hp, rfl⟩ | ⟨-, hb⟩
    · exact hcarried
    · obtain ⟨e, current, r, hphase, hr, rfl⟩ := hd.spawned hp
      have hcurrent := h.entries.held i a current ha (by rw [hphase]; exact List.mem_cons_of_mem _ (List.mem_singleton_self _))
      cases current with
      | found current =>
        cases hr
        exact (validFor_iff hreq).mp hcurrent
      | negative current => cases hr
    · exact h.carried j b hb
  · rcases apply_actors_cases ha hb with ⟨-, rfl⟩ | ⟨p, hspawn, rfl⟩ | ⟨-, hb⟩
    · have hflight := hd.following hp
      rcases hl.channels (hl.flights.follows hflight) hc with hc | ⟨-, hm⟩
      · rw [hl.flights.pending a.key c hflight] at hc
        cases hc
      · obtain ⟨result, hphase, -⟩ := hd.sends hm
        have hnone := hd.moved
        rw [hphase] at hnone
        cases hnone
        cases hp
    · obtain ⟨_, _, _, -, -, rfl⟩ := hd.spawned hspawn
      cases hp
    · rcases hl.channels (hl.follows j b c hb hp) hc with hc | ⟨hkey, hm⟩
      · exact h.sent j b c r hb hp hc
      · obtain ⟨result, hphase, hr⟩ := hd.sends hm
        have hresult := h.carried i a ha
        rw [hphase] at hresult
        have hvalid := carries_leaderResponse hresult
        rw [← hr] at hvalid
        obtain ⟨endpoint', url', hreq'⟩ := h.requests j b hb
        refine (validFor_iff hreq').mp ?_
        rw [hkey]
        exact (validFor_iff hreq).mpr hvalid

theorem Fetcher.Valid.init (env : ProviderEnv) (start : Instant) : (fetcher env start).init.Valid env := by
  have hnobody : ∀ (i : Nat) (a : Actor), (fetcher env start).init.actors[i]? ≠ some a := fun i a h => by
    rw [show (fetcher env start).init.actors = [] from rfl] at h
    cases h
  exact ⟨fun i a h => absurd h (hnobody i a), Fetcher.Everywhere.init env start, fun i a h => absurd h (hnobody i a),
    fun i a _ _ h => absurd h (hnobody i a)⟩

/-- Every `304` to the revalidation of a JSON body names the coding that the body has, if it names one. -/
def Fetcher.KeepsCodings (s : Fetcher) (act : Action) : Prop :=
  ∀ (i : Nat) (reply : HttpReply) (a : Actor) (cached : CachedProviderRepresentation), act = .answer i (.http reply) →
    reply.status = 304 → s.actors[i]? = some a → a.request.bodyValidation = .json → a.phase = .fetching (some cached) →
    KeepsCoding cached reply

/-- One step keeps all bodies valid. -/
theorem Fetcher.Valid.step {s s' : Fetcher} {act : Action} (h : s.Valid env) (hl : s.Led) (hg : s.KeepsCodings act)
    (hstep : s.step env act = some s') : s'.Valid env := by
  have hentries := h.entries.step (fun _ _ _ _ hv => hv) (fun j b outcome e hb hp he => by
    obtain ⟨endpoint, url, hreq⟩ := h.requests j b hb
    have hb' := h.carried j b hb
    rw [hp] at hb'
    exact (ProviderOriginOutcome.Carries.mono hb' fun _ _ hv => (validFor_iff hreq).mpr hv).entry he) hstep
  cases act with
  | step i =>
    obtain ⟨a, ha, hmove⟩ := Option.bind_eq_some_iff.mp hstep
    obtain ⟨m, hm, rfl⟩ := Option.map_eq_some_iff.mp hmove
    obtain ⟨endpoint, url, hreq⟩ := h.requests i a ha
    refine h.apply hl ha (Or.inl hm) hentries (carries_of_move env hm (h.carried i a ha) (fun e he => ?_) fun c r =>
      h.sent i a c r ha)
    exact (h.entries.held i a e ha he).mono fun _ _ hv => (validFor_iff hreq).mp hv
  | answer i answer =>
    obtain ⟨a, ha, hmove⟩ := Option.bind_eq_some_iff.mp hstep
    obtain ⟨m, hm, rfl⟩ := Option.map_eq_some_iff.mp hmove
    refine h.apply hl ha (Or.inr (Or.inl ⟨answer, hm⟩)) hentries ?_
    unfold answerMove at hm
    split at hm
    · rename_i revalidate hp
      obtain ⟨result, hr, rfl⟩ := Option.map_eq_some_iff.mp hm
      refine carries_afterFetch fun outcome hok => ?_
      subst hok
      refine fetch_carries hr (fun cached hc => ?_) fun reply cached hanswer hstatus hc hjson => ?_
      · have hcached := h.carried i a ha
        rw [hp, hc] at hcached
        exact hcached
      · exact hg i reply a cached (by rw [hanswer]) hstatus ha hjson (by rw [hp, hc])
    · cases hm
  | cancel i =>
    obtain ⟨a, ha, hmove⟩ := Option.bind_eq_some_iff.mp hstep
    obtain ⟨m, hm, rfl⟩ := Option.map_eq_some_iff.mp hmove
    refine h.apply hl ha (Or.inr (Or.inr hm)) hentries ?_
    unfold cancelMove at hm
    split at hm <;> cases hm <;> trivial
  | call endpoint url =>
    cases hstep
    refine ⟨fun j b hb => ?_, hentries, fun j b hb => ?_, fun j b c r hb hp => ?_⟩
    · rcases getElem?_concat_cases hb with ⟨-, rfl⟩ | hb
      · exact ⟨endpoint, url, rfl⟩
      · exact h.requests j b hb
    · rcases getElem?_concat_cases hb with ⟨-, rfl⟩ | hb
      · trivial
      · exact h.carried j b hb
    · rcases getElem?_concat_cases hb with ⟨-, rfl⟩ | hb
      · cases hp
      · exact h.sent j b c r hb hp
  | advance d =>
    cases hstep
    exact ⟨h.requests, hentries, h.carried, h.sent⟩
  | evict key =>
    cases hstep
    exact ⟨h.requests, hentries, h.carried, h.sent⟩
  | forget key =>
    cases hstep
    exact ⟨h.requests, hentries, h.carried, h.sent⟩

/-- In every run that keeps the codings, all bodies are valid. -/
theorem valid_of_reached {start : Instant} (h : (fetcher env start).ReachedBy Fetcher.KeepsCodings s) :
    s.Valid env :=
  (h.invariant (I := fun s => s.Led ∧ s.Valid env) ⟨Fetcher.Led.init env start, Fetcher.Valid.init env start⟩
    fun _ _ _ hi hg hs => ⟨hi.1.step hs, hi.2.step hi.1 hg hs⟩).2

end Biei.Provider
