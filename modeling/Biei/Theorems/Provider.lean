import Biei.Lemmas.ProviderBody
import Biei.Lemmas.ProviderWire

/-! # Freshness of the provider cache -/

namespace Biei.Provider

open Fetcher

/-- A background revalidation has failed and is noted, or a leader passes its error on. -/
def Phase.failing : Phase → Bool
  | .marking _ => true
  | .markJudging _ _ => true
  | .cooling _ => true
  | .discarding _ => true
  | .forgiving _ => true
  | .completing (.error _) => true
  | _ => false

/-- Somebody leads the flight of the key. -/
def Fetcher.IsLed (s : Fetcher) (key : ProviderFetchCacheKey) : Prop :=
  ∃ (j : Nat) (l : Actor), s.actors[j]? = some l ∧ l.key = key ∧ l.phase.leads = true

/-- The cache has nothing for the key that could be served now. -/
def Fetcher.NothingServable (s : Fetcher) (key : ProviderFetchCacheKey) : Prop :=
  ∀ e, s.entries key = some e → e.freshness s.now = .expired

/-- What the cache guarantees in a state, and of every step from it. -/
structure Fetcher.KeepsWindows (env : ProviderEnv) (s : Fetcher) : Prop where
  /-- What was served was inside its window, and fresh or stale as it was said to be. -/
  timely : ∀ v ∈ s.served, v.Timely
  /-- After a result that may not be kept there is no entry until one is stored. -/
  refused : ∀ key, s.refused key = true → s.entries key = none
  /-- The answer to a fetch changes no entry by itself. -/
  answered : ∀ i answer s', s.step env (.answer i answer) = some s' → s'.entries = s.entries
  /-- A failure stores nothing, and takes away only what is expired. -/
  failed : ∀ (i : Nat) (a : Actor) (s' : Fetcher), s.actors[i]? = some a → a.phase.failing = true →
    s.step env (.step i) = some s' →
    ∀ key e, (s'.entries key = some e → s.entries key = some e) ∧
      (s.entries key = some e → s'.entries key = some e ∨ e.freshness s.now = .expired)
  /-- Whoever finds nothing to serve leads a flight, or joins one that somebody leads. -/
  elected : ∀ (i : Nat) (a : Actor), s.actors[i]? = some a → a.phase = .missed →
    ∃ (s' : Fetcher) (b : Actor), s.step env (.step i) = some s' ∧ s'.actors[i]? = some b ∧ b.key = a.key ∧
      (b.phase = .elected ∨ (∃ c, b.phase = .following c) ∧ s'.IsLed a.key)
  /-- A leader that still finds nothing to serve fetches. -/
  fetches : ∀ (i : Nat) (a : Actor), s.actors[i]? = some a → a.phase = .elected → s.NothingServable a.key →
    ∃ (n : Nat) (s' : Fetcher) (b : Actor), (fetcher env s.now).run s (List.replicate n (.step i)) = some s' ∧
      s'.actors[i]? = some b ∧ b.phase = .fetching none
  /-- Whoever has joined a flight can go on, or somebody leads it. -/
  follows : ∀ (i : Nat) (a : Actor) (c : Nat), s.actors[i]? = some a → a.phase = .following c →
    (∃ s', s.step env (.step i) = some s') ∨ s.IsLed a.key

variable {s : Fetcher}

/-- A key with a flight has a leader. -/
theorem Fetcher.Led.isLed (h : s.Led) {key : ProviderFetchCacheKey} {c : Nat} (hc : s.inflight.entries key = some c) :
    s.IsLed key := by
  have hcount := h.leaders key
  rw [hc, Option.isSome_some, if_pos rfl] at hcount
  obtain ⟨l, hmem, hl⟩ := List.countP_pos_iff.mp (hcount ▸ Nat.one_pos)
  obtain ⟨j, hj⟩ := List.mem_iff_getElem?.mp hmem
  unfold Actor.leadsKey at hl
  rw [Bool.and_eq_true, beq_iff_eq] at hl
  exact ⟨j, l, hj, hl.2, hl.1⟩

variable {i : Nat} {a : Actor}

/-- What the actor's own step is. -/
theorem step_of_move {env : ProviderEnv} {m : Move} (ha : s.actors[i]? = some a)
    (hm : s.move a = some m) : s.step env (.step i) = some (s.apply i a m) := by
  show (s.actors[i]?).bind (fun a => (s.move a).map (s.apply i a)) = _
  rw [ha, Option.bind_some, hm, Option.map_some]

theorem move_of_step {env : ProviderEnv} {s s' : Fetcher} (ha : s.actors[i]? = some a)
    (h : s.step env (.step i) = some s') : ∃ m, s.move a = some m ∧ s' = s.apply i a m := by
  obtain ⟨b, hb, h⟩ := Option.bind_eq_some_iff.mp h
  cases ha.symm.trans hb
  obtain ⟨m, hm, rfl⟩ := Option.map_eq_some_iff.mp h
  exact ⟨m, hm, rfl⟩

/-- The actor after its move. -/
theorem apply_actors_self (m : Move) (ha : s.actors[i]? = some a) :
    (s.apply i a m).actors[i]? = some { a with phase := m.phase } := by
  rw [apply_actors]
  cases m.spawned with
  | none =>
    rw [Option.map_none, Option.toList_none, List.append_nil]
    exact getElem?_set_of_some ha _
  | some p => exact getElem?_concat_of_some (getElem?_set_of_some ha _) _

/-- A failure's step writes nothing, or discards what is expired. -/
theorem Fetcher.Noting.failed {env : ProviderEnv} (h : s.Noting) {m : Move}
    (ha : s.actors[i]? = some a) (hf : a.phase.failing = true) (hd : Does env s a m) (key : ProviderFetchCacheKey)
    (e : CachedProviderFetch) : ((s.apply i a m).entries key = some e → s.entries key = some e) ∧
      (s.entries key = some e → (s.apply i a m).entries key = some e ∨ e.freshness s.now = .expired) := by
  rw [apply_entries]
  cases hd.writes with
  | nothing hentry =>
    rw [hentry]
    exact ⟨id, Or.inl⟩
  | inserts hphase _ _ _ =>
    rw [hphase] at hf
    cases hf
  | removes hphase _ _ _ =>
    rw [hphase] at hf
    cases hf
  | discards hphase hentry _ _ =>
    rw [hentry]
    refine ⟨fun he => (update_none_eq_some he).2, fun he => ?_⟩
    by_cases hk : key = a.key
    · have hnoted := h.noted i a ha
      rw [hphase] at hnoted
      exact Or.inr (hnoted e (hk ▸ he))
    · exact Or.inl ((Function.update_of_ne hk _ _).trans he)

/-- Whoever finds nothing to serve goes on, whatever the cooldowns are. -/
theorem Fetcher.Led.elected {env : ProviderEnv} (h : s.Led) (ha : s.actors[i]? = some a) (hp : a.phase = .missed) :
    ∃ (s' : Fetcher) (b : Actor), s.step env (.step i) = some s' ∧ s'.actors[i]? = some b ∧ b.key = a.key ∧
      (b.phase = .elected ∨ (∃ c, b.phase = .following c) ∧ s'.IsLed a.key) := by
  cases hc : s.inflight.entries a.key with
  | none =>
    have hm : s.move a = some { phase := .elected, flight := some .lead } := by simp only [Fetcher.move, hp, hc]
    exact ⟨_, _, step_of_move ha hm, apply_actors_self _ ha, rfl, Or.inl rfl⟩
  | some c =>
    have hm : s.move a = some { phase := .following c } := by simp only [Fetcher.move, hp, hc]
    have hstep : s.step env (.step i) = some (s.apply i a { phase := .following c }) := step_of_move ha hm
    have hled : (s.apply i a { phase := .following c }).inflight.entries a.key = some c := by
      rw [apply_inflight]
      exact hc
    exact ⟨_, _, hstep, apply_actors_self _ ha, rfl, Or.inr ⟨⟨c, rfl⟩, (h.step hstep).isLed hled⟩⟩

/-- A leader that finds nothing to serve fetches, at once or after it has looked at the expired entry. -/
theorem fetches_of_elected (env : ProviderEnv) (ha : s.actors[i]? = some a) (hp : a.phase = .elected)
    (hn : s.NothingServable a.key) :
    ∃ (n : Nat) (s' : Fetcher) (b : Actor), (fetcher env s.now).run s (List.replicate n (.step i)) = some s' ∧
      s'.actors[i]? = some b ∧ b.phase = .fetching none := by
  cases he : s.entries a.key with
  | none =>
    have hm : s.move a = some { phase := .fetching none } := by simp only [Fetcher.move, hp, he]
    have hstep : s.step env (.step i) = _ := step_of_move ha hm
    refine ⟨1, _, _, ?_, apply_actors_self { phase := .fetching none } ha, rfl⟩
    show (s.step env (.step i)).bind _ = _
    rw [hstep]
    rfl
  | some e =>
    have hm : s.move a = some { phase := .rejudging e } := by simp only [Fetcher.move, hp, he]
    have hstep : s.step env (.step i) = _ := step_of_move ha hm
    have ha' := apply_actors_self { phase := .rejudging e } ha
    have hm' : (s.apply i a { phase := .rejudging e }).move { a with phase := .rejudging e } =
      some { phase := .fetching none } := by
      simp only [Fetcher.move, apply_now, hn e he, if_true]
    have hstep' : (s.apply i a { phase := .rejudging e }).step env (.step i) = _ := step_of_move ha' hm'
    refine ⟨2, _, _, ?_, apply_actors_self { phase := .fetching none } ha', rfl⟩
    show (s.step env (.step i)).bind _ = _
    rw [hstep, Option.bind_some]
    show (Fetcher.step env _ (.step i)).bind _ = _
    rw [hstep']
    rfl

/-- Whoever follows can go on once the flight is over. -/
theorem Fetcher.Led.follower {env : ProviderEnv} (h : s.Led) {c : Nat} (ha : s.actors[i]? = some a)
    (hp : a.phase = .following c) : (∃ s', s.step env (.step i) = some s') ∨ s.IsLed a.key := by
  cases hc : s.inflight.channels c with
  | pending => exact Or.inr (h.isLed ((h.follows i a c ha hp).2 hc))
  | closed outcome =>
    refine Or.inl ?_
    cases outcome with
    | none =>
      have hm : s.move a = some { phase := .looking } := by simp only [Fetcher.move, hp, hc]
      exact ⟨_, step_of_move ha hm⟩
    | some outcome =>
      have hm : s.move a = some { phase := .returned outcome } := by simp only [Fetcher.move, hp, hc]
      exact ⟨_, step_of_move ha hm⟩

/-- The provider cache keeps to its windows in every run. -/
theorem provider_cache_keeps_windows {env : ProviderEnv} {start : Instant} {s : Fetcher} (hs : (fetcher env start).Reachable s) :
    s.KeepsWindows env where
  timely := (timely_of_reachable hs).served
  refused := (noting_of_reachable hs).refused
  answered := fun i answer s' h => by
    obtain ⟨a, -, h⟩ := Option.bind_eq_some_iff.mp h
    obtain ⟨m, hm, rfl⟩ := Option.map_eq_some_iff.mp h
    unfold answerMove at hm
    split at hm
    · obtain ⟨result, -, rfl⟩ := Option.map_eq_some_iff.mp hm
      rw [apply_entries]
    · cases hm
  failed := fun i a s' ha hf h => by
    obtain ⟨m, hm, rfl⟩ := move_of_step ha h
    exact (noting_of_reachable hs).failed ha hf (Or.inl hm : Does env s a m)
  elected := fun i a ha hp => (led_of_reachable hs).elected ha hp
  fetches := fun i a ha hp hn => fetches_of_elected env ha hp hn
  follows := fun i a c ha hp => (led_of_reachable hs).follower ha hp

namespace WindowExample

/-- Neither dates nor compressed bodies, and `{}` is the one document there is. -/
def env : ProviderEnv where
  parseHttpDate _ := none
  scheme _ := some "https"
  canonicalReason _ := none
  gunzip _ _ := .error "invalid gzip header"
  ignoreJson body := if body = [123, 125] then none else some "expected value at line 1 column 1"
  parseJsonValue body := if body = [123, 125] then none else some "expected value at line 1 column 1"

def field (name value : String) : String × Bytes := (name, value.toList.map fun c => UInt8.ofNat c.toNat)

def url : String := "https://origin.example/style.json"

def key : ProviderFetchCacheKey := (Endpoint.style.request url).key

def reply (status : Nat) (headers : List (String × Bytes)) (chunks : List Bytes) : OriginAnswer :=
  .http ⟨status, ⟨headers⟩, none, chunks, .complete, 0, 0⟩

/-- A body is fetched, served stale, and forbidden by the answer to its revalidation. -/
def forbidden : List Action :=
  [Action.call .style url] ++ List.replicate 3 (Action.step 0) ++
    [Action.answer 0 (reply 200 [field "cache-control" "max-age=10, stale-while-revalidate=60"] [[123, 125]])] ++
    List.replicate 4 (Action.step 0) ++ [Action.advance (20 * second), Action.call .style url] ++ List.replicate 8
      (Action.step 1) ++
    [Action.answer 2 (reply 304 [field "cache-control" "no-store"] [])] ++ List.replicate 5 (Action.step 2)

end WindowExample

open WindowExample in
/-- A stale body is served, and gone once its revalidation forbids to keep it. -/
theorem provider_cache_keeps_windows_forbidden :
    ∃ s : Fetcher, (fetcher env 0).Reachable s ∧ (s.served.any fun v => v.freshness == .stale) = true ∧ s.refused key = true ∧
      s.KeepsWindows env := by
  obtain ⟨s, hs, hp⟩ := Machine.exists_of_guardedRun (fetcher env 0) (fun _ _ => true) forbidden
    (fun s => (s.served.any fun v => v.freshness == .stale) && s.refused key) (by decide)
  rw [Bool.and_eq_true] at hp
  have hreach : (fetcher env 0).Reachable s := hs.mono fun _ _ _ => trivial
  exact ⟨s, hreach, hp.1, hp.2, provider_cache_keeps_windows hreach⟩

/-! ## JSON bodies stay decodable -/

/-- What is stored or returned as JSON can be decoded, and a style is refused by its parser only where that is stricter than the
validation. -/
structure Fetcher.BodiesDecode (env : ProviderEnv) (s : Fetcher) : Prop where
  stored : ∀ (endpoint : Endpoint) (url : String) (e : FoundEntry), (endpoint.request url).bodyValidation = .json →
    s.entries (endpoint.request url).key = some (.found e) → ∃ decoded,
      decodeProviderBody env e.bytes e.contentEncoding (endpoint.request url).maxBytes (endpoint.request url).resource = .ok
        decoded ∧
        env.ignoreJson decoded = none
  returned : ∀ (i : Nat) (a : Actor) (r : ProviderResource), s.actors[i]? = some a → a.request.bodyValidation = .json →
    a.phase = .returned (.ok r) → ∃ decoded,
      r.decodedBytes env a.request.maxBytes a.request.resource = .ok decoded ∧ env.ignoreJson decoded = none
  style : ∀ (i : Nat) (a : Actor) (url : String) (r : ProviderResource) (error : HttpError), s.actors[i]? = some a →
    a.request = Endpoint.style.request url → a.phase = .returned (.ok r) → parsedStyle env r = .error error →
    ∃ decoded text, env.ignoreJson decoded = none ∧ env.parseJsonValue decoded = some text ∧
      error = badGateway ("style JSON invalid: " ++ text)

/-- What the parser of styles refuses, when the bytes decode. -/
theorem parsedStyle_error {env : ProviderEnv} {r : ProviderResource} {decoded : Bytes} {error : HttpError}
    (hd : r.decodedBytes env (2 * 1024 * 1024) "style" = .ok decoded) (h : parsedStyle env r = .error error) :
    ∃ text, env.parseJsonValue decoded = some text ∧ error = badGateway ("style JSON invalid: " ++ text) := by
  unfold parsedStyle at h
  rw [hd] at h
  dsimp only [bind, Except.bind] at h
  split at h
  · rename_i text htext
    cases h
    exact ⟨text, htext, rfl⟩
  · cases h

/-- In every run whose `304`s keep to the coding of what they renew, JSON bodies stay decodable. -/
theorem provider_bodies_decode {env : ProviderEnv} {start : Instant} {s : Fetcher}
    (hs : (fetcher env start).ReachedBy Fetcher.KeepsCodings s) : s.BodiesDecode env := by
  have hvalid := valid_of_reached hs
  have hreturned : ∀ (i : Nat) (a : Actor) (r : ProviderResource), s.actors[i]? = some a → a.phase = .returned (.ok r) →
      ValidJson env a.request r.bytes r.contentEncoding := fun i a r ha hp => by
    have hcarried := hvalid.carried i a ha
    rw [hp] at hcarried
    exact hcarried
  refine ⟨fun endpoint url e hjson he => ?_, fun i a r ha hjson hp => ?_, fun i a url r error ha hreq hp herror => ?_⟩
  · exact hvalid.entries.entries _ _ he endpoint url rfl hjson
  · exact hreturned i a r ha hp hjson
  · have hr := hreturned i a r ha hp
    rw [hreq] at hr
    obtain ⟨decoded, hd, hok⟩ := hr rfl
    obtain ⟨text, htext, heq⟩ := parsedStyle_error hd herror
    exact ⟨decoded, text, hok, htext, heq⟩

namespace BodyExample

open WindowExample (field url key reply)

/-- `{}` and `1e999`: the validation reads no numbers, the parser of values does, and the second is out of its range. -/
def env : ProviderEnv where
  parseHttpDate _ := none
  scheme _ := some "https"
  canonicalReason _ := none
  gunzip _ _ := .error "invalid gzip header"
  ignoreJson body := if body = [123, 125] ∨ body = [49, 101, 57, 57, 57] then none else some "expected value at line 1 column 1"
  parseJsonValue body :=
    if body = [123, 125] then none
    else if body = [49, 101, 57, 57, 57] then some "number out of range at line 1 column 5"
    else some "expected value at line 1 column 1"

def policy : String × Bytes := field "cache-control" "max-age=10, stale-while-revalidate=60"

/-- A style is fetched. -/
def fetched (body : Bytes) : List Action :=
  [Action.call .style url] ++ List.replicate 3 (Action.step 0) ++ [Action.answer 0 (reply 200 [policy] [body])] ++
    List.replicate 4 (Action.step 0)

/-- It is served stale, and renewed by a `304` with the coding. -/
def renewed (coding : String) : List Action :=
  fetched [123, 125] ++ [Action.advance (20 * second), Action.call .style url] ++ List.replicate 8 (Action.step 1) ++
    [Action.answer 2 (reply 304 [policy, field "content-encoding" coding] [])] ++ List.replicate 4 (Action.step 2)

/-- What is returned for the second document. -/
def outOfRange : ProviderResource :=
  ⟨[49, 101, 57, 57, 57], "public, max-age=10, s-maxage=10, stale-while-revalidate=60".toList, 0, ⟨none, none⟩, none⟩

/-- `KeepsCodings`, to be evaluated. -/
def keepsCodings (s : Fetcher) : Action → Bool
  | .answer i (.http reply) =>
    match (s.actors[i]?).map Actor.phase with
    | some (.fetching (some cached)) =>
      (joinedHeaderValues reply.headers "content-encoding").all fun value =>
        contentCoding (some value) == contentCoding cached.contentEncoding
    | _ => true
  | _ => true

theorem keepsCodings_sound {s : Fetcher} {act : Action} (h : keepsCodings s act = true) : s.KeepsCodings act := by
  intro i reply a cached hact _ ha _ hp value hvalue
  subst hact
  simp only [keepsCodings, ha, Option.map_some, hp] at h
  simpa [hvalue] using h

/-- An entry whose body does not decode. -/
def undecoded : CachedProviderFetch → Bool
  | .found e => !(decodeProviderBody env e.bytes e.contentEncoding (2 * 1024 * 1024) "style").isOk
  | .negative _ => false

end BodyExample

open BodyExample in
open WindowExample (key) in
/-- A body renewed by a `304` that says `identity` of it. -/
theorem provider_bodies_decode_renewed :
    ∃ s : Fetcher, (fetcher env 0).ReachedBy Fetcher.KeepsCodings s ∧ (s.entries key).isSome = true ∧ s.BodiesDecode env := by
  obtain ⟨s, hs, hp⟩ := Machine.exists_of_guardedRun (fetcher env 0) keepsCodings (renewed "identity")
    (fun s => (s.entries key).isSome) (by decide)
  have hreached := hs.mono fun _ _ h => keepsCodings_sound h
  exact ⟨s, hreached, hp, provider_bodies_decode hreached⟩

open BodyExample in
open WindowExample (key url) in
/-- A `304` that says `gzip` of an identity body leaves an entry that does not decode; and a document that the validation accepts
is returned and then refused by the parser of styles. -/
theorem provider_body_undecodable :
    (∃ s : Fetcher, (fetcher env 0).Reachable s ∧ ¬ s.BodiesDecode env) ∧
    ∃ (s : Fetcher) (r : ProviderResource), (fetcher env 0).Reachable s ∧
      (s.actors[0]?).map Actor.phase = some (.returned (.ok r)) ∧
      parsedStyle env r = .error (badGateway "style JSON invalid: number out of range at line 1 column 5") := by
  refine ⟨?_, ?_⟩
  · obtain ⟨s, hs, hp⟩ := Machine.exists_of_guardedRun (fetcher env 0) (fun _ _ => true) (renewed "gzip")
      (fun s => (s.entries key).any undecoded) (by decide)
    refine ⟨s, hs.mono fun _ _ _ => trivial, fun h => ?_⟩
    cases he : s.entries key with
    | none =>
      rw [he] at hp
      cases hp
    | some e =>
      rw [he] at hp
      cases e with
      | negative e => cases hp
      | found e =>
        obtain ⟨decoded, hd, -⟩ := h.stored .style url e rfl he
        replace hp : (!(decodeProviderBody env e.bytes e.contentEncoding (2 * 1024 * 1024) "style").isOk) = true := hp
        replace hd : decodeProviderBody env e.bytes e.contentEncoding (2 * 1024 * 1024) "style" = .ok decoded := hd
        rw [hd] at hp
        cases hp
  · obtain ⟨s, hs, hp⟩ := Machine.exists_of_guardedRun (fetcher env 0) (fun _ _ => true) (fetched [49, 101, 57, 57, 57])
      (fun s => decide (s.actors[0]?.map Actor.phase = some (.returned (.ok outOfRange)))) (by decide)
    exact ⟨s, outOfRange, hs.mono fun _ _ _ => trivial, of_decide_eq_true hp, by decide⟩

end Biei.Provider

/-! ## A routed provider resource is the one fetched by its owner -/

namespace Biei.Ishikari

open Provider (HttpError ProviderResource)
open Storage (Peer ScoredPeer)
open HeaderMap (sent)

/-- Two representations that no client can tell apart. -/
structure SameRepresentation (env : WireEnv) (r r' : ProviderResource) : Prop where
  bytes : r'.bytes = r.bytes
  cacheControl : r'.cacheControl = r.cacheControl
  ageSeconds : r'.ageSeconds = r.ageSeconds
  etag : r'.validators.etag = r.validators.etag
  lastModified : (r'.validators.lastModified.map fun t => t / second) = r.validators.lastModified.map fun t => t / second
  contentEncoding : r'.contentEncoding = r.contentEncoding
  served : ∀ request body contentType, publicResponse env r' request body contentType = publicResponse env r request body
    contentType

/-- What a node gets of a resource from its owner is what the owner has fetched. -/
structure RoutedAsFetched (env : WireEnv) (url : UrlParser) (resource : ResourceName)
    (outcome : Except HttpError ProviderResource) : Prop where
  parsed : internalResource (url.path resource.internalPath) = some (.ok resource)
  answered : ∃ response, ownerResponse env resource outcome = some response
  found : ∀ r response isSelf send candidates, outcome = .ok r → ownerResponse env resource outcome = some response →
    Reaches isSelf send candidates response →
      ∃ r', routeResource env resource isSelf send candidates = .ok (some r') ∧ SameRepresentation env r r'
  missing : ∀ e isSelf send candidates, outcome = .error e → e.status = 404 ∨ e.status = 410 →
    Reaches isSelf send candidates (internalProviderFetchError e) →
      ∃ message, routeResource env resource isSelf send candidates = .error ⟨e.status, message⟩
  otherwise : ∀ e reply status, outcome = .error e → e.status ≠ 404 → e.status ≠ 410 →
    (internalProviderFetchError e).Delivers reply →
    ¬reply.Marked status
  unmarked : ∀ isSelf send candidates e, routeResource env resource isSelf send candidates = .error e →
    ∃ candidate ∈ candidates, ∃ reply, send candidate.peer = .answered reply ∧ reply.Marked e.status

/-- What a fetch of the resource gives, by its limit and the type of an age. -/
structure IsFetched (resource : ResourceName) (r : ProviderResource) : Prop where
  bytes : r.bytes.length ≤ resource.maxBytes
  ageSeconds : r.ageSeconds < u64Bound

/-- The metadata comes through headers as it is. -/
structure IsPortable (r : ProviderResource) : Prop where
  cacheControl : IsFieldText r.cacheControl
  etag : ∀ etag, r.validators.etag = some etag → IsFieldText etag
  contentEncoding : ∀ encoding, r.contentEncoding = some encoding → IsFieldText encoding
  lastModified : ∀ t, r.validators.lastModified = some t → t < httpDateBound

variable {env : WireEnv}

theorem sameRepresentation_toSecond (r : ProviderResource) : SameRepresentation env r (toSecond r) where
  bytes := rfl
  cacheControl := rfl
  ageSeconds := rfl
  etag := rfl
  lastModified := by
    have hsecond : ∀ t : Nat, t / second * second / second = t / second := fun t => Nat.mul_div_cancel _ (by decide)
    simp only [toSecond, Option.map_map, Function.comp_def, hsecond]
  contentEncoding := rfl
  served := publicResponse_toSecond env r

variable {r : ProviderResource}

theorem lastModifiedHttpDate_eq_some (env : WireEnv) (h : ∀ t, r.validators.lastModified = some t → t < httpDateBound) :
    ∃ lastModified, lastModifiedHttpDate env r.validators = some lastModified ∧
      ((lastModified.bind sent).bind env.parseHttpDate) = r.validators.lastModified.map fun t => t / second * second := by
  unfold lastModifiedHttpDate
  cases hdate : r.validators.lastModified with
  | none => exact ⟨none, rfl, rfl⟩
  | some t =>
    obtain ⟨text, htext⟩ := Option.isSome_iff_exists.mp ((env.fmtHttpDate_isSome t).mpr (h t hdate))
    have hsent := sent_eq_some_iff.mpr (env.isFieldText_fmtHttpDate t text htext)
    refine ⟨some text, by simp only [htext, Option.map_some], ?_⟩
    rw [Option.bind_some, hsent, Option.bind_some, env.parseHttpDate_fmtHttpDate t text htext]
    rfl

/-- The owner answers with metadata that is portable. -/
theorem exists_internalResponse (h : IsPortable r) (contentType : String) :
    ∃ response, internalResponse env r contentType = some response := by
  obtain ⟨lastModified, hlastModified, -⟩ := lastModifiedHttpDate_eq_some env h.lastModified
  have hcacheControl := headerFromText_eq_some h.cacheControl.visible
  have hage := headerFromText_eq_some (isFieldText_repr r.ageSeconds).visible
  simp only [internalResponse, applyInternalHeaders, hcacheControl, hage, hlastModified, Option.bind_eq_bind, Option.bind_some,
    Option.map_some]
  exact ⟨_, rfl⟩

variable {resource : ResourceName} {response : HttpResponse} {isSelf : Peer → Bool} {send : Peer → PeerSend}

variable {candidates : List ScoredPeer}

/-- What comes of a representation by way of its owner. -/
theorem routeResource_found (hfetched : IsFetched resource r) (hresponse : ownerResponse env resource (.ok r) = some response)
    (hreach : Reaches isSelf send candidates response) :
    ∃ lastModified, lastModifiedHttpDate env r.validators = some lastModified ∧
      routeResource env resource isSelf send candidates = .ok ((sent r.cacheControl).map fun cacheControl =>
        ⟨r.bytes, cacheControl, r.ageSeconds, ⟨r.validators.etag.bind sent, (lastModified.bind sent).bind env.parseHttpDate⟩,
          r.contentEncoding.bind sent⟩) := by
  obtain ⟨owner, rest, reply, rfl, hself, hsend, hreply⟩ := hreach
  obtain ⟨lastModified, hlastModified, hfetch⟩ :=
    fetchProviderPath_internalResponse hresponse hreply hfetched.bytes hfetched.ageSeconds
  refine ⟨lastModified, hlastModified, ?_⟩
  rw [routeResource_ok hself (hsend ▸ hfetch)]
  cases hcacheControl : sent r.cacheControl with
  | none => rfl
  | some cacheControl => rfl

theorem bind_sent_eq_self_iff {text : Option (List Char)} : text.bind sent = text ↔ ∀ value, text = some value →
    IsFieldText value := by
  cases text with
  | none => simp
  | some text =>
    rw [Option.bind_some, sent_eq_some_iff]
    exact ⟨fun h value hvalue => Option.some.inj hvalue ▸ h, fun h => h text rfl⟩

/-- Portable metadata comes back. -/
theorem found_of_isPortable (hfetched : IsFetched resource r) (h : IsPortable r)
    (hresponse : ownerResponse env resource (.ok r) = some response) (hreach : Reaches isSelf send candidates response) :
    routeResource env resource isSelf send candidates = .ok (some (toSecond r)) := by
  obtain ⟨lastModified, hlastModified, hrouted⟩ := routeResource_found hfetched hresponse hreach
  obtain ⟨lastModified', hlastModified', hdate⟩ := lastModifiedHttpDate_eq_some env h.lastModified
  rw [hlastModified'] at hlastModified
  cases hlastModified
  rw [hrouted, sent_eq_some_iff.mpr h.cacheControl, bind_sent_eq_self_iff.mpr h.etag, bind_sent_eq_self_iff.mpr h.contentEncoding,
    hdate]
  rfl

/-- What comes back as it was is portable. -/
theorem isPortable_of_routed {r r' : ProviderResource} (hfetched : IsFetched resource r)
    (hresponse : ownerResponse env resource (.ok r) = some response) (hreach : Reaches isSelf send candidates response)
    (hrouted : routeResource env resource isSelf send candidates = .ok (some r')) (hsame : SameRepresentation env r r') :
      IsPortable r := by
  obtain ⟨lastModified, hlastModified, hfound⟩ := routeResource_found hfetched hresponse hreach
  rw [hfound] at hrouted
  obtain ⟨cacheControl, hcacheControl, rfl⟩ := Option.map_eq_some_iff.mp (Except.ok.inj hrouted)
  have hsameCacheControl : cacheControl = r.cacheControl := hsame.cacheControl
  refine ⟨sent_eq_some_iff.mp (hsameCacheControl ▸ hcacheControl), bind_sent_eq_self_iff.mp hsame.etag,
    bind_sent_eq_self_iff.mp hsame.contentEncoding, fun t ht => ?_⟩
  rw [lastModifiedHttpDate, ht] at hlastModified
  obtain ⟨text, htext, -⟩ := Option.map_eq_some_iff.mp hlastModified
  exact (env.fmtHttpDate_isSome t).mp (htext ▸ rfl)

/-- A resource comes by way of its owner as its owner has fetched it, exactly when its fontstack is no dot segment and its
metadata comes through headers as it is. -/
theorem routedAsFetched_iff (url : UrlParser) {resource : ResourceName} (hvalid : resource.Validated)
    {outcome : Except HttpError ProviderResource} (hfetched : ∀ r, outcome = .ok r → IsFetched resource r) :
    RoutedAsFetched env url resource outcome ↔ ¬resource.IsDots ∧ ∀ r, outcome = .ok r → IsPortable r := by
  constructor
  · intro h
    refine ⟨fun hdots => ?_, fun r hr => ?_⟩
    · have hparsed := h.parsed
      rw [internalResource_dots url hvalid hdots] at hparsed
      cases hparsed
    · obtain ⟨response, hresponse⟩ := h.answered
      have hreach : Reaches (fun _ => false) (fun _ => .answered response.reply) [⟨0, ⟨"owner", ""⟩⟩] response :=
        ⟨_, [], _, rfl, rfl, rfl, response.delivers_reply⟩
      obtain ⟨r', hrouted, hsame⟩ := h.found r response _ _ _ hr hresponse hreach
      subst hr
      exact isPortable_of_routed (hfetched r rfl) hresponse hreach hrouted hsame
  · rintro ⟨hdots, hportable⟩
    refine ⟨internalResource_internalPath url hvalid hdots, ?_, ?_, ?_, ?_, ?_⟩
    · cases outcome with
      | ok r => exact exists_internalResponse (hportable r rfl) _
      | error e => exact ⟨_, rfl⟩
    · rintro r response isSelf send candidates rfl hresponse hreach
      exact ⟨_, found_of_isPortable (hfetched r rfl) (hportable r rfl) hresponse hreach, sameRepresentation_toSecond r⟩
    · rintro e isSelf send candidates - hstatus hreach
      rcases hstatus with h404 | h410
      · exact routeResource_missing (show e.status = InternalProviderNegative.notFound.status from h404) hreach
      · exact routeResource_missing (show e.status = InternalProviderNegative.gone.status from h410) hreach
    · intro e reply status _ h404 h410 hreply
      exact not_marked_of_status h404 h410 hreply status
    · intro isSelf send candidates e h
      exact marked_of_routed h

/-! ## Examples -/

theorem splitSlash_joinSegments {segments : List Bytes} (h : ∀ segment ∈ segments, slash ∉ segment) :
    splitSlash (joinSegments segments) = [] :: segments := by
  cases segments with
  | nil => rfl
  | cons segment segments =>
    have hjoin : joinSegments (segment :: segments) = [slash].intercalate ([] :: segment :: segments) := by
      rw [← slash_intercalate (List.cons_ne_nil _ _), List.intercalate_cons_cons]
      simp
    rw [hjoin, splitSlash, List.splitOn_intercalate _ _ (List.cons_ne_nil _ _)]
    intro part hpart
    rcases List.mem_cons.mp hpart with rfl | hpart
    · exact List.not_mem_nil
    · exact h part hpart

theorem slash_not_mem_of_plain {segment : Bytes} (h : segment.all isPlainByte = true) : slash ∉ segment := by
  intro hmem
  have hplain := List.all_eq_true.mp h slash hmem
  exact absurd hplain (by decide)

/-- A parser of URLs that resolves dot segments. -/
def dotResolver : UrlParser where
  path := fun path => joinSegments (keptSegments [] (splitSlash path).tail)
  path_joinSegments := fun segments _ hplain => by
    rw [splitSlash_joinSegments fun segment hsegment => slash_not_mem_of_plain (hplain segment hsegment)]
    rfl

/-- The date of the first second, and the seconds of later ones. -/
def fmtSeconds (t : SystemTime) : List Char :=
  if t / second = 0 then "Thu, 01 Jan 1970 00:00:00 GMT".toList else (t / second).repr.toList

def parseSeconds (text : List Char) : Option SystemTime :=
  if text = "Thu, 01 Jan 1970 00:00:00 GMT".toList then some 0 else (parseUnsigned u64Bound text).map fun n => n * second

theorem div_lt_of_lt_bound {t : SystemTime} : t < httpDateBound ↔ t / second < 253402300800 :=
  (Nat.div_lt_iff_lt_mul (by decide)).symm

theorem isFieldText_fmtSeconds (t : SystemTime) : IsFieldText (fmtSeconds t) := by
  unfold fmtSeconds
  split
  · exact sent_eq_some_iff.mp (by decide)
  · exact isFieldText_repr _

theorem parseSeconds_fmtSeconds {t : SystemTime} (h : t < httpDateBound) :
    parseSeconds (fmtSeconds t) = some (t / second * second) := by
  have hlt := div_lt_of_lt_bound.mp h
  unfold parseSeconds fmtSeconds
  split
  · rename_i hzero
    rw [hzero, if_pos rfl]
    rfl
  · have hne : (t / second).repr.toList ≠ "Thu, 01 Jan 1970 00:00:00 GMT".toList := by
      intro heq
      have hmem : 'T' ∈ (t / second).repr.toList := heq ▸ by decide
      exact not_mem_repr (by decide) hmem
    rw [if_neg hne, parseUnsigned_repr (lt_trans hlt (by decide))]
    rfl

def epochEnv : WireEnv where
  parseHttpDate := parseSeconds
  scheme := fun _ => some "https"
  canonicalReason := fun _ => none
  gunzip := fun _ _ => .error "invalid gzip header"
  ignoreJson := fun _ => none
  parseJsonValue := fun _ => none
  fmtHttpDate := fun t => if t < httpDateBound then some (fmtSeconds t) else none
  fmtHttpDate_isSome := fun t => by
    by_cases h : t < httpDateBound <;> simp [h]
  fmtHttpDate_second := fun t => by
    have hsecond : t / second * second / second = t / second := Nat.mul_div_cancel _ (by decide)
    simp only [div_lt_of_lt_bound, fmtSeconds, hsecond]
  isFieldText_fmtHttpDate := fun t text h => by
    split at h
    · cases h
      exact isFieldText_fmtSeconds t
    · cases h
  parseHttpDate_fmtHttpDate := fun t text h => by
    split at h
    · rename_i hlt
      cases h
      exact parseSeconds_fmtSeconds hlt
    · cases h

/-- A sprite of the epoch's first second. -/
def voyagerSprite : ProviderResource where
  bytes := [137, 80, 78, 71]
  cacheControl := "public, max-age=60, s-maxage=60".toList
  ageSeconds := 3
  validators := ⟨some "\"a1\"".toList, some 500000000⟩
  contentEncoding := none

theorem routedAsFetched_voyagerSprite : RoutedAsFetched epochEnv dotResolver (.sprite "carto/voyager" .png2x)
    (.ok voyagerSprite) := by
  have hfetched : IsFetched (.sprite "carto/voyager" .png2x) voyagerSprite := ⟨by decide, by decide⟩
  have hportable : IsPortable voyagerSprite := by
    refine ⟨sent_eq_some_iff.mp (by decide), ?_, fun _ h => (by cases h), ?_⟩
    · rintro etag ⟨⟩
      exact sent_eq_some_iff.mp (by decide)
    · rintro t ⟨⟩
      decide
  have hvalid : (ResourceName.sprite "carto/voyager" .png2x).Validated := show checkStyleKey "carto/voyager" = .ok () by decide
  refine (routedAsFetched_iff dotResolver hvalid fun r hr => ?_).mpr ⟨id, fun r hr => ?_⟩
  · cases hr
    exact hfetched
  · cases hr
    exact hportable

/-- A fontstack of one dot passes the checks, and its path does not reach the handler. -/
theorem dot_fontstack_not_routed :
    (ResourceName.glyph "." "0-255").Validated ∧
      internalResource (dotResolver.path (ResourceName.glyph "." "0-255").internalPath) = none ∧
      ¬RoutedAsFetched epochEnv dotResolver (.glyph "." "0-255") (.error ⟨502, "glyph upstream returned 503"⟩) := by
  have hvalid : (ResourceName.glyph "." "0-255").Validated := ⟨by decide, "0-255", by decide⟩
  have hnone := internalResource_dots dotResolver hvalid (Or.inl rfl)
  refine ⟨hvalid, hnone, fun h => ?_⟩
  have hparsed := h.parsed
  rw [hnone] at hparsed
  cases hparsed

end Biei.Ishikari
