import Biei.Storage.Resolver

/-!
# Lemmas on the resource resolver

One turn of the loop either decides the request or passes on to the next candidate.
-/

namespace Biei.Storage

/-! ## Candidates -/

/-- What a router holds at the end, it has been given. -/
theorem foldl_push_subperm (router : HrwRouter) (weight : String → UInt64) (peers : List Peer) (top : List ScoredPeer) :
    List.Subperm ((peers.foldl (router.push weight) top).map (·.peer)) (top.map (·.peer) ++ peers) := by
  induction peers generalizing top with
  | nil =>
    rw [List.append_nil]
    exact List.Subperm.refl _
  | cons peer peers ih =>
    rw [List.foldl_cons]
    refine (ih (router.push weight top peer)).trans ?_
    have hpush : List.Subperm ((router.push weight top peer).map (·.peer)) (peer :: top.map (·.peer)) := by
      have hinsert : ((top.orderedInsert (fun a b => a.le b) ⟨weight peer.id, peer⟩).map (·.peer)).Perm
        (peer :: top.map (·.peer)) :=
        (List.perm_orderedInsert _ _ top).map _
      simp only [HrwRouter.push]
      split
      · exact ((List.dropLast_sublist _).map _).subperm.trans hinsert.subperm
      · exact hinsert.subperm
    have hmiddle : (peer :: top.map (·.peer) ++ peers).Perm (top.map (·.peer) ++ peer :: peers) := List.perm_middle.symm
    exact ((List.subperm_append_right peers).mpr hpush).trans hmiddle.subperm

/-- The candidates for a tile are peers that were given. -/
theorem routeTile_subperm (router : HrwRouter) (xxHash64 : Bytes → UInt64) (peers : List Peer) (tilesetId : String)
    (tileId : UInt64) :
    List.Subperm ((router.routeTile xxHash64 peers tilesetId tileId).map (·.peer)) peers :=
  foldl_push_subperm router _ peers []

/-- Nobody has failed for the resource, or the peers that have are left out. -/
theorem routeWithBackoff_subperm {failures : RetryableFailures} {peers : List Peer} {resource : PeerResource}
    {route : List Peer → List ScoredPeer} (h : ∀ l, List.Subperm ((route l).map (·.peer)) l) :
    List.Subperm ((routeWithBackoff failures peers resource route).map (·.peer))
      (peers.filter fun peer => !failures.contains peer.id resource) := by
  unfold routeWithBackoff availablePeers
  by_cases hany : (failures.any fun f => f.1.2 == resource) = true
  · rw [if_pos hany]
    exact h _
  · rw [if_neg hany]
    have hall : (peers.filter fun peer => !failures.contains peer.id resource) = peers := by
      refine List.filter_eq_self.mpr fun peer _ => ?_
      rw [Bool.not_eq_true', Bool.eq_false_iff]
      intro hcontains
      obtain ⟨f, hf, heq⟩ := List.any_eq_true.mp hcontains
      refine hany (List.any_eq_true.mpr ⟨f, hf, ?_⟩)
      rw [beq_iff_eq] at heq ⊢
      rw [heq]
    rw [hall]
    exact h peers

/-! ## Backoff -/

/-- What a peer's answer leaves of the others' backoff. -/
theorem backedOff_noteAnswer {failures : RetryableFailures} {now now' t : Instant} {peer : Peer} {resource : PeerResource}
    {answer : PeerAnswer} {id : String} (hid : id ≠ peer.id) (hnow : now ≤ t)
    (h : (noteAnswer failures now' peer resource answer).backedOff t id resource = true) :
      failures.backedOff now id resource = true := by
  have hremoved : ∀ f ∈ noteAnswer failures now' peer resource answer, f.1 = (id, resource) → f ∈ failures := by
    intro f hf heq
    unfold noteAnswer at hf
    split at hf
    · rcases List.mem_cons.mp hf with rfl | hf
      · cases heq
        exact absurd rfl hid
      · exact (List.mem_filter.mp hf).1
    · exact (List.mem_filter.mp hf).1
  obtain ⟨f, hf, heq⟩ := List.any_eq_true.mp h
  obtain ⟨hmem, hlater⟩ := List.mem_filter.mp hf
  have hlate : t < f.2 := of_decide_eq_true hlater
  refine List.any_eq_true.mpr ⟨f, List.mem_filter.mpr ⟨hremoved f hmem (beq_iff_eq.mp heq), ?_⟩, heq⟩
  exact decide_eq_true (lt_of_le_of_lt hnow hlate)

/-! ## Truth -/

/-- The answer of a peer that has read the same archives. -/
def Forward.Truthful (archives : ArchiveSet) (key : TileCacheKey) (forward : Forward) : Prop :=
  match forward.answer with
  | .ok response => (archives.tile key.tilesetId key.tileId).map (·.bytes) = some response.bytes
  | .error .notFound => archives.tile key.tilesetId key.tileId = none
  | .error _ => True

/-- Every answer that a request gets is truthful. -/
def Encounter.Truthful (archives : ArchiveSet) (key : TileCacheKey) (met : Encounter) : Prop :=
  ∀ n, (met.forward n).Truthful archives key

/-- The tile that a cache entry stands for. -/
def CachedTile.tile : CachedTile → Option TileData
  | found tile => some tile
  | notFound => none

/-- Every cache entry is what the archives hold. -/
def Resolver.Truthful (archives : ArchiveSet) (s : Resolver) : Prop :=
  ∀ key entry, s.tileCache key = some entry → entry.tile = archives.tile key.tilesetId key.tileId

variable {archives : ArchiveSet} {key : TileCacheKey}

theorem Resolver.Truthful.put {s s' : Resolver} (h : s.Truthful archives) (entry : CachedTile)
    (hentry : entry.tile = archives.tile key.tilesetId key.tileId)
    (hcache : s'.tileCache = Function.update s.tileCache key (some entry)) : s'.Truthful archives := by
  intro k e he
  rw [hcache] at he
  rcases update_eq_some he with ⟨rfl, hnew⟩ | ⟨-, hold⟩
  · cases hnew
    exact hentry
  · exact h k e hold

/-- Only the cache decides whether a node is truthful. -/
theorem Resolver.Truthful.of_cache {s s' : Resolver} (h : s.Truthful archives) (hcache : s'.tileCache = s.tileCache) :
    s'.Truthful archives := fun key entry he => h key entry (hcache ▸ he)

/-- What a request returns is what the archives hold, and so is what the node has cached afterwards. -/
structure Routed.Agrees (archives : ArchiveSet) (key : TileCacheKey) (routed : Routed) : Prop where
  result : ∀ tile source, routed.result = .ok (tile, source) → tile = archives.tile key.tilesetId key.tileId
  node : routed.node.Truthful archives

variable {met : Encounter} {s : Resolver}

/-- A local read agrees, and contacts nobody. -/
theorem loadLocal_agrees (h : s.Truthful archives) :
    (loadLocalTileWithSource archives met key s).Agrees archives key := by
  unfold loadLocalTileWithSource ArchiveSet.getTile
  cases met.readFailure with
  | some err => exact ⟨fun tile source hr => (by cases hr), h⟩
  | none =>
    cases htile : archives.tile key.tilesetId key.tileId with
    | none =>
      refine ⟨fun tile source hr => ?_, h.put .notFound htile.symm rfl⟩
      cases hr
      exact htile.symm
    | some data =>
      refine ⟨fun tile source hr => ?_, h.put (.found data) htile.symm rfl⟩
      cases hr
      exact htile.symm

theorem loadLocal_contacts (archives : ArchiveSet) (met : Encounter) (key : TileCacheKey) (s : Resolver) :
    (loadLocalTileWithSource archives met key s).contacts = [] := by
  unfold loadLocalTileWithSource
  split <;> rfl

/-! ## One turn of the loop -/

/-- The forward lets the request go on to the next candidate: the peer has failed retryably, or it has the tile and reading the
header has failed retryably here. -/
def Forward.Passes (forward : Forward) : Prop :=
  (∃ message, forward.answer = .error (.retryable message)) ∨
    (∃ response, forward.answer = .ok response) ∧ ∃ err, forward.headerFailure = some err ∧
      (internalTilesetError err).isRetryable = true

theorem internalTilesetError_ne_miss (err : ReaderError) : internalTilesetError err ≠ .miss := by
  unfold internalTilesetError
  split <;> nofun

/-- The header of an archive that has a tile. -/
theorem tile_of_truthful {bytes : Bytes} (h : (archives.tile key.tilesetId key.tileId).map (·.bytes) = some bytes) :
    ∃ archive, archives key.tilesetId = some archive ∧ archives.tile key.tilesetId key.tileId =
      some (.of archive.header bytes) := by
  obtain ⟨data, hdata, rfl⟩ := Option.map_eq_some_iff.mp h
  obtain ⟨archive, harchive, htile⟩ := Option.bind_eq_some_iff.mp hdata
  obtain ⟨bytes, -, rfl⟩ := Option.map_eq_some_iff.mp htile
  exact ⟨archive, harchive, hdata⟩

/-- The contact that a turn of the loop makes. -/
def contactOf (met : Encounter) (n : Nat) (candidate : ScoredPeer) (s : Resolver) : Contact :=
  ⟨candidate.peer, s.now, s.failures, met.forward n⟩

/-- How a turn of the loop ends for a candidate that is not the node itself. -/
inductive Turn (config : ResolverConfig) (archives : ArchiveSet) (met : Encounter) (key : TileCacheKey) (n : Nat)
    (candidate : ScoredPeer) (rest : List ScoredPeer) (s : Resolver) : Routed → Prop
  /-- The peer decides. -/
  | decided (routed : Routed) (hcontacts : routed.contacts = [contactOf met n candidate s])
      (hagrees : s.Truthful archives → routed.Agrees archives key) : Turn config archives met key n candidate rest s routed
  /-- The next candidate is tried. -/
  | passed (s' : Resolver) (hpasses : (met.forward n).Passes) (hcache : s'.tileCache = s.tileCache)
      (hfailures : s'.failures = noteAnswer s.failures (s.now + (met.forward n).elapsed) candidate.peer .tile
        (met.forward n).answer)
      (hnow : s.now ≤ s'.now) :
      Turn config archives met key n candidate rest s
        { routeCandidates config archives met key (n + 1) rest s' with
          contacts := contactOf met n candidate s :: (routeCandidates config archives met key (n + 1) rest s').contacts }

variable {config : ResolverConfig}

theorem turn_of_truthful {n : Nat}
    {candidate : ScoredPeer} (rest : List ScoredPeer) (s : Resolver) (hself : candidate.peer.id ≠ config.selfNodeId)
    (htruth : (met.forward n).Truthful archives key) :
    Turn config archives met key n candidate rest s (routeCandidates config archives met key n (candidate :: rest) s) := by
  have helapsed : s.now ≤ s.now + (met.forward n).elapsed := Nat.le_add_right _ _
  unfold Forward.Truthful at htruth
  rw [routeCandidates, if_neg hself]
  unfold loadTileFromPeer
  cases hanswer : (met.forward n).answer with
  | error err =>
    rw [hanswer] at htruth
    cases err with
    | notFound =>
      refine .decided _ rfl fun hs => ⟨fun tile source hr => ?_, hs.put .notFound htruth.symm rfl⟩
      cases hr
      exact htruth.symm
    | retryable message => exact .passed _ (Or.inl ⟨message, hanswer⟩) rfl rfl helapsed
    | providerNotFound => exact .decided _ rfl fun hs => ⟨fun tile source hr => (by cases hr), hs⟩
    | providerGone => exact .decided _ rfl fun hs => ⟨fun tile source hr => (by cases hr), hs⟩
    | fatal message => exact .decided _ rfl fun hs => ⟨fun tile source hr => (by cases hr), hs⟩
  | ok response =>
    rw [hanswer] at htruth
    obtain ⟨archive, harchive, htile⟩ := tile_of_truthful htruth
    simp only [ArchiveSet.header]
    cases hheader : (met.forward n).headerFailure with
    | none =>
      simp only [harchive, Option.map_some]
      refine .decided _ rfl fun hs => ⟨fun tile source hr => ?_, ?_⟩
      · cases hr
        exact htile.symm
      · dsimp only
        split
        · exact hs.put (.found _) htile.symm rfl
        · exact hs
    | some err =>
      have hlater : s.now ≤ s.now + (met.forward n).elapsed + (met.forward n).headerElapsed :=
        helapsed.trans (Nat.le_add_right _ _)
      have hpasses : (internalTilesetError err).isRetryable = true → (met.forward n).Passes := fun hretry =>
        Or.inr ⟨⟨response, hanswer⟩, err, hheader, hretry⟩
      cases herr : internalTilesetError err with
      | miss => exact absurd herr (internalTilesetError_ne_miss err)
      | retryableUpstream message =>
        simp only [herr]
        exact .passed _ (hpasses (by rw [herr]; rfl)) rfl rfl hlater
      | overloaded message =>
        simp only [herr]
        exact .passed _ (hpasses (by rw [herr]; rfl)) rfl rfl hlater
      | upstream message =>
        simp only [herr]
        exact .decided _ rfl fun hs => ⟨fun tile source hr => (by cases hr), hs⟩
      | timeout message =>
        simp only [herr]
        exact .decided _ rfl fun hs => ⟨fun tile source hr => (by cases hr), hs⟩
      | internal message =>
        simp only [herr]
        exact .decided _ rfl fun hs => ⟨fun tile source hr => (by cases hr), hs⟩

/-! ## The whole loop -/

/-- What is known of the contacts of a request, whose candidates are these. -/
structure ContactsOf (config : ResolverConfig) (candidates : List ScoredPeer) (contacts : List Contact) : Prop where
  /-- The candidates are contacted in their order. -/
  inOrder : contacts.map (·.peer) <+: candidates.map (·.peer)
  notSelf : ∀ c ∈ contacts, c.peer.id ≠ config.selfNodeId
  /-- Only the last contact can have decided the request. -/
  passed : ∀ c ∈ contacts.dropLast, c.forward.Passes

theorem ContactsOf.nil (config : ResolverConfig) (candidates : List ScoredPeer) : ContactsOf config candidates [] :=
  ⟨List.nil_prefix, fun c hc => (by cases hc), fun c hc => (by cases hc)⟩

/-- The loop agrees with the archives, from a node that does. -/
theorem routeCandidates_agrees
    (htruth : met.Truthful archives key) (candidates : List ScoredPeer) (n : Nat) (s : Resolver) (hs : s.Truthful archives) :
    (routeCandidates config archives met key n candidates s).Agrees archives key := by
  induction candidates generalizing n s with
  | nil => exact loadLocal_agrees hs
  | cons candidate rest ih =>
    by_cases hself : candidate.peer.id = config.selfNodeId
    · rw [routeCandidates, if_pos hself]
      exact loadLocal_agrees hs
    · have hturn := turn_of_truthful rest s hself (htruth n)
      generalize routeCandidates config archives met key n (candidate :: rest) s = routed at hturn ⊢
      cases hturn with
      | decided _ hcontacts hagrees => exact hagrees hs
      | passed s' hpasses hcache hfailures hnow =>
        obtain ⟨hresult, hnode⟩ := ih (n + 1) s' (hs.of_cache hcache)
        exact ⟨hresult, hnode⟩

/-- Whom the loop contacts. -/
theorem routeCandidates_contacts (htruth : met.Truthful archives key) (candidates : List ScoredPeer) (n : Nat) (s : Resolver) :
    ContactsOf config candidates (routeCandidates config archives met key n candidates s).contacts := by
  induction candidates generalizing n s with
  | nil =>
    rw [routeCandidates, loadLocal_contacts]
    exact .nil config []
  | cons candidate rest ih =>
    by_cases hself : candidate.peer.id = config.selfNodeId
    · rw [routeCandidates, if_pos hself, loadLocal_contacts]
      exact .nil config _
    · have hturn := turn_of_truthful rest s hself (htruth n)
      generalize routeCandidates config archives met key n (candidate :: rest) s = routed at hturn ⊢
      cases hturn with
      | decided _ hcontacts hagrees =>
        rw [hcontacts]
        refine ⟨?_, fun c hc => ?_, fun c hc => (by cases hc)⟩
        · exact List.cons_prefix_cons.mpr ⟨rfl, List.nil_prefix⟩
        · rw [List.mem_singleton.mp hc]
          exact hself
      | passed s' hpasses hcache hfailures hnow =>
        obtain ⟨horder, hnotSelf, hpassed⟩ := ih (n + 1) s'
        refine ⟨List.cons_prefix_cons.mpr ⟨rfl, horder⟩, fun c hc => ?_, fun c hc => ?_⟩
        · rcases List.mem_cons.mp hc with rfl | hc
          · exact hself
          · exact hnotSelf c hc
        · cases hrest : (routeCandidates config archives met key (n + 1) rest s').contacts with
          | nil =>
            simp only [hrest] at hc
            cases hc
          | cons d ds =>
            simp only [hrest, List.dropLast_cons_cons] at hc
            rcases List.mem_cons.mp hc with rfl | hc
            · exact hpasses
            · exact hpassed c (hrest ▸ hc)

/-- When no candidate comes twice and none is in backoff at the start, none is in backoff when it is contacted: only the peers
that were contacted before have been put there. -/
theorem routeCandidates_backoff (htruth : met.Truthful archives key) (candidates : List ScoredPeer) (n : Nat) (s : Resolver)
    (hnodup : (candidates.map (·.peer.id)).Nodup)
    (hbackoff : ∀ c ∈ candidates, s.failures.backedOff s.now c.peer.id .tile = false) :
    ∀ c ∈ (routeCandidates config archives met key n candidates s).contacts,
      c.failures.backedOff c.time c.peer.id .tile = false := by
  induction candidates generalizing n s with
  | nil =>
    rw [routeCandidates, loadLocal_contacts]
    exact fun c hc => (by cases hc)
  | cons candidate rest ih =>
    by_cases hself : candidate.peer.id = config.selfNodeId
    · rw [routeCandidates, if_pos hself, loadLocal_contacts]
      exact fun c hc => (by cases hc)
    · have hfirst := hbackoff candidate List.mem_cons_self
      have hturn := turn_of_truthful rest s hself (htruth n)
      generalize routeCandidates config archives met key n (candidate :: rest) s = routed at hturn ⊢
      cases hturn with
      | decided _ hcontacts hagrees =>
        intro c hc
        rw [hcontacts] at hc
        rw [List.mem_singleton.mp hc]
        exact hfirst
      | passed s' hpasses hcache hfailures hnow =>
        intro c hc
        rcases List.mem_cons.mp hc with rfl | hc
        · exact hfirst
        · rw [List.map_cons, List.nodup_cons] at hnodup
          refine ih (n + 1) s' hnodup.2 (fun other hother => ?_) c hc
          have hne : other.peer.id ≠ candidate.peer.id := fun heq => hnodup.1 (heq ▸ List.mem_map_of_mem hother)
          rw [Bool.eq_false_iff]
          intro hother'
          rw [hfailures] at hother'
          have hbefore := backedOff_noteAnswer hne hnow hother'
          rw [hbackoff other (List.mem_cons_of_mem _ hother)] at hbefore
          cases hbefore

/-! ## Requests -/

/-- The candidates of a request are peers of the directory that are not in backoff. -/
theorem candidates_subperm (config : ResolverConfig) (met : Encounter) (key : TileCacheKey) (s : Resolver) :
    List.Subperm ((routeTileCandidates config met key s).1.map (·.peer))
      (met.peers.filter fun peer => !s.failures.backedOff s.now peer.id .tile) :=
  routeWithBackoff_subperm fun peers => routeTile_subperm config.router config.xxHash64 peers key.tilesetId.id key.tileId

theorem candidates_not_backedOff {c : ScoredPeer}
    (hc : c ∈ (routeTileCandidates config met key s).1) : s.failures.backedOff s.now c.peer.id .tile = false := by
  have hmem := (candidates_subperm config met key s).subset (List.mem_map_of_mem hc)
  rw [List.mem_filter, Bool.not_eq_true'] at hmem
  exact hmem.2

/-- No candidate comes twice when no peer does. -/
theorem candidates_nodup (h : (met.peers.map (·.id)).Nodup) :
    ((routeTileCandidates config met key s).1.map (·.peer.id)).Nodup := by
  obtain ⟨l, hperm, hsublist⟩ := (candidates_subperm config met key s).trans List.filter_sublist.subperm
  have hids := (hperm.map Peer.id).nodup_iff.mp (h.sublist (hsublist.map Peer.id))
  rw [List.map_map] at hids
  exact hids

/-- Forgetting the failures that are over changes nobody's backoff. -/
theorem backedOff_retained (failures : RetryableFailures) (now : Instant) (id : String) (resource : PeerResource) :
    (failures.retained now).backedOff now id resource = failures.backedOff now id resource := by
  unfold RetryableFailures.backedOff RetryableFailures.retained
  rw [List.filter_filter]
  simp only [Bool.and_self]

/-- A request that the cache does not answer goes through the candidates, or reads locally at once. -/
theorem routeTile_of_uncached (h : s.tileCache key = none) :
    routeTile config archives met key s =
      routeCandidates config archives met key 0 (routeTileCandidates config met key s).1
        (routeTileCandidates config met key s).2 := by
  simp only [routeTile, h]
  cases hcandidates : (routeTileCandidates config met key s).1 with
  | nil => rfl
  | cons candidate rest =>
    by_cases hself : candidate.peer.id = config.selfNodeId
    · simp only [if_pos hself]
      rw [routeCandidates, if_pos hself]
    · simp only [if_neg hself]

/-- What a cache entry answers. -/
theorem routeTile_of_cached (config : ResolverConfig) (archives : ArchiveSet) (met : Encounter)
    {entry : CachedTile} (h : s.tileCache key = some entry) :
    ∃ source, routeTile config archives met key s = ⟨.ok (entry.tile, source), [], s⟩ := by
  simp only [routeTile, h]
  cases entry with
  | found tile => exact ⟨.selfTileCache, rfl⟩
  | notFound => exact ⟨.negativeCache, rfl⟩

/-- A request agrees with the archives, at a node that does. -/
theorem routeTile_agrees
    (htruth : met.Truthful archives key) (hs : s.Truthful archives) :
      (routeTile config archives met key s).Agrees archives key := by
  cases hcache : s.tileCache key with
  | none =>
    rw [routeTile_of_uncached hcache]
    exact routeCandidates_agrees htruth _ 0 _ hs
  | some entry =>
    obtain ⟨source, hrouted⟩ := routeTile_of_cached config archives met hcache
    rw [hrouted]
    refine ⟨fun tile source' hr => ?_, hs⟩
    cases hr
    exact hs key entry hcache

/-- So does what a node answers its peers. -/
theorem loadTileById_agrees (hs : s.Truthful archives) :
    (loadTileByIdWithSource archives met key s).Agrees archives key := by
  simp only [loadTileByIdWithSource]
  cases hcache : s.tileCache key with
  | none => exact loadLocal_agrees hs
  | some entry =>
    have hentry := hs key entry hcache
    cases entry with
    | found tile =>
      refine ⟨fun tile source hr => ?_, hs⟩
      cases hr
      exact hentry
    | notFound =>
      refine ⟨fun tile source hr => ?_, hs⟩
      cases hr
      exact hentry

/-- What an action is when every peer that answers has read the same archives. -/
def ResolverAction.Truthful (archives : ArchiveSet) : ResolverAction → Prop
  | .routeTile key met => met.Truthful archives key
  | _ => True

/-- Among truthful peers a node caches only what the archives hold. -/
theorem truthful_of_reached {start : Instant}
    (h : (resolver config archives start).ReachedBy (fun _ a => a.Truthful archives) s) : s.Truthful archives := by
  refine h.invariant (fun key entry he => (by cases he)) fun s a s' hs ha hstep => ?_
  cases a with
  | routeTile key met =>
    cases hstep
    exact (routeTile_agrees ha hs).node
  | loadTileById key met =>
    cases hstep
    exact (loadTileById_agrees hs).node
  | advance d =>
    cases hstep
    exact hs
  | evict key =>
    cases hstep
    exact fun k entry he => hs k entry (update_none_eq_some he).2
  | peerAnswered peer resource answer =>
    cases hstep
    exact hs

end Biei.Storage
