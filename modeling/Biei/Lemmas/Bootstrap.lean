import Biei.Lemmas.Dispatcher
import Biei.Lib.WaitGraph
import Biei.Pmtiles.Bootstrap
import Biei.Storage.BootstrapFlights

/-! # What a bootstrap body is decoded to -/

namespace Biei

/-! ## The wire -/

variable {body : Bytes}

/-- How a framed body is decoded: what is left after its checks. -/
theorem decodeBootstrapWire_framed (hmax : body.length ≤ maxTransferBytes) (hmin : prefixBytes ≤ body.length) :
    decodeBootstrapWire body true =
      if ofLeBytes (slice body 0 prefixBytes) > minBootstrapBytes then
        some (.error "bootstrap length exceeds the accepted bootstrap size")
      else if body.length < prefixBytes + ofLeBytes (slice body 0 prefixBytes) then some (.error "bootstrap transfer truncated")
      else some (.ok
        { bootstrap := slice body prefixBytes (prefixBytes + ofLeBytes (slice body 0 prefixBytes))
          metadata :=
            if body.length > prefixBytes + ofLeBytes (slice body 0 prefixBytes) then
              some (slice body (prefixBytes + ofLeBytes (slice body 0 prefixBytes)) body.length)
            else none }) := by
  have hlead : slice? body 0 prefixBytes = some (slice body 0 prefixBytes) := slice?_eq_some (Nat.zero_le _) hmin
  have hmax' : ¬body.length > maxTransferBytes := Nat.not_lt_of_le hmax
  have hmin' : ¬body.length < prefixBytes := Nat.not_lt_of_le hmin
  simp only [decodeBootstrapWire, Bool.not_true, Bool.false_eq_true, if_false, hmax', hmin', hlead, Option.bind_eq_bind,
    Option.bind_some]
  generalize ofLeBytes (slice body 0 prefixBytes) = n
  split
  · rfl
  · rename_i hn
    have hadd : checkedAdd prefixBytes n = some (prefixBytes + n) := by
      refine if_pos ?_
      unfold prefixBytes u64Bound
      unfold minBootstrapBytes at hn
      omega
    simp only [hadd]
    split
    · rfl
    · rename_i hlen
      have hbootstrap : slice? body prefixBytes (prefixBytes + n) = some (slice body prefixBytes (prefixBytes + n)) :=
        slice?_eq_some (Nat.le_add_right _ _) (Nat.le_of_not_lt hlen)
      have hrest : slice? body (prefixBytes + n) body.length = some (slice body (prefixBytes + n) body.length) :=
        slice?_eq_some (Nat.le_of_not_lt hlen) (Nat.le_refl _)
      simp only [hbootstrap, hrest, Option.bind_some, Option.map_some]
      split
      · rfl
      · rfl

/-- Every body is decoded to a transfer or an error. -/
theorem decodeBootstrapWire_total (body : Bytes) (includeMetadata : Bool) : ∃ r,
    decodeBootstrapWire body includeMetadata = some r := by
  cases includeMetadata with
  | false =>
    unfold decodeBootstrapWire
    simp only [Bool.not_false, if_true]
    split
    · exact ⟨_, rfl⟩
    · exact ⟨_, rfl⟩
  | true =>
    rcases Nat.lt_or_ge maxTransferBytes body.length with hmax | hmax
    · refine ⟨.error "bootstrap transfer exceeds the accepted metadata envelope", ?_⟩
      simp only [decodeBootstrapWire, Bool.not_true, Bool.false_eq_true, if_false, if_pos hmax]
    · rcases Nat.lt_or_ge body.length prefixBytes with hmin | hmin
      · refine ⟨.error "bootstrap transfer too short", ?_⟩
        simp only [decodeBootstrapWire, Bool.not_true, Bool.false_eq_true, if_false, if_neg (Nat.not_lt_of_le hmax), if_pos hmin]
      · rw [decodeBootstrapWire_framed hmax hmin]
        split
        · exact ⟨_, rfl⟩
        · split
          · exact ⟨_, rfl⟩
          · exact ⟨_, rfl⟩

/-- The bootstrap of a framed body is in the body, after its length. -/
theorem length_of_decodeBootstrapWire {transfer : BootstrapTransfer} (h : decodeBootstrapWire body true = some (.ok transfer)) :
    prefixBytes + transfer.bootstrap.length ≤ body.length ∧ transfer.bootstrap.length ≤ minBootstrapBytes ∧
      body.length ≤ maxTransferBytes := by
  rcases Nat.lt_or_ge maxTransferBytes body.length with hmax | hmax
  · simp [decodeBootstrapWire, hmax] at h
  · rcases Nat.lt_or_ge body.length prefixBytes with hmin | hmin
    · simp [decodeBootstrapWire, Nat.not_lt_of_le hmax, hmin] at h
    · rw [decodeBootstrapWire_framed hmax hmin] at h
      split at h
      · cases h
      · rename_i hn
        split at h
        · cases h
        · rename_i hlen
          cases Option.some.inj h
          simp only [length_slice]
          omega

/-- A body without a frame is the bootstrap. -/
theorem decodeBootstrapWire_raw (body : Bytes) :
    decodeBootstrapWire body false =
      if body.length > minBootstrapBytes then some (.error "bootstrap transfer exceeds the accepted bootstrap size")
      else some (.ok ⟨body, none⟩) :=
  rfl

theorem length_of_decodeBootstrapWire_raw {transfer : BootstrapTransfer}
    (h : decodeBootstrapWire body false = some (.ok transfer)) : transfer.bootstrap.length ≤ minBootstrapBytes := by
  rw [decodeBootstrapWire_raw] at h
  split at h
  · cases h
  · rename_i hlen
    cases Option.some.inj h
    exact Nat.le_of_not_lt hlen

/-- What was framed is decoded. -/
theorem decodeBootstrapWire_frame {bootstrap metadata : Bytes} (hbootstrap : bootstrap.length ≤ minBootstrapBytes)
    (hmax : prefixBytes + (bootstrap.length + metadata.length) ≤ maxTransferBytes) (hmetadata : metadata ≠ []) :
    decodeBootstrapWire (leBytes 8 bootstrap.length ++ (bootstrap ++ metadata)) true = some (.ok ⟨bootstrap, some metadata⟩) := by
  have hlen : (leBytes 8 bootstrap.length ++ (bootstrap ++ metadata)).length = prefixBytes +
    (bootstrap.length + metadata.length) := by
    simp [prefixBytes]
  have hlead : slice (leBytes 8 bootstrap.length ++ (bootstrap ++ metadata)) 0 prefixBytes = leBytes 8 bootstrap.length := by
    simp [slice, prefixBytes]
  have hn : ofLeBytes (leBytes 8 bootstrap.length) = bootstrap.length := by
    refine ofLeBytes_leBytes ?_
    unfold minBootstrapBytes at hbootstrap
    omega
  have hmiddle : slice (leBytes 8 bootstrap.length ++ (bootstrap ++ metadata)) prefixBytes (prefixBytes + bootstrap.length) =
      bootstrap := by
    simp [slice, prefixBytes]
  have hrest : slice (leBytes 8 bootstrap.length ++ (bootstrap ++ metadata)) (prefixBytes + bootstrap.length)
      (prefixBytes + (bootstrap.length + metadata.length)) = metadata := by
    have hright := slice_append_right (leBytes 8 bootstrap.length ++ bootstrap) metadata
    simpa only [prefixBytes, List.append_assoc, List.length_append, length_leBytes, Nat.add_assoc] using hright
  have hpos : 0 < metadata.length := List.length_pos_of_ne_nil hmetadata
  rw [decodeBootstrapWire_framed (hlen ▸ hmax) (hlen ▸ Nat.le_add_right _ _)]
  simp only [hlead, hn, hlen, hmiddle, hrest]
  rw [if_neg (Nat.not_lt_of_le hbootstrap), if_neg (by omega), if_pos (by omega)]

/-! ## The cache -/

section

variable {T M : Type} [DecidableEq T]

/-- No bootstrap in the cache is larger than what a peer accepts. -/
def ArchiveCache.Bounded (s : ArchiveCache T M) : Prop := ∀ t cached, s.archives t = some cached →
    cached.bootstrap.length ≤ minBootstrapBytes

namespace ArchiveCache

variable {env : PmtilesEnv M} {chunkSize : Nat} {object : T → Bytes} {s : ArchiveCache T M}

theorem Bounded.put (h : s.Bounded) (t : T) (archive : ArchiveBootstrap M) {bootstrap : Bytes}
    (hlen : bootstrap.length ≤ minBootstrapBytes) : (s.put t archive bootstrap).Bounded := by
  intro t' cached hcached
  by_cases ht : t' = t
  · subst ht
    simp only [ArchiveCache.put, Function.update_self, Option.some.injEq] at hcached
    rw [← hcached]
    exact hlen
  · simp only [ArchiveCache.put, Function.update_of_ne ht] at hcached
    exact h t' cached hcached

/-- A read before the length of the archive is known gives at most what it asks for. -/
theorem length_readRange {start length : Nat} {archiveLen : Option Nat} {answer : Except StorageError Bytes}
    {bytes object : Bytes}
    (hanswer : MayAnswer object start length archiveLen answer) (h : readRange chunkSize start length answer = .ok bytes) :
    bytes.length ≤ length ∧ (archiveLen ≠ none → bytes.length = length) := by
  unfold readRange at h
  split at h
  · rename_i hzero
    cases h
    rw [hzero]
    exact ⟨Nat.le_refl _, fun _ => rfl⟩
  · split at h
    · cases h
    · subst h
      obtain ⟨rfl, hall⟩ := hanswer
      rw [length_slice]
      refine ⟨by omega, fun hlen => ?_⟩
      have := hall hlen
      omega

theorem Bounded.step {a : BootstrapAction T} {s' : ArchiveCache T M} (h : s.Bounded)
    (hs : step env chunkSize object s a = some s') : s'.Bounded := by
  cases a with
  | loadLocal t answer =>
    simp only [ArchiveCache.step] at hs
    split at hs
    · rename_i hanswer
      split at hs
      · cases hs
        exact h
      · rename_i initialBytes hread
        cases hs
        unfold ArchiveCache.loadLocal
        split
        · exact h
        · exact h.put t _ (length_readRange hanswer hread).1
    · cases hs
  | loadPeer t includeMetadata body =>
    simp only [ArchiveCache.step] at hs
    split at hs
    · cases hs
    · cases hs
      exact h
    · rename_i transfer hdecode
      cases hs
      have hlen : transfer.bootstrap.length ≤ minBootstrapBytes := by
        cases includeMetadata with
        | true => exact (length_of_decodeBootstrapWire hdecode).2.1
        | false => exact length_of_decodeBootstrapWire_raw hdecode
      unfold ArchiveCache.loadPeer
      split
      · exact h
      · split
        · exact h.put t _ hlen
        · split
          · exact h
          · exact h.put t _ hlen
  | evict t =>
    cases hs
    intro t' cached hcached
    by_cases ht : t' = t
    · subst ht
      simp at hcached
    · simp only [Function.update_of_ne ht] at hcached
      exact h t' cached hcached

theorem bounded_of_reachable (h : (machine env chunkSize object).Reachable s) : s.Bounded := by
  refine h.invariant ?_ fun _ _ _ hi hs => hi.step hs
  intro t cached hcached
  cases hcached

end ArchiveCache

end

end Biei

/-! ## Asking upwards -/

namespace Biei.Storage

namespace BootstrapCluster

/-- The weight of a node for a tileset. -/
def Routing.weight (routing : Routing) (tileset node : String) : UInt64 := routing.xxHash64 (HrwRouter.weightInput tileset 0 node)

/-- A node is before another in the order of the tileset. -/
def Routing.Before (routing : Routing) (tileset a b : String) : Prop :=
  (routing.weight tileset b).toNat < (routing.weight tileset a).toNat ∨
    ((routing.weight tileset a).toNat = (routing.weight tileset b).toNat ∧ a < b)

instance (routing : Routing) (tileset a b : String) : Decidable (routing.Before tileset a b) :=
    inferInstanceAs (Decidable (_ ∨ _))

/-- The candidates that are asked before the node comes to itself. -/
def asked (node : String) (candidates : List ScoredPeer) : List ScoredPeer := candidates.takeWhile fun c => c.peer.id != node

/-- A walk over the candidates asks only peers that are before the node. -/
def Upwards (routing : Routing) (tileset node : String) (candidates : List ScoredPeer) : Prop :=
  ∀ c ∈ asked node candidates, routing.Before tileset c.peer.id node

instance (routing : Routing) (tileset node : String) (candidates : List ScoredPeer) :
    Decidable (Upwards routing tileset node candidates) :=
  inferInstanceAs (Decidable (∀ c ∈ asked node candidates, _))

variable {routing : Routing} {tileset node : String}

theorem Routing.Before.irrefl (a : String) : ¬routing.Before tileset a a := by
  rintro (hlt | ⟨-, hlt⟩)
  · exact Nat.lt_irrefl _ hlt
  · exact lt_irrefl _ hlt

theorem Routing.Before.trans {a b c : String} (hab : routing.Before tileset a b) (hbc : routing.Before tileset b c) :
    routing.Before tileset a c := by
  rcases hab with hab | ⟨hab, hid⟩
  · rcases hbc with hbc | ⟨hbc, -⟩
    · exact Or.inl (hbc.trans hab)
    · exact Or.inl (hbc ▸ hab)
  · rcases hbc with hbc | ⟨hbc, hid'⟩
    · exact Or.inl (hab ▸ hbc)
    · exact Or.inr ⟨hab.trans hbc, hid.trans hid'⟩

/-- The candidates are the first of the peers by weight. -/
theorem candidates_eq (routing : Routing) (node tileset : String) (peers : List Peer) :
    routing.candidates node tileset peers = topK (fun a b => ScoredPeer.le a b = true) (routing.router node).candidateCount
      (peers.map (HrwRouter.scored (routing.weight tileset))).reverse := by
  have hzero : (0 : UInt64).toNat / (routing.router node).tileGroupSize = 0 := Nat.zero_div _
  show (routing.router node).routeGroup routing.xxHash64 peers tileset _ = _
  rw [hzero, HrwRouter.routeGroup_eq_reverse]
  rfl

/-- A node that sees itself asks upwards. -/
theorem upwards_of_mem {peers : List Peer} (hself : ∃ peer ∈ peers, peer.id = node) :
    Upwards routing tileset node (routing.candidates node tileset peers) := by
  obtain ⟨self, hself, rfl⟩ := hself
  intro c hc
  have hmem : c ∈ routing.candidates self.id tileset peers := (List.takeWhile_sublist _).subset hc
  have hne : c.peer.id ≠ self.id := by
    have hp := List.mem_takeWhile_imp hc
    simpa using hp
  unfold asked at hc
  rw [candidates_eq] at hc hmem
  have hscore : c.score = routing.weight tileset c.peer.id := by
    obtain ⟨peer, -, rfl⟩ := List.mem_map.mp (List.mem_reverse.mp (mem_of_mem_topK _ hmem))
    rfl
  have hscored : HrwRouter.scored (routing.weight tileset) self ∈
    (peers.map (HrwRouter.scored (routing.weight tileset))).reverse :=
    List.mem_reverse.mpr (List.mem_map_of_mem hself)
  have hle : c.le (HrwRouter.scored (routing.weight tileset) self) = true := by
    rcases mem_topK_or (fun a b => ScoredPeer.le a b = true) (k := (routing.router self.id).candidateCount)
      hscored with hheld | hall
    · -- the node itself is among the candidates, after all that are asked
      have hsorted := topK_pairwise (fun a b => ScoredPeer.le a b = true) (routing.router self.id).candidateCount
        (peers.map (HrwRouter.scored (routing.weight tileset))).reverse
      have hsplit := List.takeWhile_append_dropWhile (p := fun c : ScoredPeer => c.peer.id != self.id)
        (l := topK (fun a b => ScoredPeer.le a b = true) (routing.router self.id).candidateCount
          (peers.map (HrwRouter.scored (routing.weight tileset))).reverse)
      rw [← hsplit] at hsorted hheld
      rcases List.mem_append.mp hheld with hheld | hheld
      · have hp := List.mem_takeWhile_imp hheld
        simp [HrwRouter.scored] at hp
      · exact (List.pairwise_append.mp hsorted).2.2 c hc _ hheld
    · exact hall c hmem
  rw [ScoredPeer.le_iff, hscore] at hle
  rcases hle with hlt | ⟨heq, hid⟩
  · exact Or.inl hlt
  · exact Or.inr ⟨heq, lt_of_le_of_ne hid hne⟩

theorem Upwards.of_cons {next : ScoredPeer} {rest : List ScoredPeer} (h : Upwards routing tileset node (next :: rest))
    (hne : next.peer.id ≠ node) : routing.Before tileset next.peer.id node ∧ Upwards routing tileset node rest := by
  have hasked : asked node (next :: rest) = next :: asked node rest := List.takeWhile_cons_of_pos (by simpa using hne)
  unfold Upwards at h
  rw [hasked] at h
  exact ⟨h next List.mem_cons_self, fun c hc => h c (List.mem_cons_of_mem _ hc)⟩

/-! ## What every step keeps -/

/-- The load asks only peers that are before its node, and goes on to ask no others. -/
def AsksUpwards (routing : Routing) (load : BootstrapLoad) : BootstrapPhase → Prop
  | .asking candidates => Upwards routing load.tileset load.node candidates
  | .fetching peer rest => routing.Before load.tileset peer.id load.node ∧ Upwards routing load.tileset load.node rest
  | _ => True

variable {load : BootstrapLoad}

theorem asksUpwards_startWalk {candidates : List ScoredPeer}
    (h : Upwards routing load.tileset load.node candidates) : AsksUpwards routing load (startWalk load.node candidates) := by
  unfold startWalk
  split
  · trivial
  · split
    · trivial
    · exact h

theorem asksUpwards_turn {candidates : List ScoredPeer}
    (h : Upwards routing load.tileset load.node candidates) : AsksUpwards routing load (turn load.node candidates) := by
  unfold turn
  split
  · trivial
  · split
    · trivial
    · rename_i hne
      exact h.of_cons hne

theorem asksUpwards_afterFailure {rest : List ScoredPeer} (h : Upwards routing load.tileset load.node rest)
    (error : PeerFetchError) : AsksUpwards routing load (afterFailure rest error) := by
  unfold afterFailure
  split
  · exact h
  · trivial

/-- Whoever routes a load asks upwards. -/
def RoutesUpwards (routing : Routing) (s : BootstrapCluster) : BootstrapEvent → Prop
  | .move i (.route peers) =>
    ∀ load, s.loads[i]? = some load → Upwards routing load.tileset load.node (routing.candidates load.node load.tileset peers)
  | _ => True

/-- What holds of the loads and the flights: whoever asks, asks upwards; a handler serves a load of its own tileset; and a flight
is led by a load of its node and tileset. -/
structure AskingUpwards (routing : Routing) (s : BootstrapCluster) : Prop where
  asks : ∀ (i : Nat) load, s.loads[i]? = some load → AsksUpwards routing load load.phase
  serves : ∀ (i k : Nat) handler, s.loads[i]? = some handler → handler.asker = some k →
    ∃ load, s.loads[k]? = some load ∧ load.tileset = handler.tileset
  leads : ∀ node tileset j, s.flights (node, tileset) = some j →
    ∃ leader, s.loads[j]? = some leader ∧ leader.node = node ∧ leader.tileset = tileset

variable {s s' : BootstrapCluster} {i : Nat} {load : BootstrapLoad}

/-- A load goes on in another phase; of the flights at most the one of its node and tileset changes, which it then leads or which
is gone. -/
def Moves (s : BootstrapCluster) (i : Nat) (load : BootstrapLoad) (phase : BootstrapPhase) (s' : BootstrapCluster) : Prop :=
  s'.loads = s.loads.set i { load with phase := phase } ∧
    ∀ key j, s'.flights key = some j → s.flights key = some j ∨ (key = (load.node, load.tileset) ∧ j = i)

theorem moves_setPhase (phase : BootstrapPhase) : Moves s i load phase (s.setPhase i load phase) := ⟨rfl, fun _ _ h => Or.inl h⟩

theorem moves_endLead : Moves s i load .done (s.endLead i load) := by
  refine ⟨rfl, fun key j h => Or.inl ?_⟩
  have h : Function.update s.flights (load.node, load.tileset) none key = some j := h
  by_cases hkey : key = (load.node, load.tileset)
  · rw [hkey, Function.update_self] at h
    cases h
  · rwa [Function.update_of_ne hkey] at h

theorem moves_begin : ∃ phase, Moves s i load phase (s.begin i load) ∧ AsksUpwards routing load phase := by
  unfold begin
  split
  · exact ⟨_, moves_setPhase _, trivial⟩
  · refine ⟨_, ⟨rfl, fun key j h => ?_⟩, by split <;> trivial⟩
    have h : Function.update s.flights (load.node, load.tileset) (some i) key = some j := h
    by_cases hkey : key = (load.node, load.tileset)
    · rw [hkey, Function.update_self] at h
      exact Or.inr ⟨hkey, (Option.some.inj h).symm⟩
    · rw [Function.update_of_ne hkey] at h
      exact Or.inl h

/-- What a step of a load does: it goes on in another phase, in which it asks upwards if it did and routes so; or the peer that it
asks gets a handler. -/
theorem loadStep_cases {step : BootstrapStep} (hasks : AsksUpwards routing load load.phase)
    (hroutes : ∀ peers, step = .route peers → Upwards routing load.tileset load.node
      (routing.candidates load.node load.tileset peers))
    (hs : s.loadStep routing i load step = some s') :
    (∃ phase, Moves s i load phase s' ∧ AsksUpwards routing load phase) ∨
    ∃ node, s' = { s with loads := s.loads ++ [⟨node, load.tileset, some i, .looping⟩] } := by
  have hset : ∀ phase, AsksUpwards routing load phase → some (s.setPhase i load phase) = some s' →
      ∃ phase, Moves s i load phase s' ∧ AsksUpwards routing load phase := by
    intro phase hphase heq
    cases heq
    exact ⟨phase, moves_setPhase phase, hphase⟩
  have hend : some (s.endLead i load) = some s' → ∃ phase, Moves s i load phase s' ∧ AsksUpwards routing load phase := by
    intro heq
    cases heq
    exact ⟨.done, moves_endLead, trivial⟩
  unfold loadStep at hs
  split at hs
  · exact Or.inl (hset .done trivial hs)
  · cases hs
    exact Or.inl moves_begin
  · split at hs
    · exact Or.inl (hset _ (asksUpwards_startWalk (hroutes _ rfl)) hs)
    · cases hs
  · rename_i candidates hphase
    rw [hphase] at hasks
    exact Or.inl (hset _ (asksUpwards_turn hasks) hs)
  · split at hs
    · cases hs
    · exact Or.inr ⟨_, (Option.some.inj hs).symm⟩
  · exact Or.inl (hend hs)
  · exact Or.inl (hset .reading trivial hs)
  · rename_i error peer rest hphase
    rw [hphase] at hasks
    exact Or.inl (hset _ (asksUpwards_afterFailure hasks.2 error) hs)
  · exact Or.inl (hend hs)
  · split at hs
    · cases hs
    · refine Or.inl (hset _ ?_ hs)
      split <;> trivial
  · exact Or.inl (hset .done trivial hs)
  · exact Or.inl (hset .done trivial hs)
  · exact Or.inl (hend hs)
  · exact Or.inl (hend hs)
  · exact Or.inl (hend hs)
  · exact Or.inl (hend hs)
  · cases hs

namespace AskingUpwards

theorem new : AskingUpwards routing new := ⟨fun _ _ h => (nomatch h), fun _ _ _ h => (nomatch h), fun _ _ _ h => (nomatch h)⟩

theorem moves {phase : BootstrapPhase} (h : AskingUpwards routing s) (hi : s.loads[i]? = some load) (hm : Moves s i load phase s')
    (hphase : AsksUpwards routing load phase) : AskingUpwards routing s' := by
  obtain ⟨hloads, hflights⟩ := hm
  -- node, tileset and asker of every load are as before
  have hsame : ∀ (k : Nat) other, s.loads[k]? = some other →
      ∃ other', s'.loads[k]? = some other' ∧ other'.node = other.node ∧ other'.tileset = other.tileset := by
    intro k other hk
    rw [hloads]
    by_cases hki : k = i
    · subst hki
      rw [hi] at hk
      cases hk
      exact ⟨_, getElem?_set_of_some hi _, rfl, rfl⟩
    · exact ⟨other, by rw [List.getElem?_set_ne (Ne.symm hki)]; exact hk, rfl, rfl⟩
  refine ⟨fun k other hk => ?_, fun k asker handler hk hasker => ?_, fun node tileset j hj => ?_⟩
  · rw [hloads] at hk
    rcases getElem?_set_cases hi hk with ⟨-, rfl⟩ | ⟨-, hk⟩
    · exact hphase
    · exact h.asks k other hk
  · obtain ⟨asked, hasked, htileset⟩ : ∃ asked, s.loads[asker]? = some asked ∧ asked.tileset = handler.tileset := by
      rw [hloads] at hk
      rcases getElem?_set_cases hi hk with ⟨-, rfl⟩ | ⟨-, hk⟩
      · exact h.serves i asker load hi hasker
      · exact h.serves k asker handler hk hasker
    obtain ⟨asked', hasked', -, htileset'⟩ := hsame asker asked hasked
    exact ⟨asked', hasked', htileset'.trans htileset⟩
  · rcases hflights (node, tileset) j hj with hj | ⟨hkey, rfl⟩
    · obtain ⟨leader, hleader, hnode, htileset⟩ := h.leads node tileset j hj
      obtain ⟨leader', hleader', hnode', htileset'⟩ := hsame j leader hleader
      exact ⟨leader', hleader', hnode'.trans hnode, htileset'.trans htileset⟩
    · obtain ⟨leader', hleader', hnode', htileset'⟩ := hsame j load hi
      exact ⟨leader', hleader', hnode'.trans (congrArg Prod.fst hkey).symm, htileset'.trans (congrArg Prod.snd hkey).symm⟩

theorem concat {new : BootstrapLoad} (h : AskingUpwards routing s) (hphase : new.phase = .looping)
    (hasker : ∀ k, new.asker = some k → ∃ asked, s.loads[k]? = some asked ∧ asked.tileset = new.tileset) :
    AskingUpwards routing { s with loads := s.loads ++ [new] } := by
  refine ⟨fun k other hk => ?_, fun k asker handler hk hasks => ?_, fun node tileset j hj => ?_⟩
  · rcases getElem?_concat_cases hk with ⟨-, rfl⟩ | hk
    · rw [hphase]
      trivial
    · exact h.asks k other hk
  · obtain ⟨asked, hasked, htileset⟩ : ∃ asked, s.loads[asker]? = some asked ∧ asked.tileset = handler.tileset := by
      rcases getElem?_concat_cases hk with ⟨-, rfl⟩ | hk
      · exact hasker asker hasks
      · exact h.serves k asker handler hk hasks
    exact ⟨asked, getElem?_concat_of_some hasked new, htileset⟩
  · obtain ⟨leader, hleader, hat⟩ := h.leads node tileset j hj
    exact ⟨leader, getElem?_concat_of_some hleader new, hat⟩

theorem next {event : BootstrapEvent} (h : AskingUpwards routing s) (hroutes : RoutesUpwards routing s event)
    (hs : s.step routing event = some s') : AskingUpwards routing s' := by
  cases event with
  | request node tileset =>
    cases hs
    exact h.concat rfl fun k hk => (nomatch hk)
  | drain node =>
    cases hs
    exact ⟨h.asks, h.serves, h.leads⟩
  | move i step =>
    obtain ⟨load, hi, hs⟩ := Option.bind_eq_some_iff.mp hs
    have hroute : ∀ peers, step = .route peers →
        Upwards routing load.tileset load.node (routing.candidates load.node load.tileset peers) := by
      rintro peers rfl
      exact hroutes load hi
    rcases loadStep_cases (h.asks i load hi) hroute hs with ⟨phase, hm, hphase⟩ | ⟨node, rfl⟩
    · exact h.moves hi hm hphase
    · refine h.concat rfl fun k hk => ?_
      cases hk
      exact ⟨load, hi, rfl⟩

theorem of_reachedBy (hs : (machine routing).ReachedBy (RoutesUpwards routing) s) : AskingUpwards routing s :=
  hs.invariant new fun _ _ _ h hroutes hs => h.next hroutes hs

/-- The flight that is waited for is led on a node before. -/
theorem before_of_waits {j : Nat} (h : AskingUpwards routing s) (hw : s.Waits i j) :
    ∃ load leader, s.loads[i]? = some load ∧ s.loads[j]? = some leader ∧ leader.tileset = load.tileset ∧
      routing.Before load.tileset leader.node load.node := by
  obtain ⟨load, peer, rest, hi, hphase, -, handler, hmem, hasker, hnode, -, hflight⟩ := hw
  have hasks := h.asks i load hi
  rw [hphase] at hasks
  obtain ⟨k, hk⟩ := List.mem_iff_getElem?.mp hmem
  obtain ⟨asked, hasked, htileset⟩ := h.serves k i handler hk hasker
  rw [hi] at hasked
  cases hasked
  obtain ⟨leader, hleader, hnode', htileset'⟩ := h.leads _ _ j hflight
  refine ⟨load, leader, hi, hleader, htileset'.trans htileset.symm, ?_⟩
  rw [hnode', hnode]
  exact hasks.1

theorem acyclic (h : AskingUpwards routing s) : Acyclic s.Waits := by
  have hbefore : ∀ i j, Relation.TransGen s.Waits i j → ∃ load leader, s.loads[i]? = some load ∧ s.loads[j]? = some leader ∧
      leader.tileset = load.tileset ∧ routing.Before load.tileset leader.node load.node := by
    intro i j hij
    induction hij with
    | single hw => exact h.before_of_waits hw
    | tail _ hw ih =>
      obtain ⟨load, leader, hi, hj, htileset, hlt⟩ := ih
      obtain ⟨leader', next, hj', hk, htileset', hlt'⟩ := h.before_of_waits hw
      rw [hj] at hj'
      cases hj'
      refine ⟨load, next, hi, hk, htileset'.trans htileset, ?_⟩
      rw [htileset] at hlt'
      exact hlt'.trans hlt
  intro i hii
  obtain ⟨load, leader, hi, hj, -, hlt⟩ := hbefore i i hii
  rw [hi] at hj
  cases hj
  exact Routing.Before.irrefl _ hlt

end AskingUpwards

end BootstrapCluster

end Biei.Storage
