import Biei.Lemmas.Forwarding
import Biei.Lib.WaitGraph

/-!
# Who waits for whom in a cluster

`Hop` is what is left of waiting when only nodes are seen, and a cycle of waiting tasks is a cycle of hops.
-/

open Relation

namespace Biei

/-- The handling is over. -/
def HandlerPhase.isOver : HandlerPhase → Bool
  | .done _ => true
  | .aborted => true
  | _ => false

namespace Cluster

variable {S : ClusterSpec} {s s' : Cluster}

/-- `i` has joined a flight on its node, and `j` holds the guard of that flight. -/
def WaitsForFlight (s : Cluster) (i j : Nat) : Prop :=
  ∃ h d c e f, s.handlers[i]? = some h ∧ s.handlers[j]? = some d ∧ h.node = d.node ∧ s.callerOf h = some c ∧
    s.callerOf d = some e ∧ c.phase = .waiting f ∧ RenderOutputCache.Leads e f

/-- `i` has sent its task to a peer, and `j` handles it there. -/
def WaitsForPeer (s : Cluster) (i j : Nat) : Prop :=
  ∃ h d m rest msg, s.handlers[i]? = some h ∧ h.phase = .sent m rest ∧ s.messages[m]? = some msg ∧ msg.delivered = some j ∧
    s.handlers[j]? = some d ∧ d.phase.isOver = false

/-- `i` waits for `j`. -/
def WaitsFor (s : Cluster) (i j : Nat) : Prop := s.WaitsForFlight i j ∨ s.WaitsForPeer i j

/-- The leader of a flight for `k` on `x` has sent its task to `y`, where it has not got past the cache. -/
def Hop (s : Cluster) (k : RenderCacheKey) (x y : NodeId) : Prop :=
  ∃ (i : Nat) (h : Handler) (m : Nat) (rest : List ForwardCandidate) (msg : Message), s.handlers[i]? = some h ∧ h.node = x ∧
    RenderCacheKey.fromTask h.task = k ∧ h.caller ≠ none ∧ h.phase = .sent m rest ∧ s.messages[m]? = some msg ∧ msg.target = y ∧
    ∀ (j : Nat) (d : Handler), msg.delivered = some j → s.handlers[j]? = some d → d.phase = .acquiring

/-! ## Tasks and nodes -/

variable {h : Handler} {rc : RenderCaller RenderCacheKey}

theorem callerOf_eq (hc : s.callerOf h = some rc) :
    ∃ c, h.caller = some c ∧ (s.caches h.node).callers[c]? = some rc := Option.bind_eq_some_iff.mp hc

variable {i : Nat}

theorem FlightsInv.callerOf (hinv : FlightsInv s) (hi : s.handlers[i]? = some h) (hc : s.callerOf h = some rc) :
    rc.key = .fromTask h.task ∧ h.phase.suits rc.phase = true := by
  obtain ⟨c, hcaller, hrc⟩ := callerOf_eq hc
  obtain ⟨rc', hrc', hkey, hsuits⟩ := hinv.caller i h c hi hcaller
  cases hrc.symm.trans hrc'
  exact ⟨hkey, hsuits⟩

/-- A handler whose caller waits is in the cache. -/
theorem FlightsInv.acquiring (hinv : FlightsInv s) {f : Nat}
    (hi : s.handlers[i]? = some h) (hc : s.callerOf h = some rc) (hp : rc.phase = .waiting f) : h.phase = .acquiring := by
  have hsuits := (hinv.callerOf hi hc).2
  rw [hp] at hsuits
  cases hph : h.phase <;> rw [hph] at hsuits <;> simp [HandlerPhase.suits] at hsuits ⊢

/-- A follower and the leader of its flight have one key: the flight is in the map, because its leader is alive. -/
theorem FlightsInv.key_eq (hinv : FlightsInv s) {i j : Nat} {h d : Handler} {c e : RenderCaller RenderCacheKey} {f : Nat}
    (hi : s.handlers[i]? = some h) (hj : s.handlers[j]? = some d) (hnode : h.node = d.node) (hc : s.callerOf h = some c)
    (he : s.callerOf d = some e) (hp : c.phase = .waiting f) (hl : RenderOutputCache.Leads e f) :
    RenderCacheKey.fromTask h.task = RenderCacheKey.fromTask d.task := by
  obtain ⟨p, -, hrc⟩ := callerOf_eq hc
  obtain ⟨q, -, hre⟩ := callerOf_eq he
  rw [← hnode] at hre
  have hcache := hinv.caches h.node
  have hflight := hcache.leads hre hl
  have hok := hcache.callers p c hrc
  rw [hp] at hok
  have hmap : (s.caches h.node).inFlight c.key = some f := by
    rcases hok.2.1 with hmap | ⟨q', r, hr, hrp⟩ | hchanged
    · exact hmap
    · have hok' := hcache.callers q' r hr
      rw [hrp] at hok'
      exact absurd hflight (hok'.2 e.key)
    · exact absurd hflight ((hcache.changed f hchanged).2 e.key)
  rw [← (hinv.callerOf hi hc).1, ← (hinv.callerOf hj he).1]
  exact hcache.key_eq hmap hflight

/-- A handler that waits for a peer is of the public ingress, and the peer's handler is not. -/
theorem ForwardInv.peer (hinv : ForwardInv S s) {i j m : Nat} {h d : Handler} {rest : List ForwardCandidate} {msg : Message}
    (hi : s.handlers[i]? = some h) (hp : h.phase = .sent m rest) (hm : s.messages[m]? = some msg)
    (hdel : msg.delivered = some j) (hj : s.handlers[j]? = some d) :
    h.entry = .incoming ∧ (∃ tier, d.entry = .forwarded m tier) ∧ d.node = msg.target ∧
      RenderCacheKey.fromTask d.task = RenderCacheKey.fromTask h.task := by
  obtain ⟨msg', hm', horigin⟩ := hinv.sent i h m rest hi hp
  cases hm.symm.trans hm'
  obtain ⟨h', call, a, hh', hc, ha, hreq, -⟩ := hinv.messages m msg hm
  rw [horigin] at hh'
  cases hi.symm.trans hh'
  have hcall := (hinv.handlers i h hi).call call hc
  obtain ⟨d', tier, hd', hentry, hnode, hkey⟩ := hinv.delivered m msg j hm hdel
  cases hj.symm.trans hd'
  refine ⟨hcall.entry, ⟨tier, hentry⟩, hnode, hkey.trans ?_⟩
  rw [← hreq, hcall.requests a ha]
  exact RenderCacheKey.fromTask_intoInternal rfl 0

/-- A task of the public ingress waits for peers, a forwarded one does not. -/
theorem ForwardInv.not_sent (hinv : ForwardInv S s) {i m : Nat} {tier : RouteTier} (hi : s.handlers[i]? = some h)
    (he : h.entry = .forwarded m tier) (m' : Nat) (rest : List ForwardCandidate) : h.phase ≠ .sent m' rest := by
  intro hp
  have hok := hinv.handlers i h hi
  cases hc : h.call with
  | none => exact (hok.uncalled hc).2 m' rest hp
  | some call => exact absurd ((hok.call call hc).entry.symm.trans he) nofun

/-- The leader of a flight joins no flight. -/
theorem not_flight_flight (i j k : Nat) (hij : s.WaitsForFlight i j) : ¬s.WaitsForFlight j k := by
  rintro ⟨d, _, e, _, g, hd, -, -, he, -, hw, -⟩
  obtain ⟨-, d', -, e', f, -, hd', -, -, he', -, hl⟩ := hij
  cases hd.symm.trans hd'
  cases he.symm.trans he'
  rcases hl with hl | ⟨o, hl⟩
  · exact absurd (hw.symm.trans hl) nofun
  · exact absurd (hw.symm.trans hl) nofun

/-- Who has joined a flight has sent nothing. -/
theorem not_flight_and_peer (hflights : FlightsInv s) (i j k : Nat) (hij : s.WaitsForFlight i j) : ¬s.WaitsForPeer i k := by
  obtain ⟨h, -, c, -, f, hi, -, -, hc, -, hw, -⟩ := hij
  rintro ⟨h', -, m, rest, -, hi', hp, -⟩
  cases hi.symm.trans hi'
  exact absurd ((hflights.acquiring hi hc hw).symm.trans hp) nofun

/-- Who handles a message waits for no peer. -/
theorem not_peer_peer (hforward : ForwardInv S s) (i j k : Nat) (hij : s.WaitsForPeer i j) : ¬s.WaitsForPeer j k := by
  obtain ⟨h, d, m, rest, msg, hi, hp, hm, hdel, hj, -⟩ := hij
  obtain ⟨-, ⟨tier, he⟩, -⟩ := hforward.peer hi hp hm hdel hj
  rintro ⟨d', -, m', rest', -, hj', hp', -⟩
  cases hj.symm.trans hj'
  exact hforward.not_sent hj he m' rest' hp'

/-- A leader that waits for a peer whose handler has joined a flight: a hop to the node of that flight's leader. -/
theorem hop_of_peer_flight (hflights : FlightsInv s) (hforward : ForwardInv S s) {i j l : Nat}
    (hi : s.handlers[i]? = some h) (hcaller : h.caller ≠ none) (hij : s.WaitsForPeer i j) (hjl : s.WaitsForFlight j l) :
    ∃ d, s.handlers[l]? = some d ∧ d.caller ≠ none ∧ RenderCacheKey.fromTask d.task = RenderCacheKey.fromTask h.task ∧
      s.Hop (.fromTask h.task) h.node d.node := by
  obtain ⟨h', t, m, rest, msg, hi', hp, hm, hdel, hj, -⟩ := hij
  cases hi.symm.trans hi'
  obtain ⟨t', d, c, e, f, hj', hl, hnode, hc, he, hw, hleads⟩ := hjl
  cases hj.symm.trans hj'
  obtain ⟨-, -, htarget, hkey⟩ := hforward.peer hi hp hm hdel hj
  have hcaller' : d.caller ≠ none := by
    obtain ⟨q, hq, -⟩ := callerOf_eq he
    rw [hq]
    exact nofun
  refine ⟨d, hl, hcaller', ?_, i, h, m, rest, msg, hi, rfl, rfl, hcaller, hp, hm, ?_, ?_⟩
  · rw [← hkey]
    exact (hflights.key_eq hj hl hnode hc he hw hleads).symm
  · rw [← htarget]
    exact hnode
  · intro j' t' hdel' hj''
    cases hdel.symm.trans hdel'
    cases hj.symm.trans hj''
    exact hflights.acquiring hj hc hw

/-- Two steps of waiting at a time, from leader to leader: a path of hops for the key of the first. -/
theorem hops_of_waits (hflights : FlightsInv s) (hforward : ForwardInv S s) {i l : Nat}
    (hi : s.handlers[i]? = some h) (hcaller : h.caller ≠ none)
    (hil : TransGen (fun i l => ∃ j, s.WaitsForPeer i j ∧ s.WaitsForFlight j l) i l) :
    ∃ d, s.handlers[l]? = some d ∧ d.caller ≠ none ∧ RenderCacheKey.fromTask d.task = RenderCacheKey.fromTask h.task ∧
      TransGen (s.Hop (.fromTask h.task)) h.node d.node := by
  induction hil with
  | single hil =>
    obtain ⟨j, hij, hjl⟩ := hil
    obtain ⟨d, hd, hc, hkey, hhop⟩ := hop_of_peer_flight hflights hforward hi hcaller hij hjl
    exact ⟨d, hd, hc, hkey, .single hhop⟩
  | tail _ hlt ih =>
    obtain ⟨d, hd, hc, hkey, hpath⟩ := ih
    obtain ⟨j, hlj, hjt⟩ := hlt
    obtain ⟨t, ht, hct, hkeyt, hhop⟩ := hop_of_peer_flight hflights hforward hd hc hlj hjt
    rw [hkey] at hhop hkeyt
    exact ⟨t, ht, hct, hkeyt, hpath.tail hhop⟩

/-- Without a cycle of hops for any key, no task waits for itself. -/
theorem waitsFor_acyclic (hflights : FlightsInv s) (hforward : ForwardInv S s) (hhops : ∀ k, Acyclic (s.Hop k)) :
    Acyclic s.WaitsFor := by
  refine Acyclic.alternate not_flight_flight (not_peer_peer hforward) (not_flight_and_peer hflights) ?_
  intro i hii
  -- who closes the cycle holds the guard of a flight, so its task is cached
  obtain ⟨_, -, j, -, hji⟩ := TransGen.tail'_iff.mp hii
  obtain ⟨-, h, -, e, f, -, hi, -, -, he, -⟩ := hji
  obtain ⟨c, hc, -⟩ := callerOf_eq he
  have hcaller : h.caller ≠ none := by
    rw [hc]
    exact nofun
  obtain ⟨d, hd, -, -, hpath⟩ := hops_of_waits hflights hforward hi hcaller hii
  cases hi.symm.trans hd
  exact hhops _ _ hpath

/-! ## Hops over a step -/

/-- A handler changes in place to a phase that neither waits for a peer nor is in the cache: no hop is new. -/
theorem Hop.of_update {h h' : Handler} (hi : s.handlers[i]? = some h) (hacq : h'.phase ≠ .acquiring)
    (hsent : ∀ m rest, h'.phase ≠ .sent m rest) {caches : NodeId → RenderOutputCache RenderCacheKey} {k : RenderCacheKey}
    {x y : NodeId} (hhop : Hop { s.setHandler i h' with caches := caches } k x y) : s.Hop k x y := by
  obtain ⟨j, d, m, rest, msg, hd, hnode, hkey, hcaller, hp, hm, htarget, hpending⟩ := hhop
  rcases setHandler_get hi hd with ⟨rfl, rfl⟩ | ⟨-, hd⟩
  · exact absurd hp (hsent m rest)
  · refine ⟨j, d, m, rest, msg, hd, hnode, hkey, hcaller, hp, hm, htarget, ?_⟩
    intro l t hdel ht
    by_cases hli : l = i
    · subst hli
      exact absurd (hpending l h' hdel (setHandler_get_self hi h')) hacq
    · exact hpending l t hdel ((setHandler_get_of_ne hli h').trans ht)

/-- A task is entered: no hop is new, when the messages tell of handlers that were there before. -/
theorem Hop.of_enter {t : Cluster} (hhandlers : t.handlers = s.handlers ++ [h]) (hmessages : t.messages = s.messages)
    (hsent : ∀ m rest, h.phase ≠ .sent m rest) {k : RenderCacheKey} {x y : NodeId} (hhop : t.Hop k x y) : s.Hop k x y := by
  obtain ⟨j, d, m, rest, msg, hd, hnode, hkey, hcaller, hp, hm, htarget, hpending⟩ := hhop
  rw [hhandlers] at hd
  rcases getElem?_concat_cases hd with ⟨-, rfl⟩ | hd
  · exact absurd hp (hsent m rest)
  · refine ⟨j, d, m, rest, msg, hd, hnode, hkey, hcaller, hp, hmessages ▸ hm, htarget, ?_⟩
    intro l u hdel hu
    exact hpending l u hdel (by rw [hhandlers]; exact getElem?_concat_of_some hu _)

/-- Only a send makes a hop, from the sender's node to the candidate's. -/
theorem Hop.of_step {a : ClusterAction} (hforward : ForwardInv S s) (hs : Stepped S s a s') {k : RenderCacheKey} {x y : NodeId}
    (hhop : s'.Hop k x y) :
    s.Hop k x y ∨ ∃ i now h candidate rest, a = .send i now ∧ s.handlers[i]? = some h ∧ h.caller ≠ none ∧
      h.phase = .forwarding (candidate :: rest) ∧ forwardBudgetTooSmall h.task now = false ∧
      RenderCacheKey.fromTask h.task = k ∧ h.node = x ∧ candidate.nodeId = y := by
  cases hs with
  | cache n act cache hin hstep => exact Or.inl hhop
  | move _ i h h' hi hm => exact Or.inl (Hop.of_update hi (moved_phase hm).1 (moved_phase hm).2 hhop)
  | call _ i h c act cache phase hi hc hstep hcall =>
    have hphase : phase ≠ .acquiring ∧ ∀ m rest, phase ≠ .sent m rest := by
      cases hcall <;> exact ⟨nofun, nofun⟩
    exact Or.inl (Hop.of_update hi hphase.1 hphase.2 hhop)
  | send i now h call candidate rest request hi hp hc hr hb =>
    obtain ⟨j, d, m, rest', msg, hd, hnode, hkey, hcaller, hph, hm, htarget, hpending⟩ := hhop
    rcases setHandler_get hi hd with ⟨rfl, rfl⟩ | ⟨-, hd⟩
    · cases hph
      rw [List.getElem?_concat_length] at hm
      cases hm
      exact Or.inr ⟨j, now, h, candidate, rest, rfl, hi, hcaller, hp, hb, hkey, hnode, htarget⟩
    · left
      obtain ⟨msg', hm', -⟩ := hforward.sent j d m rest' hd hph
      obtain rfl := Option.some.inj ((getElem?_concat_of_some hm' _).symm.trans hm)
      refine ⟨j, d, m, rest', msg', hd, hnode, hkey, hcaller, hph, hm', htarget, ?_⟩
      intro l t hdel ht
      by_cases hli : l = i
      · subst hli
        exact absurd (hpending l _ hdel (setHandler_get_self hi _)) nofun
      · exact hpending l t hdel ((setHandler_get_of_ne hli _).trans ht)
  | arrive n task now t he =>
    obtain ⟨h, hhandlers, hmessages, -, -, -, -, -, hsent⟩ := he.handlers (S := S)
    exact Or.inl (Hop.of_enter hhandlers hmessages hsent hhop)
  | deliver _ m now delayMs msg task t hm hd ht he =>
    obtain ⟨h, hhandlers, hmessages, -, -, -, -, -, hsent⟩ := he.handlers (S := S)
    obtain ⟨j, d, m', rest, msg', hd', hnode, hkey, hcaller, hph, hm', htarget, hpending⟩ :=
      Hop.of_enter hhandlers hmessages hsent hhop
    left
    rcases getElem?_set_cases hm hm' with ⟨rfl, rfl⟩ | ⟨-, hm'⟩
    · refine ⟨j, d, m', rest, msg, hd', hnode, hkey, hcaller, hph, hm, htarget, ?_⟩
      intro l u hdel
      exact absurd (hd.symm.trans hdel) nofun
    · exact ⟨j, d, m', rest, msg', hd', hnode, hkey, hcaller, hph, hm', htarget, hpending⟩

end Cluster

end Biei
