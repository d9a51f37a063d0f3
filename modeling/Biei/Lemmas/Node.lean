import Biei.Lemmas.RenderCache
import Biei.Node

/-!
# The invariants of a cluster

`Stepped` says what a step of the cluster can do.
-/

namespace Biei

/-! ## What a step can do -/

/-- A handler that is past the cache, before its outcome: it holds the guard of a flight, when its task is cached. -/
def HandlerPhase.isBusy : HandlerPhase → Bool
  | .routing => true
  | .working .. => true
  | .forwarding _ => true
  | .sent .. => true
  | _ => false

/-- The moves of a handler that leave the caches and the messages alone. -/
inductive Moved (s : Cluster) (h : Handler) : Handler → Prop where
  | hit (rc : RenderCaller RenderCacheKey) (entry : CachedRenderOutput) (result : TaskResult) (hp : h.phase = .acquiring)
      (hc : s.callerOf h = some rc) (hr : rc.phase = .hit entry) : Moved s h (h.goTo (.done result))
  | lead (rc : RenderCaller RenderCacheKey) (f : Nat) (hp : h.phase = .acquiring) (hc : s.callerOf h = some rc)
      (hr : rc.phase = .leading f) (he : h.entry = .incoming) : Moved s h (h.goTo .routing)
  | take (rc : RenderCaller RenderCacheKey) (f m : Nat) (tier : RouteTier) (hp : h.phase = .acquiring)
      (hc : s.callerOf h = some rc)
      (hr : rc.phase = .leading f) (he : h.entry = .forwarded m tier) : Moved s h (h.goTo (.working tier [] none))
  | work (tier : RouteTier) (fallback : List ForwardCandidate) (hp : h.phase = .routing) :
      Moved s h (h.goTo (.working tier fallback none))
  | start (tier : RouteTier) (candidates : List ForwardCandidate) (hhops : h.task.forwardingHops < 1)
      (hp : h.phase = .routing ∨ candidates ≠ [] ∧ ∃ exhausted, h.phase = .working tier candidates exhausted) :
      Moved s h { h with phase := .forwarding candidates, call := some ⟨tier, candidates, []⟩ }
  | finish (result : TaskResult) (hp : h.phase.isBusy = true) : Moved s h (h.goTo (.finished result))
  | overflow (reason : RejectionReason) (hp : h.phase = .forwarding []) :
      Moved s h (h.goTo (.working .tier4Overflow [] (some reason)))
  | ended (m : Nat) (rest : List ForwardCandidate) (e : SendResult) (hp : h.phase = .sent m rest) : Moved s h (h.sendEnd rest e)
  | exit (result : TaskResult) (hp : h.phase = .finished result) (hc : h.caller = none) : Moved s h (h.goTo (.done result))
  | abort (hp : h.phase.isBusy = true) (hc : h.caller = none) : Moved s h (h.goTo .aborted)

/-- The calls a handler makes of its cache, and where it stands after them. -/
inductive Called (s : Cluster) (h : Handler) (c : Nat) : RenderCacheAction RenderCacheKey → HandlerPhase → Prop where
  | shed (rc : RenderCaller RenderCacheKey) (f : Nat) (result : TaskResult) (hp : h.phase = .acquiring)
      (hc : s.callerOf h = some rc) (hr : rc.phase = .leading f) : Called s h c (.dropLeader c) (.done result)
  | giveUp (result : TaskResult) (hp : h.phase = .acquiring) : Called s h c (.giveUp c) (.done result)
  | cancel (hp : h.phase = .acquiring) : Called s h c (.giveUp c) .aborted
  | insert (result : TaskResult) (hp : h.phase = .finished result) : Called s h c (.insertFromOutcome c result) (.leaving result)
  | leave (result : TaskResult) (hp : h.phase = .leaving result) : Called s h c (.dropLeader c) (.done result)
  | abort (hp : h.phase.isBusy = true) : Called s h c (.dropLeader c) .aborted

namespace Cluster

variable {S : ClusterSpec} {s s' : Cluster}

/-- A task is entered on a node: with a call of the cache, or without. -/
inductive Entered (s : Cluster) (n : NodeId) (task : InternalTask) (entry : Entry) : Cluster → Prop where
  | plain (phase : HandlerPhase)
      (hp : (∃ result, phase = .done result) ∨ (phase = .routing ∧ entry = .incoming) ∨ ∃ tier, phase = .working tier [] none) :
      Entered s n task entry { s with handlers := s.handlers ++ [⟨n, task, entry, none, phase, none⟩] }
  | cached :
      Entered s n task entry
        { s.setCache n { s.caches n with
            callers := (s.caches n).callers ++
              [⟨.fromTask task, task.authorization.map RenderAuthorization.readableNamespaces, .lookup none⟩] } with
          handlers := s.handlers ++ [⟨n, task, entry, some (s.caches n).callers.length, .acquiring, none⟩] }

/-- One step of the cluster, by its effect. -/
inductive Stepped (S : ClusterSpec) (s : Cluster) : ClusterAction → Cluster → Prop where
  | cache (n : NodeId) (act : RenderCacheAction RenderCacheKey) (cache : RenderOutputCache RenderCacheKey)
      (hin : act.isInner = true) (hs : (s.caches n).step act = some cache) : Stepped S s (.cache n act) (s.setCache n cache)
  | move (a : ClusterAction) (i : Nat) (h h' : Handler) (hi : s.handlers[i]? = some h) (hm : Moved s h h') :
      Stepped S s a (s.setHandler i h')
  | call (a : ClusterAction) (i : Nat) (h : Handler) (c : Nat) (act : RenderCacheAction RenderCacheKey)
      (cache : RenderOutputCache RenderCacheKey) (phase : HandlerPhase) (hi : s.handlers[i]? = some h) (hc : h.caller = some c)
      (hs : (s.caches h.node).step act = some cache) (hcall : Called s h c act phase) :
      Stepped S s a ((s.setCache h.node cache).setHandler i (h.goTo phase))
  | send (i : Nat) (now : Instant) (h : Handler) (call : ForwardCall) (candidate : ForwardCandidate)
      (rest : List ForwardCandidate) (request : ForwardRequest) (hi : s.handlers[i]? = some h)
      (hp : h.phase = .forwarding (candidate :: rest)) (hc : h.call = some call)
      (hr : request = h.forwardRequest now (S.dispatcher h.node).costs.hopLatency call candidate)
      (hb : forwardBudgetTooSmall h.task now = false) :
      Stepped S s (.send i now) { s.setHandler i { h with
          phase := .sent s.messages.length rest
          call := some { call with attempts := call.attempts ++ [⟨candidate, request, now, none⟩] } } with
        messages := s.messages ++ [⟨i, candidate.nodeId, request, none⟩] }
  | arrive (n : NodeId) (task : InternalTask) (now : Instant) (t : Cluster) (he : Entered s n task .incoming t) :
      Stepped S s (.handleIncoming n task now) t
  | deliver (a : ClusterAction) (m : Nat) (now : Instant) (delayMs : Nat) (msg : Message) (task : InternalTask) (t : Cluster)
      (hm : s.messages[m]? = some msg) (hd : msg.delivered = none)
      (ht : task = WireTask.intoInternal
        { msg.request.task with remainingBudgetMs := msg.request.task.remainingBudgetMs - delayMs } now)
      (he : Entered { s with messages := s.messages.set m { msg with delivered := some s.handlers.length } } msg.target task
        (.forwarded m msg.request.routeTier) t) : Stepped S s a t

theorem accept_entered (S : ClusterSpec) (s : Cluster) (n : NodeId) (task : InternalTask) (entry : Entry) (now : Instant)
    (can : Bool) : Entered s n task entry (s.accept S n task entry now can) := by
  unfold accept
  dsimp only
  split
  · exact .plain _ (Or.inl ⟨_, rfl⟩)
  · split
    · exact .cached
    · split
      · exact .plain .routing (Or.inr (Or.inl ⟨rfl, rfl⟩))
      · split
        · exact .plain (.working _ [] none) (Or.inr (Or.inr ⟨_, rfl⟩))
        · exact .plain (.done _) (Or.inl ⟨_, rfl⟩)

variable {h : Handler}

theorem call_stepped {a : ClusterAction} {i : Nat} {act : Nat → RenderCacheAction RenderCacheKey}
    {phase : HandlerPhase} (hi : s.handlers[i]? = some h) (hcall : ∀ c, Called s h c (act c) phase)
    (hs : s.call i h act phase = some s') : Stepped S s a s' := by
  unfold call at hs
  split at hs
  · rename_i c hc
    obtain ⟨cache, hcache, rfl⟩ := Option.map_eq_some_iff.mp hs
    exact .call a i h c _ cache phase hi hc hcache (hcall c)
  · cases hs

/-- The start of the failover is entered with a free hop, or the task is rejected. -/
theorem startForward_moved {now : Instant} {tier : RouteTier} {candidates : List ForwardCandidate}
    (hp : h.phase = .routing ∨ candidates ≠ [] ∧ ∃ exhausted, h.phase = .working tier candidates exhausted) :
    Moved s h (h.startForward now tier candidates) := by
  have hbusy : h.phase.isBusy = true := by
    rcases hp with hp | ⟨_, _, hp⟩
    · rw [hp]
      rfl
    · rw [hp]
      rfl
  unfold Handler.startForward
  split
  · exact .finish _ hbusy
  · rename_i hhops
    split
    · exact .finish _ hbusy
    · exact .start tier candidates (UInt8.not_le.mp hhops) hp

theorem route_moved (hp : h.phase = .routing) (now : Instant) (view : Option ClusterView) (accepts : Bool)
    (workers : List WorkerView) (can : Bool) : Moved s h (h.route S now view accepts workers can) := by
  have hbusy : h.phase.isBusy = true := by
    rw [hp]
    rfl
  unfold Handler.route
  split
  · exact .finish _ hbusy
  · split
    · exact .finish _ hbusy
    · split
      · split
        · exact .work _ _ hp
        · split
          · exact .finish _ hbusy
          · exact startForward_moved (Or.inl hp)
      · exact startForward_moved (Or.inl hp)
      · exact .finish _ hbusy

theorem localEnd_moved {tier : RouteTier} {fallback : List ForwardCandidate} {exhausted : Option RejectionReason}
    (hp : h.phase = .working tier fallback exhausted) (now : Instant) (result : LocalResult) :
    Moved s h (h.localEnd now tier fallback exhausted result) := by
  have hbusy : h.phase.isBusy = true := by
    rw [hp]
    rfl
  cases result with
  | outcome result => exact .finish _ hbusy
  | preparationError error kind => exact .finish _ hbusy
  | queueDisconnected => exact .finish _ hbusy
  | renderAdmissionClosed =>
    unfold Handler.localEnd
    dsimp only
    split
    · exact .finish _ hbusy
    · rename_i hne
      exact startForward_moved (Or.inr ⟨hne, exhausted, hp⟩)
  | queueFull =>
    unfold Handler.localEnd
    dsimp only
    split
    · exact .finish _ hbusy
    · rename_i hne
      exact startForward_moved (Or.inr ⟨hne, exhausted, hp⟩)

theorem exhaust_moved (hp : h.phase = .forwarding []) (now : Instant) (can : Bool) :
    Moved s h (h.exhaust now can) := by
  have hbusy : h.phase.isBusy = true := by
    rw [hp]
    rfl
  unfold Handler.exhaust
  dsimp only
  split
  · split
    · exact .finish _ hbusy
    · exact .overflow _ hp
  · exact .finish _ hbusy

theorem callerOf_phase {ph : CallerPhase} (hc : (s.callerOf h).map RenderCaller.phase = some ph) :
    ∃ rc, s.callerOf h = some rc ∧ rc.phase = ph := Option.map_eq_some_iff.mp hc

theorem step_stepped {a : ClusterAction} (h : step S s a = some s') : Stepped S s a s' := by
  cases a with
  | handleIncoming n task now =>
    cases h
    exact .arrive n task now _ (accept_entered S s n task .incoming now true)
  | cache n act =>
    simp only [step] at h
    split at h
    · rename_i hin
      obtain ⟨cache, hcache, rfl⟩ := Option.map_eq_some_iff.mp h
      exact .cache n act cache hin hcache
    · cases h
  | acquired i can =>
    simp only [step] at h
    split at h
    · rename_i hd hi
      split at h
      · rename_i entry hp hc
        obtain ⟨rc, hrc, hph⟩ := callerOf_phase hc
        cases h
        exact .move _ i hd _ hi (.hit rc entry _ hp hrc hph)
      · rename_i f hp hc
        obtain ⟨rc, hrc, hph⟩ := callerOf_phase hc
        split at h
        · rename_i he
          cases h
          exact .move _ i hd _ hi (.lead rc f hp hrc hph he)
        · rename_i m tier he
          split at h
          · cases h
            exact .move _ i hd _ hi (.take rc f m tier hp hrc hph he)
          · exact call_stepped hi (fun c => .shed rc f _ hp hrc hph) h
      · cases h
    · cases h
  | giveUp i now =>
    simp only [step] at h
    split at h
    · rename_i hd hi
      split at h
      · rename_i hp
        split at h
        · exact call_stepped hi (fun c => .giveUp _ hp) h
        · cases h
      · cases h
    · cases h
  | route i now view accepts workers can =>
    simp only [step] at h
    split at h
    · rename_i hd hi
      split at h
      · rename_i hp
        cases h
        exact .move _ i hd _ hi (route_moved hp now view accepts workers can)
      · cases h
    · cases h
  | localEnd i now result =>
    simp only [step] at h
    split at h
    · rename_i hd hi
      split at h
      · rename_i tier fallback exhausted hp
        cases h
        exact .move _ i hd _ hi (localEnd_moved hp now result)
      · cases h
    · cases h
  | send i now =>
    simp only [step] at h
    split at h
    · rename_i hd hi
      split at h
      · rename_i candidate rest call hp hc
        split at h
        · cases h
          exact .move _ i hd _ hi (.finish _ (by rw [hp]; rfl))
        · rename_i hb
          cases h
          exact .send i now hd call candidate rest _ hi hp hc rfl (Bool.eq_false_iff.mpr hb)
      · cases h
    · cases h
  | exhaust i now can =>
    simp only [step] at h
    split at h
    · rename_i hd hi
      split at h
      · rename_i hp
        cases h
        exact .move _ i hd _ hi (exhaust_moved hp now can)
      · cases h
    · cases h
  | deliver m now delayMs accepts can =>
    simp only [step] at h
    split at h
    · rename_i msg hm
      split at h
      · rename_i hd
        split at h
        · cases h
          exact .deliver _ m now delayMs msg _ _ hm hd rfl (accept_entered S _ _ _ _ now can)
        · cases h
          exact .deliver _ m now delayMs msg _ _ hm hd rfl (.plain (.done _) (Or.inl ⟨_, rfl⟩))
      · cases h
    · cases h
  | sendEnd i ended =>
    simp only [step] at h
    split at h
    · rename_i hd hi
      split at h
      · rename_i m rest hp
        split at h
        · cases h
          exact .move _ i hd _ hi (.ended m rest _ hp)
        · cases h
          exact .move _ i hd _ hi (.ended m rest _ hp)
        · cases h
          exact .move _ i hd _ hi (.ended m rest _ hp)
        · split at h
          · cases h
            exact .move _ i hd _ hi (.ended m rest _ hp)
          · cases h
      · cases h
    · cases h
  | insert i =>
    simp only [step] at h
    split at h
    · rename_i hd hi
      split at h
      · rename_i result hp
        exact call_stepped hi (fun c => .insert result hp) h
      · cases h
    · cases h
  | leave i =>
    simp only [step] at h
    split at h
    · rename_i hd hi
      split at h
      · rename_i result hp hc
        cases h
        exact .move _ i hd _ hi (.exit result hp hc)
      · rename_i result _ hp hc
        exact call_stepped hi (fun c => .leave result hp) h
      · cases h
    · cases h
  | abort i =>
    simp only [step] at h
    split at h
    · rename_i hd hi
      have hbusy (hp : hd.phase.isBusy = true) (hnone : hd.caller = none → some (s.setHandler i (hd.goTo .aborted)) = some s')
          (hsome : ∀ c, hd.caller = some c → s.call i hd .dropLeader .aborted = some s') : Stepped S s (.abort i) s' := by
        cases hc : hd.caller with
        | none =>
          cases hnone hc
          exact .move _ i hd _ hi (.abort hp hc)
        | some c => exact call_stepped hi (fun c => .abort hp) (hsome c hc)
      split at h
      · rename_i hp
        exact call_stepped hi (fun c => .cancel hp) h
      · rename_i hp
        exact hbusy (by rw [hp]; rfl) (fun hc => by simpa only [hc] using h) fun c hc => by simpa only [hc] using h
      · rename_i hp
        exact hbusy (by rw [hp]; rfl) (fun hc => by simpa only [hc] using h) fun c hc => by simpa only [hc] using h
      · rename_i hp
        exact hbusy (by rw [hp]; rfl) (fun hc => by simpa only [hc] using h) fun c hc => by simpa only [hc] using h
      · rename_i hp
        exact hbusy (by rw [hp]; rfl) (fun hc => by simpa only [hc] using h) fun c hc => by simpa only [hc] using h
      · cases h
    · cases h

end Cluster

end Biei
