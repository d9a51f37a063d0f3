import Biei.Lemmas.ForwardResponse
import Biei.Lemmas.Forwarding
import Biei.Theorems.Dispatcher

/-! # One hop -/

namespace Biei

namespace Cluster

variable {S : ClusterSpec} {s s' : Cluster}

/-! ## The log of sends -/

/-- The attempts a handler has made. -/
def attemptsOf (h : Handler) : List Attempt := h.call.elim [] ForwardCall.attempts

/-- What a handler has sent, in order: to whom, and what. -/
def sentBy (s : Cluster) (i : Nat) : List (Nat × NodeId × ForwardRequest) :=
  (s.messages.map fun msg => (msg.origin, msg.target, msg.request)).filter fun e => decide (e.1 = i)

/-- What an attempt of a handler is in the log. -/
def logged (i : Nat) (a : Attempt) : Nat × NodeId × ForwardRequest := (i, a.candidate.nodeId, a.request)

/-- The messages of every handler are its attempts. -/
structure SendLog (s : Cluster) : Prop where
  origins : ∀ msg ∈ s.messages, msg.origin < s.handlers.length
  log : ∀ (i : Nat) h, s.handlers[i]? = some h → s.sentBy i = (attemptsOf h).map (logged i)

theorem SendLog.new : SendLog new where
  origins := by simp [Cluster.new]
  log := by simp [Cluster.new]

/-- A handler that moves keeps its attempts, but for their ends. -/
theorem moved_logged {h h' : Handler} (hok : HandlerOk S h) (hm : Moved s h h') (i : Nat) :
    (attemptsOf h').map (logged i) = (attemptsOf h).map (logged i) := by
  unfold attemptsOf
  cases hm with
  | start tier candidates hhops hp =>
    rw [(hok.start_fresh hp).1]
    rfl
  | ended m rest e hp =>
    rw [sendEnd_call]
    cases hc : h.call with
    | none => rfl
    | some call =>
      have hphase := (hok.call call hc).phase
      rw [hp] at hphase
      obtain ⟨init, a, hattempts, hended⟩ := endAttempt_attempts hphase.2 e
      have hlogged : logged i { a with ended := some e } = logged i a := rfl
      simp only [Option.map_some, Option.elim_some, hattempts, hended, List.map_append, List.map_cons, List.map_nil, hlogged]
  | _ => rfl

/-- A handler changes in place, and its attempts do not. -/
theorem SendLog.update (hlog : SendLog s) {i : Nat} {h h' : Handler} (hi : s.handlers[i]? = some h)
    (heq : (attemptsOf h').map (logged i) = (attemptsOf h).map (logged i))
    (caches : NodeId → RenderOutputCache RenderCacheKey) : SendLog { s.setHandler i h' with caches := caches } := by
  refine ⟨?_, ?_⟩
  · intro msg hmsg
    have hlt := hlog.origins msg hmsg
    simpa [setHandler] using hlt
  · intro j d hd
    rcases setHandler_get hi hd with ⟨rfl, rfl⟩ | ⟨-, hd⟩
    · rw [heq]
      exact hlog.log j h hi
    · exact hlog.log j d hd

/-- A task is entered: nothing was sent under its number. -/
theorem SendLog.enter (hlog : SendLog s) {n : NodeId} {task : InternalTask} {entry : Entry} {t : Cluster} (S : ClusterSpec)
    (he : Entered s n task entry t) : SendLog t := by
  obtain ⟨h, hhandlers, hmessages, -, -, -, hcall, -⟩ := he.handlers (S := S)
  refine ⟨?_, ?_⟩
  · intro msg hmsg
    rw [hmessages] at hmsg
    rw [hhandlers, List.length_append]
    exact Nat.lt_add_right _ (hlog.origins msg hmsg)
  · intro j d hd
    rw [hhandlers] at hd
    have hsent : t.sentBy j = s.sentBy j := by
      unfold sentBy
      rw [hmessages]
    rw [hsent]
    rcases getElem?_concat_cases hd with ⟨rfl, rfl⟩ | hd
    · have hnone : s.sentBy s.handlers.length = [] := by
        unfold sentBy
        rw [List.filter_eq_nil_iff]
        intro e hmem
        obtain ⟨msg, hmsg, rfl⟩ := List.mem_map.mp hmem
        have hlt := hlog.origins msg hmsg
        simpa using Nat.ne_of_lt hlt
      rw [hnone, attemptsOf, hcall]
      rfl
    · exact hlog.log j d hd

theorem SendLog.step {a : ClusterAction} (hlog : SendLog s) (hinv : ForwardInv S s) (hs : Stepped S s a s') : SendLog s' := by
  cases hs with
  | cache n act cache hin hstep => exact ⟨hlog.origins, hlog.log⟩
  | move _ i h h' hi hm => exact hlog.update hi (moved_logged (hinv.handlers i h hi) hm i) s.caches
  | call _ i h c act cache phase hi hc hstep hcall =>
    have heq : (attemptsOf (h.goTo phase)).map (logged i) = (attemptsOf h).map (logged i) := rfl
    exact hlog.update hi heq _
  | send i now h call candidate rest request hi hp hc hr _ =>
    refine ⟨?_, ?_⟩
    · intro msg hmsg
      have hlen : ∀ h' : Handler, (s.setHandler i h').handlers.length = s.handlers.length := fun h' => List.length_set
      rw [hlen]
      rcases List.mem_append.mp hmsg with hmsg | hmsg
      · exact hlog.origins msg hmsg
      · rw [List.mem_singleton.mp hmsg]
        exact (List.getElem?_eq_some_iff.mp hi).1
    · intro j d hd
      have hsent : ∀ t : Cluster, t.messages = s.messages ++ [⟨i, candidate.nodeId, request, none⟩] →
          t.sentBy j = s.sentBy j ++ if i = j then [(i, candidate.nodeId, request)] else [] := by
        intro t ht
        unfold sentBy
        rw [ht, List.map_append, List.filter_append]
        congr 1
        by_cases hij : i = j
        · simp [hij]
        · simp [hij]
      rw [hsent _ rfl]
      rcases setHandler_get hi hd with ⟨rfl, rfl⟩ | ⟨hji, hd⟩
      · rw [if_pos rfl, hlog.log j h hi]
        simp [attemptsOf, hc, logged]
      · rw [if_neg (Ne.symm hji), List.append_nil]
        exact hlog.log j d hd
  | arrive n task now t he => exact hlog.enter S he
  | deliver _ m now delayMs msg task t hm hd ht he =>
    -- marking a message as delivered changes nothing of what was sent
    have hmap : (s.messages.set m { msg with delivered := some s.handlers.length }).map
        (fun msg => (msg.origin, msg.target, msg.request)) = s.messages.map fun msg => (msg.origin, msg.target, msg.request) := by
      refine List.ext_getElem? ?_
      intro k
      rw [List.getElem?_map, List.getElem?_map]
      by_cases hkm : k = m
      · subst hkm
        rw [getElem?_set_of_some hm, hm]
        rfl
      · rw [List.getElem?_set_ne (Ne.symm hkm)]
    have hmarked : SendLog { s with messages := s.messages.set m { msg with delivered := some s.handlers.length } } := by
      refine ⟨?_, ?_⟩
      · intro msg' hmsg'
        rcases List.mem_or_eq_of_mem_set hmsg' with hmsg' | rfl
        · exact hlog.origins msg' hmsg'
        · exact hlog.origins msg (List.mem_of_getElem? hm)
      · intro j d hd
        unfold sentBy
        rw [hmap]
        exact hlog.log j d hd
    exact hmarked.enter S he

theorem reachable_forwardInv (h : (machine S).Reachable s) : ForwardInv S s ∧ SendLog s := by
  refine h.invariant (I := fun s => ForwardInv S s ∧ SendLog s) ⟨ForwardInv.new, SendLog.new⟩ ?_
  intro s a s' hinv hs
  have hstepped : Stepped S s a s' := step_stepped hs
  exact ⟨hinv.1.step hstepped, hinv.2.step hinv.1 hstepped⟩

/-! ## The protocol -/

/-- The forwarding protocol, seen in one state: what has been sent and handled so far. -/
structure OneHop (S : ClusterSpec) (s : Cluster) : Prop where
  /-- A request that reached `handle_forwarded` is a message that a peer sent, within the limit of hops. -/
  handled : ∀ (i : Nat) h m tier, s.handlers[i]? = some h → h.entry = .forwarded m tier →
    ∃ msg, s.messages[m]? = some msg ∧ msg.delivered = some i ∧ msg.request.task.forwardingHops ≤ maxForwardingHops
  /-- A node never sends on what it handles for a peer. -/
  never : ∀ (i : Nat) h m tier, s.handlers[i]? = some h → h.entry = .forwarded m tier → s.sentBy i = []
  /-- What a task sends goes to its candidates in their order, one message each. -/
  inOrder : ∀ (i : Nat) h, s.handlers[i]? = some h → s.sentBy i = (attemptsOf h).map (logged i) ∧
    ∀ call, h.call = some call → call.attempts.map Attempt.candidate <+: call.candidates
  /-- An attempt that did not end retryably is the last. -/
  last : ∀ (i : Nat) h call (k : Nat) a e, s.handlers[i]? = some h → h.call = some call → call.attempts[k]? = some a →
    a.ended = some e → e.isRetryable = false → k + 1 = call.attempts.length
  /-- The next attempt waits for the end of the one before. -/
  ended : ∀ (i : Nat) h call (k : Nat) a, s.handlers[i]? = some h → h.call = some call → call.attempts[k]? = some a →
    k + 1 < call.attempts.length → ∃ e, a.ended = some e ∧ e.isRetryable = true
  /-- Every attempt carries the task, with what is left of its deadline at the time of the send. -/
  task : ∀ (i : Nat) h call a, s.handlers[i]? = some h → h.call = some call → a ∈ call.attempts →
    a.request.task = h.task.toForwardWire a.sentAt (S.dispatcher h.node).costs.hopLatency
  /-- So two attempts differ in the budget only. -/
  content : ∀ (i : Nat) h call a b, s.handlers[i]? = some h → h.call = some call → a ∈ call.attempts → b ∈ call.attempts →
    a.request.task.content = b.request.task.content

/-- In every run of a cluster, whatever the views, the failures and the order of the answers. -/
theorem one_hop_forwarding (S : ClusterSpec) (s : Cluster) (h : (machine S).Reachable s) : OneHop S s := by
  obtain ⟨hinv, hlog⟩ := reachable_forwardInv h
  have htask : ∀ (i : Nat) h call a, s.handlers[i]? = some h → h.call = some call → a ∈ call.attempts →
      a.request.task = h.task.toForwardWire a.sentAt (S.dispatcher h.node).costs.hopLatency := by
    intro i h call a hi hc ha
    rw [((hinv.handlers i h hi).call call hc).requests a ha]
    rfl
  have hended : ∀ (i : Nat) h call (k : Nat) a, s.handlers[i]? = some h → h.call = some call → call.attempts[k]? = some a →
      k + 1 < call.attempts.length → a.Retried := by
    intro i h call k a hi hc hk hlt
    refine ((hinv.handlers i h hi).call call hc).retried a ?_
    rw [List.dropLast_eq_take]
    refine List.mem_of_getElem? (i := k) ?_
    rw [List.getElem?_take_of_lt (by omega)]
    exact hk
  refine ⟨?_, ?_, ?_, ?_, hended, htask, ?_⟩
  · intro i h m tier hi he
    obtain ⟨msg, hm, hdel⟩ := hinv.forwarded i h m tier hi he
    obtain ⟨d, call, a, hd, hc, ha, hreq, -⟩ := hinv.messages m msg hm
    have hhops := ((hinv.handlers msg.origin d hd).call call hc).hops
    refine ⟨msg, hm, hdel, ?_⟩
    rw [← hreq, htask msg.origin d call a hd hc ha, InternalTask.forwardingHops_toForwardWire hhops]
    exact UInt8.le_refl 1
  · intro i h m tier hi he
    have hnone : h.call = none := by
      cases hc : h.call with
      | none => rfl
      | some call => exact absurd (((hinv.handlers i h hi).call call hc).entry.symm.trans he) nofun
    rw [hlog.log i h hi, attemptsOf, hnone]
    rfl
  · intro i h hi
    exact ⟨hlog.log i h hi, fun call hc => ((hinv.handlers i h hi).call call hc).ordered⟩
  · intro i h call k a e hi hc hk hend hretry
    have hlt : k < call.attempts.length := (List.getElem?_eq_some_iff.mp hk).1
    by_contra hne
    obtain ⟨e', hend', hretry'⟩ := hended i h call k a hi hc hk (by omega)
    cases hend.symm.trans hend'
    rw [hretry] at hretry'
    cases hretry'
  · intro i h call a b hi hc ha hb
    rw [htask i h call a hi hc ha, htask i h call b hi hc hb]
    exact InternalTask.content_toForwardWire _ _ _ _ _

/-- A cluster in which every node has a cache and decides as `a` does, each for itself. -/
def uniformSpec : ClusterSpec where
  dispatcher := fun n => .new n ⟨.powerOfTwo, false, 1⟩ Dispatcher.freeCosts 1 4 0
  rng := Dispatcher.fixedRng
  cacheEnabled := fun _ => true
  self := fun _ => rfl

/-- A task arrives at `a`, which is full; the send to `b` fails, and `c` takes the task. -/
def failoverRun : List ClusterAction :=
  [.handleIncoming ⟨"a"⟩ Dispatcher.tileTask 0, .cache ⟨"a"⟩ (.cacheGet 0), .cache ⟨"a"⟩ (.lockFlights 0), .acquired 0 true,
    .route 0 0 (some Dispatcher.warmCluster) true [⟨0, none, 4⟩] true, .send 0 0, .sendEnd 0 .retryable, .send 0 1000000,
    .deliver 1 0 0 true true]

theorem one_hop_forwarding_failoverRun :
    ∃ s, (machine uniformSpec).run new failoverRun = some s ∧
      s.messages.map (fun msg => (msg.target, msg.delivered)) = [(⟨"b"⟩, none), (⟨"c"⟩, some 1)] ∧ OneHop uniformSpec s := by
  refine ⟨_, rfl, rfl, ?_⟩
  exact one_hop_forwarding uniformSpec _
    (Machine.reachable_of_run (show (machine uniformSpec).run _ failoverRun = some _ from rfl))

end Cluster

/-! ## What one node sends another receives -/

/-- Every outcome a node comes to has its times in order. -/
theorem Produced.ordered {fromSlice : Bytes → Except String OutcomeHeader} {outcome : TaskOutcome}
    (h : Produced fromSlice outcome) :
    outcome.Ordered := by
  cases h with
  | worker task hadSource nodeId workerId routeTier admittedAtOverflow now stages clock =>
    intro info output hresult
    match stages with
    | .ok success =>
      obtain ⟨rfl, -⟩ := TaskOutcome.Result.completed.inj hresult
      exact ⟨Or.inl success.clock.1, success.clock.2, clock success rfl⟩
    | .error (.deadlineExceeded stage) => cases hresult
    | .error (.rendererError stage err) => cases hresult
    | .error (.permitClosed stage) => cases hresult
  | cacheHit nodeId task output now =>
    intro info output' hresult
    obtain ⟨rfl, -⟩ := TaskOutcome.Result.completed.inj hresult
    exact ⟨Or.inr rfl, Nat.le_refl _, Nat.le_refl _⟩
  | reject task reason =>
    intro info output hresult
    cases hresult
  | fail task error kind =>
    intro info output hresult
    cases hresult
  | forwarded body header image arrivedAt receivedAt output received =>
    -- the decoder has checked the times of what it accepted
    obtain ⟨r, hr, htimeline⟩ := decodeResponseBytes_total fromSlice body
    cases hr.symm.trans received
    exact ordered_intoTaskOutcome (htimeline header image rfl) arrivedAt receivedAt output

/-- The header is encoded and decoded with any image after it; it is not encoded only when its JSON is too long for a `u32`. -/
def Decodes (fromSlice : Bytes → Except String OutcomeHeader) (header : OutcomeHeader) : Prop :=
  (∀ lead, encodeResponseHeader header = .ok lead →
      ∀ image, decodeResponseBytes fromSlice (lead ++ image) = some (.ok (header, image))) ∧
    ∀ err, encodeResponseHeader header = .error err → err = .tooLarge ∧ 2 ^ 32 ≤ header.toVec.length

theorem encodeResponseHeader_cases (header : OutcomeHeader) :
    (header.toVec.length < 2 ^ 32 ∧
        encodeResponseHeader header = .ok (beBytes headerPrefixBytes header.toVec.length ++ header.toVec)) ∨
      (2 ^ 32 ≤ header.toVec.length ∧ encodeResponseHeader header = .error .tooLarge) := by
  rcases Nat.lt_or_ge header.toVec.length (2 ^ 32) with hlen | hlen
  · exact Or.inl ⟨hlen, if_pos hlen⟩
  · exact Or.inr ⟨hlen, if_neg (Nat.not_lt_of_le hlen)⟩

theorem decodes_of_timelineOk {fromSlice : Bytes → Except String OutcomeHeader}
    (hserde : ∀ header, fromSlice (OutcomeHeader.toVec header) = .ok header) {header : OutcomeHeader}
    (h : header.result.timelineOk = true) : Decodes fromSlice header := by
  rcases encodeResponseHeader_cases header with ⟨hlen, hencode⟩ | ⟨hlen, hencode⟩
  · refine ⟨fun lead hlead image => ?_, fun err herr => ?_⟩
    · rw [← Except.ok.inj (hencode.symm.trans hlead)]
      exact decodeResponseBytes_frame (hserde header) h hlen image
    · cases hencode.symm.trans herr
  · refine ⟨fun lead hlead => ?_, fun err herr => ?_⟩
    · cases hencode.symm.trans hlead
    · exact ⟨(Except.error.inj (hencode.symm.trans herr)).symm, hlen⟩

/-- The codec of forward responses: what is encoded is decoded, every body is decoded to a result or an error, and every outcome
of a node becomes a header that is decoded. -/
theorem forward_response_codec {fromSlice : Bytes → Except String OutcomeHeader}
    (hserde : ∀ header, fromSlice (OutcomeHeader.toVec header) = .ok header) :
    (∀ header : OutcomeHeader, header.result.timelineOk = true → Decodes fromSlice header) ∧
      (∀ body, (∃ r, decodeResponsePrefix fromSlice body = some r) ∧ ∃ r, decodeResponseBytes fromSlice body = some r) ∧
      ∀ outcome styleId, Produced fromSlice outcome →
        (OutcomeHeader.fromTaskOutcome outcome styleId).1.result.timelineOk = true ∧
          Decodes fromSlice (OutcomeHeader.fromTaskOutcome outcome styleId).1 := by
  refine ⟨fun header => decodes_of_timelineOk hserde, fun body => ⟨?_, ?_⟩, fun outcome styleId hproduced => ?_⟩
  · obtain ⟨r, hr, -⟩ := decodeResponsePrefix_total fromSlice body
    exact ⟨r, hr⟩
  · obtain ⟨r, hr, -⟩ := decodeResponseBytes_total fromSlice body
    exact ⟨r, hr⟩
  · have htimeline := timelineOk_fromTaskOutcome hproduced.ordered styleId
    exact ⟨htimeline, decodes_of_timelineOk hserde htimeline⟩

open Classical in
/-- A reader of exactly the headers that are written. -/
noncomputable def readHeader (bytes : Bytes) : Except String OutcomeHeader :=
  if h : ∃ header, OutcomeHeader.toVec header = bytes then .ok h.choose else .error "expected a header"

theorem readHeader_toVec (header : OutcomeHeader) : readHeader header.toVec = .ok header := by
  have h : ∃ header', OutcomeHeader.toVec header' = header.toVec := ⟨header, rfl⟩
  unfold readHeader
  rw [dif_pos h, OutcomeHeader.toVec_injective h.choose_spec]

/-- A tile that was in the cache. -/
def cachedTile : TaskOutcome := cacheHitOutcome ⟨"a"⟩ Dispatcher.tileTask ⟨[1, 2, 3], .png⟩ 2500000

theorem forward_response_codec_cachedTile :
    (OutcomeHeader.fromTaskOutcome cachedTile ⟨"style"⟩).1.result.timelineOk = true ∧
      Decodes readHeader (OutcomeHeader.fromTaskOutcome cachedTile ⟨"style"⟩).1 :=
  (forward_response_codec readHeader_toVec).2.2 cachedTile ⟨"style"⟩ (.cacheHit ..)

end Biei
