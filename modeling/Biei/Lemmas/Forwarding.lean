import Biei.Lemmas.NodeFlights

/-!
# Attempts and messages

`HandlerOk` is what the failover loop keeps about one handler; `ForwardInv` adds where the messages come from and who handles
them.
-/

namespace Biei

/-- The attempt ended, and the loop goes on after it. -/
def Attempt.Retried (a : Attempt) : Prop := ∃ e, a.ended = some e ∧ e.isRetryable = true

/-- What a phase says of the call of `forward_with_failover` that was made. -/
def CallPhaseOk (call : ForwardCall) : HandlerPhase → Prop
  | .acquiring => False
  | .routing => False
  | .working _ fallback _ => fallback = []
  | .forwarding rest => call.attempts.map Attempt.candidate ++ rest = call.candidates ∧ ∀ a ∈ call.attempts, a.Retried
  | .sent _ rest => call.attempts.map Attempt.candidate ++ rest = call.candidates ∧ call.attempts ≠ []
  | .finished _ => True
  | .leaving _ => True
  | .done _ => True
  | .aborted => True

/-- A call of `forward_with_failover`, at any time since it was made. -/
structure CallOk (S : ClusterSpec) (h : Handler) (call : ForwardCall) : Prop where
  hops : h.task.forwardingHops < 1
  entry : h.entry = .incoming
  ordered : call.attempts.map Attempt.candidate <+: call.candidates
  requests : ∀ a ∈ call.attempts,
    a.request = h.forwardRequest a.sentAt (S.dispatcher h.node).costs.hopLatency call a.candidate
  retried : ∀ a ∈ call.attempts.dropLast, a.Retried
  phase : CallPhaseOk call h.phase

structure HandlerOk (S : ClusterSpec) (h : Handler) : Prop where
  call : ∀ call, h.call = some call → CallOk S h call
  uncalled : h.call = none → (∀ rest, h.phase ≠ .forwarding rest) ∧ ∀ m rest, h.phase ≠ .sent m rest
  forwarded : ∀ m tier, h.entry = .forwarded m tier →
    h.phase ≠ .routing ∧ ∀ tier fallback exhausted, h.phase = .working tier fallback exhausted → fallback = []

section Handler

variable {S : ClusterSpec} {s : Cluster} {h h' : Handler}

/-- A handler that has done with its task, but for the cache. -/
def HandlerPhase.isQuiet : HandlerPhase → Bool
  | .finished _ => true
  | .leaving _ => true
  | .done _ => true
  | .aborted => true
  | _ => false

theorem HandlerOk.goTo_quiet (hok : HandlerOk S h) {phase : HandlerPhase} (hq : phase.isQuiet = true) :
    HandlerOk S (h.goTo phase) := by
  have hphase : phase ≠ .routing ∧ (∀ tier fallback exhausted, phase ≠ .working tier fallback exhausted) ∧
      (∀ rest, phase ≠ .forwarding rest) ∧ ∀ m rest, phase ≠ .sent m rest := by
    cases phase <;> simp [HandlerPhase.isQuiet] at hq ⊢
  refine ⟨?_, ?_, ?_⟩
  · intro call hcall
    have hc := hok.call call hcall
    refine ⟨hc.hops, hc.entry, hc.ordered, hc.requests, hc.retried, ?_⟩
    cases phase <;> first | exact trivial | cases hq
  · intro _
    exact ⟨hphase.2.2.1, hphase.2.2.2⟩
  · intro m tier _
    exact ⟨hphase.1, fun tier fallback exhausted hp => absurd hp (hphase.2.1 tier fallback exhausted)⟩

/-- Before the route is decided there was no call. -/
theorem HandlerOk.call_eq_none (hok : HandlerOk S h) (hp : h.phase = .acquiring ∨ h.phase = .routing) : h.call = none := by
  cases hcall : h.call with
  | none => rfl
  | some call =>
    have hphase := (hok.call call hcall).phase
    rcases hp with hp | hp
    · rw [hp] at hphase
      exact hphase.elim
    · rw [hp] at hphase
      exact hphase.elim

/-- A failover starts once, for a task of the public ingress. -/
theorem HandlerOk.start_fresh (hok : HandlerOk S h) {tier : RouteTier} {candidates : List ForwardCandidate}
    (hp : h.phase = .routing ∨ candidates ≠ [] ∧ ∃ exhausted, h.phase = .working tier candidates exhausted) :
    h.call = none ∧ h.entry = .incoming := by
  have hentry : h.entry = .incoming := by
    cases he : h.entry with
    | incoming => rfl
    | forwarded m t =>
      obtain ⟨hrouting, hworking⟩ := hok.forwarded m t he
      rcases hp with hp | ⟨hne, exhausted, hp⟩
      · exact absurd hp hrouting
      · exact absurd (hworking tier candidates exhausted hp) hne
  refine ⟨?_, hentry⟩
  rcases hp with hp | ⟨hne, exhausted, hp⟩
  · exact hok.call_eq_none (Or.inr hp)
  · cases hcall : h.call with
    | none => rfl
    | some call =>
      have hphase := (hok.call call hcall).phase
      rw [hp] at hphase
      exact absurd hphase hne

/-- The attempts after the last of them got its end. -/
theorem endAttempt_attempts {call : ForwardCall} (hne : call.attempts ≠ []) (e : SendResult) :
    ∃ init a, call.attempts = init ++ [a] ∧ (Handler.endAttempt call e).attempts = init ++ [{ a with ended := some e }] := by
  obtain ⟨init, a, heq⟩ := List.eq_nil_or_concat call.attempts |>.resolve_left hne
  rw [List.concat_eq_append] at heq
  refine ⟨init, a, heq, ?_⟩
  simp [Handler.endAttempt, heq]

theorem sendEnd_call (h : Handler) (rest : List ForwardCandidate) (e : SendResult) :
    (h.sendEnd rest e).call = h.call.map (Handler.endAttempt · e) := by
  unfold Handler.sendEnd
  dsimp only
  split
  · rfl
  · split
    · rfl
    · rfl

theorem HandlerOk.ended (hok : HandlerOk S h) {m : Nat} {rest : List ForwardCandidate} (hp : h.phase = .sent m rest)
    (e : SendResult) : HandlerOk S (h.sendEnd rest e) := by
  have hsame := Cluster.sendEnd_sameTask h rest e
  have hcall := sendEnd_call h rest e
  have hincoming : h.entry = .incoming := by
    cases hc : h.call with
    | none => exact absurd hp ((hok.uncalled hc).2 m rest)
    | some call => exact (hok.call call hc).entry
  refine ⟨?_, ?_, ?_⟩
  · intro call' hcall'
    rw [hcall] at hcall'
    obtain ⟨call, hc, rfl⟩ := Option.map_eq_some_iff.mp hcall'
    have hok' := hok.call call hc
    have hphase := hok'.phase
    rw [hp] at hphase
    obtain ⟨horder, hne⟩ := hphase
    obtain ⟨init, a, hattempts, hended⟩ := endAttempt_attempts hne e
    have hmap : (Handler.endAttempt call e).attempts.map Attempt.candidate = call.attempts.map Attempt.candidate := by
      rw [hended, hattempts]
      simp
    have hretried : ∀ b ∈ init, b.Retried := by
      intro b hb
      refine hok'.retried b ?_
      rw [hattempts, List.dropLast_concat]
      exact hb
    refine ⟨?_, ?_, ?_, ?_, ?_, ?_⟩
    · rw [hsame.task]
      exact hok'.hops
    · rw [hsame.entry]
      exact hok'.entry
    · rw [hmap]
      exact hok'.ordered
    · intro b hb
      have hrequest : ∀ x : Attempt, (h.sendEnd rest e).forwardRequest x.sentAt
          (S.dispatcher (h.sendEnd rest e).node).costs.hopLatency (Handler.endAttempt call e) x.candidate =
          h.forwardRequest x.sentAt (S.dispatcher h.node).costs.hopLatency call x.candidate := by
        intro x
        simp only [Handler.forwardRequest, hsame.node, hsame.task, Handler.endAttempt]
      rw [hrequest]
      rw [hended] at hb
      rcases List.mem_append.mp hb with hb | hb
      · exact hok'.requests b (by rw [hattempts]; exact List.mem_append_left _ hb)
      · rw [List.mem_singleton.mp hb]
        exact hok'.requests a (by rw [hattempts]; exact List.mem_append_right _ (List.mem_singleton_self a))
    · rw [hended, List.dropLast_concat]
      exact hretried
    · rcases Cluster.sendEnd_phase h rest e with ⟨hretry, hph⟩ | ⟨-, result, hph⟩
      · rw [hph]
        refine ⟨by rw [hmap]; exact horder, ?_⟩
        intro b hb
        rw [hended] at hb
        rcases List.mem_append.mp hb with hb | hb
        · exact hretried b hb
        · rw [List.mem_singleton.mp hb]
          exact ⟨e, rfl, hretry⟩
      · rw [hph]
        exact trivial
  · intro hnone
    rw [hcall, Option.map_eq_none_iff] at hnone
    exact absurd hp ((hok.uncalled hnone).2 m rest)
  · intro m' tier he
    rw [hsame.entry, hincoming] at he
    cases he

theorem HandlerOk.move (hok : HandlerOk S h) (hm : Moved s h h') : HandlerOk S h' := by
  cases hm with
  | hit rc entry result hp hc hr => exact hok.goTo_quiet rfl
  | lead rc f hp hc hr he =>
    have hnone := hok.call_eq_none (Or.inl hp)
    refine ⟨?_, fun _ => ⟨nofun, nofun⟩, ?_⟩
    · intro call hcall
      exact absurd (hnone.symm.trans hcall) nofun
    · intro m tier hentry
      exact absurd (he.symm.trans hentry) nofun
  | take rc f m tier hp hc hr he =>
    have hnone := hok.call_eq_none (Or.inl hp)
    refine ⟨?_, fun _ => ⟨nofun, nofun⟩, ?_⟩
    · intro call hcall
      exact absurd (hnone.symm.trans hcall) nofun
    · intro m' tier' _
      refine ⟨nofun, ?_⟩
      intro tier'' fallback exhausted hwork
      cases hwork
      rfl
  | work tier fallback hp =>
    have hnone := hok.call_eq_none (Or.inr hp)
    refine ⟨?_, fun _ => ⟨nofun, nofun⟩, ?_⟩
    · intro call hcall
      exact absurd (hnone.symm.trans hcall) nofun
    · intro m' tier' hentry
      exact absurd hp (hok.forwarded m' tier' hentry).1
  | start tier candidates hhops hp =>
    obtain ⟨-, hentry⟩ := hok.start_fresh hp
    refine ⟨?_, fun hnone => absurd hnone nofun, ?_⟩
    · intro call hcall
      cases hcall
      have hnil : ∀ (P : Attempt → Prop), ∀ a ∈ ([] : List Attempt), P a := fun P a ha => absurd ha List.not_mem_nil
      exact ⟨hhops, hentry, List.nil_prefix, hnil _, hnil _, rfl, hnil _⟩
    · intro m' tier' he
      exact absurd (hentry.symm.trans he) nofun
  | finish result hp => exact hok.goTo_quiet rfl
  | overflow reason hp =>
    refine ⟨?_, fun _ => ⟨nofun, nofun⟩, ?_⟩
    · intro call hcall
      have hc := hok.call call hcall
      exact ⟨hc.hops, hc.entry, hc.ordered, hc.requests, hc.retried, rfl⟩
    · intro m' tier' _
      refine ⟨nofun, ?_⟩
      intro tier'' fallback exhausted hwork
      cases hwork
      rfl
  | ended m rest e hp => exact hok.ended hp e
  | exit result hp hc => exact hok.goTo_quiet rfl
  | abort hp hc => exact hok.goTo_quiet rfl

/-- The next attempt. -/
theorem HandlerOk.send (hok : HandlerOk S h) {call : ForwardCall} {candidate : ForwardCandidate} {rest : List ForwardCandidate}
    {now : Instant} {request : ForwardRequest} (m : Nat) (hp : h.phase = .forwarding (candidate :: rest))
    (hc : h.call = some call)
    (hr : request = h.forwardRequest now (S.dispatcher h.node).costs.hopLatency call candidate) :
    HandlerOk S { h with
      phase := .sent m rest
      call := some { call with attempts := call.attempts ++ [⟨candidate, request, now, none⟩] } } := by
  have hok' := hok.call call hc
  have hphase := hok'.phase
  rw [hp] at hphase
  obtain ⟨horder, hretried⟩ := hphase
  have horder' : (call.attempts ++ [(⟨candidate, request, now, none⟩ : Attempt)]).map Attempt.candidate ++ rest =
      call.candidates := by
    simpa using horder
  refine ⟨?_, fun hnone => absurd hnone nofun, ?_⟩
  · intro call' hcall'
    cases hcall'
    refine ⟨hok'.hops, hok'.entry, ⟨rest, horder'⟩, ?_, ?_, horder', by simp⟩
    · intro a ha
      rcases List.mem_append.mp ha with ha | ha
      · exact hok'.requests a ha
      · rw [List.mem_singleton.mp ha]
        exact hr
    · intro a ha
      rw [List.dropLast_concat] at ha
      exact hretried a ha
  · intro m' tier he
    exact absurd (hok'.entry.symm.trans he) nofun

/-- The handler keeps its attempts, whatever their ends. -/
structure Grows (h h' : Handler) : Prop where
  same : Cluster.SameTask h h'
  attempts : ∀ call a, h.call = some call → a ∈ call.attempts →
    ∃ call' a', h'.call = some call' ∧ a' ∈ call'.attempts ∧ a'.request = a.request ∧ a'.candidate = a.candidate

theorem grows_of_call_eq (hsame : Cluster.SameTask h h') (hcall : h'.call = h.call) : Grows h h' :=
  ⟨hsame, fun call a hc ha => ⟨call, a, hcall.trans hc, ha, rfl, rfl⟩⟩

theorem HandlerOk.move_grows (hok : HandlerOk S h) (hm : Moved s h h') : Grows h h' := by
  have hsame := Cluster.moved_sameTask hm
  cases hm with
  | start tier candidates hhops hp =>
    refine ⟨hsame, ?_⟩
    intro call a hc
    exact absurd ((hok.start_fresh hp).1.symm.trans hc) nofun
  | ended m rest e hp =>
    refine ⟨hsame, ?_⟩
    intro call a hc ha
    have hphase := (hok.call call hc).phase
    rw [hp] at hphase
    obtain ⟨init, b, hattempts, hended⟩ := endAttempt_attempts hphase.2 e
    have hcall : (h.sendEnd rest e).call = some (Handler.endAttempt call e) := by
      rw [sendEnd_call, hc]
      rfl
    rw [hattempts] at ha
    rcases List.mem_append.mp ha with ha | ha
    · exact ⟨_, a, hcall, by rw [hended]; exact List.mem_append_left _ ha, rfl, rfl⟩
    · rw [List.mem_singleton.mp ha]
      exact ⟨_, { b with ended := some e }, hcall,
        by rw [hended]; exact List.mem_append_right _ (List.mem_singleton_self _), rfl, rfl⟩
  | _ => exact grows_of_call_eq hsame rfl

end Handler

namespace Cluster

variable {S : ClusterSpec} {s s' : Cluster}

/-- Every handler is in order; a handler waits for the end of its own message; every message carries an attempt of its origin to
the candidate's node; and the handlers that peers' messages started are the ones the messages name. -/
structure ForwardInv (S : ClusterSpec) (s : Cluster) : Prop where
  handlers : ∀ (i : Nat) h, s.handlers[i]? = some h → HandlerOk S h
  sent : ∀ (i : Nat) h m rest, s.handlers[i]? = some h → h.phase = .sent m rest →
    ∃ msg, s.messages[m]? = some msg ∧ msg.origin = i
  messages : ∀ (m : Nat) msg, s.messages[m]? = some msg → ∃ h call a, s.handlers[msg.origin]? = some h ∧ h.call = some call ∧
    a ∈ call.attempts ∧ a.request = msg.request ∧ a.candidate.nodeId = msg.target
  delivered : ∀ (m : Nat) msg j, s.messages[m]? = some msg → msg.delivered = some j →
    ∃ h tier, s.handlers[j]? = some h ∧ h.entry = .forwarded m tier ∧ h.node = msg.target ∧
      RenderCacheKey.fromTask h.task = RenderCacheKey.fromTask (msg.request.task.intoInternal 0)
  forwarded : ∀ (i : Nat) h m tier, s.handlers[i]? = some h → h.entry = .forwarded m tier →
    ∃ msg, s.messages[m]? = some msg ∧ msg.delivered = some i

theorem ForwardInv.new : ForwardInv S new where
  handlers := by simp [Cluster.new]
  sent := by simp [Cluster.new]
  messages := by simp [Cluster.new]
  delivered := by simp [Cluster.new]
  forwarded := by simp [Cluster.new]

/-- A handler changes in place and keeps its attempts. -/
theorem ForwardInv.update (hinv : ForwardInv S s) {i : Nat} {h h' : Handler} (hi : s.handlers[i]? = some h)
    (hok : HandlerOk S h') (hgrows : Grows h h') (hsent : ∀ m rest, h'.phase ≠ .sent m rest)
    (caches : NodeId → RenderOutputCache RenderCacheKey) : ForwardInv S { s.setHandler i h' with caches := caches } := by
  refine ⟨?_, ?_, ?_, ?_, ?_⟩
  · intro j d hd
    rcases setHandler_get hi hd with ⟨rfl, rfl⟩ | ⟨-, hd⟩
    · exact hok
    · exact hinv.handlers j d hd
  · intro j d m rest hd hp
    rcases setHandler_get hi hd with ⟨rfl, rfl⟩ | ⟨-, hd⟩
    · exact absurd hp (hsent m rest)
    · exact hinv.sent j d m rest hd hp
  · intro m msg hm
    obtain ⟨d, call, a, hd, hc, ha, hrest⟩ := hinv.messages m msg hm
    by_cases hji : msg.origin = i
    · rw [hji] at hd
      cases hi.symm.trans hd
      obtain ⟨call', a', hc', ha', hreq, hcand⟩ := hgrows.attempts call a hc ha
      exact ⟨h', call', a', by rw [hji]; exact setHandler_get_self hi h', hc', ha', hreq.trans hrest.1, hcand ▸ hrest.2⟩
    · exact ⟨d, call, a, (setHandler_get_of_ne hji h').trans hd, hc, ha, hrest⟩
  · intro m msg j hm hdel
    obtain ⟨d, tier, hd, he, hnode, hkey⟩ := hinv.delivered m msg j hm hdel
    by_cases hji : j = i
    · subst hji
      cases hi.symm.trans hd
      refine ⟨h', tier, setHandler_get_self hi h', hgrows.same.entry.trans he, hgrows.same.node.trans hnode, ?_⟩
      rw [hgrows.same.task]
      exact hkey
    · exact ⟨d, tier, (setHandler_get_of_ne hji h').trans hd, he, hnode, hkey⟩
  · intro j d m tier hd he
    rcases setHandler_get hi hd with ⟨rfl, rfl⟩ | ⟨-, hd⟩
    · exact hinv.forwarded j h m tier hi (hgrows.same.entry.symm.trans he)
    · exact hinv.forwarded j d m tier hd he

variable {task : InternalTask} {t : Cluster}

/-- A new handler is in order. -/
theorem Entered.handlers {n : NodeId} {entry : Entry} (he : Entered s n task entry t) :
    ∃ h : Handler, t.handlers = s.handlers ++ [h] ∧ t.messages = s.messages ∧ h.node = n ∧ h.task = task ∧ h.entry = entry ∧
      h.call = none ∧ HandlerOk S h ∧ ∀ m rest, h.phase ≠ .sent m rest := by
  cases he with
  | plain phase hp =>
    refine ⟨_, rfl, rfl, rfl, rfl, rfl, rfl, ⟨nofun, fun _ => ⟨?_, ?_⟩, ?_⟩, ?_⟩
    · rcases hp with ⟨_, rfl⟩ | ⟨rfl, -⟩ | ⟨_, rfl⟩ <;> exact nofun
    · rcases hp with ⟨_, rfl⟩ | ⟨rfl, -⟩ | ⟨_, rfl⟩ <;> exact nofun
    · intro m tier hentry
      rcases hp with ⟨_, rfl⟩ | ⟨rfl, hin⟩ | ⟨_, rfl⟩
      · exact ⟨nofun, nofun⟩
      · exact absurd (hin.symm.trans hentry) nofun
      · refine ⟨nofun, ?_⟩
        intro tier' fallback exhausted hwork
        cases hwork
        rfl
    · rcases hp with ⟨_, rfl⟩ | ⟨rfl, -⟩ | ⟨_, rfl⟩ <;> exact nofun
  | cached =>
    exact ⟨_, rfl, rfl, rfl, rfl, rfl, rfl, ⟨nofun, fun _ => ⟨nofun, nofun⟩, fun _ _ _ => ⟨nofun, nofun⟩⟩, nofun⟩

/-- Another budget and another arrival leave the key alone. -/
theorem fromTask_delayed (wire : WireTask) (budget : Nat) (now : Instant) :
    RenderCacheKey.fromTask (WireTask.intoInternal { wire with remainingBudgetMs := budget } now) =
      RenderCacheKey.fromTask (wire.intoInternal 0) := by
  simp only [RenderCacheKey.fromTask, WireTask.intoInternal]

/-- The next attempt goes out with its message. -/
theorem ForwardInv.send (hinv : ForwardInv S s) {i : Nat} {h : Handler} {call : ForwardCall} {candidate : ForwardCandidate}
    {rest : List ForwardCandidate} {request : ForwardRequest} (now : Instant) (hi : s.handlers[i]? = some h)
    (hp : h.phase = .forwarding (candidate :: rest)) (hc : h.call = some call)
    (hr : request = h.forwardRequest now (S.dispatcher h.node).costs.hopLatency call candidate) :
    ForwardInv S { s.setHandler i { h with
        phase := .sent s.messages.length rest
        call := some { call with attempts := call.attempts ++ [⟨candidate, request, now, none⟩] } } with
      messages := s.messages ++ [⟨i, candidate.nodeId, request, none⟩] } := by
  refine ⟨?_, ?_, ?_, ?_, ?_⟩
  · intro j d hd
    rcases setHandler_get hi hd with ⟨rfl, rfl⟩ | ⟨-, hd⟩
    · exact (hinv.handlers j h hi).send _ hp hc hr
    · exact hinv.handlers j d hd
  · intro j d m rest' hd hph
    rcases setHandler_get hi hd with ⟨rfl, rfl⟩ | ⟨-, hd⟩
    · cases hph
      exact ⟨_, List.getElem?_concat_length, rfl⟩
    · obtain ⟨msg, hm, horigin⟩ := hinv.sent j d m rest' hd hph
      exact ⟨msg, getElem?_concat_of_some hm _, horigin⟩
  · intro m msg hm
    rcases getElem?_concat_cases hm with ⟨-, rfl⟩ | hm
    · exact ⟨_, _, ⟨candidate, request, now, none⟩, setHandler_get_self hi _, rfl,
        List.mem_append_right _ (List.mem_singleton_self _), rfl, rfl⟩
    · obtain ⟨d, call', b, hd, hc', hb, hrest⟩ := hinv.messages m msg hm
      by_cases hji : msg.origin = i
      · rw [hji] at hd
        cases hi.symm.trans hd
        cases hc.symm.trans hc'
        exact ⟨_, _, b, by rw [hji]; exact setHandler_get_self hi _, rfl, List.mem_append_left _ hb, hrest⟩
      · exact ⟨d, call', b, (setHandler_get_of_ne hji _).trans hd, hc', hb, hrest⟩
  · intro m msg j hm hdel
    rcases getElem?_concat_cases hm with ⟨-, rfl⟩ | hm
    · cases hdel
    · obtain ⟨d, tier, hd, he, hnode, hkey⟩ := hinv.delivered m msg j hm hdel
      by_cases hji : j = i
      · subst hji
        cases hi.symm.trans hd
        exact ⟨_, tier, setHandler_get_self hi _, he, hnode, hkey⟩
      · exact ⟨d, tier, (setHandler_get_of_ne hji _).trans hd, he, hnode, hkey⟩
  · intro j d m tier hd he
    have hold : ∃ msg, s.messages[m]? = some msg ∧ msg.delivered = some j := by
      rcases setHandler_get hi hd with ⟨rfl, rfl⟩ | ⟨-, hd⟩
      · exact hinv.forwarded j h m tier hi he
      · exact hinv.forwarded j d m tier hd he
    obtain ⟨msg, hm, hdel⟩ := hold
    exact ⟨msg, getElem?_concat_of_some hm _, hdel⟩

/-- A task is entered over the public ingress. -/
theorem ForwardInv.enter (hinv : ForwardInv S s) {n : NodeId} {entry : Entry}
    (he : Entered s n task entry t) (hentry : ∀ m tier, entry ≠ .forwarded m tier) : ForwardInv S t := by
  obtain ⟨h, hhandlers, hmessages, -, -, hh, -, hok, hsent⟩ := he.handlers (S := S)
  refine ⟨?_, ?_, ?_, ?_, ?_⟩
  · intro j d hd
    rw [hhandlers] at hd
    rcases getElem?_concat_cases hd with ⟨-, rfl⟩ | hd
    · exact hok
    · exact hinv.handlers j d hd
  · intro j d m rest hd hp
    rw [hhandlers] at hd
    rw [hmessages]
    rcases getElem?_concat_cases hd with ⟨-, rfl⟩ | hd
    · exact absurd hp (hsent m rest)
    · exact hinv.sent j d m rest hd hp
  · intro m msg hm
    rw [hmessages] at hm
    obtain ⟨d, call, a, hd, hrest⟩ := hinv.messages m msg hm
    exact ⟨d, call, a, by rw [hhandlers]; exact getElem?_concat_of_some hd _, hrest⟩
  · intro m msg j hm hdel
    rw [hmessages] at hm
    obtain ⟨d, tier, hd, hrest⟩ := hinv.delivered m msg j hm hdel
    exact ⟨d, tier, by rw [hhandlers]; exact getElem?_concat_of_some hd _, hrest⟩
  · intro j d m tier hd hde
    rw [hhandlers] at hd
    rw [hmessages]
    rcases getElem?_concat_cases hd with ⟨-, rfl⟩ | hd
    · exact absurd (hh.symm.trans hde) (hentry m tier)
    · exact hinv.forwarded j d m tier hd hde

/-- A message is delivered, and the task is entered on its target. -/
theorem ForwardInv.deliver (hinv : ForwardInv S s) {m : Nat} {msg : Message} {tier : RouteTier}
    (hm : s.messages[m]? = some msg) (hd : msg.delivered = none)
    (hkey : RenderCacheKey.fromTask task = RenderCacheKey.fromTask (msg.request.task.intoInternal 0))
    (he : Entered { s with messages := s.messages.set m { msg with delivered := some s.handlers.length } } msg.target task
      (.forwarded m tier) t) : ForwardInv S t := by
  obtain ⟨h, hhandlers, hmessages, hnode, htask, hentry, -, hok, hsent⟩ := he.handlers (S := S)
  dsimp only at hhandlers hmessages
  have hkeep : ∀ (k : Nat) msg', s.messages[k]? = some msg' → ∃ msg'', t.messages[k]? = some msg'' ∧
      msg''.origin = msg'.origin ∧ msg''.target = msg'.target ∧ msg''.request = msg'.request ∧
      ∀ j, msg'.delivered = some j → msg''.delivered = some j := by
    intro k msg' hk
    rw [hmessages]
    by_cases hkm : k = m
    · subst hkm
      cases hm.symm.trans hk
      refine ⟨_, getElem?_set_of_some hm _, rfl, rfl, rfl, ?_⟩
      intro j hj
      exact absurd (hd.symm.trans hj) nofun
    · exact ⟨msg', (List.getElem?_set_ne (Ne.symm hkm)).trans hk, rfl, rfl, rfl, fun _ hj => hj⟩
  refine ⟨?_, ?_, ?_, ?_, ?_⟩
  · intro j d hd
    rw [hhandlers] at hd
    rcases getElem?_concat_cases hd with ⟨-, rfl⟩ | hd
    · exact hok
    · exact hinv.handlers j d hd
  · intro j d k rest hd hp
    rw [hhandlers] at hd
    rcases getElem?_concat_cases hd with ⟨-, rfl⟩ | hd
    · exact absurd hp (hsent k rest)
    · obtain ⟨msg', hk, horigin⟩ := hinv.sent j d k rest hd hp
      obtain ⟨msg'', hk', horigin', -⟩ := hkeep k msg' hk
      exact ⟨msg'', hk', horigin'.trans horigin⟩
  · intro k msg' hk
    have hold : ∃ d call a, s.handlers[msg'.origin]? = some d ∧ d.call = some call ∧ a ∈ call.attempts ∧
        a.request = msg'.request ∧ a.candidate.nodeId = msg'.target := by
      rw [hmessages] at hk
      rcases getElem?_set_cases hm hk with ⟨rfl, rfl⟩ | ⟨-, hk⟩
      · exact hinv.messages k msg hm
      · exact hinv.messages k msg' hk
    obtain ⟨d, call, a, hd, hrest⟩ := hold
    exact ⟨d, call, a, by rw [hhandlers]; exact getElem?_concat_of_some hd _, hrest⟩
  · intro k msg' j hk hdel
    rw [hmessages] at hk
    rcases getElem?_set_cases hm hk with ⟨rfl, rfl⟩ | ⟨-, hk⟩
    · cases hdel
      refine ⟨h, tier, by rw [hhandlers]; exact List.getElem?_concat_length, hentry, hnode, ?_⟩
      rw [htask]
      exact hkey
    · obtain ⟨d, tier', hd, hrest⟩ := hinv.delivered k msg' j hk hdel
      exact ⟨d, tier', by rw [hhandlers]; exact getElem?_concat_of_some hd _, hrest⟩
  · intro j d k tier' hd hde
    rw [hhandlers] at hd
    rcases getElem?_concat_cases hd with ⟨rfl, rfl⟩ | hd
    · rw [hentry] at hde
      cases hde
      exact ⟨_, by rw [hmessages]; exact getElem?_set_of_some hm _, rfl⟩
    · obtain ⟨msg', hk, hdel⟩ := hinv.forwarded j d k tier' hd hde
      obtain ⟨msg'', hk', -, -, -, hdel'⟩ := hkeep k msg' hk
      exact ⟨msg'', hk', hdel' j hdel⟩

theorem ForwardInv.step {a : ClusterAction} (hinv : ForwardInv S s) (hs : Stepped S s a s') : ForwardInv S s' := by
  cases hs with
  | cache n act cache hin hstep => exact ⟨hinv.handlers, hinv.sent, hinv.messages, hinv.delivered, hinv.forwarded⟩
  | move _ i h h' hi hm =>
    have hok := hinv.handlers i h hi
    exact hinv.update hi (hok.move hm) (hok.move_grows hm) (moved_phase hm).2 s.caches
  | call _ i h c act cache phase hi hc hstep hcall =>
    have hquiet : phase.isQuiet = true := by
      cases hcall <;> rfl
    refine hinv.update hi ((hinv.handlers i h hi).goTo_quiet hquiet) (grows_of_call_eq (sameTask_goTo h phase) rfl) ?_ _
    intro m rest hp
    rw [show phase = .sent m rest from hp] at hquiet
    cases hquiet
  | send i now h call candidate rest request hi hp hc hr _ => exact hinv.send now hi hp hc hr
  | arrive n task now t he => exact hinv.enter he nofun
  | deliver _ m now delayMs msg task t hm hd ht he =>
    refine hinv.deliver hm hd ?_ he
    rw [ht]
    exact fromTask_delayed _ _ _

end Cluster

end Biei
