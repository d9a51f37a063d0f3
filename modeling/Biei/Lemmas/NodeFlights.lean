import Biei.Lemmas.Node

/-!
# Handlers and the callers of their caches

`FlightsInv`: every caller of a cache belongs to one handler of the node, which stands where its caller's phase says.
-/

namespace Biei

/-- The phases a caller can be in while its handler is in a phase. -/
def HandlerPhase.suits (h : HandlerPhase) (c : CallerPhase) : Bool :=
  match h with
  | .acquiring =>
    match c with
    | .inserting .. => false
    | .notifying _ => false
    | .gone => false
    | _ => true
  | .leaving _ =>
    match c with
    | .leading _ => true
    | .inserting .. => true
    | _ => false
  | .done _ | .aborted =>
    match c with
    | .hit _ => true
    | .notifying _ => true
    | .gone => true
    | _ => false
  | .routing | .working .. | .forwarding _ | .sent .. | .finished _ =>
    match c with
    | .leading _ => true
    | _ => false

/-- A busy handler's caller holds its guard. -/
theorem HandlerPhase.leading_of_isBusy {h : HandlerPhase} {c : CallerPhase} (hb : h.isBusy = true) (hs : h.suits c = true) :
    ∃ f, c = .leading f := by
  cases h <;> cases c <;> simp [HandlerPhase.isBusy, HandlerPhase.suits] at hb hs ⊢

namespace RenderOutputCache

variable {s s' : RenderOutputCache RenderCacheKey}

/-- The callers after one of them moved: all are there, and all but the one are as they were. -/
theorem setPhase_callers {p : Nat} {c : RenderCaller RenderCacheKey} {ph : CallerPhase} (hc : s.callers[p]? = some c)
    (hph : ∀ h : HandlerPhase, h.suits c.phase = true → h.suits ph = true) {q : Nat} {d : RenderCaller RenderCacheKey}
    (hd : s.callers[q]? = some d) :
    ∃ d', (s.setPhase p c ph).callers[q]? = some d' ∧ d'.key = d.key ∧
      ∀ h : HandlerPhase, h.suits d.phase = true → h.suits d'.phase = true := by
  by_cases hqp : q = p
  · subst hqp
    cases hc.symm.trans hd
    exact ⟨_, setPhase_get_self hc ph, rfl, hph⟩
  · exact ⟨d, (setPhase_get_of_ne hqp ph).trans hd, rfl, fun _ h => h⟩

/-- A step the cache makes by itself keeps its callers, and every phase of a handler that suits them. -/
theorem Stepped.inner_callers {a : RenderCacheAction RenderCacheKey} (hs : Stepped s a s') (hin : a.isInner = true) :
    s'.callers.length = s.callers.length ∧
    ∀ (q : Nat) d, s.callers[q]? = some d → ∃ d', s'.callers[q]? = some d' ∧ d'.key = d.key ∧
      ∀ h : HandlerPhase, h.suits d.phase = true → h.suits d'.phase = true := by
  have hlen : ∀ (p : Nat) (c : RenderCaller RenderCacheKey) ph, (s.setPhase p c ph).callers.length = s.callers.length :=
    fun p c ph => List.length_set
  cases hs with
  | arrive k ns => cases hin
  | hit _ p c after e _ hc hp _ =>
    refine ⟨hlen p c _, fun q d hd => setPhase_callers hc ?_ hd⟩
    rcases hp with hp | hp
    · rw [hp]
      intro h
      cases h <;> simp [HandlerPhase.suits]
    · rw [hp]
      intro h
      cases h <;> simp [HandlerPhase.suits]
  | miss p c after hc hp _ =>
    refine ⟨hlen p c _, fun q d hd => setPhase_callers hc ?_ hd⟩
    rw [hp]
    intro h
    cases h <;> simp [HandlerPhase.suits]
  | join p c after f hc hp _ _ =>
    refine ⟨hlen p c _, fun q d hd => setPhase_callers hc ?_ hd⟩
    rw [hp]
    intro h
    cases h <;> simp [HandlerPhase.suits]
  | lead p c after hc hp _ _ =>
    refine ⟨hlen p c _, fun q d hd => setPhase_callers hc ?_ hd⟩
    rw [hp]
    intro h
    cases h <;> simp [HandlerPhase.suits]
  | keepBack p result produced _ => cases hin
  | insertCheck p c f tier output _ _ _ => cases hin
  | insert p c f output hc hp =>
    refine ⟨hlen p c _, fun q d hd => setPhase_callers hc ?_ hd⟩
    rw [hp]
    intro h
    cases h <;> simp [HandlerPhase.suits]
  | drop p c f _ _ => cases hin
  | notify p c f hc hp =>
    refine ⟨hlen p c _, fun q d hd => setPhase_callers hc ?_ hd⟩
    rw [hp]
    intro h
    cases h <;> simp [HandlerPhase.suits]
  | leave _ p c hc hp =>
    rcases hp with ⟨-, hp⟩ | ⟨rfl, -⟩
    · refine ⟨hlen p c _, fun q d hd => setPhase_callers hc ?_ hd⟩
      rw [hp]
      intro h
      cases h <;> simp [HandlerPhase.suits]
    · cases hin
  | wake p c f hc hp _ =>
    refine ⟨hlen p c _, fun q d hd => setPhase_callers hc ?_ hd⟩
    rw [hp]
    intro h
    cases h <;> simp [HandlerPhase.suits]
  | evict k => exact ⟨rfl, fun q d hd => ⟨d, hd, rfl, fun _ h => h⟩⟩

variable {c : Nat}

theorem step_dropLeader (h : s.step (.dropLeader c) = some s') :
    ∃ d, s.callers[c]? = some d ∧ s'.callers = (s.setPhase c d (.notifying (s.inFlight d.key))).callers := by
  cases step_stepped h with
  | drop _ d f hd _ => exact ⟨d, hd, rfl⟩
  | hit _ p d _ _ ha _ _ _ => rcases ha with ha | ha <;> cases ha
  | leave _ p d _ hp => rcases hp with ⟨ha, -⟩ | ⟨ha, -⟩ <;> cases ha

theorem step_giveUp (h : s.step (.giveUp c) = some s') :
    ∃ d, s.callers[c]? = some d ∧ s'.callers = (s.setPhase c d .gone).callers := by
  cases step_stepped h with
  | hit _ p d _ _ ha _ _ _ => rcases ha with ha | ha <;> cases ha
  | leave _ p d hd hp =>
    rcases hp with ⟨ha, -⟩ | ⟨ha, -⟩
    · cases ha
    · cases ha
      exact ⟨d, hd, rfl⟩

theorem step_insertFromOutcome {result : TaskResult} (h : s.step (.insertFromOutcome c result) = some s') :
    s'.callers = s.callers ∨
      ∃ d f output, s.callers[c]? = some d ∧ s'.callers = (s.setPhase c d (.inserting f output)).callers := by
  cases step_stepped h with
  | hit _ p d _ _ ha _ _ _ => rcases ha with ha | ha <;> cases ha
  | leave _ p d _ hp => rcases hp with ⟨ha, -⟩ | ⟨ha, -⟩ <;> cases ha
  | keepBack _ _ produced _ => exact Or.inl rfl
  | insertCheck _ d f tier output hd _ _ => exact Or.inr ⟨d, f, output, hd, rfl⟩

/-- A call of a handler moves its own caller only, to a phase that suits where the handler goes. -/
theorem called_callers {t : Cluster} {h : Handler} {a : RenderCacheAction RenderCacheKey} {phase : HandlerPhase}
    (hs : s.step a = some s') (hcall : Called t h c a phase) :
    s'.callers.length = s.callers.length ∧ (∀ q, q ≠ c → s'.callers[q]? = s.callers[q]?) ∧
    ∀ d, s.callers[c]? = some d → h.phase.suits d.phase = true →
      ∃ d', s'.callers[c]? = some d' ∧ d'.key = d.key ∧ phase.suits d'.phase = true := by
  have hset : ∀ (d : RenderCaller RenderCacheKey) ph, s.callers[c]? = some d → s'.callers = (s.setPhase c d ph).callers →
      phase.suits ph = true → s'.callers.length = s.callers.length ∧ (∀ q, q ≠ c → s'.callers[q]? = s.callers[q]?) ∧
      ∀ d', s.callers[c]? = some d' → h.phase.suits d'.phase = true →
        ∃ d'', s'.callers[c]? = some d'' ∧ d''.key = d'.key ∧ phase.suits d''.phase = true := by
    intro d ph hd heq hph
    rw [heq]
    refine ⟨List.length_set, fun q hq => setPhase_get_of_ne hq ph, ?_⟩
    intro d' hd' _
    cases hd.symm.trans hd'
    exact ⟨_, setPhase_get_self hd ph, rfl, hph⟩
  cases hcall with
  | shed rc f result _ _ _ =>
    obtain ⟨d, hd, heq⟩ := step_dropLeader hs
    exact hset d _ hd heq rfl
  | giveUp result _ =>
    obtain ⟨d, hd, heq⟩ := step_giveUp hs
    exact hset d _ hd heq rfl
  | cancel _ =>
    obtain ⟨d, hd, heq⟩ := step_giveUp hs
    exact hset d _ hd heq rfl
  | insert result hp =>
    rcases step_insertFromOutcome hs with heq | ⟨d, f, output, hd, heq⟩
    · rw [heq]
      refine ⟨rfl, fun _ _ => rfl, fun d hd hsuits => ⟨d, hd, rfl, ?_⟩⟩
      rw [hp] at hsuits
      cases hph : d.phase <;> rw [hph] at hsuits <;> simp [HandlerPhase.suits] at hsuits ⊢
    · exact hset d _ hd heq rfl
  | leave result _ =>
    obtain ⟨d, hd, heq⟩ := step_dropLeader hs
    exact hset d _ hd heq rfl
  | abort _ =>
    obtain ⟨d, hd, heq⟩ := step_dropLeader hs
    exact hset d _ hd heq rfl

end RenderOutputCache

/-! ## Handlers after a step -/

namespace Cluster

variable {S : ClusterSpec} {s s' : Cluster}

@[simp]
theorem setCache_self (s : Cluster) (n : NodeId) (c : RenderOutputCache RenderCacheKey) : (s.setCache n c).caches n = c := by
  simp [setCache]

theorem setCache_of_ne {m n : NodeId} (h : m ≠ n) (c : RenderOutputCache RenderCacheKey) :
    (s.setCache n c).caches m = s.caches m := by
  simp [setCache, h]

theorem setHandler_get {i j : Nat} {h h' d : Handler} (hi : s.handlers[i]? = some h)
    (hd : (s.setHandler i h').handlers[j]? = some d) : (j = i ∧ d = h') ∨ (j ≠ i ∧ s.handlers[j]? = some d) :=
  getElem?_set_cases hi hd

theorem setHandler_get_self {i : Nat} {h : Handler} (hi : s.handlers[i]? = some h) (h' : Handler) :
    (s.setHandler i h').handlers[i]? = some h' := getElem?_set_of_some hi h'

theorem setHandler_get_of_ne {i j : Nat} (hji : j ≠ i) (h' : Handler) :
    (s.setHandler i h').handlers[j]? = s.handlers[j]? := List.getElem?_set_ne (Ne.symm hji)

/-- What never changes of a handler. -/
structure SameTask (h h' : Handler) : Prop where
  node : h'.node = h.node
  task : h'.task = h.task
  entry : h'.entry = h.entry
  caller : h'.caller = h.caller

theorem sameTask_goTo (h : Handler) (phase : HandlerPhase) : SameTask h (h.goTo phase) := ⟨rfl, rfl, rfl, rfl⟩

theorem sendEnd_phase (h : Handler) (rest : List ForwardCandidate) (e : SendResult) :
    (e.isRetryable = true ∧ (h.sendEnd rest e).phase = .forwarding rest) ∨
      (e.isRetryable = false ∧ ∃ result, (h.sendEnd rest e).phase = .finished result) := by
  unfold Handler.sendEnd
  dsimp only
  split
  · rename_i he
    exact Or.inl ⟨he, rfl⟩
  · rename_i he
    refine Or.inr ⟨Bool.eq_false_iff.mpr he, ?_⟩
    split
    · exact ⟨_, rfl⟩
    · exact ⟨_, rfl⟩

theorem sendEnd_sameTask (h : Handler) (rest : List ForwardCandidate) (e : SendResult) : SameTask h (h.sendEnd rest e) := by
  unfold Handler.sendEnd
  dsimp only
  split
  · exact ⟨rfl, rfl, rfl, rfl⟩
  · split
    · exact ⟨rfl, rfl, rfl, rfl⟩
    · exact ⟨rfl, rfl, rfl, rfl⟩

variable {h h' : Handler}

theorem moved_sameTask (hm : Moved s h h') : SameTask h h' := by
  cases hm with
  | ended m rest e hp => exact sendEnd_sameTask h rest e
  | _ => exact ⟨rfl, rfl, rfl, rfl⟩

/-- A move leads neither back to the cache nor past a send. -/
theorem moved_phase (hm : Moved s h h') : h'.phase ≠ .acquiring ∧ ∀ m rest, h'.phase ≠ .sent m rest := by
  cases hm with
  | ended m rest e hp =>
    rcases sendEnd_phase h rest e with ⟨-, hph⟩ | ⟨-, result, hph⟩
    · rw [hph]
      exact ⟨nofun, nofun⟩
    · rw [hph]
      exact ⟨nofun, nofun⟩
  | _ => exact ⟨nofun, nofun⟩

/-- A handler moves only as its caller allows. -/
theorem moved_suits (hm : Moved s h h') {rc : RenderCaller RenderCacheKey} (hc : s.callerOf h = some rc)
    (hs : h.phase.suits rc.phase = true) : h'.phase.suits rc.phase = true := by
  have hcaller : h.caller ≠ none := by
    intro hnone
    rw [callerOf, hnone] at hc
    cases hc
  cases hm with
  | hit rc' entry result hp hc' hr =>
    cases hc.symm.trans hc'
    rw [hr]
    rfl
  | lead rc' f hp hc' hr he =>
    cases hc.symm.trans hc'
    rw [hr]
    rfl
  | take rc' f m tier hp hc' hr he =>
    cases hc.symm.trans hc'
    rw [hr]
    rfl
  | work tier fallback hp =>
    rw [hp] at hs
    exact hs
  | start tier candidates hhops hp =>
    rcases hp with hp | ⟨-, _, hp⟩
    · rw [hp] at hs
      exact hs
    · rw [hp] at hs
      exact hs
  | finish result hp =>
    obtain ⟨f, hf⟩ := HandlerPhase.leading_of_isBusy hp hs
    rw [hf]
    rfl
  | overflow reason hp =>
    rw [hp] at hs
    exact hs
  | ended m rest e hp =>
    rw [hp] at hs
    rcases sendEnd_phase h rest e with ⟨-, hph⟩ | ⟨-, result, hph⟩
    · rw [hph]
      exact hs
    · rw [hph]
      exact hs
  | exit result hp hnone => exact absurd hnone hcaller
  | abort hp hnone => exact absurd hnone hcaller

/-! ## The invariant -/

/-- Handlers and callers belong together. -/
structure FlightsInv (s : Cluster) : Prop where
  caches : ∀ n, RenderOutputCache.FlightInv (s.caches n)
  caller : ∀ (i : Nat) h c, s.handlers[i]? = some h → h.caller = some c →
    ∃ rc, (s.caches h.node).callers[c]? = some rc ∧ rc.key = .fromTask h.task ∧ h.phase.suits rc.phase = true
  owner : ∀ n (c : Nat), c < (s.caches n).callers.length →
    ∃ (i : Nat) (h : Handler), s.handlers[i]? = some h ∧ h.node = n ∧ h.caller = some c
  unique : ∀ (i j : Nat) h h' c, s.handlers[i]? = some h → s.handlers[j]? = some h' → h.node = h'.node →
    h.caller = some c → h'.caller = some c → i = j
  uncached : ∀ (i : Nat) h, s.handlers[i]? = some h → h.caller = none → h.phase ≠ .acquiring

theorem FlightsInv.new : FlightsInv new where
  caches := fun _ => RenderOutputCache.FlightInv.new
  caller := by simp [Cluster.new]
  owner := by simp [Cluster.new, RenderOutputCache.new]
  unique := by simp [Cluster.new]
  uncached := by simp [Cluster.new]

/-- A handler changes in place, and so may the cache of its node: all callers of that cache are kept with their keys, the
handler's own in a phase that suits it, every other in a phase that suits whatever it suited. -/
theorem FlightsInv.update (hinv : FlightsInv s) {i : Nat} (hi : s.handlers[i]? = some h) (hsame : SameTask h h')
    (hph : h'.caller = none → h'.phase ≠ .acquiring) {caches : NodeId → RenderOutputCache RenderCacheKey}
    (hcaches : ∀ n, RenderOutputCache.FlightInv (caches n))
    (hlen : ∀ n, (caches n).callers.length = (s.caches n).callers.length)
    (hself : ∀ c rc, h.caller = some c → (s.caches h.node).callers[c]? = some rc → h.phase.suits rc.phase = true →
      ∃ rc', (caches h.node).callers[c]? = some rc' ∧ rc'.key = rc.key ∧ h'.phase.suits rc'.phase = true)
    (hother : ∀ n (c : Nat) rc, (n = h.node → h.caller ≠ some c) → (s.caches n).callers[c]? = some rc →
      ∃ rc', (caches n).callers[c]? = some rc' ∧ rc'.key = rc.key ∧
        ∀ ph : HandlerPhase, ph.suits rc.phase = true → ph.suits rc'.phase = true)
    (messages : List Message) :
    FlightsInv { (s.setHandler i h') with caches := caches, messages := messages } := by
  refine ⟨hcaches, ?_, ?_, ?_, ?_⟩
  · intro j d c hd hc
    rcases setHandler_get hi hd with ⟨rfl, rfl⟩ | ⟨hji, hd⟩
    · rw [hsame.caller] at hc
      obtain ⟨rc, hrc, hkey, hsuits⟩ := hinv.caller j h c hi hc
      obtain ⟨rc', hrc', hkey', hsuits'⟩ := hself c rc hc hrc hsuits
      rw [hsame.node, hsame.task]
      exact ⟨rc', hrc', hkey'.trans hkey, hsuits'⟩
    · obtain ⟨rc, hrc, hkey, hsuits⟩ := hinv.caller j d c hd hc
      have hne : d.node = h.node → h.caller ≠ some c :=
        fun hnode hcaller => hji (hinv.unique j i d h c hd hi hnode hc hcaller)
      obtain ⟨rc', hrc', hkey', hsuits'⟩ := hother d.node c rc hne hrc
      exact ⟨rc', hrc', hkey'.trans hkey, hsuits' d.phase hsuits⟩
  · intro n c hc
    rw [hlen n] at hc
    obtain ⟨j, d, hd, hnode, hcaller⟩ := hinv.owner n c hc
    by_cases hji : j = i
    · subst hji
      cases hi.symm.trans hd
      exact ⟨j, h', setHandler_get_self hi h', hsame.node.trans hnode, hsame.caller.trans hcaller⟩
    · exact ⟨j, d, (setHandler_get_of_ne hji h').trans hd, hnode, hcaller⟩
  · intro j k d e c hd he hnode hcd hce
    rcases setHandler_get hi hd with ⟨rfl, rfl⟩ | ⟨hji, hold⟩
    · rcases setHandler_get hi he with ⟨rfl, rfl⟩ | ⟨hki, hold'⟩
      · rfl
      · exact hinv.unique j k h e c hi hold' (hsame.node.symm.trans hnode) (hsame.caller.symm.trans hcd) hce
    · rcases setHandler_get hi he with ⟨rfl, rfl⟩ | ⟨hki, hold'⟩
      · exact hinv.unique j k d h c hold hi (hnode.trans hsame.node) hcd (hsame.caller.symm.trans hce)
      · exact hinv.unique j k d e c hold hold' hnode hcd hce
  · intro j d hd hnone
    rcases setHandler_get hi hd with ⟨rfl, rfl⟩ | ⟨hji, hd⟩
    · exact hph hnone
    · exact hinv.uncached j d hd hnone

theorem FlightsInv.enter (hinv : FlightsInv s) {n : NodeId} {task : InternalTask} {entry : Entry} {t : Cluster}
    (he : Entered s n task entry t) : FlightsInv t := by
  cases he with
  | plain phase hp =>
    have hphase : phase ≠ .acquiring := by
      rcases hp with ⟨_, rfl⟩ | ⟨rfl, -⟩ | ⟨_, rfl⟩ <;> exact nofun
    refine ⟨hinv.caches, ?_, ?_, ?_, ?_⟩
    · intro j d c hd hc
      rcases getElem?_concat_cases hd with ⟨-, rfl⟩ | hd
      · cases hc
      · exact hinv.caller j d c hd hc
    · intro m c hc
      obtain ⟨j, d, hd, hrest⟩ := hinv.owner m c hc
      exact ⟨j, d, getElem?_concat_of_some hd _, hrest⟩
    · intro j k d e c hd he hnode hcd hce
      rcases getElem?_concat_cases hd with ⟨-, rfl⟩ | hd
      · cases hcd
      · rcases getElem?_concat_cases he with ⟨-, rfl⟩ | he
        · cases hce
        · exact hinv.unique j k d e c hd he hnode hcd hce
    · intro j d hd hnone
      rcases getElem?_concat_cases hd with ⟨-, rfl⟩ | hd
      · exact hphase
      · exact hinv.uncached j d hd hnone
  | cached =>
    -- the callers of every cache are there still; the node's cache has one more
    have hkept : ∀ m (c : Nat) rc, (s.caches m).callers[c]? = some rc →
        ((s.setCache n { s.caches n with callers := (s.caches n).callers ++
          [⟨.fromTask task, task.authorization.map RenderAuthorization.readableNamespaces, .lookup none⟩] }).caches
            m).callers[c]? =
            some rc := by
      intro m c rc hrc
      by_cases hm : m = n
      · subst hm
        rw [setCache_self, List.getElem?_append_left (List.getElem?_eq_some_iff.mp hrc).1]
        exact hrc
      · rw [setCache_of_ne hm]
        exact hrc
    have hlt : ∀ (j : Nat) d c, s.handlers[j]? = some d → d.caller = some c → c < (s.caches d.node).callers.length := by
      intro j d c hd hc
      obtain ⟨rc, hrc, -⟩ := hinv.caller j d c hd hc
      exact (List.getElem?_eq_some_iff.mp hrc).1
    refine ⟨?_, ?_, ?_, ?_, ?_⟩
    · intro m
      by_cases hm : m = n
      · subst hm
        dsimp only
        rw [setCache_self]
        exact (hinv.caches m).arrive _ _
      · dsimp only
        rw [setCache_of_ne hm]
        exact hinv.caches m
    · intro j d c hd hc
      rcases getElem?_concat_cases hd with ⟨-, rfl⟩ | hd
      · cases hc
        refine ⟨⟨.fromTask task, task.authorization.map RenderAuthorization.readableNamespaces, .lookup none⟩, ?_, rfl, rfl⟩
        dsimp only
        rw [setCache_self]
        exact List.getElem?_concat_length
      · obtain ⟨rc, hrc, hrest⟩ := hinv.caller j d c hd hc
        exact ⟨rc, hkept d.node c rc hrc, hrest⟩
    · intro m c hc
      by_cases hold : c < (s.caches m).callers.length
      · obtain ⟨j, d, hd, hrest⟩ := hinv.owner m c hold
        exact ⟨j, d, getElem?_concat_of_some hd _, hrest⟩
      · by_cases hm : m = n
        · subst hm
          dsimp only at hc
          rw [setCache_self, List.length_append, List.length_singleton] at hc
          exact ⟨s.handlers.length, _, List.getElem?_concat_length, rfl, congrArg some (by omega)⟩
        · dsimp only at hc
          rw [setCache_of_ne hm] at hc
          exact absurd hc hold
    · intro j k d e c hd he hnode hcd hce
      rcases getElem?_concat_cases hd with ⟨hj, rfl⟩ | hd
      · rcases getElem?_concat_cases he with ⟨hk, rfl⟩ | he
        · rw [hj, hk]
        · cases hcd
          have hold := hlt k e _ he hce
          rw [← hnode] at hold
          exact absurd hold (Nat.lt_irrefl _)
      · rcases getElem?_concat_cases he with ⟨-, rfl⟩ | he
        · cases hce
          have hold := hlt j d _ hd hcd
          rw [hnode] at hold
          exact absurd hold (Nat.lt_irrefl _)
        · exact hinv.unique j k d e c hd he hnode hcd hce
    · intro j d hd hnone
      rcases getElem?_concat_cases hd with ⟨-, rfl⟩ | hd
      · cases hnone
      · exact hinv.uncached j d hd hnone

theorem FlightsInv.step {a : ClusterAction} (hinv : FlightsInv s) (hs : Stepped S s a s') : FlightsInv s' := by
  cases hs with
  | cache n act cache hin hstep =>
    have hstepped := RenderOutputCache.step_stepped hstep
    obtain ⟨hlen, hcallers⟩ := hstepped.inner_callers hin
    have hkept : ∀ m (c : Nat) rc, (s.caches m).callers[c]? = some rc →
        ∃ rc', ((s.setCache n cache).caches m).callers[c]? = some rc' ∧ rc'.key = rc.key ∧
          ∀ ph : HandlerPhase, ph.suits rc.phase = true → ph.suits rc'.phase = true := by
      intro m c rc hrc
      by_cases hm : m = n
      · subst hm
        rw [setCache_self]
        exact hcallers c rc hrc
      · rw [setCache_of_ne hm]
        exact ⟨rc, hrc, rfl, fun _ h => h⟩
    refine ⟨?_, ?_, ?_, hinv.unique, hinv.uncached⟩
    · intro m
      by_cases hm : m = n
      · subst hm
        rw [setCache_self]
        exact (hinv.caches m).step hstepped
      · rw [setCache_of_ne hm]
        exact hinv.caches m
    · intro j d c hd hc
      obtain ⟨rc, hrc, hkey, hsuits⟩ := hinv.caller j d c hd hc
      obtain ⟨rc', hrc', hkey', hsuits'⟩ := hkept d.node c rc hrc
      exact ⟨rc', hrc', hkey'.trans hkey, hsuits' d.phase hsuits⟩
    · intro m c hc
      refine hinv.owner m c ?_
      by_cases hm : m = n
      · subst hm
        rw [setCache_self, hlen] at hc
        exact hc
      · rw [setCache_of_ne hm] at hc
        exact hc
  | move _ i h h' hi hm =>
    refine hinv.update hi (moved_sameTask hm) (fun _ => (moved_phase hm).1) hinv.caches (fun _ => rfl) ?_ ?_ s.messages
    · intro c rc hc hrc hsuits
      refine ⟨rc, hrc, rfl, moved_suits hm ?_ hsuits⟩
      simp only [callerOf, hc, Option.bind_some]
      exact hrc
    · intro n c rc _ hrc
      exact ⟨rc, hrc, rfl, fun _ h => h⟩
  | call _ i h c act cache phase hi hc hstep hcall =>
    obtain ⟨hlen, hothers, hown⟩ := RenderOutputCache.called_callers hstep hcall
    refine hinv.update hi (sameTask_goTo h phase) ?_ ?_ ?_ ?_ ?_ s.messages
    · intro hnone
      exact absurd (hc.symm.trans hnone) nofun
    · intro m
      by_cases hm : m = h.node
      · subst hm
        rw [setCache_self]
        exact (hinv.caches h.node).step (RenderOutputCache.step_stepped hstep)
      · rw [setCache_of_ne hm]
        exact hinv.caches m
    · intro m
      by_cases hm : m = h.node
      · subst hm
        rw [setCache_self]
        exact hlen
      · rw [setCache_of_ne hm]
    · intro c' rc hc' hrc hsuits
      cases hc.symm.trans hc'
      rw [setCache_self]
      exact hown rc hrc hsuits
    · intro m c' rc hne hrc
      by_cases hm : m = h.node
      · subst hm
        rw [setCache_self]
        refine ⟨rc, (hothers c' ?_).trans hrc, rfl, fun _ h => h⟩
        rintro rfl
        exact hne rfl hc
      · rw [setCache_of_ne hm]
        exact ⟨rc, hrc, rfl, fun _ h => h⟩
  | send i now h call candidate rest request hi hp hc hr _ =>
    have hsame : SameTask h { h with
        phase := .sent s.messages.length rest
        call := some { call with attempts := call.attempts ++ [⟨candidate, request, now, none⟩] } } := ⟨rfl, rfl, rfl, rfl⟩
    refine hinv.update hi hsame (fun _ => nofun) hinv.caches (fun _ => rfl) ?_ ?_ _
    · intro c rc _ hrc hsuits
      rw [hp] at hsuits
      exact ⟨rc, hrc, rfl, hsuits⟩
    · intro n c rc _ hrc
      exact ⟨rc, hrc, rfl, fun _ h => h⟩
  | arrive n task now t he => exact hinv.enter he
  | deliver _ m now delayMs msg task t hm hd ht he =>
    have hmessages : FlightsInv { s with messages := s.messages.set m { msg with delivered := some s.handlers.length } } :=
      ⟨hinv.caches, hinv.caller, hinv.owner, hinv.unique, hinv.uncached⟩
    exact hmessages.enter he

end Cluster

end Biei
