import Biei.Lemmas.PoolPrediction
import Biei.Theorems.Dispatcher

/-! # The queue-depth counters of a pool -/

namespace Biei

/-- How often a call in the phase has raised a counter, and how often lowered one. -/
def CallPhase.entries {n : Nat} : CallPhase n → Nat × Nat
  | .called => (0, 0)
  | .scanning _ => (0, 0)
  | .picked .. => (0, 0)
  | .reserving .. => (0, 0)
  | .reserved _ => (1, 0)
  | .sending _ => (1, 0)
  | .permitted _ => (1, 0)
  | .queued _ => (1, 0)
  | .running _ => (1, 0)
  | .releasing _ => (1, 0)
  | .ended none => (0, 0)
  | .ended (some _) => (1, 1)

namespace WorkerPool

variable {spec : PoolSpec} {s s' : WorkerPool spec}

/-- How many commands have a place reserved at the worker. -/
def held (s : WorkerPool spec) (w : Fin spec.workers) : Nat := s.calls.countP fun c => decide (c.phase.holds = some w)

/-- The counters count the places that are held, and each call's entries are those of its phase. -/
structure Accounts (s : WorkerPool spec) : Prop where
  depth : ∀ w, s.queueDepths w = s.held w
  bounded : ∀ w, s.queueDepths w ≤ spec.queueCapacity
  entries : ∀ c ∈ s.calls, (c.taken, c.given) = c.phase.entries

theorem Accounts.new : Accounts (new : WorkerPool spec) :=
  ⟨fun _ => rfl, fun _ => Nat.zero_le _, fun _ hc => absurd hc List.not_mem_nil⟩

section

variable {p : Nat} {c c' : ProcessCall spec.workers} {t : WorkerPool spec}

/-- One call is replaced: the places held change with it. -/
theorem held_set (hc : s.calls[p]? = some c) (hcalls : t.calls = s.calls.set p c') (w : Fin spec.workers) :
    t.held w + (if c.phase.holds = some w then 1 else 0) = s.held w + if c'.phase.holds = some w then 1 else 0 := by
  have hcount := countP_set_add (fun c : ProcessCall spec.workers => decide (c.phase.holds = some w)) hc c'
  unfold held
  rw [hcalls]
  simpa using hcount

variable {idx : Fin spec.workers}

/-- A call that gets a place. -/
theorem held_reserve (hc : s.calls[p]? = some c)
    (hcalls : t.calls = s.calls.set p c') (hbefore : c.phase.holds = none) (hafter : c'.phase.holds = some idx) :
    t.held = Function.update s.held idx (s.held idx + 1) := by
  funext w
  have hw := held_set hc hcalls w
  rw [hbefore, hafter] at hw
  by_cases hidx : w = idx
  · subst hidx
    rw [Function.update_self]
    simpa using hw
  · rw [Function.update_of_ne hidx]
    simpa [Ne.symm hidx] using hw

/-- A call that gives its place back. -/
theorem held_release (hc : s.calls[p]? = some c)
    (hcalls : t.calls = s.calls.set p c') (hbefore : c.phase.holds = some idx) (hafter : c'.phase.holds = none) :
    t.held = Function.update s.held idx (s.held idx - 1) := by
  funext w
  have hw := held_set hc hcalls w
  rw [hbefore, hafter] at hw
  by_cases hidx : w = idx
  · subst hidx
    rw [Function.update_self]
    simp only [if_true, if_false, reduceCtorEq] at hw
    omega
  · rw [Function.update_of_ne hidx]
    simpa [Ne.symm hidx] using hw

theorem entries_set (h : ∀ c ∈ s.calls, (c.taken, c.given) = c.phase.entries)
    (hcalls : t.calls = s.calls.set p c') (hnew : (c'.taken, c'.given) = c'.phase.entries) :
    ∀ c ∈ t.calls, (c.taken, c.given) = c.phase.entries := by
  intro d hd
  rw [hcalls] at hd
  rcases List.mem_or_eq_of_mem_set hd with hd | rfl
  · exact h d hd
  · exact hnew

/-- A step that leaves calls and counters alone. -/
theorem Accounts.congr (h : Accounts s) (hcalls : t.calls = s.calls) (hd : t.queueDepths = s.queueDepths) :
    Accounts t := by
  refine ⟨fun w => ?_, fun w => hd ▸ h.bounded w, fun c hc => h.entries c (hcalls ▸ hc)⟩
  unfold held
  rw [hd, hcalls]
  exact h.depth w

/-- A step that moves a call on without touching a counter. -/
theorem Accounts.move (h : Accounts s) (hc : s.calls[p]? = some c) (hcalls : t.calls = s.calls.set p c')
    (hd : t.queueDepths = s.queueDepths) (hholds : c'.phase.holds = c.phase.holds) (hentries : c'.phase.entries = c.phase.entries)
    (hledger : (c'.taken, c'.given) = (c.taken, c.given)) : Accounts t := by
  refine ⟨fun w => ?_, fun w => hd ▸ h.bounded w, entries_set h.entries hcalls ?_⟩
  · have hheld := held_set hc hcalls w
    rw [hholds] at hheld
    rw [hd, h.depth w]
    omega
  · rw [hledger, hentries]
    exact h.entries c (List.mem_of_getElem? hc)

/-- A call that has neither a place nor a completion has no entries. -/
theorem entries_unreserved {n : Nat} {ph : CallPhase n} (h : Unreserved ph) : ph.entries = (0, 0) := by
  obtain ⟨hholds, hcompletion⟩ := h
  cases ph with
  | called => rfl
  | scanning seen => rfl
  | picked idx hinted => rfl
  | reserving idx hinted current => rfl
  | reserved idx => cases hholds
  | sending completion => cases hholds
  | permitted completion => cases hholds
  | queued completion => cases hholds
  | running completion => cases hholds
  | releasing completion => cases hholds
  | ended completion =>
    cases completion with
    | none => rfl
    | some completion => cases hcompletion

/-- A place is reserved below the hard limit. -/
theorem Accounts.reserve (h : Accounts s) (hc : s.calls[p]? = some c)
    (hbefore : Unreserved c.phase) (hafter : c'.phase = .reserved idx) (hledger : (c'.taken, c'.given) = (c.taken + 1, c.given))
    (hlt : s.queueDepths idx < spec.queueCapacity) (hcalls : t.calls = s.calls.set p c')
    (hd : t.queueDepths = Function.update s.queueDepths idx (s.queueDepths idx + 1)) : Accounts t := by
  have hheld : t.held = Function.update s.held idx (s.held idx + 1) := held_reserve hc hcalls hbefore.1 (by rw [hafter]; rfl)
  refine ⟨fun w => ?_, fun w => ?_, entries_set h.entries hcalls ?_⟩
  · rw [hd, hheld, funext h.depth]
  · rw [hd]
    by_cases hidx : w = idx
    · subst hidx
      rw [Function.update_self]
      omega
    · rw [Function.update_of_ne hidx]
      exact h.bounded w
  · have hold := h.entries c (List.mem_of_getElem? hc)
    rw [entries_unreserved hbefore] at hold
    obtain ⟨htaken, hgiven⟩ := Prod.mk.inj hold
    rw [hledger, hafter, htaken, hgiven]
    rfl

/-- The counter of a held place is positive. -/
theorem Accounts.pos (h : Accounts s) {w : Fin spec.workers} (hc : s.calls[p]? = some c) (hholds : c.phase.holds = some w) :
    0 < s.queueDepths w := by
  rw [h.depth w]
  exact List.countP_pos_iff.mpr ⟨c, List.mem_of_getElem? hc, by simpa using hholds⟩

/-- A held place is given back. -/
theorem Accounts.release (h : Accounts s) {completion : WorkerCompletion spec.workers}
    (hc : s.calls[p]? = some c) (hp : c.phase = .releasing completion)
    (hcalls : t.calls = s.calls.set p { c with phase := .ended (some completion), given := c.given + 1 })
    (hd : t.queueDepths =
      Function.update s.queueDepths completion.workerIdx (wrappingPred (s.queueDepths completion.workerIdx))) : Accounts t := by
  have hpos : 0 < s.queueDepths completion.workerIdx := h.pos hc (by rw [hp]; rfl)
  have hpred : wrappingPred (s.queueDepths completion.workerIdx) = s.queueDepths completion.workerIdx - 1 :=
    if_neg (Nat.ne_of_gt hpos)
  have hheld : t.held = Function.update s.held completion.workerIdx (s.held completion.workerIdx - 1) :=
    held_release hc hcalls (by rw [hp]; rfl) rfl
  rw [hpred] at hd
  refine ⟨fun w => ?_, fun w => ?_, entries_set h.entries hcalls ?_⟩
  · rw [hd, hheld, funext h.depth]
  · rw [hd]
    have hle := h.bounded w
    by_cases hidx : w = completion.workerIdx
    · subst hidx
      rw [Function.update_self]
      omega
    · rw [Function.update_of_ne hidx]
      exact hle
  · have hold := h.entries c (List.mem_of_getElem? hc)
    rw [hp] at hold
    obtain ⟨htaken, hgiven⟩ := Prod.mk.inj hold
    simp only [htaken, hgiven]
    rfl

end

/-- Every step keeps the accounts. -/
theorem Accounts.step {a : PoolAction spec} (h : Accounts s) (hs : Stepped s a s') : Accounts s' := by
  cases hs with
  | arrive task prepared routeTier workerHint =>
    refine ⟨fun w => ?_, h.bounded, fun c hc => ?_⟩
    · have hnone : (arrived task prepared routeTier workerHint : ProcessCall spec.workers).phase.holds = none := rfl
      unfold held
      rw [List.countP_append, h.depth w]
      simp [held, hnone]
    · rcases List.mem_append.mp hc with hc | hc
      · exact h.entries c hc
      · rw [List.mem_singleton.mp hc]
        rfl
  | seek _ p c ph result hc hbefore hafter _ =>
    refine h.move hc rfl rfl (hafter.1.trans hbefore.1.symm) ?_ rfl
    exact (entries_unreserved hafter).trans (entries_unreserved hbefore).symm
  | reserve p c idx hinted overflow hc hp hlt =>
    exact h.reserve hc (by rw [hp]; exact ⟨rfl, rfl⟩) rfl rfl hlt rfl rfl
  | mark p c now idx hc hp => exact h.move hc rfl rfl (by rw [hp]; rfl) (by rw [hp]; rfl) rfl
  | acquire p c completion hc hp => exact h.move hc rfl rfl (by rw [hp]; rfl) (by rw [hp]; rfl) rfl
  | push p c completion hc hp => exact h.move hc rfl rfl (by rw [hp]; rfl) (by rw [hp]; rfl) rfl
  | unsent _ p c completion result hc hp => exact h.move hc rfl rfl (by rw [hp]; rfl) (by rw [hp]; rfl) rfl
  | forget p c hc => exact h.move hc rfl rfl rfl rfl rfl
  | release p c completion hc hp => exact h.release hc hp rfl rfl
  | take w p c completion rest hw hq hc hp => exact h.move hc rfl rfl (by rw [hp]; rfl) (by rw [hp]; rfl) rfl
  | stop w rest hw hq => exact h.congr rfl rfl
  | execute w p c stageEnd current result hw hc hrun => exact h.congr rfl rfl
  | finish w p c completion result hw hc hp => exact h.move hc rfl rfl (by rw [hp]; rfl) (by rw [hp]; rfl) rfl
  | respond w p c result answer hw hc => exact h.move hc rfl rfl rfl rfl rfl
  | crash w hw => exact h.congr rfl rfl
  | crashInHand w p c completion result hw hc hp => exact h.move hc rfl rfl (by rw [hp]; rfl) (by rw [hp]; rfl) rfl
  | drain w p c completion rest result hw hq hc hp => exact h.move hc rfl rfl (by rw [hp]; rfl) (by rw [hp]; rfl) rfl
  | discard w rest hw hq => exact h.congr rfl rfl
  | retire w => exact h.congr rfl rfl

/-- A counter goes down for a completion that was finished or dropped. -/
theorem release_inv {p : Nat} (h : WorkerPool.step s (.release p) = some s') :
    ∃ c completion, s.calls[p]? = some c ∧ c.phase = .releasing completion ∧
      s'.queueDepths = Function.update s.queueDepths completion.workerIdx
        (wrappingPred (s.queueDepths completion.workerIdx)) := by
  obtain ⟨c, hc, h⟩ := Option.bind_eq_some_iff.mp h
  simp only [callStep] at h
  split at h
  · rename_i completion hp
    cases h
    exact ⟨c, completion, hc, hp, rfl⟩
  · cases h

theorem reachable_accounts (h : (machine spec).Reachable s) : Accounts s :=
  h.invariant (I := Accounts) Accounts.new fun _ _ _ hi hs => hi.step (step_stepped hs)

/-- What the counters can be relied on for. -/
structure DepthsExact (s : WorkerPool spec) : Prop where
  /-- A counter is the number of commands reserved at its worker and neither finished nor abandoned. -/
  depth : ∀ w, s.queueDepths w = s.held w
  bounded : ∀ w, s.queueDepths w ≤ spec.queueCapacity
  /-- A counter that goes down was not zero. -/
  noUnderflow : ∀ p s', WorkerPool.step s (.release p) = some s' →
    ∃ w, 0 < s.queueDepths w ∧ s'.queueDepths = Function.update s.queueDepths w (s.queueDepths w - 1)
  /-- Once no command has a place the counter is back at zero. -/
  zero : ∀ w, (∀ c ∈ s.calls, c.phase.holds ≠ some w) → s.queueDepths w = 0
  /-- A call that has ended, or has no reservation yet, has lowered a counter as often as it has raised one. -/
  balanced : ∀ c ∈ s.calls, c.phase.holds = none → c.given = c.taken
  /-- No call raises a counter twice. -/
  once : ∀ c ∈ s.calls, c.taken ≤ 1

/-- A call without a place has given back what it took, and nobody takes twice. -/
theorem entries_balanced {n : Nat} (ph : CallPhase n) : (ph.holds = none → ph.entries.2 = ph.entries.1) ∧ ph.entries.1 ≤ 1 := by
  cases ph with
  | called => exact ⟨fun _ => rfl, Nat.zero_le 1⟩
  | scanning seen => exact ⟨fun _ => rfl, Nat.zero_le 1⟩
  | picked idx hinted => exact ⟨fun _ => rfl, Nat.zero_le 1⟩
  | reserving idx hinted current => exact ⟨fun _ => rfl, Nat.zero_le 1⟩
  | reserved idx => exact ⟨fun h => (by cases h), Nat.le_refl 1⟩
  | sending completion => exact ⟨fun h => (by cases h), Nat.le_refl 1⟩
  | permitted completion => exact ⟨fun h => (by cases h), Nat.le_refl 1⟩
  | queued completion => exact ⟨fun h => (by cases h), Nat.le_refl 1⟩
  | running completion => exact ⟨fun h => (by cases h), Nat.le_refl 1⟩
  | releasing completion => exact ⟨fun h => (by cases h), Nat.le_refl 1⟩
  | ended completion =>
    cases completion with
    | none => exact ⟨fun _ => rfl, Nat.zero_le 1⟩
    | some completion => exact ⟨fun _ => rfl, Nat.le_refl 1⟩

/-- The queue-depth counters are exact in every state a pool gets into. -/
theorem queue_depths_exact (h : (machine spec).Reachable s) : DepthsExact s := by
  have hacc := reachable_accounts h
  have hentries : ∀ c ∈ s.calls, c.taken = c.phase.entries.1 ∧ c.given = c.phase.entries.2 := by
    intro c hc
    have hpair := hacc.entries c hc
    exact ⟨congrArg Prod.fst hpair, congrArg Prod.snd hpair⟩
  refine ⟨hacc.depth, hacc.bounded, fun p s' hs => ?_, fun w hnone => ?_, fun c hc hnone => ?_, fun c hc => ?_⟩
  · obtain ⟨c, completion, hc, hp, hd⟩ := release_inv hs
    have hpos : 0 < s.queueDepths completion.workerIdx := hacc.pos hc (by rw [hp]; rfl)
    refine ⟨completion.workerIdx, hpos, ?_⟩
    rw [hd, wrappingPred, if_neg (Nat.ne_of_gt hpos)]
  · rw [hacc.depth w]
    exact List.countP_eq_zero.mpr fun c hc => by simpa using hnone c hc
  · rw [(hentries c hc).1, (hentries c hc).2]
    exact (entries_balanced c.phase).1 hnone
  · rw [(hentries c hc).1]
    exact (entries_balanced c.phase).2

/-- A pool of one worker, with room for one command and one more above the soft limit. -/
def singleWorker : PoolSpec := ⟨1, 1, 2, fun _ => 0⟩

def onlyWorker : Fin singleWorker.workers := ⟨0, by decide⟩

/-- The call `p` is made for the worker, reserves a place and is marked. -/
def dispatchRun (p : Nat) (task : InternalTask) : List (PoolAction singleWorker) :=
  [.process task none .tier1WarmTracking (some 0), .look p, .load p, .compareExchange p false, .mark p 0]

/-- The first of two calls is cancelled while it waits for its place in the channel. -/
theorem queue_depths_exact_after_cancel :
    ∃ s : WorkerPool singleWorker, (machine singleWorker).Reachable s ∧ s.queueDepths onlyWorker = 1 ∧ DepthsExact s := by
  have hrun : ((machine singleWorker).run new (dispatchRun 0 Dispatcher.tileTask ++ dispatchRun 1 Dispatcher.tileTask ++
      [.cancel 0, .release 0])).map (fun s => s.queueDepths onlyWorker) = some 1 := by decide
  obtain ⟨s, hs, hdepth⟩ := Option.map_eq_some_iff.mp hrun
  have hreach : (machine singleWorker).Reachable s := Machine.reachable_of_run hs
  exact ⟨s, hreach, hdepth, queue_depths_exact hreach⟩

end WorkerPool

/-! ## The pool keeps its books -/

namespace PoolState

variable {n : Nat} {s : PoolState n}

theorem reachable_booked (h : (machine n).Reachable s) : Booked s := by
  refine h.invariant (I := Booked) Booked.new fun t op t' ht hs => ?_
  cases hs
  exact ht.apply op

/-- What a pool's state can be relied on for. -/
structure Bookkeeping (s : PoolState n) : Prop where
  /-- A profile is counted as often as a worker has it, and has no entry when none has. -/
  counts : ∀ p, s.profileCounts p = if tally s.loaded (some p) = 0 then none else some (tally s.loaded (some p))
  /-- The count of a profile that is about to be taken out of a slot is not zero. -/
  noUnderflow : ∀ idx p, s.loaded idx = some p → ∃ count, s.profileCounts p = some count ∧ 0 < count
  /-- The sources of a worker and their order of use are the same. -/
  sources : ∀ idx, s.addlayerSourceIds idx = (s.addlayerSourceLru idx).toFinset
  nodup : ∀ idx, (s.addlayerSourceLru idx).Nodup
  bounded : ∀ idx, (s.addlayerSourceIds idx).card ≤ addlayerSourceAffinityCapacity

/-- After any operations the pool's books are right, and the next operation leaves no sources to a worker whose profile it changes
or clears. -/
theorem pool_bookkeeping (h : (machine n).Reachable s) :
    Bookkeeping s ∧
      ∀ op idx, ((s.apply op).loaded idx ≠ s.loaded idx ∨ op = .clearLoaded idx ∨
        op = .clearLoadedIfLatest idx (s.dispatchGenerations idx)) →
        (s.apply op).addlayerSourceIds idx = ∅ ∧ (s.apply op).addlayerSourceLru idx = [] := by
  have hbooked := reachable_booked h
  refine ⟨⟨fun p => ?_, fun idx p hp => ?_, fun idx => (hbooked.sources idx).same, fun idx => (hbooked.sources idx).nodup,
    fun idx => (hbooked.sources idx).bounded⟩, ?_⟩
  · obtain ⟨hzero, hcount⟩ := hbooked.counts p
    rw [← hcount]
    cases hp : s.profileCounts p with
    | none => rfl
    | some count =>
      rw [hp] at hzero
      have hne : count ≠ 0 := fun heq => hzero (congrArg some heq)
      simp [hne]
  · obtain ⟨count, hcount⟩ := hbooked.counts.pos hp
    exact ⟨count + 1, hcount, Nat.succ_pos count⟩
  · rintro op idx (hne | rfl | rfl)
    · exact noSources_of_loaded_ne hne
    · exact noSources_clearLoaded s idx
    · simp only [PoolState.apply, clearLoadedIfLatest, if_true]
      exact noSources_clearLoaded s idx

/-- A profile of a style, for tiles. -/
def tileProfile (style : String) : WorkerProfile := ⟨⟨⟨style⟩, 1⟩, .tile, .x1⟩

/-- Two workers take one profile, one of them with a source, and then another. -/
theorem pool_bookkeeping_two_workers :
    ∃ s : PoolState 2, (machine 2).Reachable s ∧ s.profileCounts (tileProfile "a") = some 1 ∧
      s.profileCounts (tileProfile "b") = some 1 ∧ Bookkeeping s := by
  have hrun : ((machine 2).run (machine 2).init [.markLoaded 0 0 (tileProfile "a"), .markAddlayerSource 0 "x",
      .markLoaded 0 1 (tileProfile "a"), .markLoaded 0 0 (tileProfile "b")]).map
        (fun s => (s.profileCounts (tileProfile "a"), s.profileCounts (tileProfile "b"))) = some (some 1, some 1) := by
    decide
  obtain ⟨s, hs, hcounts⟩ := Option.map_eq_some_iff.mp hrun
  have hreach := Machine.reachable_of_run hs
  obtain ⟨ha, hb⟩ := Prod.mk.inj hcounts
  exact ⟨s, hreach, ha, hb, (pool_bookkeeping hreach).1⟩

end PoolState

/-! ## A pool's records agree with its workers -/

namespace WorkerPool

variable {spec : PoolSpec} {s s' : WorkerPool spec}

/-- A command is put into a channel before any command marked later for the same worker. -/
def InOrder (s : WorkerPool spec) (a : PoolAction spec) : Prop :=
  ∀ p c d, a = .push p → s.calls[p]? = some c → c.phase = .permitted d →
    ∀ c' ∈ s.calls, c'.enqueued = true → ∀ d', c'.phase.completion = some d' → d'.workerIdx = d.workerIdx → d'.stamp < d.stamp

/-! ## Steps of a call -/

section

variable {p : Nat} {c c' : ProcessCall spec.workers} {completion : WorkerCompletion spec.workers}

/-- A call moves that no worker has. -/
theorem workersOk_set (h : OrderInv s) (hc : s.calls[p]? = some c)
    (hcomp : ∀ d, c.phase.completion = some d → c'.phase.completion = some d) (henq : c.enqueued = true → c'.enqueued = true)
    (hqueued : ∀ d, c.phase ≠ .queued d) (hrunning : ∀ d, c.phase ≠ .running d) (w : Fin spec.workers) :
    WorkerOk (s.calls.set p c') w (s.workers w) :=
  (h.workers w).set hc hcomp henq (fun d hd => absurd hd (hqueued d)) (fun d hd => absurd hd (hrunning d))

/-- A call that has no completion, and gets none. -/
theorem OrderInv.seek (h : OrderInv s) (hc : s.calls[p]? = some c) (hcalls : s'.calls = s.calls.set p c')
    (hbefore : c.phase.completion = none) (hafter : c'.phase.completion = none) (htask : c'.task = c.task)
    (henq : c'.enqueued = c.enqueued) (hmarks : s'.marks = s.marks) (hstate : s'.state = s.state)
    (hworkers : s'.workers = s.workers) : OrderInv s' := by
  refine h.move hc hcalls (hafter.trans hbefore.symm) htask hmarks hstate (fun w => ?_) (fun w => ?_) (fun d hd => ?_)
  · rw [hcalls, hworkers]
    refine workersOk_set h hc (fun d hd => ?_) (fun he => henq.trans he) (fun d hd => ?_) (fun d hd => ?_) w
    · rw [hbefore] at hd
      cases hd
    · rw [hd] at hbefore
      cases hbefore
    · rw [hd] at hbefore
      cases hbefore
  · rw [hworkers]
    exact .refl _
  · rw [hbefore] at hd
    cases hd

/-- The stamps after a mark. -/
theorem Stamps.mark (h : Stamps s) (hc : s.calls[p]? = some c) (hnone : c.phase.completion = none)
    (hcalls : s'.calls = s.calls.set p c') (hnew : c'.phase.completion = some completion)
    (hstamp : completion.stamp = s.marks + 1) (hmarks : s'.marks = s.marks + 1)
    (hgen : s'.state.dispatchGenerations =
      Function.update s.state.dispatchGenerations completion.workerIdx completion.dispatchGeneration) :
    Stamps s' ∧ Latest s' completion ∧
      ∀ d, Latest s d → d.workerIdx ≠ completion.workerIdx → Latest s' d := by
  have hat : ∀ q d, s'.completionAt q = some d → (q = p ∧ d = completion) ∨ (q ≠ p ∧ s.completionAt q = some d) := by
    intro q d hq
    obtain ⟨e, he, hd⟩ := Option.bind_eq_some_iff.mp hq
    rw [hcalls] at he
    rcases getElem?_set_cases hc he with ⟨rfl, rfl⟩ | ⟨hne, hold⟩
    · exact Or.inl ⟨rfl, (Option.some.inj (hnew.symm.trans hd)).symm⟩
    · exact Or.inr ⟨hne, (completionAt_eq hold).trans hd⟩
  have hself : s'.completionAt p = some completion := by
    refine (completionAt_eq ?_).trans hnew
    rw [hcalls]
    exact getElem?_set_of_some hc c'
  have hold : ∀ q d, q ≠ p → s.completionAt q = some d → s'.completionAt q = some d := by
    intro q d hne hq
    obtain ⟨e, he, hd⟩ := Option.bind_eq_some_iff.mp hq
    refine (completionAt_eq (c := e) ?_).trans hd
    rw [hcalls, List.getElem?_set_ne (Ne.symm hne)]
    exact he
  have hnotp : ∀ q d, s.completionAt q = some d → q ≠ p := by
    rintro q d hq rfl
    rw [completionAt_eq hc, hnone] at hq
    cases hq
  refine ⟨⟨fun q d hq => ?_, fun q r d e hq hr hsame => ?_, fun q d hq hlatest => ?_⟩, fun q d hq hw => ?_,
    fun d hlatest hw q e hq hwe => ?_⟩
  · rcases hat q d hq with ⟨rfl, rfl⟩ | ⟨hne, hq⟩
    · omega
    · have := h.bounded q d hq
      omega
  · rcases hat q d hq with ⟨rfl, rfl⟩ | ⟨-, hq⟩
    · rcases hat r e hr with ⟨rfl, -⟩ | ⟨-, hr⟩
      · rfl
      · have := h.bounded r e hr
        omega
    · rcases hat r e hr with ⟨rfl, rfl⟩ | ⟨-, hr⟩
      · have := h.bounded q d hq
        omega
      · exact h.distinct q r d e hq hr hsame
  · rcases hat q d hq with ⟨rfl, rfl⟩ | ⟨hne, hq⟩
    · rw [hgen, Function.update_self]
    · have hw : d.workerIdx ≠ completion.workerIdx := by
        intro hw
        have hle := hlatest p completion hself hw.symm
        have := h.bounded q d hq
        omega
      rw [hgen, Function.update_of_ne hw]
      exact h.latest q d hq fun r e hr hwe => hlatest r e (hold r e (hnotp r e hr) hr) hwe
  · rcases hat q d hq with ⟨-, rfl⟩ | ⟨-, hq⟩
    · exact Nat.le_refl _
    · have := h.bounded q d hq
      omega
  · rcases hat q e hq with ⟨-, rfl⟩ | ⟨-, hq⟩
    · exact absurd hwe.symm hw
    · exact hlatest q e hq hwe

/-- A command is marked: the pool now predicts its profile. -/
theorem OrderInv.mark (h : OrderInv s) {now : Instant} {idx : Fin spec.workers} (hc : s.calls[p]? = some c)
    (hp : c.phase = .reserved idx)
    (hcalls : s'.calls = s.calls.set p { c with phase := .sending ⟨idx, s.state.dispatchGenerations idx + 1, s.marks + 1⟩ })
    (hmarks : s'.marks = s.marks + 1) (hstate : s'.state = s.marked c now idx) (hworkers : s'.workers = s.workers) :
    OrderInv s' := by
  obtain ⟨hloaded, hgen⟩ : (s.marked c now idx).loaded = Function.update s.state.loaded idx (some c.task.workerProfile) ∧
      (s.marked c now idx).dispatchGenerations =
        Function.update s.state.dispatchGenerations idx (s.state.dispatchGenerations idx + 1) := by
    obtain ⟨hloaded, -, hgen⟩ := PoolState.markLoaded_spec s.state now idx c.task.workerProfile
    unfold marked
    cases addlayerSourceId spec c with
    | none => exact ⟨hloaded, hgen⟩
    | some sourceId =>
      obtain ⟨hl, hg⟩ := PoolState.markAddlayerSource_loaded (s.state.markLoaded now idx c.task.workerProfile).1 idx sourceId
      exact ⟨hl.trans hloaded, hg.trans hgen⟩
  have hnone : c.phase.completion = none := by
    rw [hp]
    rfl
  obtain ⟨hstamps, hnew, hothers⟩ := h.stamps.mark hc hnone hcalls rfl rfl hmarks (hstate ▸ hgen)
  refine ⟨hstamps, fun w => ?_, ⟨fun w profile hl => ?_, fun w q output hq => ?_, ?_⟩⟩
  · rw [hcalls, hworkers]
    refine workersOk_set h hc (fun d hd => ?_) (fun he => ?_) (by simp [hp]) (by simp [hp]) w
    · rw [hnone] at hd
      cases hd
    · exact he
  · rw [hstate, hloaded] at hl
    unfold PredictedAt
    rw [hcalls, hworkers]
    by_cases hw : w = idx
    · subst hw
      rw [Function.update_self] at hl
      exact ⟨p, _, _, getElem?_set_of_some hc _, rfl, rfl, hnew, Option.some.inj hl, Or.inl trivial⟩
    · rw [Function.update_of_ne hw] at hl
      obtain ⟨q, e, d, he, hd, rfl, hlatest, hprof, hstatus⟩ := h.predicts.predicted w profile hl
      have hqp : q ≠ p := by
        rintro rfl
        cases hc.symm.trans he
        rw [hnone] at hd
        cases hd
      exact ⟨q, e, d, (List.getElem?_set_ne (Ne.symm hqp)).trans he, hd, rfl, hothers d hlatest hw, hprof, hstatus⟩
  · rw [hworkers] at hq ⊢
    rw [hcalls]
    obtain ⟨e, he, hcur⟩ := h.predicts.executed w q output hq
    by_cases hqp : q = p
    · subst hqp
      cases hc.symm.trans he
      exact ⟨_, getElem?_set_of_some hc _, hcur⟩
    · exact ⟨e, (List.getElem?_set_ne (Ne.symm hqp)).trans he, hcur⟩
  · rw [hworkers]
    exact h.predicts.invalidated

/-- A command is put into the channel, in order. -/
theorem OrderInv.push (h : OrderInv s) (hc : s.calls[p]? = some c) (hp : c.phase = .permitted completion)
    (hin : InOrder s (.push p)) :
    OrderInv ((s.setCall p { c with phase := .queued completion, enqueued := true }).setWorker completion.workerIdx
      { s.workers completion.workerIdx with queue := (s.workers completion.workerIdx).queue ++ [.process p] }) := by
  have hearlier := hin p c completion rfl hc hp
  have hset : ∀ w, WorkerOk (s.calls.set p { c with phase := .queued completion, enqueued := true }) w (s.workers w) :=
    workersOk_set h hc (fun d hd => by rw [hp] at hd; exact hd) (fun _ => rfl) (by simp [hp]) (by simp [hp])
  have hold := h.workers completion.workerIdx
  refine h.move hc rfl (by rw [hp]; rfl) rfl rfl rfl ?_ (fun w => ?_) (fun _ _ _ => Or.inl trivial)
  · refine (Function.forall_update_iff s.workers fun w x =>
      WorkerOk (s.calls.set p { c with phase := .queued completion, enqueued := true }) w x).mpr ⟨?_, fun w _ => hset w⟩
    obtain ⟨hchannel, htaken, hrunning⟩ := hset completion.workerIdx
    refine ⟨hchannel.push (getElem?_set_of_some hc _) rfl rfl rfl (fun x hx => ?_) ?_, htaken, hrunning⟩
    · -- what is in the channel was put there, so the guard speaks of it
      obtain ⟨q, e, d, hq, he, hd, rfl⟩ := mem_stamps.mp hx
      obtain ⟨e', d', he', hqueued, hw, henq⟩ := hold.channel.queued q hq
      rcases getElem?_set_cases hc he with ⟨rfl, -⟩ | ⟨-, he⟩
      · cases hc.symm.trans he'
        rw [hp] at hqueued
        cases hqueued
      · cases he.symm.trans he'
        obtain rfl : d' = d := by simpa [hqueued, CallPhase.completion] using hd
        exact hearlier e (List.mem_of_getElem? he) henq d' hd hw
    · rcases hold.taken with hzero | ⟨q, e, d, he, henq, hd, hw, hstamp⟩
      · have := h.stamps.bounded p completion (by rw [completionAt_eq hc, hp]; rfl)
        omega
      · have := hearlier e (List.mem_of_getElem? he) henq d hd hw
        omega
  · have hkeeps : Keeps (s.workers completion.workerIdx)
        { s.workers completion.workerIdx with queue := (s.workers completion.workerIdx).queue ++ [.process p] } :=
      ⟨rfl, rfl, Nat.le_refl _, fun _ _ hq => hq⟩
    exact hkeeps.setWorker w

end

/-! ## Steps of a worker -/

section

variable {p : Nat} {c c' : ProcessCall spec.workers} {completion : WorkerCompletion spec.workers} {w : Fin spec.workers}
  {worker : PoolWorker}

/-- A worker's loop moves, and no call with it. -/
theorem OrderInv.setWorker (h : OrderInv s) (hworker : WorkerOk s.calls w worker) (hkeeps : Keeps (s.workers w) worker) :
    OrderInv (s.setWorker w worker) := by
  refine h.same SameCalls.refl (fun _ => rfl) rfl rfl ?_ (Keeps.setWorker hkeeps)
  exact (Function.forall_update_iff s.workers fun v x => WorkerOk s.calls v x).mpr ⟨hworker, fun v _ => h.workers v⟩

/-- The first command of the channel is taken in hand. -/
theorem OrderInv.take (h : OrderInv s) {rest : List PoolCmd} (hq : (s.workers w).queue = .process p :: rest)
    (hc : s.calls[p]? = some c) (hp : c.phase = .queued completion) :
    OrderInv ((s.setCall p { c with phase := .running completion }).setWorker w
      { s.workers w with queue := rest, phase := .running p, taken := completion.stamp }) := by
  have hold := h.workers w
  have hd : c.phase.completion = some completion := by
    rw [hp]
    rfl
  obtain ⟨e, d, he, hqueued, hw, henq⟩ := hold.channel.queued p (hq ▸ List.mem_cons_self)
  cases hc.symm.trans he
  obtain rfl : completion = d := by simpa [hp] using hqueued
  obtain ⟨hchannel, hnot, hlt⟩ := (hq ▸ hold.channel : ChannelOk s.calls w (.process p :: rest) _).tail hc hd
  refine h.move hc rfl hd.symm rfl rfl rfl ?_ (fun v => ?_) (fun _ _ _ => Or.inl trivial)
  · refine (Function.forall_update_iff s.workers fun v x =>
      WorkerOk (s.calls.set p { c with phase := .running completion }) v x).mpr ⟨⟨?_, ?_, ?_⟩, fun v hv => ?_⟩
    · exact hchannel.set hc (Or.inl hnot)
    · exact Or.inr ⟨p, _, completion, getElem?_set_of_some hc _, henq, rfl, hw, rfl⟩
    · intro q hphase
      obtain rfl : p = q := by simpa using hphase
      exact ⟨_, completion, getElem?_set_of_some hc _, rfl, hw, rfl⟩
    · refine (h.workers v).set hc (fun d hd' => hd.symm.trans hd') (fun he => he) (fun d hd' => ?_) (fun d hd' => ?_)
      · obtain rfl : completion = d := by simpa [hp] using hd'
        exact fun hwv => hv (hwv.symm.trans hw)
      · rw [hp] at hd'
        cases hd'
  · have hkeeps : Keeps (s.workers w) { s.workers w with queue := rest, phase := .running p, taken := completion.stamp } :=
      ⟨rfl, rfl, Nat.le_of_lt hlt, fun _ _ hphase => by cases hphase⟩
    exact hkeeps.setWorker v

/-- A worker that has rendered has the task's profile loaded. -/
theorem runStages_ok {current current' : Option (WorkerProfile × Option CredentialCachePartition)} {task : InternalTask}
    {stageEnd : StageEnd} {output : RenderOutput} (h : runStages current task stageEnd = some (current', .ok output)) :
    current' = some (task.workerProfile, task.partition) := by
  unfold runStages at h
  dsimp only at h
  split at h
  · cases h
  · split at h
    · cases h
    · cases h
  · cases h
  · cases h
    split
    · rfl
    · rename_i hswap
      unfold needsSetup at hswap
      split at hswap
      · simp at hswap
      · rename_i profile partition
        simp only [Bool.or_eq_true, bne_iff_ne, ne_eq, not_or, Decidable.not_not] at hswap
        rw [hswap.1, hswap.2]

/-- The stages of a command run: nothing else of the worker was predicted to be loaded. -/
theorem OrderInv.execute (h : OrderInv s) {stageEnd : StageEnd}
    {current : Option (WorkerProfile × Option CredentialCachePartition)} {result : Except StageFailure RenderOutput}
    (hw : (s.workers w).phase = .running p) (hc : s.calls[p]? = some c)
    (hrun : runStages (s.workers w).currentProfile c.task stageEnd = some (current, result)) :
    OrderInv (s.setWorker w { s.workers w with
      currentProfile := keptAfter current result, phase := .executed p result, last := some result }) := by
  have hold := h.workers w
  obtain ⟨e, d, he, hphase, hdw, hstamp⟩ := hold.running p (Or.inl hw)
  cases hc.symm.trans he
  have hd : c.phase.completion = some d := by
    rw [hphase]
    rfl
  refine ⟨h.stamps.congr (fun _ => rfl) rfl rfl, ?_, ⟨fun v profile hl => ?_, ?_, ?_⟩⟩
  · refine (Function.forall_update_iff s.workers fun v x => WorkerOk s.calls v x).mpr ⟨⟨hold.channel, hold.taken, ?_⟩,
      fun v _ => h.workers v⟩
    intro q hq
    obtain rfl : p = q := by simpa using hq
    exact ⟨c, d, hc, hphase, hdw, hstamp⟩
  · obtain ⟨q, e, d', he', hd', hw', hlatest, hprof, hstatus⟩ := h.predicts.predicted v profile hl
    refine ⟨q, e, d', he', hd', hw', hlatest, hprof, ?_⟩
    by_cases hv : v = w
    · subst hv
      rcases hstatus with hlive | ⟨hle, -⟩
      · exact Or.inl hlive
      · -- the last command marked was taken already, so it is the one in hand
        have hge := hlatest p d ((completionAt_eq hc).trans hd) (hdw.trans hw'.symm)
        have hpq : p = q := h.stamps.distinct p q d d' ((completionAt_eq hc).trans hd) ((completionAt_eq he').trans hd')
          (by omega)
        subst hpq
        cases hc.symm.trans he'
        rw [hphase]
        exact Or.inl trivial
    · have hsame : ((s.setWorker w { s.workers w with
          currentProfile := keptAfter current result, phase := .executed p result, last := some result }).workers v) =
          s.workers v := Function.update_of_ne hv ..
      rw [hsame]
      exact hstatus
  · refine (Function.forall_update_iff s.workers fun v x => ∀ q output, x.phase = .executed q (.ok output) →
      ∃ c, s.calls[q]? = some c ∧ x.currentProfile = some (c.task.workerProfile, c.task.partition)).mpr
      ⟨fun q output hq => ?_, fun v _ => h.predicts.executed v⟩
    obtain ⟨rfl, rfl⟩ : p = q ∧ result = .ok output := by simpa using hq
    exact ⟨c, hc, runStages_ok hrun⟩
  · refine (Function.forall_update_iff s.workers fun v x => ∀ stage err, x.last = some (.error (.rendererError stage err)) →
      Worker.rendererErrorInvalidatesWarmState err = true → x.currentProfile = none).mpr
      ⟨fun stage err hlast hinv => ?_, fun v _ => h.predicts.invalidated v⟩
    obtain rfl : result = .error (.rendererError stage err) := by simpa using hlast
    simp only [keptAfter, hinv, if_true]

/-- A worker lets go of the command it has in hand. -/
theorem workersOk_letGo (h : OrderInv s) (hc : s.calls[p]? = some c) (hp : c.phase = .running completion)
    (hw : completion.workerIdx = w) (hc' : c'.phase = .releasing completion) (henq : c'.enqueued = c.enqueued)
    (hworker : worker.queue = (s.workers w).queue ∧ worker.taken = (s.workers w).taken)
    (hempty : RunningOk (s.calls.set p c') w worker.phase worker.taken) :
    ∀ v, WorkerOk (s.calls.set p c') v (Function.update s.workers w worker v) := by
  have hcomp : ∀ d, c.phase.completion = some d → c'.phase.completion = some d := by
    intro d hd
    rw [hc']
    rw [hp] at hd
    exact hd
  refine (Function.forall_update_iff s.workers fun v x => WorkerOk (s.calls.set p c') v x).mpr ⟨⟨?_, ?_, hempty⟩, fun v hv => ?_⟩
  · rw [hworker.1, hworker.2]
    exact (h.workers w).channel.set hc (Or.inl ((h.workers w).channel.not_mem hc (by simp [hp])))
  · rw [hworker.2]
    exact (h.workers w).taken.set hc hcomp fun he => henq.trans he
  · refine (h.workers v).set hc hcomp (fun he => henq.trans he) (by simp [hp]) (fun d hd => ?_)
    obtain rfl : completion = d := by simpa [hp] using hd
    exact fun hwv => hv (hwv.symm.trans hw)

/-- The command in hand is the worker's, and the last it has taken. -/
theorem OrderInv.running (h : OrderInv s) (hw : (s.workers w).phase = .running p ∨ ∃ result,
    (s.workers w).phase = .executed p result)
    (hc : s.calls[p]? = some c) (hp : c.phase = .running completion) :
    completion.workerIdx = w ∧ completion.stamp = (s.workers w).taken := by
  obtain ⟨e, d, he, hphase, hdw, hstamp⟩ := (h.workers w).running p hw
  cases hc.symm.trans he
  obtain rfl : completion = d := by simpa [hp] using hphase
  exact ⟨hdw, hstamp⟩

/-- A completion is finished. -/
theorem OrderInv.finish (h : OrderInv s) {result : Except StageFailure RenderOutput}
    (hw : (s.workers w).phase = .executed p result) (hc : s.calls[p]? = some c) (hp : c.phase = .running completion) :
    OrderInv { (s.setCall p { c with phase := .releasing completion }).setWorker w
        { s.workers w with phase := .responding p result } with
      state := s.finished completion result } := by
  obtain ⟨hdw, hstamp⟩ := h.running (Or.inr ⟨result, hw⟩) hc hp
  have hd : c.phase.completion = some completion := by
    rw [hp]
    rfl
  have hworkers : ∀ v, WorkerOk (s.calls.set p { c with phase := .releasing completion }) v
      (Function.update s.workers w { s.workers w with phase := .responding p result } v) :=
    workersOk_letGo h hc hp hdw rfl rfl ⟨rfl, rfl⟩
      (RunningOk.of_empty (fun _ hq => by cases hq) (fun _ _ hq => by cases hq))
  have hkeeps : ∀ v, Keeps (s.workers v) ((s.setWorker w { s.workers w with phase := .responding p result }).workers v) :=
    Keeps.setWorker ⟨rfl, rfl, Nat.le_refl _, fun _ _ hq => by cases hq⟩
  cases result with
  | ok output =>
    refine h.move hc rfl hd.symm rfl rfl rfl hworkers hkeeps fun d hd' _ => Or.inr ?_
    cases hd.symm.trans hd'
    obtain ⟨e, he, hcur⟩ := h.predicts.executed w p output hw
    cases hc.symm.trans he
    have hleft : LeftLoaded (s.workers w) completion.stamp c.task.workerProfile :=
      ⟨Nat.le_of_eq hstamp, c.task.partition, hcur⟩
    rw [hdw]
    exact hleft.keeps (hkeeps w)
  | error failure => exact h.drop hc hd rfl hd.symm rfl rfl rfl hworkers hkeeps

/-- The worker's task ends with a command in hand, which is dropped. -/
theorem OrderInv.crashInHand (h : OrderInv s) {result : CallResult}
    (hw : (s.workers w).phase = .running p ∨ ∃ result, (s.workers w).phase = .executed p result)
    (hc : s.calls[p]? = some c) (hp : c.phase = .running completion) :
    OrderInv ((s.setWorker w { s.workers w with phase := .stopped }).dropCompletion p (answered c result) completion) := by
  have hd : c.phase.completion = some completion := by
    rw [hp]
    rfl
  refine h.drop hc hd rfl hd.symm rfl rfl rfl ?_ ?_
  · exact workersOk_letGo h hc hp (h.running hw hc hp).1 rfl rfl ⟨rfl, rfl⟩
      (RunningOk.of_empty (fun _ hq => by cases hq) (fun _ _ hq => by cases hq))
  · exact Keeps.setWorker ⟨rfl, rfl, Nat.le_refl _, fun _ _ hq => by cases hq⟩

/-- A command left in the channel of a worker that has ended is dropped. -/
theorem OrderInv.drain (h : OrderInv s) {rest : List PoolCmd} {result : CallResult}
    (hq : (s.workers w).queue = .process p :: rest) (hc : s.calls[p]? = some c) (hp : c.phase = .queued completion) :
    OrderInv ((s.setWorker w { s.workers w with queue := rest }).dropCompletion p (answered c result) completion) := by
  have hold := h.workers w
  have hd : c.phase.completion = some completion := by
    rw [hp]
    rfl
  obtain ⟨e, d, he, hqueued, hw, -⟩ := hold.channel.queued p (hq ▸ List.mem_cons_self)
  cases hc.symm.trans he
  obtain rfl : completion = d := by simpa [hp] using hqueued
  obtain ⟨hchannel, hnot, hlt⟩ := (hq ▸ hold.channel : ChannelOk s.calls w (.process p :: rest) _).tail hc hd
  have habove : ChannelOk s.calls w rest (s.workers w).taken :=
    ⟨hchannel.queued, hchannel.sorted, fun x hx => Nat.lt_trans hlt (hchannel.above x hx)⟩
  refine h.drop hc hd rfl hd.symm rfl rfl rfl ?_ ?_
  · refine (Function.forall_update_iff s.workers fun v x =>
      WorkerOk (s.calls.set p { answered c result with phase := .releasing completion }) v x).mpr ⟨⟨?_, ?_, ?_⟩, fun v hv => ?_⟩
    · exact habove.set hc (Or.inl hnot)
    · exact hold.taken.set hc (fun d hd' => hd.symm.trans hd') (fun he => he)
    · exact hold.running.set hc fun d hd' _ => by rw [hp] at hd'; cases hd'
    · refine (h.workers v).set hc (fun d hd' => hd.symm.trans hd') (fun he => he) (fun d hd' => ?_) (fun d hd' => ?_)
      · obtain rfl : completion = d := by simpa [hp] using hd'
        exact fun hwv => hv (hwv.symm.trans hw)
      · rw [hp] at hd'
        cases hd'
  · exact Keeps.setWorker ⟨rfl, rfl, Nat.le_refl _, fun _ _ hq => hq⟩

end

/-! ## Runs -/

theorem OrderInv.step {a : PoolAction spec} (h : OrderInv s) (hin : InOrder s a) (hs : Stepped s a s') : OrderInv s' := by
  cases hs with
  | arrive task prepared routeTier workerHint =>
    exact h.same (SameCalls.append _) (completionAt_append rfl rfl) rfl rfl h.workers (fun w => .refl _)
  | seek _ p c ph result hc hbefore hafter _ => exact h.seek hc rfl hbefore.2 hafter.2 rfl rfl rfl rfl rfl
  | reserve p c idx hinted overflow hc hp hlt => exact h.seek hc rfl (by rw [hp]; rfl) rfl rfl rfl rfl rfl rfl
  | mark p c now idx hc hp => exact h.mark hc hp rfl rfl rfl rfl
  | acquire p c completion hc hp =>
    refine h.move hc rfl (by rw [hp]; rfl) rfl rfl rfl ?_ (fun w => .refl _) (fun _ _ _ => Or.inl trivial)
    exact workersOk_set h hc (fun d hd => by rw [hp] at hd; exact hd) (fun he => he) (by simp [hp]) (by simp [hp])
  | push p c completion hc hp => exact h.push hc hp hin
  | unsent _ p c completion result hc hp =>
    refine h.drop hc (by rw [hp]; rfl) rfl (by rw [hp]; rfl) rfl rfl rfl ?_ (fun w => .refl _)
    exact workersOk_set h hc (fun d hd => by rw [hp] at hd; exact hd) (fun he => he) (by simp [hp]) (by simp [hp])
  | forget p c hc =>
    exact h.same (SameCalls.set hc rfl rfl rfl) (completionAt_set hc rfl rfl) rfl rfl h.workers (fun w => .refl _)
  | release p c completion hc hp =>
    refine h.move hc rfl (by rw [hp]; rfl) rfl rfl rfl ?_ (fun w => .refl _) (fun d _ hlive => ?_)
    · exact workersOk_set h hc (fun d hd => by rw [hp] at hd; exact hd) (fun he => he) (by simp [hp]) (by simp [hp])
    · rw [hp] at hlive
      cases hlive
  | take w p c completion rest hw hq hc hp => exact h.take hq hc hp
  | stop w rest hw hq =>
    have hold := h.workers w
    refine h.setWorker ⟨(hq ▸ hold.channel : ChannelOk s.calls w (.retire :: rest) _).tail_retire, hold.taken, ?_⟩
      ⟨rfl, rfl, Nat.le_refl _, fun _ _ hphase => by cases hphase⟩
    exact RunningOk.of_empty (fun _ hphase => by cases hphase) (fun _ _ hphase => by cases hphase)
  | execute w p c stageEnd current result hw hc hrun => exact h.execute hw hc hrun
  | finish w p c completion result hw hc hp => exact h.finish hw hc hp
  | respond w p c result answer hw hc =>
    have hold := h.workers w
    have hsame : SameCalls s.calls (s.calls.set p (answered c answer)) := SameCalls.set hc rfl rfl rfl
    refine h.same hsame (completionAt_set hc rfl rfl) rfl rfl ?_
      (Keeps.setWorker ⟨rfl, rfl, Nat.le_refl _, fun _ _ hphase => by cases hphase⟩)
    refine (Function.forall_update_iff s.workers fun v x => WorkerOk s.calls v x).mpr
      ⟨⟨hold.channel, hold.taken, ?_⟩, fun v _ => h.workers v⟩
    exact RunningOk.of_empty (fun _ hphase => by cases hphase) (fun _ _ hphase => by cases hphase)
  | crash w hw =>
    have hold := h.workers w
    refine h.setWorker ⟨hold.channel, hold.taken, ?_⟩ ⟨rfl, rfl, Nat.le_refl _, fun _ _ hphase => by cases hphase⟩
    exact RunningOk.of_empty (fun _ hphase => by cases hphase) (fun _ _ hphase => by cases hphase)
  | crashInHand w p c completion result hw hc hp => exact h.crashInHand hw hc hp
  | drain w p c completion rest result hw hq hc hp => exact h.drain hq hc hp
  | discard w rest hw hq =>
    have hold := h.workers w
    exact h.setWorker ⟨(hq ▸ hold.channel : ChannelOk s.calls w (.retire :: rest) _).tail_retire, hold.taken, hold.running⟩
      ⟨rfl, rfl, Nat.le_refl _, fun _ _ hphase => hphase⟩
  | retire w =>
    have hold := h.workers w
    exact h.setWorker ⟨hold.channel.retire, hold.taken, hold.running⟩ ⟨rfl, rfl, Nat.le_refl _, fun _ _ hphase => hphase⟩

theorem orderInv_of_inOrder (h : (machine spec).ReachedBy InOrder s) : OrderInv s :=
  h.invariant (I := OrderInv) OrderInv.new fun _ _ _ hi hin hs => hi.step hin (step_stepped hs)

/-- The worker has no reserved or queued command. -/
def Vacant (s : WorkerPool spec) (w : Fin spec.workers) : Prop := ∀ c ∈ s.calls, c.phase.holds ≠ some w

instance (s : WorkerPool spec) (w : Fin spec.workers) : Decidable (Vacant s w) :=
  inferInstanceAs (Decidable (∀ c ∈ s.calls, c.phase.holds ≠ some w))

/-- What a vacant worker's record can be relied on for. -/
structure Agrees (s : WorkerPool spec) : Prop where
  loaded : ∀ w profile, Vacant s w → s.state.loaded w = some profile →
    (s.workers w).currentProfile.map Prod.fst = some profile
  invalidated : ∀ w stage err, Vacant s w → (s.workers w).last = some (.error (.rendererError stage err)) →
    Worker.rendererErrorInvalidatesWarmState err = true → s.state.loaded w = none

/-- A command that is under way has a place. -/
theorem holds_of_live {n : Nat} {ph : CallPhase n} {d : WorkerCompletion n} (hlive : ph.Live) (hd : ph.completion = some d) :
    ph.holds = some d.workerIdx := by
  cases ph with
  | sending => exact congrArg _ (congrArg _ (Option.some.inj hd))
  | permitted => exact congrArg _ (congrArg _ (Option.some.inj hd))
  | queued => exact congrArg _ (congrArg _ (Option.some.inj hd))
  | running => exact congrArg _ (congrArg _ (Option.some.inj hd))
  | called => cases hlive
  | scanning => cases hlive
  | picked => cases hlive
  | reserving => cases hlive
  | reserved => cases hlive
  | releasing => cases hlive
  | ended => cases hlive

/-- Where the commands of each worker are put into its channel in the order they were marked, the pool's records agree with the
workers. -/
theorem records_agree_of_sends_in_order (h : (machine spec).ReachedBy InOrder s) : Agrees s := by
  have hinv := orderInv_of_inOrder h
  have hloaded : ∀ w profile, Vacant s w → s.state.loaded w = some profile →
      (s.workers w).currentProfile.map Prod.fst = some profile := by
    intro w profile hvacant hl
    obtain ⟨p, c, d, hc, hd, rfl, -, -, hlive | ⟨-, partition, hcur⟩⟩ := hinv.predicts.predicted w profile hl
    · exact absurd (holds_of_live hlive hd) (hvacant c (List.mem_of_getElem? hc))
    · rw [hcur]
      rfl
  refine ⟨hloaded, fun w stage err hvacant hlast hinvalid => ?_⟩
  cases hl : s.state.loaded w with
  | none => rfl
  | some profile =>
    have hcur := hloaded w profile hvacant hl
    rw [hinv.predicts.invalidated w stage err hlast hinvalid] at hcur
    cases hcur

/-! ## Two runs -/

/-- A tile of another style. -/
def otherTile : InternalTask := { Dispatcher.tileTask with style := ⟨⟨"other"⟩, 0⟩ }

/-- The only worker takes a command, renders it and answers. -/
def serveRun (p : Nat) : List (PoolAction singleWorker) :=
  [.take onlyWorker, .execute onlyWorker (.rendered ⟨[], .png⟩), .finish onlyWorker, .release p, .respond onlyWorker]

/-- Whether the worker is vacant, what its pool has recorded for it, and what it has loaded. -/
def recordOf (s : WorkerPool singleWorker) : Bool × Option WorkerProfile × Option WorkerProfile :=
  (decide (Vacant s onlyWorker), s.state.loaded onlyWorker, (s.workers onlyWorker).currentProfile.map Prod.fst)

/-- A first command is in order. -/
theorem inOrder_of_none_enqueued {s : WorkerPool spec} (h : (s.calls.all fun c => !c.enqueued) = true) (a : PoolAction spec) :
    InOrder s a := by
  intro p c d _ _ _ c' hc' henq
  have hnot := List.all_eq_true.mp h c' hc'
  rw [henq] at hnot
  cases hnot

theorem inOrder_of_ne {s : WorkerPool spec} {a : PoolAction spec} (h : ∀ p, a ≠ .push p) : InOrder s a :=
  fun p _ _ hpush => absurd hpush (h p)

/-- A worker that has rendered one tile has the profile that is recorded for it. -/
theorem records_agree_of_sends_in_order_one_tile :
    ∃ s : WorkerPool singleWorker, (machine singleWorker).ReachedBy InOrder s ∧
      recordOf s = (true, some Dispatcher.tileTask.workerProfile, some Dispatcher.tileTask.workerProfile) ∧ Agrees s := by
  have hrun : ((machine singleWorker).run new (dispatchRun 0 Dispatcher.tileTask ++ [.acquire 0] ++ [.push 0] ++ serveRun 0)).map
      recordOf = some (true, some Dispatcher.tileTask.workerProfile, some Dispatcher.tileTask.workerProfile) := by
    decide
  obtain ⟨s, hs, hrecord⟩ := Option.map_eq_some_iff.mp hrun
  have hplain : ∀ as : List (PoolAction singleWorker), (∀ p, .push p ∉ as) → ∀ a ∈ as, ∀ u, InOrder u a :=
    fun as hnot a ha u => inOrder_of_ne fun p hpush => hnot p (hpush ▸ ha)
  have hready := Machine.ReachedBy.run (M := machine singleWorker) .init
    (hplain (dispatchRun 0 Dispatcher.tileTask ++ [.acquire 0]) (by simp [dispatchRun]))
    (show (machine singleWorker).run _ _ = some _ from rfl)
  have hpushed := hready.step (inOrder_of_none_enqueued rfl (.push 0)) rfl
  have hreach := hpushed.run (hplain (serveRun 0) (by simp [serveRun])) (show _ = some s from hs)
  exact ⟨s, hreach, hrecord, records_agree_of_sends_in_order hreach⟩

/-- Two calls are marked in turn and put into the channel the other way round. When both are done, the pool has the second's
profile on record, and the worker the first's. -/
theorem records_disagree_after_crossed_sends :
    ∃ s : WorkerPool singleWorker, (machine singleWorker).Reachable s ∧
      recordOf s = (true, some otherTile.workerProfile, some Dispatcher.tileTask.workerProfile) ∧ ¬Agrees s := by
  have hrun : ((machine singleWorker).run new (dispatchRun 0 Dispatcher.tileTask ++ dispatchRun 1 otherTile ++
      [.acquire 1, .push 1, .acquire 0, .push 0] ++ serveRun 1 ++ serveRun 0)).map recordOf =
      some (true, some otherTile.workerProfile, some Dispatcher.tileTask.workerProfile) := by
    decide
  obtain ⟨s, hs, hrecord⟩ := Option.map_eq_some_iff.mp hrun
  refine ⟨s, Machine.reachable_of_run hs, hrecord, fun hagrees => ?_⟩
  simp only [recordOf, Prod.mk.injEq, decide_eq_true_eq] at hrecord
  obtain ⟨hvacant, hloaded, hcurrent⟩ := hrecord
  have hsame := (hagrees.loaded onlyWorker _ hvacant hloaded).symm.trans hcurrent
  exact absurd hsame (by decide)

end WorkerPool

end Biei
