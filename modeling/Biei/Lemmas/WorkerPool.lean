import Biei.Lib.Update
import Biei.Lemmas.PoolState
import Biei.Pool.WorkerPool

/-! # The steps of a pool -/

namespace Biei

namespace WorkerPool

variable {spec : PoolSpec} {s s' : WorkerPool spec}

/-- A call that has just been made. -/
def arrived (task : InternalTask) (prepared : Option PreparedProfile) (routeTier : RouteTier) (workerHint : Option UInt32) :
    ProcessCall spec.workers := ⟨task, prepared, routeTier, workerHint, .called, false, none, 0, 0, false⟩

/-- The pool's state once a command of the call is marked. -/
def marked (s : WorkerPool spec) (c : ProcessCall spec.workers) (now : Instant) (idx : Fin spec.workers) :
    PoolState spec.workers :=
  (addlayerSourceId spec c).elim (s.state.markLoaded now idx c.task.workerProfile).1
    ((s.state.markLoaded now idx c.task.workerProfile).1.markAddlayerSource idx)

/-- The pool's state once a completion is finished. -/
def finished (s : WorkerPool spec) (completion : WorkerCompletion spec.workers) :
    Except StageFailure RenderOutput → PoolState spec.workers
  | .ok _ => s.state
  | .error _ => s.state.clearLoadedIfLatest completion.workerIdx completion.dispatchGeneration

/-- Before a reservation: neither a place nor a completion. -/
def Unreserved {n : Nat} (ph : CallPhase n) : Prop := ph.holds = none ∧ ph.completion = none

/-- What a call that seeks a place goes by: a scan reads one depth more, and it is refused when the scan has found nobody, or when
the worker it was told of is full. -/
structure Seeks (s : WorkerPool spec) (c : ProcessCall spec.workers) (ph : CallPhase spec.workers) : Prop where
  scanned : ∀ seen, ph = .scanning seen → seen = [] ∨ ∃ (before : List Nat) (hlt : before.length < spec.workers),
    c.phase = .scanning before ∧ seen = before ++ [s.queueDepths ⟨before.length, hlt⟩]
  refused : ph = .ended none → (∃ seen, c.phase = .scanning seen ∧ spec.workers ≤ seen.length ∧
      bestAvailableWorker spec s.state c.task.workerProfile (addlayerSourceId spec c) seen = none) ∨
    ∃ idx current, c.phase = .reserving idx true current ∧ spec.queueCapacity ≤ current

theorem Seeks.of_ne {c : ProcessCall spec.workers} {ph : CallPhase spec.workers} (hscan : ∀ seen, ph ≠ .scanning seen)
    (hended : ph ≠ .ended none) : s.Seeks c ph :=
  ⟨fun seen h => absurd h (hscan seen), fun h => absurd h hended⟩

theorem Seeks.of_start {c : ProcessCall spec.workers} : s.Seeks c (.scanning []) :=
  ⟨fun _ h => Or.inl (CallPhase.scanning.inj h).symm, nofun⟩

/-- The kinds of steps, with what each found when it was taken. -/
inductive Stepped (s : WorkerPool spec) : PoolAction spec → WorkerPool spec → Prop where
  | arrive (task : InternalTask) (prepared : Option PreparedProfile) (routeTier : RouteTier) (workerHint : Option UInt32) :
      Stepped s (.process task prepared routeTier workerHint)
        { s with calls := s.calls ++ [arrived task prepared routeTier workerHint] }
  | seek (a : PoolAction spec) (p : Nat) (c : ProcessCall spec.workers) (ph : CallPhase spec.workers) (result : Option CallResult)
      (hc : s.calls[p]? = some c) (hbefore : Unreserved c.phase) (hafter : Unreserved ph) (hseeks : s.Seeks c ph) :
      Stepped s a (s.setCall p { c with phase := ph, result := result })
  | reserve (p : Nat) (c : ProcessCall spec.workers) (idx : Fin spec.workers) (hinted overflow : Bool)
      (hc : s.calls[p]? = some c) (hp : c.phase = .reserving idx hinted (s.queueDepths idx))
      (hlt : s.queueDepths idx < spec.queueCapacity) :
      Stepped s (.compareExchange p false)
        { s.setCall p { c with phase := .reserved idx, admittedAtOverflow := overflow, taken := c.taken + 1 } with
          queueDepths := Function.update s.queueDepths idx (s.queueDepths idx + 1) }
  | mark (p : Nat) (c : ProcessCall spec.workers) (now : Instant) (idx : Fin spec.workers) (hc : s.calls[p]? = some c)
      (hp : c.phase = .reserved idx) :
      Stepped s (.mark p now)
        { s.setCall p { c with phase := .sending ⟨idx, s.state.dispatchGenerations idx + 1, s.marks + 1⟩ } with
          state := s.marked c now idx
          marks := s.marks + 1 }
  | acquire (p : Nat) (c : ProcessCall spec.workers) (completion : WorkerCompletion spec.workers) (hc : s.calls[p]? = some c)
      (hp : c.phase = .sending completion) : Stepped s (.acquire p) (s.setCall p { c with phase := .permitted completion })
  | push (p : Nat) (c : ProcessCall spec.workers) (completion : WorkerCompletion spec.workers) (hc : s.calls[p]? = some c)
      (hp : c.phase = .permitted completion) :
      Stepped s (.push p)
        ((s.setCall p { c with phase := .queued completion, enqueued := true }).setWorker completion.workerIdx
          { s.workers completion.workerIdx with queue := (s.workers completion.workerIdx).queue ++ [.process p] })
  | unsent (a : PoolAction spec) (p : Nat) (c : ProcessCall spec.workers) (completion : WorkerCompletion spec.workers)
      (result : CallResult) (hc : s.calls[p]? = some c) (hp : c.phase = .sending completion) :
      Stepped s a (s.dropCompletion p (answered c result) completion)
  | forget (p : Nat) (c : ProcessCall spec.workers) (hc : s.calls[p]? = some c) :
      Stepped s (.cancel p) (s.setCall p (answered c .cancelled))
  | release (p : Nat) (c : ProcessCall spec.workers) (completion : WorkerCompletion spec.workers) (hc : s.calls[p]? = some c)
      (hp : c.phase = .releasing completion) :
      Stepped s (.release p)
        { s.setCall p { c with phase := .ended (some completion), given := c.given + 1 } with
          queueDepths := Function.update s.queueDepths completion.workerIdx (wrappingPred (s.queueDepths completion.workerIdx)) }
  | take (w : Fin spec.workers) (p : Nat) (c : ProcessCall spec.workers) (completion : WorkerCompletion spec.workers)
      (rest : List PoolCmd) (hw : (s.workers w).phase = .idle) (hq : (s.workers w).queue = .process p :: rest)
      (hc : s.calls[p]? = some c) (hp : c.phase = .queued completion) :
      Stepped s (.take w)
        ((s.setCall p { c with phase := .running completion }).setWorker w
          { s.workers w with queue := rest, phase := .running p, taken := completion.stamp })
  | stop (w : Fin spec.workers) (rest : List PoolCmd) (hw : (s.workers w).phase = .idle)
      (hq : (s.workers w).queue = .retire :: rest) :
      Stepped s (.take w) (s.setWorker w { s.workers w with queue := rest, phase := .stopped })
  | execute (w : Fin spec.workers) (p : Nat) (c : ProcessCall spec.workers) (stageEnd : StageEnd)
      (current : Option (WorkerProfile × Option CredentialCachePartition)) (result : Except StageFailure RenderOutput)
      (hw : (s.workers w).phase = .running p) (hc : s.calls[p]? = some c)
      (hrun : runStages (s.workers w).currentProfile c.task stageEnd = some (current, result)) :
      Stepped s (.execute w stageEnd)
        (s.setWorker w { s.workers w with
          currentProfile := keptAfter current result, phase := .executed p result, last := some result })
  | finish (w : Fin spec.workers) (p : Nat) (c : ProcessCall spec.workers) (completion : WorkerCompletion spec.workers)
      (result : Except StageFailure RenderOutput) (hw : (s.workers w).phase = .executed p result) (hc : s.calls[p]? = some c)
      (hp : c.phase = .running completion) :
      Stepped s (.finish w)
        { (s.setCall p { c with phase := .releasing completion }).setWorker w
            { s.workers w with phase := .responding p result } with
          state := s.finished completion result }
  | respond (w : Fin spec.workers) (p : Nat) (c : ProcessCall spec.workers) (result : Except StageFailure RenderOutput)
      (answer : CallResult) (hw : (s.workers w).phase = .responding p result) (hc : s.calls[p]? = some c) :
      Stepped s (.respond w) ((s.setCall p (answered c answer)).setWorker w { s.workers w with phase := .idle })
  | crash (w : Fin spec.workers) (hw : (s.workers w).isStopped = false) :
      Stepped s (.crash w) (s.setWorker w { s.workers w with phase := .stopped })
  | crashInHand (w : Fin spec.workers) (p : Nat) (c : ProcessCall spec.workers) (completion : WorkerCompletion spec.workers)
      (result : CallResult) (hw : (s.workers w).phase = .running p ∨ ∃ result, (s.workers w).phase = .executed p result)
      (hc : s.calls[p]? = some c) (hp : c.phase = .running completion) :
      Stepped s (.crash w)
        ((s.setWorker w { s.workers w with phase := .stopped }).dropCompletion p (answered c result) completion)
  | drain (w : Fin spec.workers) (p : Nat) (c : ProcessCall spec.workers) (completion : WorkerCompletion spec.workers)
      (rest : List PoolCmd) (result : CallResult) (hw : (s.workers w).isStopped = true)
      (hq : (s.workers w).queue = .process p :: rest) (hc : s.calls[p]? = some c) (hp : c.phase = .queued completion) :
      Stepped s (.drain w)
        ((s.setWorker w { s.workers w with queue := rest }).dropCompletion p (answered c result) completion)
  | discard (w : Fin spec.workers) (rest : List PoolCmd) (hw : (s.workers w).isStopped = true)
      (hq : (s.workers w).queue = .retire :: rest) :
      Stepped s (.drain w) (s.setWorker w { s.workers w with queue := rest })
  | retire (w : Fin spec.workers) :
      Stepped s (.retire w) (s.setWorker w { s.workers w with queue := (s.workers w).queue ++ [.retire] })

section

variable {p : Nat} {c : ProcessCall spec.workers}

attribute [local simp] callStep in
theorem look_stepped (hc : s.calls[p]? = some c) (h : s.callStep p c (.look p) = some s') : Stepped s (.look p) s' := by
  simp only [callStep] at h
  split at h
  · rename_i hp
    have hbefore : Unreserved c.phase := by
      rw [hp]
      exact ⟨rfl, rfl⟩
    split at h
    · split at h
      · exact Option.some.inj h ▸ .seek _ p c _ _ hc hbefore ⟨rfl, rfl⟩ (.of_ne nofun nofun)
      · exact Option.some.inj h ▸ .seek _ p c _ _ hc hbefore ⟨rfl, rfl⟩ .of_start
    · exact Option.some.inj h ▸ .seek _ p c _ _ hc hbefore ⟨rfl, rfl⟩ .of_start
  · cases h

theorem scan_stepped (hc : s.calls[p]? = some c) (h : s.callStep p c (.scan p) = some s') : Stepped s (.scan p) s' := by
  simp only [callStep] at h
  split at h
  · rename_i seen hp
    have hbefore : Unreserved c.phase := by
      rw [hp]
      exact ⟨rfl, rfl⟩
    split at h
    · rename_i hlt
      exact Option.some.inj h ▸ .seek _ p c _ _ hc hbefore ⟨rfl, rfl⟩
        ⟨fun _ heq => Or.inr ⟨seen, hlt, hp, (CallPhase.scanning.inj heq).symm⟩, nofun⟩
    · cases h
  · cases h

theorem pick_stepped (hc : s.calls[p]? = some c) (h : s.callStep p c (.pick p) = some s') : Stepped s (.pick p) s' := by
  simp only [callStep] at h
  split at h
  · rename_i seen hp
    have hbefore : Unreserved c.phase := by
      rw [hp]
      exact ⟨rfl, rfl⟩
    split at h
    · cases h
    · rename_i hall
      split at h
      · exact Option.some.inj h ▸ .seek _ p c _ _ hc hbefore ⟨rfl, rfl⟩ (.of_ne nofun nofun)
      · rename_i hnobody
        exact Option.some.inj h ▸ .seek _ p c _ _ hc hbefore ⟨rfl, rfl⟩
          ⟨nofun, fun _ => Or.inl ⟨seen, hp, Nat.not_lt.mp hall, hnobody⟩⟩
  · cases h

theorem load_stepped (hc : s.calls[p]? = some c) (h : s.callStep p c (.load p) = some s') : Stepped s (.load p) s' := by
  simp only [callStep] at h
  split at h
  · rename_i idx hinted hp
    have hbefore : Unreserved c.phase := by
      rw [hp]
      exact ⟨rfl, rfl⟩
    exact Option.some.inj h ▸ .seek _ p c _ _ hc hbefore ⟨rfl, rfl⟩ (.of_ne nofun nofun)
  · cases h

theorem compareExchange_stepped {spurious : Bool} (hc : s.calls[p]? = some c)
    (h : s.callStep p c (.compareExchange p spurious) = some s') : Stepped s (.compareExchange p spurious) s' := by
  simp only [callStep] at h
  split at h
  · rename_i idx hinted current hp
    have hbefore : Unreserved c.phase := by
      rw [hp]
      exact ⟨rfl, rfl⟩
    split at h
    · rename_i hfull
      split at h
      · rename_i hhinted
        exact Option.some.inj h ▸ .seek _ p c _ _ hc hbefore ⟨rfl, rfl⟩
          ⟨nofun, fun _ => Or.inr ⟨idx, current, hhinted ▸ hp, hfull⟩⟩
      · exact Option.some.inj h ▸ .seek _ p c _ _ hc hbefore ⟨rfl, rfl⟩ .of_start
    · rename_i hlt
      split at h
      · rename_i hswap
        obtain ⟨rfl, rfl⟩ := hswap
        exact Option.some.inj h ▸ .reserve p c idx hinted _ hc hp (Nat.lt_of_not_le hlt)
      · exact Option.some.inj h ▸ .seek _ p c _ _ hc hbefore ⟨rfl, rfl⟩ (.of_ne nofun nofun)
  · cases h

theorem mark_stepped {now : Instant} (hc : s.calls[p]? = some c) (h : s.callStep p c (.mark p now) = some s') :
    Stepped s (.mark p now) s' := by
  simp only [callStep] at h
  split at h
  · rename_i idx hp
    rw [← Option.some.inj h, (PoolState.markLoaded_spec s.state now idx c.task.workerProfile).2.1]
    exact .mark p c now idx hc hp
  · cases h

theorem cancel_stepped (hc : s.calls[p]? = some c) (h : s.callStep p c (.cancel p) = some s') : Stepped s (.cancel p) s' := by
  simp only [callStep] at h
  split at h
  · rename_i completion hp
    exact Option.some.inj h ▸ .unsent _ p c completion _ hc hp
  · exact Option.some.inj h ▸ .forget p c hc
  · exact Option.some.inj h ▸ .forget p c hc
  · exact Option.some.inj h ▸ .forget p c hc
  · exact Option.some.inj h ▸ .forget p c hc
  · cases h

end

section

variable {w : Fin spec.workers}

/-- A worker has in hand only a command that runs. -/
theorem inHand_eq_some {p : Nat} {c : ProcessCall spec.workers} {completion : WorkerCompletion spec.workers}
    (h : s.inHand w = some (p, c, completion)) :
    ((s.workers w).phase = .running p ∨ ∃ result, (s.workers w).phase = .executed p result) ∧ s.calls[p]? = some c ∧
      c.phase = .running completion := by
  unfold inHand at h
  dsimp only at h
  split at h
  · rename_i q hphase
    obtain ⟨d, hd, hmatch⟩ := Option.bind_eq_some_iff.mp h
    split at hmatch
    · rename_i done hdone
      obtain ⟨rfl, hrest⟩ := Prod.mk.inj (Option.some.inj hmatch)
      cases hrest
      exact ⟨Or.inl hphase, hd, hdone⟩
    · cases hmatch
  · rename_i q result hphase
    obtain ⟨d, hd, hmatch⟩ := Option.bind_eq_some_iff.mp h
    split at hmatch
    · rename_i done hdone
      obtain ⟨rfl, hrest⟩ := Prod.mk.inj (Option.some.inj hmatch)
      cases hrest
      exact ⟨Or.inr ⟨result, hphase⟩, hd, hdone⟩
    · cases hmatch
  · cases h
  · cases h
  · cases h

attribute [local simp] workerStep in
theorem take_stepped (h : s.workerStep w (.take w) = some s') : Stepped s (.take w) s' := by
  simp only [workerStep] at h
  split at h
  · rename_i p rest hw hq
    obtain ⟨c, hc, hmatch⟩ := Option.bind_eq_some_iff.mp h
    split at hmatch
    · rename_i completion hp
      exact Option.some.inj hmatch ▸ .take w p c completion rest hw hq hc hp
    · cases hmatch
  · rename_i rest hw hq
    exact Option.some.inj h ▸ .stop w rest hw hq
  · cases h

theorem execute_stepped {stageEnd : StageEnd} (h : s.workerStep w (.execute w stageEnd) = some s') :
    Stepped s (.execute w stageEnd) s' := by
  simp only [workerStep] at h
  split at h
  · rename_i p hw
    obtain ⟨c, hc, hmap⟩ := Option.bind_eq_some_iff.mp h
    obtain ⟨⟨current, result⟩, hrun, rfl⟩ := Option.map_eq_some_iff.mp hmap
    exact .execute w p c stageEnd current result hw hc hrun
  · cases h

theorem finish_stepped (h : s.workerStep w (.finish w) = some s') : Stepped s (.finish w) s' := by
  simp only [workerStep] at h
  split at h
  · rename_i p result q c completion hw hin
    obtain ⟨hphase, hc, hp⟩ := inHand_eq_some hin
    have hq : q = p := by
      rcases hphase with hphase | ⟨result', hphase⟩
      · rw [hw] at hphase
        cases hphase
      · rw [hw] at hphase
        cases hphase
        rfl
    subst hq
    cases h
    cases result with
    | ok output => exact .finish w q c completion (.ok output) hw hc hp
    | error failure => exact .finish w q c completion (.error failure) hw hc hp
  · cases h

theorem respond_stepped (h : s.workerStep w (.respond w) = some s') : Stepped s (.respond w) s' := by
  simp only [workerStep] at h
  split at h
  · rename_i p result hw
    obtain ⟨c, hc, hmatch⟩ := Option.bind_eq_some_iff.mp h
    split at hmatch
    · exact Option.some.inj hmatch ▸ .respond w p c result _ hw hc
    · cases hmatch
  · cases h

theorem crash_stepped (h : s.workerStep w (.crash w) = some s') : Stepped s (.crash w) s' := by
  simp only [workerStep] at h
  split at h
  · cases h
  · rename_i hw
    split at h
    · rename_i p c completion hin
      obtain ⟨hphase, hc, hp⟩ := inHand_eq_some hin
      exact Option.some.inj h ▸ .crashInHand w p c completion _ hphase hc hp
    · exact Option.some.inj h ▸ .crash w (by simpa using hw)

theorem drain_stepped (h : s.workerStep w (.drain w) = some s') : Stepped s (.drain w) s' := by
  simp only [workerStep] at h
  split at h
  · rename_i hw
    split at h
    · rename_i p rest hq
      obtain ⟨c, hc, hmatch⟩ := Option.bind_eq_some_iff.mp h
      split at hmatch
      · rename_i completion hp
        exact Option.some.inj hmatch ▸ .drain w p c completion rest _ hw hq hc hp
      · cases hmatch
    · rename_i rest hq
      exact Option.some.inj h ▸ .discard w rest hw hq
    · cases h
  · cases h

end

theorem step_stepped {a : PoolAction spec} (h : step s a = some s') : Stepped s a s' := by
  cases a with
  | process task prepared routeTier workerHint =>
    simp only [step] at h
    exact Option.some.inj h ▸ .arrive task prepared routeTier workerHint
  | look p =>
    obtain ⟨c, hc, h⟩ := Option.bind_eq_some_iff.mp h
    exact look_stepped hc h
  | scan p =>
    obtain ⟨c, hc, h⟩ := Option.bind_eq_some_iff.mp h
    exact scan_stepped hc h
  | pick p =>
    obtain ⟨c, hc, h⟩ := Option.bind_eq_some_iff.mp h
    exact pick_stepped hc h
  | load p =>
    obtain ⟨c, hc, h⟩ := Option.bind_eq_some_iff.mp h
    exact load_stepped hc h
  | compareExchange p spurious =>
    obtain ⟨c, hc, h⟩ := Option.bind_eq_some_iff.mp h
    exact compareExchange_stepped hc h
  | mark p now =>
    obtain ⟨c, hc, h⟩ := Option.bind_eq_some_iff.mp h
    exact mark_stepped hc h
  | acquire p =>
    obtain ⟨c, hc, h⟩ := Option.bind_eq_some_iff.mp h
    simp only [callStep] at h
    split at h
    · rename_i completion hp
      split at h
      · exact Option.some.inj h ▸ .acquire p c completion hc hp
      · cases h
    · cases h
  | push p =>
    obtain ⟨c, hc, h⟩ := Option.bind_eq_some_iff.mp h
    simp only [callStep] at h
    split at h
    · rename_i completion hp
      exact Option.some.inj h ▸ .push p c completion hc hp
    · cases h
  | sendFailed p =>
    obtain ⟨c, hc, h⟩ := Option.bind_eq_some_iff.mp h
    simp only [callStep] at h
    split at h
    · rename_i completion hp
      split at h
      · exact Option.some.inj h ▸ .unsent _ p c completion _ hc hp
      · cases h
    · cases h
  | cancel p =>
    obtain ⟨c, hc, h⟩ := Option.bind_eq_some_iff.mp h
    exact cancel_stepped hc h
  | release p =>
    obtain ⟨c, hc, h⟩ := Option.bind_eq_some_iff.mp h
    simp only [callStep] at h
    split at h
    · rename_i completion hp
      exact Option.some.inj h ▸ .release p c completion hc hp
    · cases h
  | take w => exact take_stepped h
  | execute w stageEnd => exact execute_stepped h
  | finish w => exact finish_stepped h
  | respond w => exact respond_stepped h
  | crash w => exact crash_stepped h
  | drain w => exact drain_stepped h
  | retire w =>
    simp only [step, workerStep] at h
    split at h
    · exact Option.some.inj h ▸ .retire w
    · cases h

end WorkerPool

end Biei
