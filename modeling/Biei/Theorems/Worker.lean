import Biei.Lemmas.WarmState
import Biei.Lemmas.WorkerPick
import Biei.Theorems.WorkerPool

/-!
# The style document of a task's own credential

The native renderer is recorded by revision alone, so one that has loaded a style for one caller keeps it for the next.
-/

namespace Biei

namespace Worker

variable {parse : String → BaseStyle} {hash : AddLayerSource → UInt64} {w : Worker}

/-- What is true after every run without such a set-up. -/
theorem reachedBy_inv (h : (machine parse hash).ReachedBy ClearSetup w) : w.Inv :=
  h.invariant (I := Worker.Inv) Inv.new fun _ _ _ hi hc hs => hi.step hc hs

/-- Every drawing of the worker is one of some actor. -/
theorem mem_drawings {d : Drawing} (h : d ∈ w.drawings) :
    ∃ (i : Nat) (a : RendererActor), w.actors[i]? = some a ∧ d ∈ a.backend.drawings := by
  obtain ⟨a, ha, hd⟩ := List.mem_flatMap.mp h
  obtain ⟨i, hi⟩ := List.mem_iff_getElem?.mp ha
  exact ⟨i, a, hi, hd⟩

/-- A worker draws each task with a document it was given for the task's revision and partition, through all tasks, errors,
panics, timeouts and replacements, if no profile is set up on a renderer that keeps a document prepared only for others. -/
theorem drawings_prepared_of_clear_setups (h : (machine parse hash).ReachedBy ClearSetup w) :
    ∀ d ∈ w.drawings, ∃ p ∈ w.received,
      p.revision = d.task.style ∧ p.authorizationPartition = d.task.partition ∧ p.styleJson = d.document := by
  intro d hd
  obtain ⟨i, a, ha, hmem⟩ := mem_drawings hd
  exact ((reachedBy_inv h).fleet.actors i a ha).drawings d hmem

/-! ## Two callers of one style -/

/-- The credential of a caller, told apart by its partition. -/
def credential (byte : UInt8) : RenderAuthorization := ⟨.wildcard, ⟨Vector.replicate 32 byte⟩, ⟨"token", by decide⟩⟩

/-- A tile asked for with the credential. -/
def tileFor (byte : UInt8) : InternalTask := { Dispatcher.tileTask with authorization := some (credential byte) }

/-- The style prepared for the caller, with the caller's own document. -/
def preparedFor (byte : UInt8) (styleJson : String) : PreparedProfile :=
  ⟨Dispatcher.tileTask.style, some (credential byte).cachePartition, styleJson, none⟩

/-- No actor can be replaced. -/
def noReplacement : Replacement := ⟨false, none⟩

/-- The actor loads the profile it was sent, and draws the task. -/
def servedRun : List WorkerAction :=
  [.serve 0 .fine, .receive false noReplacement, .render noReplacement, .serve 0 .fine, .receive false noReplacement]

/-- A task that is taken, set up and drawn without a failure. -/
def drawnRun (byte : UInt8) (styleJson : String) : List WorkerAction :=
  .process (tileFor byte) (some (preparedFor byte styleJson)) :: .setupProfile noReplacement :: servedRun

/-- What the worker has drawn: with which documents, and for which partitions. -/
def drawn (w : Worker) : List (String × Option CredentialCachePartition) := w.drawings.map fun d => (d.document, d.task.partition)

/-- A machine for fixed inputs. -/
def bareMachine : Machine Worker WorkerAction := machine (fun _ => ⟨[], by decide⟩) fun _ => 0

/-- Nothing but a set-up can keep a document. -/
theorem clearSetup_of_ne {action : WorkerAction} (h : ∀ replacement, action ≠ .setupProfile replacement) (w : Worker) :
    ClearSetup w action :=
  fun replacement _ _ _ _ haction => absurd haction (h replacement)

/-- A caller alone is drawn with its own document. -/
theorem drawings_prepared_of_clear_setups_drawnRun :
    ∃ w, bareMachine.ReachedBy ClearSetup w ∧ drawn w = [("a", (tileFor 1).partition)] ∧
      ∀ d ∈ w.drawings, ∃ p ∈ w.received,
        p.revision = d.task.style ∧ p.authorizationPartition = d.task.partition ∧ p.styleJson = d.document := by
  have hrun : (bareMachine.run bareMachine.init (drawnRun 1 "a")).map drawn = some [("a", (tileFor 1).partition)] := by
    decide
  obtain ⟨w, hw, hdrawn⟩ := Option.map_eq_some_iff.mp hrun
  -- the set-up is the second action, on the actor the worker began with
  have htaken := Machine.ReachedBy.step (M := bareMachine) (G := ClearSetup) .init (clearSetup_of_ne (fun _ h => by cases h) _)
    (show bareMachine.step _ (.process (tileFor 1) (some (preparedFor 1 "a"))) = some _ from rfl)
  have hsetup := htaken.step (a := .setupProfile noReplacement) (fun _ _ _ a document _ _ _ _ ha _ hkept => by
      rw [← Option.some.inj ha, keptDocument_new] at hkept
      cases hkept) rfl
  have hreach : bareMachine.ReachedBy ClearSetup w := by
    refine hsetup.run (fun action haction u => clearSetup_of_ne (fun replacement h => ?_) u)
      (show bareMachine.run _ servedRun = some w from hw)
    subst h
    simp [servedRun] at haction
  exact ⟨w, hreach, hdrawn, drawings_prepared_of_clear_setups hreach⟩

/-- The second of two callers of one style is drawn with the document of the first, though it came with its own. -/
theorem second_caller_drawn_with_first_document :
    ∃ w, bareMachine.Reachable w ∧ drawn w = [("a", (tileFor 1).partition), ("a", (tileFor 2).partition)] ∧
      ¬∀ d ∈ w.drawings, ∃ p ∈ w.received,
        p.revision = d.task.style ∧ p.authorizationPartition = d.task.partition ∧ p.styleJson = d.document := by
  have hrun : (bareMachine.run bareMachine.init (drawnRun 1 "a" ++ drawnRun 2 "b")).map (fun w => (drawn w,
      decide (∀ d ∈ w.drawings, ∃ p ∈ w.received,
        p.revision = d.task.style ∧ p.authorizationPartition = d.task.partition ∧ p.styleJson = d.document))) =
      some ([("a", (tileFor 1).partition), ("a", (tileFor 2).partition)], false) := by decide
  obtain ⟨w, hw, hpair⟩ := Option.map_eq_some_iff.mp hrun
  obtain ⟨hdrawn, hnot⟩ := Prod.mk.inj hpair
  exact ⟨w, Machine.reachable_of_run hw, hdrawn, of_decide_eq_false hnot⟩

end Worker

/-! ## What a worker is picked for -/

variable {spec : PoolSpec} {state : PoolState spec.workers} {profile : WorkerProfile} {sourceId : Option String} {seen : List Nat}
  {idx : Fin spec.workers}

/-- The worker is believed not to have the source of the request. -/
def sourceMiss (state : PoolState spec.workers) (sourceId : Option String) (idx : Fin spec.workers) : Bool :=
  sourceId.any fun id => decide (id ∉ state.addlayerSourceIds idx)

/-- Nobody who is warm and comfortable is passed over for anybody who is not. -/
theorem comfortable_of_picked (h : bestAvailableWorker spec state profile sourceId seen = some idx) {other : Fin spec.workers}
    (hwarm : state.loaded other = some profile) (hdepth : seen.getD other.val 0 < expandThreshold spec) :
    state.loaded idx = some profile ∧ seen.getD idx.val 0 < expandThreshold spec := by
  obtain ⟨hlt, hleast⟩ := bestAvailableWorker_eq_some h
  have hother : seen.getD other.val 0 < spec.queueCapacity := by
    have hsoft : spec.blCapacity ≤ spec.queueCapacity := Nat.le_max_right _ _
    unfold expandThreshold at hdepth
    omega
  have hzero : (pickScore spec state profile sourceId other (seen.getD other.val 0)).tier.rank = 0 :=
    rank_eq_zero_iff.mpr ⟨hwarm, hdepth⟩
  have hle := PickScore.tier_le_of_key_le (hleast other hother)
  rw [hzero, Nat.le_zero] at hle
  exact rank_eq_zero_iff.mp hle

/-- Another profile is given up only when no fresh worker is below the hard limit and no warm one below the soft limit. -/
theorem no_room_of_picked (h : bestAvailableWorker spec state profile sourceId seen = some idx) {loaded : WorkerProfile}
    (hloaded : state.loaded idx = some loaded) (hne : loaded ≠ profile) (other : Fin spec.workers) :
    (state.loaded other = none → spec.queueCapacity ≤ seen.getD other.val 0) ∧
      (state.loaded other = some profile → spec.blCapacity ≤ seen.getD other.val 0) := by
  obtain ⟨hlt, hleast⟩ := bestAvailableWorker_eq_some h
  have hthree : 3 ≤ (pickScore spec state profile sourceId idx (seen.getD idx.val 0)).tier.rank := rank_of_other hloaded hne
  refine ⟨fun hfresh => ?_, fun hwarm => ?_⟩
  · by_contra hroom
    have hle := PickScore.tier_le_of_key_le (hleast other (Nat.not_le.mp hroom))
    rw [rank_of_fresh hfresh] at hle
    omega
  · by_contra hroom
    have hsoft : spec.blCapacity ≤ spec.queueCapacity := Nat.le_max_right _ _
    have hle := PickScore.tier_le_of_key_le (hleast other (by omega))
    have htwo : (pickScore spec state profile sourceId other (seen.getD other.val 0)).tier.rank ≤ 2 :=
      rank_of_warm hwarm (Nat.not_le.mp hroom)
    omega

/-- The only copy of a profile is given up only when no idle worker of the same source affinity has one of several copies. -/
theorem no_copy_of_picked (h : bestAvailableWorker spec state profile sourceId seen = some idx) {loaded : WorkerProfile}
    (hloaded : state.loaded idx = some loaded) (hne : loaded ≠ profile) (hidle : seen.getD idx.val 0 = 0)
    (hone : (state.profileCounts loaded).getD 0 ≤ 1) {other : Fin spec.workers} {loaded' : WorkerProfile}
    (hloaded' : state.loaded other = some loaded') (hidle' : seen.getD other.val 0 = 0)
    (hsource : sourceMiss state sourceId other = sourceMiss state sourceId idx) :
    ¬2 ≤ (state.profileCounts loaded').getD 0 := by
  intro htwo
  obtain ⟨hlt, hleast⟩ := bestAvailableWorker_eq_some h
  have hle := hleast other (by omega)
  rw [hidle, hidle'] at hle
  obtain ⟨htier, hmiss, hdepth, hprotected⟩ := pickScore_of_idle sourceId hloaded hne
  by_cases hwarm : loaded' = profile
  · have hthree : 3 ≤ (pickScore spec state profile sourceId idx 0).tier.rank := rank_of_other hloaded hne
    have hzero : (pickScore spec state profile sourceId other 0).tier.rank = 0 :=
      rank_eq_zero_iff.mpr ⟨hwarm ▸ hloaded', Nat.lt_of_lt_of_le Nat.zero_lt_one (Nat.le_max_right _ _)⟩
    have hrank := PickScore.tier_le_of_key_le hle
    omega
  · obtain ⟨htier', hmiss', hdepth', hprotected'⟩ := pickScore_of_idle sourceId hloaded' hwarm
    have hbool := PickScore.protected_le_of_key_le hle (htier.trans htier'.symm) ((hmiss.trans hsource.symm).trans hmiss'.symm)
      (hdepth.trans hdepth'.symm)
    rw [hprotected, hprotected', decide_eq_true hone, decide_eq_false (by omega)] at hbool
    exact absurd hbool (by decide)

namespace WorkerPool

/-- For every state, queue depths, profile and source: nobody is picked exactly when all are full; whoever is picked is below the
hard limit, and is no worse a choice than the priorities say, by the counts of the pool, which in every state that the pool can
get to are the numbers of the workers that have the profiles. And over every run: a call ends without a place only when the worker
it was told of is full, or when its scan has read of every worker, in a state the run has passed, that it is full. -/
theorem worker_pick (spec : PoolSpec) :
    (∀ state profile sourceId seen,
      (bestAvailableWorker spec state profile sourceId seen = none ↔
        ∀ idx : Fin spec.workers, spec.queueCapacity ≤ seen.getD idx.val 0) ∧
      ∀ idx : Fin spec.workers, bestAvailableWorker spec state profile sourceId seen = some idx →
        seen.getD idx.val 0 < spec.queueCapacity ∧
        (∀ other : Fin spec.workers, state.loaded other = some profile → seen.getD other.val 0 < expandThreshold spec →
          state.loaded idx = some profile ∧ seen.getD idx.val 0 < expandThreshold spec) ∧
        ∀ loaded, state.loaded idx = some loaded → loaded ≠ profile →
          (∀ other : Fin spec.workers, (state.loaded other = none → spec.queueCapacity ≤ seen.getD other.val 0) ∧
            (state.loaded other = some profile → spec.blCapacity ≤ seen.getD other.val 0)) ∧
          (seen.getD idx.val 0 = 0 → (state.profileCounts loaded).getD 0 ≤ 1 →
            ∀ (other : Fin spec.workers) loaded', state.loaded other = some loaded' → seen.getD other.val 0 = 0 →
              sourceMiss state sourceId other = sourceMiss state sourceId idx → ¬2 ≤ (state.profileCounts loaded').getD 0)) ∧
    (∀ state : PoolState spec.workers, (PoolState.machine spec.workers).Reachable state →
      ∀ profile, (state.profileCounts profile).getD 0 = tally state.loaded (some profile)) ∧
    ∀ actions s a s' (p : Nat) c c', (machine spec).run new actions = some s → s.step a = some s' → s.calls[p]? = some c →
      s'.calls[p]? = some c' → c.phase ≠ .ended none → c'.phase = .ended none →
        (∃ idx current, c.phase = .reserving idx true current ∧ spec.queueCapacity ≤ current) ∨
        ∃ seen, c.phase = .scanning seen ∧ ∀ w : Fin spec.workers, ∃ pre, pre <+: actions ∧ ∃ u,
          (machine spec).run new pre = some u ∧
          u.Scanning p (seen.take w.val) ∧ spec.queueCapacity ≤ u.queueDepths w := by
  refine ⟨fun state profile sourceId seen => ⟨bestAvailableWorker_eq_none, fun idx h => ?_⟩, fun state hreach profile => ?_, ?_⟩
  · refine ⟨(bestAvailableWorker_eq_some h).1, fun other hwarm hdepth => comfortable_of_picked h hwarm hdepth,
      fun loaded hloaded hne => ⟨fun other => no_room_of_picked h hloaded hne other, fun hidle hone other loaded' hloaded' => ?_⟩⟩
    exact no_copy_of_picked h hloaded hne hidle hone hloaded'
  · exact ((PoolState.reachable_booked hreach).counts profile).2
  · intro actions s a s' p c c' hrun hstep hc hc' hopen hended
    rcases refused_of_step hstep hc hc' hopen hended with hhinted | ⟨seen, hscan, hlength, hnobody⟩
    · exact Or.inl hhinted
    · refine Or.inr ⟨seen, hscan, fun w => ?_⟩
      have hw : w.val < seen.length := w.isLt.trans_le hlength
      obtain ⟨pre, hpre, u, hu, hbefore, hlt, hdepth⟩ := observed_of_run hrun ⟨c, hc, hscan⟩ w.val hw
      refine ⟨pre, hpre, u, hu, hbefore, ?_⟩
      have hfull := bestAvailableWorker_eq_none.mp hnobody w
      rw [List.getD_eq_getElem?_getD, List.getElem?_eq_getElem hw, Option.getD_some, ← hdepth] at hfull
      exact hfull

end WorkerPool

/-! ## The worker's profile and the actor's record -/

namespace Worker

/-- The task needs no setup, or none any more. -/
def Decided (w : Worker) (task : InternalTask) : Prop :=
  ∃ prepared, (w.phase = .entered task prepared ∧ w.styleSwap task = false) ∨ w.phase = .ready task prepared

/-- Whichever actor receives the render of a task that needs no setup has loaded its style, and no task was answered that its
style is not loaded. -/
structure KnowsActor (w : Worker) : Prop where
  loaded : ∀ task, w.Decided task → ∀ replacement w', w.liveActor replacement = .ok w' →
    ∃ a, w'.current = some a ∧ a.loaded = some task.style
  answered : ∀ o ∈ w.outcomes, ∀ failure, o.2 = .error failure → ¬failure.NotReady

variable {parse : String → BaseStyle} {hash : AddLayerSource → UInt64} {w : Worker}

/-- The worker of every run, through all tasks, results, timeouts and replacements, knows what its actor has loaded, if the run
has no panic in a render, no failure of a set-up that leaves the worker an older profile, and no death of an actor in use that
leaves it one. -/
theorem knows_actor_of_heeded (h : (machine parse hash).ReachedBy Heeded w) : w.KnowsActor := by
  have hcoh : w.Coherent := h.invariant (I := Coherent) Coherent.new fun _ _ _ hi hc hs => hi.step hc hs
  refine ⟨fun task hdec replacement w' hlive => ?_, hcoh.answered⟩
  have hprof : w.phase.Quiet ∧ w.currentProfile = some (task.workerProfile, task.partition) := by
    obtain ⟨prepared, ⟨hphase, hswap⟩ | hphase⟩ := hdec
    · exact ⟨hphase ▸ trivial, currentProfile_of_not_styleSwap hswap⟩
    · exact ⟨hphase ▸ trivial, hcoh.profiled task (by simp only [setUp, hphase])⟩
  obtain ⟨a, hsame, ha, -, hready⟩ := hcoh.liveActor_of_profile hprof.1 hprof.2 replacement
  rw [← Except.ok.inj (hsame.symm.trans hlive)]
  exact ⟨a, ha, hready.loaded⟩

/-! ## A tile that is asked for twice -/

/-- The tile is asked for again, and needs no setup. -/
def againRun : List WorkerAction := [.process (tileFor 1) (some (preparedFor 1 "a")), .skipSetup]

/-- A step that takes no error and no death, whatever the error. -/
def untroubled (w : Worker) : WorkerAction → Bool
  | .receive _ _ =>
    match w.current.bind RendererActor.reply with
    | some (.error _) => false
    | some (.ok ()) => true
    | none => true
  | .crash _ => false
  | _ => true

theorem heeded_of_untroubled {action : WorkerAction} (h : untroubled w action = true) : w.Heeded action := by
  cases action with
  | receive late replacement =>
    intro err hreply
    simp only [untroubled, hreply] at h
    cases h
  | crash i => cases h
  | process task prepared => trivial
  | leave failure => trivial
  | skipSetup => trivial
  | setupProfile replacement => trivial
  | render replacement => trivial
  | serve i calls => trivial
  | expire replacement => trivial
  | lose replacement => trivial
  | repair replacement => trivial
  | retire => trivial

/-- Whether the worker has answered a task and is to render another. -/
def isReady (w : Worker) : Bool :=
  match w.phase with
  | .ready _ _ => w.outcomes.length == 1
  | _ => false

/-- The tile is drawn, and the actor has its style loaded when it is asked for again. -/
theorem knows_actor_of_heeded_againRun :
    ∃ w, bareMachine.ReachedBy Heeded w ∧ isReady w = true ∧ w.KnowsActor := by
  obtain ⟨w, hw, hready⟩ := bareMachine.exists_of_guardedRun untroubled (drawnRun 1 "a" ++ againRun) isReady (by decide)
  have hheeded : bareMachine.ReachedBy Heeded w := hw.mono fun _ _ h => heeded_of_untroubled h
  exact ⟨w, hheeded, hready, knows_actor_of_heeded hheeded⟩

/-- The native call that draws panics. -/
def panickingDraw : NativeCalls := { NativeCalls.fine with draw := .panicked "index out of bounds" }

/-- A tile whose first drawing panics, and which is asked for again. -/
def panickedRun : List WorkerAction :=
  [.process (tileFor 1) (some (preparedFor 1 "a")), .setupProfile noReplacement, .serve 0 .fine, .receive false noReplacement,
    .render noReplacement, .serve 0 panickingDraw, .receive false noReplacement] ++ againRun ++
  [.render noReplacement, .serve 0 .fine, .receive false noReplacement]

/-- The last task was answered that its style is not loaded. -/
def lastNotReady (w : Worker) : Bool :=
  match w.outcomes.getLast? with
  | some (_, .error (.rendererError _ (.styleNotReady _ _))) => true
  | _ => false

/-- After a panic in a render, the next task of the profile is sent to an actor that has nothing loaded, and is answered so. -/
theorem panicked_actor_taken_for_warm : ∃ w, bareMachine.Reachable w ∧ ¬w.KnowsActor := by
  have hrun : (bareMachine.run bareMachine.init panickedRun).any lastNotReady = true := by decide
  cases hw : bareMachine.run bareMachine.init panickedRun with
  | none =>
    rw [hw] at hrun
    cases hrun
  | some w =>
    rw [hw] at hrun
    refine ⟨w, Machine.reachable_of_run hw, fun hknows => ?_⟩
    have hlast : lastNotReady w = true := hrun
    unfold lastNotReady at hlast
    split at hlast
    · rename_i id stage style version ho
      exact hknows.answered _ (List.mem_of_getLast? ho) _ rfl trivial
    · cases hlast

end Worker

end Biei
