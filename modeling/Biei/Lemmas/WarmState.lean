import Biei.Lemmas.Worker

/-!
# What a worker believes its actor has loaded

The actor clears its record by one rule and the worker its profile by another; here is what follows while the two say the same.
-/

namespace Biei

open MapLibreNativeBackend

/-! ## The errors of the backend -/

/-- What the backend itself fails with. -/
def RendererError.OfBackend : RendererError → Prop
  | .renderFailed _ => True
  | .styleLoadFailed .. => True
  | .setupFailed .. => True
  | .styleNotReady .. => False
  | .sourceFetchFailed .. => False
  | .timeout => False
  | .actorDead => False

/-- The fault is a panic, or an error of the backend. -/
def Fault.OfBackend : Fault → Prop
  | .error err => err.OfBackend
  | .panic _ => True

namespace MapLibreNativeBackend

theorem checkNative_raises (result : NativeResult) {err : String → RendererError} (h : ∀ message, (err message).OfBackend) :
    Raises Fault.OfBackend (checkNative result err) := by
  cases result with
  | ok => exact Raises.pure ()
  | failed message => exact Raises.throw (h message)
  | panicked message => exact Raises.throw trivial

theorem renderFailed_ofBackend (message : String) : (RendererError.renderFailed message).OfBackend := trivial

theorem styleLoadFailed_ofBackend (style : ResolvedStyle) (message : String) : (styleLoadFailed style message).OfBackend :=
    trivial

theorem renderSize_raises (width height : UInt16) : Raises Fault.OfBackend (renderSize width height) := by
  unfold renderSize
  split
  · exact Raises.throw trivial
  · exact Raises.pure ()

theorem currentStyle_raises : Raises Fault.OfBackend currentStyle := by
  intro b e b' h
  unfold currentStyle at h
  split at h
  · cases h
  · injection h with he
    exact he ▸ trivial

theorem setupFailed_ofBackend (style : ResolvedStyle) (err : StyleError) : (setupFailed style err).OfBackend := by
  cases err with
  | native message => trivial
  | panicked message => trivial

theorem styleError_ofBackend (err : StyleError) : err.fault.OfBackend := by
  cases err with
  | native message => trivial
  | panicked message => trivial

section

variable (parse : String → BaseStyle) (hash : AddLayerSource → UInt64)

theorem rebuildRenderer_raises (mode : RenderMode) (key : RendererKey) (style : ResolvedStyle) (calls : NativeCalls) :
    Raises Fault.OfBackend (rebuildRenderer parse mode key style calls) := by
  refine (checkNative_raises calls.build renderFailed_ofBackend).bind fun _ => ?_
  refine (checkNative_raises calls.load (styleLoadFailed_ofBackend style)).bind fun _ => ?_
  dsimp only
  split
  · exact Raises.throw (setupFailed_ofBackend style _)
  · exact Raises.modify _

theorem refreshRenderer_raises (style : ResolvedStyle) (calls : NativeCalls) :
    Raises Fault.OfBackend (refreshRenderer parse style calls) := by
  intro b e b' h
  unfold refreshRenderer at h
  split at h
  · cases h
  · split at h
    · cases h
    · dsimp only at h
      split at h
      · rename_i fault b1 hcheck
        injection h with he
        exact he ▸ checkNative_raises calls.load (styleLoadFailed_ofBackend style) _ _ _ hcheck
      · split at h
        · cases h
        · injection h with he
          exact he ▸ setupFailed_ofBackend style _

theorem ensureRendererForTask_raises (task : RenderTaskView) (calls : NativeCalls) :
    Raises Fault.OfBackend (ensureRendererForTask parse task calls) := by
  obtain ⟨width, height, heq⟩ := ensureRendererForTask_eq parse task calls
  rw [heq]
  refine (renderSize_raises width height).bind fun _ => currentStyle_raises.bind fun style => Raises.get_bind fun b => ?_
  dsimp only
  split
  · exact rebuildRenderer_raises parse _ _ style calls
  · exact refreshRenderer_raises parse style calls

theorem loadProfile_raises (style : ResolvedStyle) (task : RenderTaskView) (calls : NativeCalls) :
    Raises Fault.OfBackend (loadProfile parse style task calls) :=
  (Raises.modify _).bind fun _ => ensureRendererForTask_raises parse task calls

theorem drawTask_raises (task : InternalTask) (calls : NativeCalls) : Raises Fault.OfBackend (drawTask hash task calls) := by
  intro b e b' h
  unfold drawTask at h
  split at h
  · cases h
  · split at h
    · cases h
    · unfold drawStaticTask at h
      dsimp only at h
      split at h
      · cases h
      · injection h with he
        exact he ▸ styleError_ofBackend _
    · cases h

theorem render_raises (task : InternalTask) (calls : NativeCalls) : Raises Fault.OfBackend (render parse hash task calls) := by
  refine (ensureRendererForTask_raises parse (.ofTask task) calls).bind fun _ => ?_
  have hfit : Raises Fault.OfBackend (fitCamera task calls) := by
    unfold fitCamera
    split
    · exact Raises.pure ()
    · exact checkNative_raises calls.fit renderFailed_ofBackend
  refine hfit.bind fun _ => (drawTask_raises hash task calls).bind fun _ => ?_
  exact (checkNative_raises calls.draw renderFailed_ofBackend).bind fun _ =>
    checkNative_raises calls.encode renderFailed_ofBackend

end

end MapLibreNativeBackend

variable {err : RendererError}

/-- A panic that was caught is reported as an error of the backend. -/
theorem catchBackendUnwind_ofBackend {operation : String} {x : BackendM Unit} {b b' : MapLibreNativeBackend}
    (hx : Raises Fault.OfBackend x) (h : catchBackendUnwind operation x b = (.error err, b')) : err.OfBackend := by
  unfold catchBackendUnwind at h
  split at h
  · cases h
  · rename_i err' b1 herr
    obtain ⟨he, -⟩ := Prod.mk.inj h
    obtain rfl : err' = err := Except.error.inj he
    exact hx _ _ _ herr
  · obtain ⟨he, -⟩ := Prod.mk.inj h
    rw [← Except.error.inj he]
    trivial

/-! ## The actor's replies -/

/-- A task was answered that its style is not loaded. -/
def StageFailure.NotReady : StageFailure → Prop
  | .rendererError _ (.styleNotReady _ _) => True
  | _ => False

/-- The backend does not say that a style is not loaded. -/
theorem RendererError.OfBackend.not_notReady (h : err.OfBackend) (stage : DeadlineStage) :
    ¬(StageFailure.rendererError stage err).NotReady := by
  intro hno
  cases err with
  | styleNotReady id version => exact h
  | renderFailed message => exact hno
  | styleLoadFailed id message => exact hno
  | setupFailed id message => exact hno
  | sourceFetchFailed source message => exact hno
  | timeout => exact hno
  | actorDead => exact hno

theorem RendererError.OfBackend.ne_timeout (h : err.OfBackend) : err ≠ .timeout := by
  rintro rfl
  exact h

namespace RendererActor

/-- The actor lives, with the style loaded. -/
structure Ready (a : RendererActor) (style : StyleRevision) : Prop where
  live : a.finished = false
  loaded : a.loaded = some style

/-- What the reply to a render says of the actor: it is as before, or the error is one that clears its record. -/
def Rendered (style : StyleRevision) (a : RendererActor) : Except RendererError Unit → Prop
  | .ok () => a.Ready style
  | .error err => err.OfBackend ∧
      (a.Ready style ∨ rendererErrorIsActorPanic err = true ∨ Worker.rendererErrorInvalidatesWarmState err = true)

/-- What the reply to a load says of the actor. -/
def SetUp (style : StyleRevision) (a : RendererActor) : Except RendererError Unit → Prop
  | .ok () => a.Ready style
  | .error err => err.OfBackend

/-- The backend's own errors clear the record of the actor exactly when they clear the profile of the worker, panics apart. -/
theorem errorInvalidates_eq {err : RendererError} (h : err.OfBackend) :
    errorInvalidatesLoadedState err = Worker.rendererErrorInvalidatesWarmState err := by
  cases err with
  | renderFailed message => rfl
  | styleLoadFailed id message => rfl
  | setupFailed id message => rfl
  | styleNotReady id version => rfl
  | sourceFetchFailed source message => exact h.elim
  | timeout => rfl
  | actorDead => rfl

section

variable (parse : String → BaseStyle) (hash : AddLayerSource → UInt64)

/-- A render of the style that is loaded. -/
theorem serveRender_rendered {a : RendererActor} {task : InternalTask} (calls : NativeCalls) (hlive : a.Ready task.style) :
    (a.serveRender parse hash task calls).inbox = a.inbox ∧
      ∃ result, (a.serveRender parse hash task calls).reply = some result ∧
        Rendered task.style (a.serveRender parse hash task calls) result := by
  cases hx : catchBackendUnwind "render" (render parse hash task calls) a.backend with
  | mk result b =>
    have hserve : a.serveRender parse hash task calls =
        if renderInvalidates result then { a with loaded := none, backend := b.reset, reply := some result }
        else { a with backend := b, reply := some result } := by
      simp only [serveRender, if_pos hlive.loaded, hx]
    rw [hserve]
    cases result with
    | ok u => exact ⟨rfl, .ok (), rfl, ⟨hlive.live, hlive.loaded⟩⟩
    | error err =>
      have hof : err.OfBackend := catchBackendUnwind_ofBackend (render_raises parse hash task calls) hx
      split
      · rename_i hinv
        refine ⟨rfl, .error err, rfl, hof, Or.inr ?_⟩
        rw [← errorInvalidates_eq hof]
        simpa [renderInvalidates] using hinv
      · exact ⟨rfl, .error err, rfl, hof, Or.inl ⟨hlive.live, hlive.loaded⟩⟩

theorem serveLoad_setUp {a : RendererActor} (style : ResolvedStyle) (task : InternalTask) (calls : NativeCalls)
    (hlive : a.finished = false) :
    (a.serveLoad parse style task calls).inbox = a.inbox ∧
      ∃ result, (a.serveLoad parse style task calls).reply = some result ∧
        SetUp style.revision (a.serveLoad parse style task calls) result := by
  unfold serveLoad
  dsimp only
  split
  · exact ⟨rfl, .ok (), rfl, hlive, rfl⟩
  · rename_i err b hx
    exact ⟨rfl, .error err, rfl, catchBackendUnwind_ofBackend (loadProfile_raises parse style (.ofTask task) calls) hx⟩

end

end RendererActor

namespace Worker

open RendererActor

variable {w w' : Worker}

/-! ## Replacing the actor -/

/-- Sending changes nothing but an actor. -/
theorem sendCurrent_cases (w : Worker) (cmd : RenderCmd) :
    ∃ actors, w.sendCurrent cmd = { w with actors := actors } ∧ actors.length = w.actors.length := by
  unfold sendCurrent
  split
  · exact ⟨_, rfl, by simp⟩
  · exact ⟨w.actors, rfl, rfl⟩

/-- A fresh actor is in use, and the task is as before. -/
def Renewed (w w' : Worker) : Prop :=
  ∃ actors, w' = { w with actors := actors ++ [.new], actor := actors.length, retiring := false }

variable {replacement : Replacement}

theorem spawnAndInstall_cases (hs : w.spawnAndInstall replacement = .ok w') :
    ∃ actors, w' = { w with actors := actors ++ [.new], actor := actors.length } := by
  unfold spawnAndInstall at hs
  split at hs
  · cases hs
  · obtain ⟨actors, heq, hlen⟩ := sendCurrent_cases w .shutdown
    rw [heq, ← hlen] at hs
    exact ⟨actors, (Except.ok.inj hs).symm⟩

theorem replaceRetiringActor_cases (hs : w.replaceRetiringActor replacement = .ok w') : Renewed w w' := by
  unfold replaceRetiringActor at hs
  split at hs
  · cases hx : w.spawnAndInstall replacement with
    | error err =>
      rw [hx] at hs
      cases hs
    | ok w1 =>
      rw [hx] at hs
      obtain ⟨actors, rfl⟩ := spawnAndInstall_cases hx
      exact ⟨actors, (Except.ok.inj hs).symm⟩
  · cases hs

/-- The actor in use is the one from before, if it lives, or a fresh one. -/
theorem liveActor_cases (hs : w.liveActor replacement = .ok w') :
    (w' = w ∧ w.retiring = false ∧ ∃ a, w.current = some a ∧ a.finished = false) ∨ Renewed w w' := by
  unfold liveActor at hs
  split at hs
  · exact Or.inr (replaceRetiringActor_cases hs)
  · rename_i hret
    have hret : w.retiring = false := by simpa using hret
    split at hs
    · rename_i a ha
      split at hs
      · obtain ⟨actors, rfl⟩ := spawnAndInstall_cases hs
        refine Or.inr ⟨actors, ?_⟩
        rw [← hret]
      · rename_i hfin
        exact Or.inl ⟨(Except.ok.inj hs).symm, hret, a, ha, by simpa using hfin⟩
    · cases hs

/-- With no actor to use, the error is not one of the style or of time. -/
theorem liveActor_error {err : RendererError} (hs : w.liveActor replacement = .error err) :
    err = .actorDead ∨ ∃ message, err = .renderFailed message := by
  have hspawn : ∀ e, w.spawnAndInstall replacement = .error e → ∃ message, e = .renderFailed message := by
    intro e he
    unfold spawnAndInstall at he
    split at he
    · exact ⟨_, (Except.error.inj he).symm⟩
    · cases he
  unfold liveActor replaceRetiringActor at hs
  split at hs
  · split at hs
    · cases hx : w.spawnAndInstall replacement with
      | error e =>
        rw [hx] at hs
        exact Or.inr (Except.error.inj hs ▸ hspawn e hx)
      | ok w1 =>
        rw [hx] at hs
        cases hs
    · exact Or.inl (Except.error.inj hs).symm
  · split at hs
    · split at hs
      · exact Or.inr (hspawn err hs)
      · cases hs
    · exact Or.inl (Except.error.inj hs).symm

/-- After a timeout the actor is retiring, or a fresh one is in its place. -/
theorem retireAfterCurrent_cases (w : Worker) (replacement : Replacement) :
    (∃ actors, w.retireAfterCurrent replacement = { w with actors := actors, retiring := true } ∧
        actors.length = w.actors.length) ∨
      Renewed w (w.retireAfterCurrent replacement) := by
  obtain ⟨actors, heq, hlen⟩ := sendCurrent_cases w .retire
  unfold retireAfterCurrent
  rw [heq]
  dsimp only
  split
  · rename_i w1 hx
    obtain ⟨actors', rfl⟩ := replaceRetiringActor_cases hx
    exact Or.inr ⟨actors', rfl⟩
  · exact Or.inl ⟨actors, rfl, hlen⟩

/-! ## The worker and its actor -/

/-- Nothing waits in the actor, and it is ready for the style of the profile that the worker has. -/
structure InStep (profile : Option (WorkerProfile × Option CredentialCachePartition)) (a : RendererActor) : Prop where
  inbox : a.inbox = []
  ready : ∀ p partition, profile = some (p, partition) → a.Ready p.style

/-- The actor has the command still to serve, or has served it, or has died of it. -/
def Serves (cmd : RenderCmd) (before : RendererActor → Prop) (after : RendererActor → Except RendererError Unit → Prop)
    (a : RendererActor) : Prop :=
  (a.inbox = [cmd] ∧ a.reply = none ∧ before a) ∨ (a.inbox = [] ∧ ∀ result, a.reply = some result → after a result)

/-- What the actor in use is to the worker, by where the worker is in its loop. -/
def Agrees (profile : Option (WorkerProfile × Option CredentialCachePartition)) (phase : WorkerPhase) (a : RendererActor) :
    Prop :=
  match phase with
  | .idle => InStep profile a
  | .entered _ _ => InStep profile a
  | .ready _ _ => InStep profile a
  | .rendering task => Serves (.render task) (fun a => a.Ready task.style) (fun a => a.Rendered task.style) a
  | .settingUp task prepared =>
    Serves (.loadProfile ⟨task.style, prepared.styleJson⟩ task) (fun a => a.finished = false) (fun a => a.SetUp task.style) a
  | .stopped => True

/-- The worker has no profile of an actor that is retiring, and is in step with one that is not; no task was answered that its
style is not loaded. -/
structure Coherent (w : Worker) : Prop where
  valid : w.actor < w.actors.length
  retiring : w.retiring = true → w.currentProfile = none ∧ w.awaiting = none
  current : w.retiring = false → ∀ a, w.current = some a → Agrees w.currentProfile w.phase a
  profiled : ∀ task, w.setUp = some task → w.currentProfile = some (task.workerProfile, task.partition)
  answered : ∀ o ∈ w.outcomes, ∀ failure, o.2 = .error failure → ¬failure.NotReady

/-- The profile the worker goes on with when the actor it uses dies now: after a reply that has come, the one the reply leaves;
without one, none. -/
def goesOnWith (w : Worker) : Option (WorkerProfile × Option CredentialCachePartition) :=
  match w.phase, w.current.bind RendererActor.reply with
  | .idle, _ => w.currentProfile
  | .entered _ _, _ => w.currentProfile
  | .ready _ _, _ => w.currentProfile
  | .settingUp task _, some (.ok ()) => some (task.workerProfile, task.partition)
  | .rendering _, some (.ok ()) => w.currentProfile
  | .settingUp _ _, some (.error err) => if rendererErrorInvalidatesWarmState err then none else w.currentProfile
  | .rendering _, some (.error err) => if rendererErrorInvalidatesWarmState err then none else w.currentProfile
  | .settingUp _ _, none => none
  | .rendering _, none => none
  | .stopped, _ => none

/-- The error of a render or a set-up is one by which the actor clears its record and the worker keeps its profile. -/
def Unheeded (w : Worker) (err : RendererError) : Prop :=
  match w.phase with
  | .rendering _ => rendererErrorIsActorPanic err = true
  | .settingUp _ _ => (∃ message, err = .renderFailed message) ∧ w.currentProfile.isSome
  | .idle => False
  | .entered _ _ => False
  | .ready _ _ => False
  | .stopped => False

/-- The step takes no such error from the actor, and is not the death of an actor in use that the worker has a profile of. -/
def Heeded (w : Worker) (action : WorkerAction) : Prop :=
  match action with
  | .receive _ _ => ∀ err, w.current.bind RendererActor.reply = some (.error err) → ¬w.Unheeded err
  | .crash i => i = w.actor → w.goesOnWith = none
  | _ => True

theorem InStep.of_none {a : RendererActor} (hin : a.inbox = []) : InStep none a := ⟨hin, fun _ _ hp => by cases hp⟩

theorem InStep.cleared {profile : Option (WorkerProfile × Option CredentialCachePartition)} {a : RendererActor}
    (h : InStep profile a) (c : Bool) : InStep (if c then none else profile) a := by
  split
  · exact InStep.of_none h.inbox
  · exact h

theorem Coherent.new : Worker.new.Coherent := by
  refine ⟨by simp [Worker.new], fun h => (by cases h), fun _ a ha => ?_, fun _ hp => (by cases hp), fun _ ho =>
    absurd ho List.not_mem_nil⟩
  cases ha
  exact InStep.of_none rfl

theorem Coherent.answered_concat (h : w.Coherent) (id : UInt64) {result : Except StageFailure Unit}
    (hresult : ∀ failure, result = .error failure → ¬failure.NotReady) :
    ∀ o ∈ w.outcomes ++ [(id, result)], ∀ failure, o.2 = .error failure → ¬failure.NotReady := by
  intro o ho failure hf
  rcases List.mem_append.mp ho with ho | ho
  · exact h.answered o ho failure hf
  · rw [List.mem_singleton.mp ho] at hf
    exact hresult failure hf

variable {task : InternalTask}

/-- A task ends with the actor in step. -/
theorem Coherent.finish {result : Except StageFailure Unit} (h : w.Coherent)
    (hcur : w.retiring = false → ∀ a, w.current = some a → InStep w.currentProfile a)
    (hresult : ∀ failure, result = .error failure → ¬failure.NotReady) : (w.finish task result).Coherent :=
  ⟨h.valid, fun hret => ⟨(h.retiring hret).1, rfl⟩, hcur, fun _ hp => (by cases hp), h.answered_concat task.id hresult⟩

/-- A task ends with a timeout: the actor is replaced or retiring, and the worker has no profile. -/
theorem Coherent.timedOut (h : w.Coherent) (task : InternalTask) (stage : DeadlineStage) :
    (w.failWith task stage .timeout replacement).Coherent := by
  have hnot : ∀ failure, (.error (.rendererError stage .timeout) : Except StageFailure Unit) = .error failure →
    ¬failure.NotReady := by
    intro failure hf hno
    rw [← Except.error.inj hf] at hno
    exact hno
  have hanswered := h.answered_concat task.id hnot
  have hfail : w.failWith task stage .timeout replacement = { w.retireAfterCurrent replacement with
      currentProfile := none
      phase := .idle
      outcomes := (w.retireAfterCurrent replacement).outcomes ++ [(task.id, .error (.rendererError stage .timeout))] } := by
    simp only [Worker.failWith, Worker.finish, if_true, rendererErrorInvalidatesWarmState_timeout]
  rw [hfail]
  rcases retireAfterCurrent_cases w replacement with ⟨actors, heq, hlen⟩ | ⟨actors, heq⟩
  · rw [heq]
    exact ⟨hlen ▸ h.valid, fun _ => ⟨rfl, rfl⟩, fun hret => (by cases hret), fun _ hp => (by cases hp), hanswered⟩
  · rw [heq]
    refine ⟨by simp, fun hret => (by cases hret), fun _ a ha => ?_, fun _ hp => (by cases hp), hanswered⟩
    obtain rfl : RendererActor.new = a := by simpa [Worker.current] using ha
    exact InStep.of_none rfl

/-- A task ends with an error other than a timeout. -/
theorem Coherent.failWith {stage : DeadlineStage} {err : RendererError} (replacement : Replacement)
    (h : w.Coherent) (htime : err ≠ .timeout) (hnot : ¬(StageFailure.rendererError stage err).NotReady)
    (hcur : w.retiring = false → ∀ a, w.current = some a →
      InStep (if rendererErrorInvalidatesWarmState err then none else w.currentProfile) a) :
    (w.failWith task stage err replacement).Coherent := by
  have hfail : w.failWith task stage err replacement = Worker.finish { w with
      currentProfile := if rendererErrorInvalidatesWarmState err then none else w.currentProfile } task
        (.error (.rendererError stage err)) := by
    simp only [Worker.failWith, Worker.finish, if_neg htime]
    split
    · rfl
    · rfl
  rw [hfail]
  refine ⟨h.valid, fun hret => ⟨?_, rfl⟩, hcur, fun _ hp => (by cases hp), h.answered_concat task.id fun failure hf => ?_⟩
  · simp only [Worker.finish, (h.retiring hret).1, ite_self]
  · exact Except.error.inj hf ▸ hnot

/-- Where the worker awaits nothing of the actor, the actor is in step. -/
theorem Coherent.inStep (h : w.Coherent) (hquiet : w.phase.Quiet) (hret : w.retiring = false) (a : RendererActor)
    (ha : w.current = some a) : InStep w.currentProfile a := by
  have hst := h.current hret a ha
  cases hphase : w.phase with
  | idle => rw [hphase] at hst; exact hst
  | entered task prepared => rw [hphase] at hst; exact hst
  | ready task prepared => rw [hphase] at hst; exact hst
  | settingUp task prepared => rw [hphase] at hquiet; exact hquiet.elim
  | rendering task => rw [hphase] at hquiet; exact hquiet.elim
  | stopped => rw [hphase] at hquiet; exact hquiet.elim

/-- The profile of a worker that need not set up the task. -/
theorem currentProfile_of_not_styleSwap (h : w.styleSwap task = false) :
    w.currentProfile = some (task.workerProfile, task.partition) := by
  unfold styleSwap at h
  split at h
  · cases h
  · rename_i profile partition hcur
    have hboth : profile = task.workerProfile ∧ partition = task.partition := by simpa using h
    rw [hcur, hboth.1, hboth.2]

/-- An actor that the worker has a profile of is not retiring. -/
theorem Coherent.not_retiring {p : WorkerProfile × Option CredentialCachePartition} (h : w.Coherent)
    (hp : w.currentProfile = some p) :
    w.retiring = false := by
  cases hr : w.retiring with
  | false => rfl
  | true =>
    rw [(h.retiring hr).1] at hp
    cases hp

/-- A worker with a profile uses an actor that is ready for it as it is. -/
theorem Coherent.liveActor_of_profile {p : WorkerProfile} {partition : Option CredentialCachePartition} (h : w.Coherent)
    (hquiet : w.phase.Quiet) (hp : w.currentProfile = some (p, partition)) (replacement : Replacement) :
    ∃ a, w.liveActor replacement = .ok w ∧ w.current = some a ∧ a.inbox = [] ∧ a.Ready p.style := by
  have hret := h.not_retiring hp
  obtain ⟨a, ha⟩ : ∃ a, w.current = some a := ⟨_, List.getElem?_eq_getElem h.valid⟩
  have hin := h.inStep hquiet hret a ha
  have hready := hin.ready p partition hp
  refine ⟨a, ?_, ha, hin.inbox, hready⟩
  simp [liveActor, hret, ha, hready.live]

section

variable {parse : String → BaseStyle} {hash : AddLayerSource → UInt64} {task : InternalTask}

theorem Coherent.process {prepared : Option PreparedProfile} (h : w.Coherent)
    (hs : step parse hash w (.process task prepared) = some w') : w'.Coherent := by
  simp only [step] at hs
  split at hs
  · rename_i hphase
    cases hs
    refine ⟨h.valid, fun hret => ⟨(h.retiring hret).1, rfl⟩, ?_, fun _ hp => (by cases hp), h.answered⟩
    exact h.inStep (hphase ▸ trivial)
  · cases hs

theorem Coherent.leave {failure : StageFailure} (h : w.Coherent) (hs : step parse hash w (.leave failure) = some w') :
    w'.Coherent := by
  have hend : ∀ task, w.phase.Quiet → ¬failure.NotReady → w' = w.finish task (.error failure) → w'.Coherent := by
    rintro task hquiet hnot rfl
    exact h.finish (h.inStep hquiet) fun _ hf => Except.error.inj hf ▸ hnot
  simp only [step] at hs
  split at hs
  · rename_i task prepared stage hphase
    exact hend task (hphase ▸ trivial) (fun hno => hno) (Option.some.inj hs).symm
  · rename_i task prepared stage hphase
    exact hend task (hphase ▸ trivial) (fun hno => hno) (Option.some.inj hs).symm
  · rename_i task prepared stage hphase
    exact hend task (hphase ▸ trivial) (fun hno => hno) (Option.some.inj hs).symm
  · rename_i task prepared stage hphase
    exact hend task (hphase ▸ trivial) (fun hno => hno) (Option.some.inj hs).symm
  · cases hs

theorem Coherent.skipSetup (h : w.Coherent) (hs : step parse hash w .skipSetup = some w') : w'.Coherent := by
  simp only [step] at hs
  split at hs
  · rename_i task prepared hphase
    split at hs
    · cases hs
    · rename_i hswap
      have hprof := currentProfile_of_not_styleSwap (Bool.not_eq_true _ ▸ hswap)
      cases hs
      refine ⟨h.valid, fun hret => ⟨(h.retiring hret).1, rfl⟩, ?_, fun task' hp => ?_, h.answered⟩
      · exact h.inStep (hphase ▸ trivial)
      · cases hp
        exact hprof
  · cases hs

variable {replacement : Replacement} {err : RendererError}

/-- With no actor to use, the task ends and the worker is as before. -/
theorem Coherent.unserved {stage : DeadlineStage} (h : w.Coherent) (hquiet : w.phase.Quiet)
    (hs : w.liveActor replacement = .error err) :
    (w.failWith task stage err replacement).Coherent := by
  have hcur := fun hret a ha => (h.inStep hquiet hret a ha).cleared (rendererErrorInvalidatesWarmState err)
  rcases liveActor_error hs with rfl | ⟨message, rfl⟩
  · exact h.failWith replacement (fun he => by cases he) (fun hno => hno) hcur
  · exact h.failWith replacement (fun he => by cases he) (fun hno => hno) hcur

variable {a : RendererActor}

/-- A command is sent to an actor that has none. -/
theorem current_sendCurrent (ha : w.current = some a) (cmd : RenderCmd) :
    (w.sendCurrent cmd).current = some (a.send cmd) := by
  rw [sendCurrent_eq ha]
  exact getElem?_set_of_some ha _

theorem Coherent.setupProfile (h : w.Coherent) (hs : step parse hash w (.setupProfile replacement) = some w') : w'.Coherent := by
  simp only [step] at hs
  split at hs
  · rename_i task prepared hphase
    have hquiet : w.phase.Quiet := hphase ▸ trivial
    split at hs
    · split at hs
      · cases hs
        refine h.failWith replacement (fun he => by cases he) (fun hno => hno) fun hret a ha => ?_
        exact (h.inStep hquiet hret a ha).cleared _
      · rename_i profile hfit
        split at hs
        · rename_i err hlive
          cases hs
          exact h.unserved hquiet hlive
        · rename_i w1 hlive
          obtain ⟨-, hrev, -⟩ := fitting_eq_some hfit
          -- the actor that is asked lives and has nothing else to do
          have hasked : w1.actor < w1.actors.length ∧ w1.retiring = false ∧ w1.outcomes = w.outcomes ∧
              ∃ a, w1.current = some a ∧ a.inbox = [] ∧ a.finished = false := by
            rcases liveActor_cases hlive with ⟨rfl, hret, a, ha, hfin⟩ | hnew
            · exact ⟨h.valid, hret, rfl, a, ha, (h.inStep hquiet hret a ha).inbox, hfin⟩
            · obtain ⟨actors, rfl⟩ := hnew
              exact ⟨by simp, rfl, rfl, .new, by simp [Worker.current], rfl, rfl⟩
          obtain ⟨hvalid, hret, hout, a, ha, hin, hfin⟩ := hasked
          have hsent := current_sendCurrent ha (.loadProfile ⟨task.style, profile.styleJson⟩ task)
          obtain ⟨actors, heq, hlen⟩ := sendCurrent_cases w1 (.loadProfile ⟨task.style, profile.styleJson⟩ task)
          rw [hrev, heq] at hs
          rw [heq] at hsent
          cases hs
          refine ⟨hlen ▸ hvalid, fun hr => absurd (hret.symm.trans hr) (by simp), fun _ b hb => ?_, fun _ hp => (by cases hp), ?_⟩
          · cases hsent.symm.trans hb
            exact Or.inl ⟨by simp [RendererActor.send, hin], rfl, hfin⟩
          · exact hout ▸ h.answered
    · cases hs
  · cases hs

theorem Coherent.render (h : w.Coherent) (hs : step parse hash w (.render replacement) = some w') :
    w'.Coherent := by
  simp only [step] at hs
  split at hs
  · rename_i task prepared hphase
    obtain ⟨hprof, hstyle, hpart⟩ := style_withAddlayerSource task prepared
    have hcur := h.profiled task (by simp only [setUp, hphase])
    obtain ⟨a, hlive, ha, hin, hready⟩ := h.liveActor_of_profile (hphase ▸ trivial) hcur replacement
    have hret := h.not_retiring hcur
    have hsent := current_sendCurrent ha (.render (withAddlayerSource task prepared))
    obtain ⟨actors, heq, hlen⟩ := sendCurrent_cases w (.render (withAddlayerSource task prepared))
    rw [hlive] at hs
    dsimp only at hs
    rw [heq] at hs hsent
    cases hs
    refine ⟨hlen ▸ h.valid, fun hr => absurd (hret.symm.trans hr) (by simp), fun _ b hb => ?_, fun task' hp => ?_, h.answered⟩
    · cases hsent.symm.trans hb
      exact Or.inl ⟨by simp [RendererActor.send, hin], rfl, ⟨hready.live, hready.loaded.trans (congrArg some hstyle.symm)⟩⟩
    · cases hp
      rw [hprof, hpart]
      exact hcur
  · cases hs

variable {profile : Option (WorkerProfile × Option CredentialCachePartition)}

/-- The actor in use serves what it was asked. -/
theorem Agrees.serve {phase : WorkerPhase} {a a' : RendererActor}
    {calls : NativeCalls} (h : Agrees profile phase a) (hs : a.serve parse hash calls = some a') : Agrees profile phase a' := by
  have hnone : a.inbox ≠ [] := by
    intro hin
    rw [serve_nil hin] at hs
    cases hs
  cases phase with
  | idle => exact absurd h.inbox hnone
  | entered task prepared => exact absurd h.inbox hnone
  | ready task prepared => exact absurd h.inbox hnone
  | stopped => trivial
  | rendering task =>
    rcases h with ⟨hin, -, hready⟩ | ⟨hin, -⟩
    · rw [serve_render hready.live hin] at hs
      obtain ⟨hin', result, hreply, hres⟩ :=
        RendererActor.serveRender_rendered parse hash (a := { a with inbox := [] }) calls ⟨hready.live, hready.loaded⟩
      cases hs
      refine Or.inr ⟨hin', fun result' hr => ?_⟩
      rw [← Option.some.inj (hreply.symm.trans hr)]
      exact hres
    · exact absurd hin hnone
  | settingUp task prepared =>
    rcases h with ⟨hin, -, hfin⟩ | ⟨hin, -⟩
    · rw [serve_loadProfile hfin hin] at hs
      obtain ⟨hin', result, hreply, hres⟩ :=
        RendererActor.serveLoad_setUp parse (a := { a with inbox := [] }) ⟨task.style, prepared.styleJson⟩ task calls hfin
      cases hs
      refine Or.inr ⟨hin', fun result' hr => ?_⟩
      rw [← Option.some.inj (hreply.symm.trans hr)]
      exact hres
    · exact absurd hin hnone

variable {i : Nat}

/-- One actor is replaced in the list: the worker has to agree with the new one when it is the one in use. -/
theorem Coherent.setActor {a a' : RendererActor} (h : w.Coherent) (ha : w.actors[i]? = some a)
    (hst : i = w.actor → w.retiring = false → Agrees w.currentProfile w.phase a → Agrees w.currentProfile w.phase a') :
    (w.setActor i a').Coherent := by
  refine ⟨by simpa [Worker.setActor] using h.valid, h.retiring, fun hret b hb => ?_, h.profiled, h.answered⟩
  by_cases hi : i = w.actor
  · subst hi
    have hcur : (w.setActor w.actor a').current = some a' := getElem?_set_of_some ha a'
    cases hcur.symm.trans hb
    exact hst rfl hret (h.current hret a ha)
  · rw [current_setActor_of_ne hi] at hb
    exact h.current hret b hb

theorem Coherent.serve {calls : NativeCalls} (h : w.Coherent) (hs : step parse hash w (.serve i calls) = some w') :
    w'.Coherent := by
  simp only [step] at hs
  obtain ⟨a, ha, hmap⟩ := Option.bind_eq_some_iff.mp hs
  obtain ⟨a', ha', rfl⟩ := Option.map_eq_some_iff.mp hmap
  exact h.setActor ha fun _ _ hst => hst.serve ha'

/-- An actor dies that the worker goes on without a profile of. -/
theorem Coherent.crash (h : w.Coherent) (hc : i = w.actor → w.goesOnWith = none)
    (hs : step parse hash w (.crash i) = some w') : w'.Coherent := by
  simp only [step] at hs
  obtain ⟨a, ha, rfl⟩ := Option.map_eq_some_iff.mp hs
  refine h.setActor ha fun hi hret hst => ?_
  subst hi
  have hgo := hc rfl
  have hcur : w.current = some a := ha
  unfold goesOnWith at hgo
  rw [hcur, Option.bind_some] at hgo
  cases hphase : w.phase with
  | idle =>
    rw [hphase] at hgo
    exact ⟨rfl, fun _ _ hp => by rw [show w.currentProfile = none from hgo] at hp; cases hp⟩
  | entered task prepared =>
    rw [hphase] at hgo
    exact ⟨rfl, fun _ _ hp => by rw [show w.currentProfile = none from hgo] at hp; cases hp⟩
  | ready task prepared =>
    rw [hphase] at hgo
    exact ⟨rfl, fun _ _ hp => by rw [show w.currentProfile = none from hgo] at hp; cases hp⟩
  | stopped => trivial
  | rendering task =>
    rw [hphase] at hgo hst
    refine Or.inr ⟨rfl, fun result hr => ?_⟩
    have hprof := h.profiled task (by simp only [setUp, hphase])
    rcases hst with ⟨-, hno, -⟩ | ⟨-, hafter⟩
    · exact absurd (hno.symm.trans hr) (by simp)
    · have hres := hafter result hr
      rw [show a.reply = some result from hr] at hgo
      cases result with
      | ok u => exact absurd (hgo.symm.trans hprof) (by simp)
      | error err =>
        refine ⟨hres.1, Or.inr (Or.inr ?_)⟩
        simp only [hprof] at hgo
        by_contra hnot
        simp [hnot] at hgo
  | settingUp task prepared =>
    rw [hphase] at hgo hst
    refine Or.inr ⟨rfl, fun result hr => ?_⟩
    rcases hst with ⟨-, hno, -⟩ | ⟨-, hafter⟩
    · exact absurd (hno.symm.trans hr) (by simp)
    · have hres := hafter result hr
      rw [show a.reply = some result from hr] at hgo
      cases result with
      | ok u => cases hgo
      | error err => exact hres

variable {result : Except RendererError Unit}

/-- What the actor in use says of the reply that the worker takes. -/
theorem Coherent.replied (h : w.Coherent) (hawait : w.awaiting ≠ none)
    (hreply : w.current.bind RendererActor.reply = some result) :
    w.retiring = false ∧ ∃ a, w.current = some a ∧ a.reply = some result ∧ Agrees w.currentProfile w.phase a := by
  obtain ⟨a, ha, hr⟩ := Option.bind_eq_some_iff.mp hreply
  have hret : w.retiring = false := by
    cases hret : w.retiring with
    | false => rfl
    | true => exact absurd (h.retiring hret).2 hawait
  exact ⟨hret, a, ha, hr, h.current hret a ha⟩

/-- A reply is the one to the command that was served. -/
theorem Serves.replied {cmd : RenderCmd} {before : RendererActor → Prop}
    {after : RendererActor → Except RendererError Unit → Prop} (h : Serves cmd before after a) (hr : a.reply = some result) :
    a.inbox = [] ∧ after a result := by
  rcases h with ⟨-, hno, -⟩ | ⟨hin, hafter⟩
  · exact absurd (hno.symm.trans hr) (by simp)
  · exact ⟨hin, hafter result hr⟩

theorem Agrees.setUp {prepared : PreparedProfile}
    (h : Agrees profile (.settingUp task prepared) a) (hr : a.reply = some result) : a.inbox = [] ∧
      a.SetUp task.style result := by
  unfold Agrees at h
  exact h.replied hr

theorem Agrees.rendered (h : Agrees profile (.rendering task) a) (hr : a.reply = some result) :
    a.inbox = [] ∧ a.Rendered task.style result := by
  unfold Agrees at h
  exact h.replied hr

/-- The set-up has failed: the worker clears its profile, or had none. -/
theorem Coherent.setupFails {prepared : PreparedProfile} (replacement : Replacement)
    (h : w.Coherent) (hphase : w.phase = .settingUp task prepared)
      (hreply : w.current.bind RendererActor.reply = some (.error err))
    (hnot : ¬w.Unheeded err) : (w.failWith task .styleSwap err replacement).Coherent := by
  obtain ⟨-, a, ha, hr, hst⟩ := h.replied (by simp [awaiting, hphase]) hreply
  rw [hphase] at hst
  obtain ⟨hin, hof⟩ := Agrees.setUp hst hr
  have hof : err.OfBackend := hof
  have hclear : rendererErrorInvalidatesWarmState err = true ∨ w.currentProfile = none := by
    simp only [Unheeded, hphase] at hnot
    cases err with
    | renderFailed message =>
      right
      by_contra hsome
      exact hnot ⟨⟨message, rfl⟩, Option.isSome_iff_ne_none.mpr hsome⟩
    | styleLoadFailed id message => exact Or.inl rfl
    | setupFailed id message => exact Or.inl rfl
    | styleNotReady id version => exact Or.inl rfl
    | sourceFetchFailed source message => exact hof.elim
    | timeout => exact Or.inl rfl
    | actorDead => exact Or.inl rfl
  refine h.failWith replacement hof.ne_timeout (hof.not_notReady _) fun _ b hb => ?_
  cases ha.symm.trans hb
  rcases hclear with hclear | hclear
  · rw [hclear]
    exact InStep.of_none hin
  · rw [hclear, ite_self]
    exact InStep.of_none hin

/-- The render has failed: the actor has the style still, or the worker clears its profile. -/
theorem Coherent.renderFails (replacement : Replacement) (h : w.Coherent)
    (hphase : w.phase = .rendering task) (hreply : w.current.bind RendererActor.reply = some (.error err))
    (hnot : ¬w.Unheeded err) : (w.failWith task .render err replacement).Coherent := by
  obtain ⟨-, a, ha, hr, hst⟩ := h.replied (by simp [awaiting, hphase]) hreply
  have hprof := h.profiled task (by simp only [setUp, hphase])
  simp only [Unheeded, hphase] at hnot
  rw [hphase] at hst
  obtain ⟨hin, hof, hcases⟩ := Agrees.rendered hst hr
  refine h.failWith replacement hof.ne_timeout (hof.not_notReady _) fun _ b hb => ?_
  cases ha.symm.trans hb
  rcases hcases with hstill | hpanic | hclear
  · refine InStep.cleared ⟨hin, fun p partition hp => ?_⟩ _
    cases hprof.symm.trans hp
    exact hstill
  · exact absurd hpanic hnot
  · rw [hclear]
    exact InStep.of_none hin

theorem Coherent.receive {late : Bool} (h : w.Coherent)
    (hc : ∀ err, w.current.bind RendererActor.reply = some (.error err) → ¬w.Unheeded err)
    (hs : step parse hash w (.receive late replacement) = some w') : w'.Coherent := by
  simp only [step] at hs
  split at hs
  · rename_i task prepared err hphase hreply
    cases hs
    exact h.setupFails replacement hphase hreply (hc err hreply)
  · rename_i task prepared hphase hreply
    obtain ⟨hret, a, ha, hr, hst⟩ := h.replied (by simp [awaiting, hphase]) hreply
    rw [hphase] at hst
    obtain ⟨hin, hafter⟩ := Agrees.setUp hst hr
    cases hs
    refine ⟨h.valid, fun hr' => absurd (hret.symm.trans hr') (by simp), fun _ b hb => ⟨?_, fun p partition hp => ?_⟩,
      fun task' hp => ?_, h.answered⟩
    · exact Option.some.inj (ha.symm.trans hb) ▸ hin
    · cases hp
      exact Option.some.inj (ha.symm.trans hb) ▸ hafter
    · cases hp
      rfl
  · rename_i task err hphase hreply
    cases hs
    exact h.renderFails replacement hphase hreply (hc err hreply)
  · rename_i task hphase hreply
    split at hs
    · cases hs
      exact h.timedOut task .render
    · obtain ⟨-, a, ha, hr, hst⟩ := h.replied (by simp [awaiting, hphase]) hreply
      have hprof := h.profiled task (by simp only [setUp, hphase])
      rw [hphase] at hst
      obtain ⟨hin, hafter⟩ := Agrees.rendered hst hr
      cases hs
      refine h.finish (fun _ b hb => ?_) fun _ hf => by cases hf
      cases ha.symm.trans hb
      refine ⟨hin, fun p partition hp => ?_⟩
      cases hprof.symm.trans hp
      exact hafter
  · cases hs

theorem Coherent.expire (h : w.Coherent) (hs : step parse hash w (.expire replacement) = some w') :
    w'.Coherent := by
  simp only [step] at hs
  obtain ⟨⟨stage, task⟩, -, rfl⟩ := Option.map_eq_some_iff.mp hs
  exact h.timedOut task stage

/-- An actor that died over a command leaves the worker without a profile. -/
theorem Coherent.lose (h : w.Coherent) (hs : step parse hash w (.lose replacement) = some w') :
    w'.Coherent := by
  simp only [step] at hs
  split at hs
  · rename_i a ha
    split at hs
    · rename_i hdead
      obtain ⟨⟨stage, task⟩, hawait, rfl⟩ := Option.map_eq_some_iff.mp hs
      refine h.failWith replacement (fun he => by cases he) (fun hno => hno) fun hret b hb => InStep.of_none ?_
      cases ha.symm.trans hb
      have hst := h.current hret a ha
      rcases awaiting_cases hawait with ⟨prepared, hphase⟩ | hphase
      · rw [hphase] at hst
        rcases hst with ⟨-, -, hfin⟩ | ⟨hin, -⟩
        · exact absurd (hfin.symm.trans hdead.1) (by simp)
        · exact hin
      · rw [hphase] at hst
        rcases hst with ⟨-, -, hready⟩ | ⟨hin, -⟩
        · exact absurd (hready.live.symm.trans hdead.1) (by simp)
        · exact hin
    · cases hs
  · cases hs

/-- The renderer is repaired between tasks: a fresh actor is put in only where the worker has no profile. -/
theorem Coherent.repair (h : w.Coherent) (hs : step parse hash w (.repair replacement) = some w') :
    w'.Coherent := by
  simp only [step] at hs
  split at hs
  · rename_i hphase
    have hquiet : w.phase.Quiet := hphase ▸ trivial
    split at hs
    · rename_i w1 hlive
      cases hs
      cases hprof : w.currentProfile with
      | some p =>
        obtain ⟨profile, partition⟩ := p
        obtain ⟨a, hsame, -⟩ := h.liveActor_of_profile hquiet hprof replacement
        rw [← Except.ok.inj (hsame.symm.trans hlive)]
        exact h
      | none =>
        rcases liveActor_cases hlive with ⟨rfl, -⟩ | ⟨actors, rfl⟩
        · exact h
        · refine ⟨by simp, fun hret => (by cases hret), fun _ b hb => ?_, fun _ hp => ?_, h.answered⟩
          · obtain rfl : RendererActor.new = b := by simpa [Worker.current] using hb
            simp only [hphase, hprof]
            exact InStep.of_none rfl
          · simp only [setUp, hphase] at hp
            cases hp
    · exact Option.some.inj hs ▸ h
  · cases hs

theorem Coherent.retire (h : w.Coherent) (hs : step parse hash w .retire = some w') : w'.Coherent := by
  simp only [step] at hs
  split at hs
  · obtain ⟨actors, heq, hlen⟩ := sendCurrent_cases w .shutdown
    rw [← Option.some.inj hs, heq]
    exact ⟨hlen ▸ h.valid, fun hret => ⟨(h.retiring hret).1, rfl⟩, fun _ _ _ => trivial, fun _ hp => (by cases hp), h.answered⟩
  · cases hs

/-- Every step whose errors and deaths the worker heeds keeps the worker and its actor in step. -/
theorem Coherent.step {action : WorkerAction} (h : w.Coherent) (hc : w.Heeded action) (hs : step parse hash w action = some w') :
    w'.Coherent := by
  cases action with
  | process task prepared => exact h.process hs
  | leave failure => exact h.leave hs
  | skipSetup => exact h.skipSetup hs
  | setupProfile replacement => exact h.setupProfile hs
  | render replacement => exact h.render hs
  | serve i calls => exact h.serve hs
  | receive late replacement => exact h.receive hc hs
  | expire replacement => exact h.expire hs
  | lose replacement => exact h.lose hs
  | crash i => exact h.crash hc hs
  | repair replacement => exact h.repair hs
  | retire => exact h.retire hs

end

end Worker

end Biei
