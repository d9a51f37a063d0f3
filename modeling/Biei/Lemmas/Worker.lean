import Biei.Lib.Update
import Biei.Lemmas.Backend

/-!
# What a worker's records stand for

Which documents the records of an actor and a worker stand for, through every reply, error, panic, timeout and replacement.
-/

namespace Biei

open MapLibreNativeBackend

/-! ## The actor -/

theorem catchBackendUnwind_spec (operation : String) {x : BackendM Unit} {b : MapLibreNativeBackend}
    {ok : Unit → MapLibreNativeBackend → Prop} {err : MapLibreNativeBackend → Prop} (h : Ends x b ok err) :
    (∃ b', catchBackendUnwind operation x b = (.ok (), b') ∧ ok () b') ∨
      ∃ e b', catchBackendUnwind operation x b = (.error e, b') ∧ err b' := by
  unfold catchBackendUnwind
  unfold Ends at h
  split
  · rename_i b' hx
    rw [hx] at h
    exact Or.inl ⟨b', rfl, h⟩
  · rename_i e b' hx
    rw [hx] at h
    exact Or.inr ⟨e, b', rfl, h⟩
  · rename_i message b' hx
    rw [hx] at h
    exact Or.inr ⟨_, b', rfl, h⟩

/-- A command that ends the actor. -/
def RenderCmd.Stops : RenderCmd → Prop
  | .loadProfile .. => False
  | .render _ => False
  | .retire => True
  | .shutdown => True

namespace RendererActor

/-- The actor's record of the revision, if it is this one, stands for a document prepared for the partition. -/
def Warm (received : List PreparedProfile) (a : RendererActor) (revision : StyleRevision)
    (partition : Option CredentialCachePartition) : Prop :=
  a.loaded = some revision → Holds received revision partition a.backend

/-- What is true of every actor, also of one that was abandoned with a command in hand. -/
structure Inv (received : List PreparedProfile) (a : RendererActor) : Prop where
  drawings : DrawingsOk received a.backend
  head : ∀ task rest, a.inbox = .render task :: rest → a.Warm received task.style task.partition
  tail : ∀ cmd ∈ a.inbox.tail, cmd.Stops

variable {a : RendererActor}

theorem Warm.mono {received received' : List PreparedProfile} {revision : StyleRevision}
    {partition : Option CredentialCachePartition} (h : a.Warm received revision partition) (hsub : received ⊆ received') :
    a.Warm received' revision partition :=
  fun hl => (h hl).mono hsub

theorem Inv.mono {received received' : List PreparedProfile} (h : Inv received a) (hsub : received ⊆ received') :
    Inv received' a :=
  ⟨h.drawings.mono hsub, fun task rest hin => (h.head task rest hin).mono hsub, h.tail⟩

theorem Inv.new (received : List PreparedProfile) : Inv received RendererActor.new :=
  ⟨fun _ hd => absurd hd List.not_mem_nil, fun _ _ hin => absurd hin (by simp [RendererActor.new]),
    fun _ hc => absurd hc List.not_mem_nil⟩

/-- Telling an actor to stop puts nothing to do before it. -/
theorem Inv.send_stop {received : List PreparedProfile} {cmd : RenderCmd} (h : Inv received a) (hcmd : cmd.Stops) :
    Inv received (a.send cmd) := by
  refine ⟨h.drawings, fun task rest hin => ?_, fun c hc => ?_⟩
  · cases hinbox : a.inbox with
    | nil =>
      rw [send, hinbox, List.nil_append] at hin
      rw [(List.cons.inj hin).1] at hcmd
      exact hcmd.elim
    | cons c cs =>
      rw [send, hinbox, List.cons_append] at hin
      refine h.head task cs ?_
      rw [hinbox, (List.cons.inj hin).1]
  · cases hinbox : a.inbox with
    | nil =>
      rw [send, hinbox] at hc
      exact absurd hc List.not_mem_nil
    | cons c' cs =>
      rw [send, hinbox] at hc
      rcases List.mem_append.mp hc with hc | hc
      · exact h.tail c (by rw [hinbox]; exact hc)
      · exact List.mem_singleton.mp hc ▸ hcmd

/-- A command to an actor that has none. -/
theorem Inv.send_first {received : List PreparedProfile} {cmd : RenderCmd} (h : Inv received a)
    (hin : a.inbox = []) (hcmd : ∀ task, cmd = .render task → a.Warm received task.style task.partition) :
    Inv received (a.send cmd) := by
  have hinbox : (a.send cmd).inbox = [cmd] := by simp [send, hin]
  refine ⟨h.drawings, fun task rest heq => ?_, fun c hc => ?_⟩
  · rw [hinbox] at heq
    exact hcmd task (List.cons.inj heq).1
  · rw [hinbox] at hc
    exact absurd hc List.not_mem_nil

section

variable (parse : String → BaseStyle) (hash : AddLayerSource → UInt64) {received : List PreparedProfile}

/-- A load has its reply, and draws nothing. -/
theorem serveLoad_spec (a : RendererActor) (style : ResolvedStyle) (task : InternalTask) (calls : NativeCalls) :
    ((∃ b', a.serveLoad parse style task calls = { a with loaded := some style.revision, backend := b', reply := some (.ok ()) } ∧
        b'.loadedStyle = some style ∧ b'.drawings = a.backend.drawings ∧ ∃ active, b'.activeRenderer = some active ∧
          (active.document = style.styleJson ∨ a.backend.keptDocument (.ofTask task) style.revision = some active.document)) ∨
      ∃ (err : RendererError) (b' : MapLibreNativeBackend), a.serveLoad parse style task calls =
          { a with loaded := none, backend := b'.reset, reply := some (.error err) } ∧ b'.drawings = a.backend.drawings) := by
  rcases catchBackendUnwind_spec "load_profile"
    (loadProfile_ends parse style (.ofTask task) calls a.backend) with ⟨b', hx, hok⟩ | ⟨err, b', hx, herr⟩
  · exact Or.inl ⟨b', by simp only [serveLoad, hx], hok⟩
  · exact Or.inr ⟨err, b', by simp only [serveLoad, hx], herr⟩

/-- A render draws with a document prepared for the task, and leaves the actor warm for it or not loaded. -/
theorem serveRender_spec {a : RendererActor} {task : InternalTask} (calls : NativeCalls) (hd : DrawingsOk received a.backend)
    (hw : a.Warm received task.style task.partition) :
    DrawingsOk received (a.serveRender parse hash task calls).backend ∧
      (a.serveRender parse hash task calls).Warm received task.style task.partition ∧
      (a.serveRender parse hash task calls).inbox = a.inbox ∧
      (a.serveRender parse hash task calls).finished = a.finished := by
  by_cases hl : a.loaded = some task.style
  · have hholds := hw hl
    have hboth : ∃ result b', catchBackendUnwind "render" (render parse hash task calls) a.backend = (result, b') ∧
        Holds received task.style task.partition b' ∧ DrawingsOk received b' := by
      rcases catchBackendUnwind_spec "render" (render_ends parse hash task calls hholds hd) with
        ⟨b', hx, hok⟩ | ⟨err, b', hx, herr⟩
      · exact ⟨_, b', hx, hok⟩
      · exact ⟨_, b', hx, herr⟩
    obtain ⟨result, b', hx, hb', hdb'⟩ := hboth
    have hserve : a.serveRender parse hash task calls =
        if renderInvalidates result then { a with loaded := none, backend := b'.reset, reply := some result }
        else { a with backend := b', reply := some result } := by
      simp only [serveRender, if_pos hl, hx]
    rw [hserve]
    split
    · exact ⟨hdb', fun hnone => absurd hnone (by simp), rfl, rfl⟩
    · exact ⟨hdb', fun _ => hb', rfl, rfl⟩
  · have hserve : a.serveRender parse hash task calls =
        { a with loaded := none, backend := a.backend.reset,
                 reply := some (.error (.styleNotReady task.style.id task.style.version)) } := by
      simp only [serveRender, if_neg hl]
      rfl
    rw [hserve]
    exact ⟨hd, fun hnone => absurd hnone (by simp), rfl, rfl⟩

/-- Serving a command keeps what is true of every actor. -/
theorem Inv.serve {a a' : RendererActor} {calls : NativeCalls} (h : Inv received a) (hs : a.serve parse hash calls = some a') :
    Inv received a' := by
  unfold RendererActor.serve at hs
  split at hs
  · cases hs
  · split at hs
    · cases hs
    · rename_i style task rest hin
      have htail : ∀ cmd ∈ rest, cmd.Stops := fun cmd hc => h.tail cmd (by rw [hin]; exact hc)
      cases hs
      have hrest : ∀ task' rest', rest ≠ .render task' :: rest' := by
        intro task' rest' heq
        exact (htail (.render task') (by rw [heq]; exact List.mem_cons_self)).elim
      have htail' : ∀ cmd ∈ rest.tail, cmd.Stops := fun cmd hc => htail cmd (List.mem_of_mem_tail hc)
      rcases serveLoad_spec parse { a with inbox := rest } style task calls with ⟨b', heq, -, hdr, -⟩ | ⟨err, b', heq, hdr⟩
      · rw [heq]
        exact ⟨fun d hd => h.drawings d (hdr ▸ hd), fun task' rest' hin' => absurd hin' (hrest task' rest'), htail'⟩
      · rw [heq]
        exact ⟨fun d hd => h.drawings d (hdr ▸ hd), fun task' rest' hin' => absurd hin' (hrest task' rest'), htail'⟩
    · rename_i task rest hin
      have htail : ∀ cmd ∈ rest, cmd.Stops := fun cmd hc => h.tail cmd (by rw [hin]; exact hc)
      cases hs
      have hwarm : RendererActor.Warm received { a with inbox := rest } task.style task.partition := h.head task rest hin
      obtain ⟨hd, -, hin', -⟩ := serveRender_spec parse hash calls (a := { a with inbox := rest }) h.drawings hwarm
      refine ⟨hd, fun task' rest' heq => ?_, fun cmd hc => ?_⟩
      · rw [hin'] at heq
        exact (htail (.render task') (by rw [show rest = _ from heq]; exact List.mem_cons_self)).elim
      · rw [hin'] at hc
        exact htail cmd (List.mem_of_mem_tail hc)
    · cases hs
      exact ⟨h.drawings, fun _ _ hin' => absurd hin' (by simp), fun _ hc => absurd hc List.not_mem_nil⟩
    · cases hs
      exact ⟨h.drawings, fun _ _ hin' => absurd hin' (by simp), fun _ hc => absurd hc List.not_mem_nil⟩

end

end RendererActor

/-! ## The worker -/

/-- Nothing waits in the actor, and its record stands for what the worker's profile says. -/
structure Settled (received : List PreparedProfile) (profile : Option (WorkerProfile × Option CredentialCachePartition))
    (a : RendererActor) : Prop where
  inbox : a.inbox = []
  warm : ∀ p partition, profile = some (p, partition) → a.Warm received p.style partition

theorem Settled.mono {received received' : List PreparedProfile}
    {profile : Option (WorkerProfile × Option CredentialCachePartition)}
    {a : RendererActor} (h : Settled received profile a) (hsub : received ⊆ received') : Settled received' profile a :=
  ⟨h.inbox, fun p partition hp => (h.warm p partition hp).mono hsub⟩

/-- An actor without a record is as any profile says. -/
theorem Settled.of_not_loaded {received : List PreparedProfile} {a : RendererActor} (hin : a.inbox = []) (hl : a.loaded = none)
    (profile : Option (WorkerProfile × Option CredentialCachePartition)) : Settled received profile a :=
  ⟨hin, fun _ _ _ hsome => absurd (hl.symm.trans hsome) (by simp)⟩

/-- The worker runs, and awaits nothing of the actor. -/
def WorkerPhase.Quiet : WorkerPhase → Prop
  | .idle => True
  | .entered .. => True
  | .ready .. => True
  | .settingUp .. => False
  | .rendering _ => False
  | .stopped => False

/-- What the worker counts on of the actor it uses, by where it is in its loop. -/
def Stands (received : List PreparedProfile) (profile : Option (WorkerProfile × Option CredentialCachePartition))
    (phase : WorkerPhase) (a : RendererActor) : Prop :=
  match phase with
  | .idle => Settled received profile a
  | .entered _ _ => Settled received profile a
  | .ready _ _ => Settled received profile a
  | .rendering task =>
    Settled received profile a ∨ (a.inbox = [.render task] ∧ a.reply = none ∧ a.finished = false ∧
      a.Warm received task.style task.partition)
  | .settingUp task prepared =>
    -- while the command is waiting, what it brings and what it would keep are prepared; once served, the reply tells
    (a.inbox = [.loadProfile ⟨task.style, prepared.styleJson⟩ task] ∧ a.reply = none ∧ a.finished = false ∧
      Prepared received task.style task.partition prepared.styleJson ∧
      ∀ document, a.backend.keptDocument (.ofTask task) task.style = some document →
        Prepared received task.style task.partition document) ∨
    (a.inbox = [] ∧ (a.reply = some (.ok ()) → a.Warm received task.style task.partition) ∧
      ∀ err, a.reply = some (.error err) → a.loaded = none)
  | .stopped => True

namespace Worker

/-- Every actor of the worker is as actors are, and the renderer uses one of them. -/
structure Fleet (w : Worker) : Prop where
  valid : w.actor < w.actors.length
  actors : ∀ (i : Nat) a, w.actors[i]? = some a → RendererActor.Inv w.received a

/-- The task whose profile is the current one. -/
def setUp (w : Worker) : Option InternalTask :=
  match w.phase with
  | .ready task _ => some task
  | .rendering task => some task
  | .idle => none
  | .entered .. => none
  | .settingUp .. => none
  | .stopped => none

/-- The actors are as actors are, the one in use is as the worker believes, the profile a task came with was received, and that of
a task past its setup is the current one. -/
structure Inv (w : Worker) : Prop where
  fleet : w.Fleet
  current : w.retiring = false → ∀ a, w.current = some a → Stands w.received w.currentProfile w.phase a
  given : ∀ task p, w.phase = .entered task (some p) → p ∈ w.received
  profiled : ∀ task, w.setUp = some task → w.currentProfile = some (task.workerProfile, task.partition)

/-- Only the actors have changed. -/
structure SameTask (w w' : Worker) : Prop where
  profile : w'.currentProfile = w.currentProfile
  phase : w'.phase = w.phase
  received : w'.received = w.received

theorem SameTask.refl (w : Worker) : SameTask w w := ⟨rfl, rfl, rfl⟩

variable {w : Worker}

theorem Fleet.exists_current (h : w.Fleet) : ∃ a, w.current = some a :=
  ⟨w.actors.get ⟨w.actor, h.valid⟩, List.getElem?_eq_getElem h.valid⟩

theorem Fleet.setActor (h : w.Fleet) {i : Nat} {a0 a : RendererActor} (hi : w.actors[i]? = some a0)
    (ha : RendererActor.Inv w.received a) : (w.setActor i a).Fleet := by
  refine ⟨by simpa [Worker.setActor] using h.valid, fun j b hb => ?_⟩
  rcases getElem?_set_cases hi hb with ⟨-, rfl⟩ | ⟨-, hb⟩
  · exact ha
  · exact h.actors j b hb

theorem sendCurrent_eq {a : RendererActor} (ha : w.current = some a) (cmd : RenderCmd) :
    w.sendCurrent cmd = w.setActor w.actor (a.send cmd) := by
  simp only [sendCurrent, ha]

theorem current_setActor (h : w.Fleet) (a : RendererActor) : (w.setActor w.actor a).current = some a := by
  simp [Worker.current, Worker.setActor, h.valid]

/-- Telling the actor in use to stop keeps the actors. -/
theorem Fleet.send_stop (h : w.Fleet) {cmd : RenderCmd} (hcmd : cmd.Stops) :
    (w.sendCurrent cmd).Fleet ∧ SameTask w (w.sendCurrent cmd) ∧ (w.sendCurrent cmd).actors.length = w.actors.length ∧
      (w.sendCurrent cmd).retiring = w.retiring := by
  obtain ⟨a, ha⟩ := h.exists_current
  rw [sendCurrent_eq ha]
  refine ⟨h.setActor ha ((h.actors _ a ha).send_stop hcmd), ⟨rfl, rfl, rfl⟩, by simp [Worker.setActor], rfl⟩

variable {replacement : Replacement} {w w' : Worker}

/-- A replacement is a fresh actor. -/
theorem Fleet.spawnAndInstall (h : w.Fleet) (hs : w.spawnAndInstall replacement = .ok w') :
    w'.Fleet ∧ SameTask w w' ∧ w'.current = some .new ∧ w'.retiring = w.retiring := by
  unfold Worker.spawnAndInstall at hs
  split at hs
  · cases hs
  · obtain ⟨hfleet, hsame, hlen, hret⟩ := h.send_stop (show RenderCmd.Stops .shutdown from trivial)
    cases hs
    refine ⟨⟨?_, fun i a ha => ?_⟩, ⟨hsame.profile, hsame.phase, hsame.received⟩, ?_, hret⟩
    · simp [hlen]
    · rcases getElem?_concat_cases ha with ⟨-, rfl⟩ | ha
      · exact RendererActor.Inv.new _
      · exact hfleet.actors i a ha
    · simp [Worker.current, ← hlen]

theorem Fleet.replaceRetiringActor (h : w.Fleet) (hs : w.replaceRetiringActor replacement = .ok w') :
    w'.Fleet ∧ SameTask w w' ∧ w'.current = some .new ∧ w'.retiring = false := by
  unfold Worker.replaceRetiringActor at hs
  split at hs
  · cases hx : w.spawnAndInstall replacement with
    | error err =>
      rw [hx] at hs
      cases hs
    | ok w1 =>
      rw [hx] at hs
      obtain ⟨hfleet, hsame, hcur, -⟩ := h.spawnAndInstall hx
      cases hs
      exact ⟨⟨hfleet.valid, hfleet.actors⟩, ⟨hsame.profile, hsame.phase, hsame.received⟩, hcur, rfl⟩
  · cases hs

/-- The actor that is used is live: the one from before, or a fresh one. -/
theorem Fleet.liveActor (h : w.Fleet) (hs : w.liveActor replacement = .ok w') :
    w'.Fleet ∧ SameTask w w' ∧ w'.retiring = false ∧ ∃ a, w'.current = some a ∧ a.finished = false ∧
      (a = .new ∨ (w.retiring = false ∧ w.current = some a)) := by
  unfold Worker.liveActor at hs
  split at hs
  · obtain ⟨hfleet, hsame, hcur, hret⟩ := h.replaceRetiringActor hs
    exact ⟨hfleet, hsame, hret, .new, hcur, rfl, Or.inl rfl⟩
  · rename_i hret
    have hret : w.retiring = false := by simpa using hret
    split at hs
    · rename_i a ha
      split at hs
      · obtain ⟨hfleet, hsame, hcur, hret'⟩ := h.spawnAndInstall hs
        exact ⟨hfleet, hsame, hret'.trans hret, .new, hcur, rfl, Or.inl rfl⟩
      · rename_i hfin
        cases hs
        exact ⟨h, SameTask.refl w, hret, a, ha, by simpa using hfin, Or.inr ⟨hret, ha⟩⟩
    · cases hs

/-- After a timeout the actor is retiring, or a fresh one is in its place. -/
theorem Fleet.retireAfterCurrent (replacement : Replacement) (h : w.Fleet) :
    (w.retireAfterCurrent replacement).Fleet ∧ SameTask w (w.retireAfterCurrent replacement) ∧
      ((w.retireAfterCurrent replacement).retiring = true ∨ (w.retireAfterCurrent replacement).current = some .new) := by
  obtain ⟨hfleet, hsame, -, -⟩ := h.send_stop (show RenderCmd.Stops .retire from trivial)
  have hfleet' : Fleet { w.sendCurrent .retire with retiring := true } := ⟨hfleet.valid, hfleet.actors⟩
  unfold Worker.retireAfterCurrent
  dsimp only
  split
  · rename_i w' hx
    obtain ⟨hf, hs, hcur, -⟩ := hfleet'.replaceRetiringActor hx
    exact ⟨hf, ⟨hs.profile.trans hsame.profile, hs.phase.trans hsame.phase, hs.received.trans hsame.received⟩, Or.inr hcur⟩
  · exact ⟨hfleet', ⟨hsame.profile, hsame.phase, hsame.received⟩, Or.inl rfl⟩

theorem rendererErrorInvalidatesWarmState_timeout : rendererErrorInvalidatesWarmState .timeout = true := rfl

variable {task : InternalTask}

/-- A task that ends with an error of the renderer: after a timeout the actor is replaced or retiring; after any other error it
has to be as the profile says that the error leaves. -/
theorem Inv.failWith {stage : DeadlineStage} {err : RendererError} (replacement : Replacement) (h : w.Fleet)
    (hcur : err ≠ .timeout → w.retiring = false → ∀ a, w.current = some a →
      Settled w.received (if rendererErrorInvalidatesWarmState err then none else w.currentProfile) a) :
    (w.failWith task stage err replacement).Inv := by
  by_cases htimeout : err = .timeout
  · subst htimeout
    obtain ⟨hfleet, hsame, hnew⟩ := h.retireAfterCurrent replacement
    refine ⟨?_, fun hret a ha => ?_, fun _ _ hp => (by cases hp), fun _ hp => by cases hp⟩
    · simp only [Worker.failWith, Worker.finish, if_true, rendererErrorInvalidatesWarmState_timeout]
      exact ⟨hfleet.valid, hfleet.actors⟩
    · have hret' : (w.retireAfterCurrent replacement).retiring = false := by
        simpa [Worker.failWith, Worker.finish, rendererErrorInvalidatesWarmState_timeout] using hret
      have ha' : (w.retireAfterCurrent replacement).current = some a := by
        simpa [Worker.failWith, Worker.finish, Worker.current, rendererErrorInvalidatesWarmState_timeout] using ha
      rcases hnew with hnew | hnew
      · exact absurd hnew (by simp [hret'])
      · rw [hnew] at ha'
        cases ha'
        exact Settled.of_not_loaded rfl rfl _
  · have hfail : w.failWith task stage err replacement = { w with
        currentProfile := if rendererErrorInvalidatesWarmState err then none else w.currentProfile
        phase := .idle
        outcomes := w.outcomes ++ [(task.id, .error (.rendererError stage err))] } := by
      simp only [Worker.failWith, Worker.finish, if_neg htimeout]
      split
      · rfl
      · rfl
    rw [hfail]
    exact ⟨⟨h.valid, h.actors⟩, hcur htimeout, fun _ _ hp => (by cases hp), fun _ hp => by cases hp⟩

/-- An error that leaves the actor as the worker's profile says. -/
theorem Inv.failWith_settled {stage : DeadlineStage} {err : RendererError} (replacement : Replacement) (h : w.Fleet)
    (hcur : w.retiring = false → ∀ a, w.current = some a → Settled w.received w.currentProfile a) :
    (w.failWith task stage err replacement).Inv := by
  refine Inv.failWith replacement h fun _ hret a ha => ?_
  split
  · exact ⟨(hcur hret a ha).inbox, fun _ _ hp => by cases hp⟩
  · exact hcur hret a ha

theorem Inv.finish {result : Except StageFailure Unit} (h : w.Fleet)
    (hcur : w.retiring = false → ∀ a, w.current = some a → Settled w.received w.currentProfile a) :
    (w.finish task result).Inv :=
  ⟨⟨h.valid, h.actors⟩, hcur, fun _ _ hp => (by cases hp), fun _ hp => by cases hp⟩

theorem style_withAddlayerSource (task : InternalTask) (prepared : Option PreparedProfile) :
    (withAddlayerSource task prepared).workerProfile = task.workerProfile ∧
      (withAddlayerSource task prepared).style = task.style ∧ (withAddlayerSource task prepared).partition = task.partition := by
  unfold withAddlayerSource
  split
  · rename_i hreq
    refine ⟨?_, rfl, rfl⟩
    simp [InternalTask.workerProfile, hreq, RenderRequest.renderMode]
  · exact ⟨rfl, rfl, rfl⟩
  · exact ⟨rfl, rfl, rfl⟩
  · exact ⟨rfl, rfl, rfl⟩

theorem fitting_eq_some {prepared : Option PreparedProfile} {p : PreparedProfile} (h : fitting task prepared = some p) :
    prepared = some p ∧ p.revision = task.style ∧ p.authorizationPartition = task.partition := by
  obtain ⟨hp, hfit⟩ := Option.filter_eq_some_iff.mp h
  exact ⟨hp, of_decide_eq_true hfit⟩

/-- No document of another partition is kept: when a profile is set up on a live actor whose renderer would keep its document,
that document was prepared for the task's revision and partition. -/
def ClearSetup (w : Worker) (action : WorkerAction) : Prop :=
  ∀ replacement task profile a document, action = .setupProfile replacement → w.phase = .entered task (some profile) →
    fitting task (some profile) = some profile → w.retiring = false → w.current = some a → a.finished = false →
    a.backend.keptDocument (.ofTask task) task.style = some document → Prepared w.received task.style task.partition document

theorem Inv.new : Worker.new.Inv := by
  refine ⟨⟨by simp [Worker.new], fun i a ha => ?_⟩, fun _ a ha => ?_, fun _ _ hp => (by cases hp), fun _ hp => by cases hp⟩
  · obtain rfl : RendererActor.new = a := by
      rcases List.getElem?_eq_some_iff.mp ha with ⟨hi, heq⟩
      have hzero : i = 0 := by simpa [Worker.new] using hi
      subst hzero
      exact heq
    exact RendererActor.Inv.new _
  · cases ha
    exact Settled.of_not_loaded rfl rfl none

/-- Where the worker awaits nothing of the actor, the actor is settled. -/
theorem Inv.settled (h : w.Inv) (hquiet : w.phase.Quiet) (hret : w.retiring = false) (a : RendererActor)
    (ha : w.current = some a) : Settled w.received w.currentProfile a := by
  have hst := h.current hret a ha
  cases hphase : w.phase with
  | idle =>
    rw [hphase] at hst
    exact hst
  | entered task prepared =>
    rw [hphase] at hst
    exact hst
  | ready task prepared =>
    rw [hphase] at hst
    exact hst
  | settingUp task prepared =>
    rw [hphase] at hquiet
    exact hquiet.elim
  | rendering task =>
    rw [hphase] at hquiet
    exact hquiet.elim
  | stopped =>
    rw [hphase] at hquiet
    exact hquiet.elim

section

variable {parse : String → BaseStyle} {hash : AddLayerSource → UInt64} {w w' : Worker} {task : InternalTask}

attribute [local simp] step in
theorem Inv.process {prepared : Option PreparedProfile} (h : w.Inv)
    (hs : step parse hash w (.process task prepared) = some w') : w'.Inv := by
  simp only [step] at hs
  split at hs
  · rename_i hphase
    cases hs
    have hsub : w.received ⊆ w.received ++ prepared.toList := List.subset_append_left _ _
    refine ⟨⟨h.fleet.valid, fun i a ha => (h.fleet.actors i a ha).mono hsub⟩, fun hret a ha => ?_, fun task' p hp => ?_,
      fun _ hp => by cases hp⟩
    · have hst := h.current hret a ha
      rw [hphase] at hst
      exact hst.mono hsub
    · have hprep : prepared = some p := by
        injection hp
      exact List.mem_append_right _ (by simp [hprep])
  · cases hs

theorem Inv.leave {failure : StageFailure} (h : w.Inv) (hs : step parse hash w (.leave failure) = some w') : w'.Inv := by
  have hend : ∀ task, w.phase.Quiet → w' = w.finish task (.error failure) → w'.Inv := by
    rintro task hquiet rfl
    exact Inv.finish h.fleet (h.settled hquiet)
  simp only [step] at hs
  split at hs
  · rename_i task prepared _ hphase
    exact hend task (hphase ▸ trivial) (Option.some.inj hs).symm
  · rename_i task prepared _ hphase
    exact hend task (hphase ▸ trivial) (Option.some.inj hs).symm
  · rename_i task prepared _ hphase
    exact hend task (hphase ▸ trivial) (Option.some.inj hs).symm
  · rename_i task prepared _ hphase
    exact hend task (hphase ▸ trivial) (Option.some.inj hs).symm
  · cases hs

theorem Inv.skipSetup (h : w.Inv) (hs : step parse hash w .skipSetup = some w') : w'.Inv := by
  simp only [step] at hs
  split at hs
  · rename_i task prepared hphase
    split at hs
    · cases hs
    · rename_i hswap
      cases hs
      have hprof : w.currentProfile = some (task.workerProfile, task.partition) := by
        unfold styleSwap at hswap
        split at hswap
        · exact absurd rfl hswap
        · rename_i profile partition hcur
          have hboth : profile = task.workerProfile ∧ partition = task.partition := by simpa using hswap
          rw [hcur, hboth.1, hboth.2]
      refine ⟨⟨h.fleet.valid, h.fleet.actors⟩, fun hret a ha => ?_, fun _ _ hp => (by cases hp), fun task' hp => ?_⟩
      · exact h.settled (hphase ▸ trivial) hret a ha
      · cases hp
        exact hprof
  · cases hs

variable {replacement : Replacement}

/-- A live actor, when the worker awaits nothing of it: it is settled. -/
theorem Inv.liveActor (h : w.Inv) (hs : w.liveActor replacement = .ok w') (hquiet : w.phase.Quiet) :
    w'.Fleet ∧ SameTask w w' ∧ ∃ a, w'.current = some a ∧ a.finished = false ∧
      (a = .new ∨ (w.retiring = false ∧ w.current = some a)) ∧ Settled w'.received w'.currentProfile a := by
  obtain ⟨hfleet, hsame, -, a, ha, hfin, hold⟩ := h.fleet.liveActor hs
  refine ⟨hfleet, hsame, a, ha, hfin, hold, ?_⟩
  rw [hsame.received, hsame.profile]
  rcases hold with rfl | ⟨hnot, hcur⟩
  · exact Settled.of_not_loaded rfl rfl _
  · exact h.settled hquiet hnot a hcur

variable {a : RendererActor}

/-- A command is sent to a live actor with nothing else to do. -/
theorem Fleet.send_first {cmd : RenderCmd} (h : w.Fleet) (ha : w.current = some a) (hin : a.inbox = [])
    (hcmd : ∀ task, cmd = .render task → a.Warm w.received task.style task.partition) :
    (w.sendCurrent cmd).Fleet ∧ SameTask w (w.sendCurrent cmd) ∧ (w.sendCurrent cmd).current = some (a.send cmd) ∧
      (a.send cmd).inbox = [cmd] := by
  rw [sendCurrent_eq ha]
  have hinv : RendererActor.Inv w.received (a.send cmd) := (h.actors _ a ha).send_first hin hcmd
  exact ⟨h.setActor ha hinv, ⟨rfl, rfl, rfl⟩, current_setActor h _, by simp [RendererActor.send, hin]⟩

theorem keptDocument_new (task : RenderTaskView) (revision : StyleRevision) :
    RendererActor.new.backend.keptDocument task revision = none := rfl

theorem Inv.setupProfile (h : w.Inv) (hc : ClearSetup w (.setupProfile replacement))
    (hs : step parse hash w (.setupProfile replacement) = some w') : w'.Inv := by
  simp only [step] at hs
  split at hs
  · rename_i task prepared hphase
    have hfail : ∀ err, (w.failWith task .styleSwap err replacement).Inv := fun err =>
      Inv.failWith_settled replacement h.fleet (h.settled (hphase ▸ trivial))
    split at hs
    · split at hs
      · exact Option.some.inj hs ▸ hfail _
      · rename_i profile hfit
        obtain ⟨hprep, hrev, hpart⟩ := fitting_eq_some hfit
        split at hs
        · exact Option.some.inj hs ▸ hfail _
        · rename_i w1 hlive
          obtain ⟨hfleet, hsame, a, ha, hfin, hold, hset⟩ := h.liveActor hlive (hphase ▸ trivial)
          have hgiven : Prepared w.received task.style task.partition profile.styleJson :=
            ⟨profile, h.given task profile (hprep ▸ hphase), hrev, hpart, rfl⟩
          -- a fresh actor keeps nothing, and for the one from before the set-up is clear
          have hkept : ∀ document, a.backend.keptDocument (.ofTask task) task.style = some document →
              Prepared w.received task.style task.partition document := by
            intro document hdoc
            rcases hold with rfl | ⟨hnot, hcur⟩
            · rw [keptDocument_new] at hdoc
              cases hdoc
            · exact hc replacement task profile a document rfl (hprep ▸ hphase) (hprep ▸ hfit) hnot hcur hfin hdoc
          rw [← Option.some.inj hs, hrev]
          obtain ⟨hfleet', hsame', hcur', hin'⟩ :=
            hfleet.send_first ha hset.inbox fun _ (heq : RenderCmd.loadProfile ⟨task.style, profile.styleJson⟩ task = _) => by
              cases heq
          refine ⟨⟨hfleet'.valid, hfleet'.actors⟩, fun _ b hb => ?_, fun _ _ hp => (by cases hp), fun _ hp => by cases hp⟩
          cases hcur'.symm.trans hb
          have hreceived := hsame'.received.trans hsame.received
          exact Or.inl ⟨hin', rfl, hfin, hreceived.symm ▸ hgiven, hreceived.symm ▸ hkept⟩
    · cases hs
  · cases hs

theorem Inv.render (h : w.Inv) (hs : step parse hash w (.render replacement) = some w') : w'.Inv := by
  simp only [step] at hs
  split at hs
  · rename_i task prepared hphase
    split at hs
    · cases hs
      exact Inv.failWith_settled replacement h.fleet (h.settled (hphase ▸ trivial))
    · rename_i w1 hlive
      obtain ⟨hfleet, hsame, a, ha, hfin, -, hset⟩ := h.liveActor hlive (hphase ▸ trivial)
      obtain ⟨hprof, hstyle, hpart⟩ := style_withAddlayerSource task prepared
      have hcurrent : w1.currentProfile = some ((withAddlayerSource task prepared).workerProfile,
          (withAddlayerSource task prepared).partition) := by
        rw [hsame.profile, hprof, hpart]
        exact h.profiled task (by simp only [setUp, hphase])
      have hwarm : a.Warm w1.received (withAddlayerSource task prepared).style (withAddlayerSource task prepared).partition :=
        hset.warm _ _ hcurrent
      cases hs
      obtain ⟨hfleet', hsame', hcur', hin'⟩ :=
        hfleet.send_first ha hset.inbox fun task' (heq : RenderCmd.render (withAddlayerSource task prepared) = _) => by
          injection heq with heq
          exact heq ▸ hwarm
      refine ⟨⟨hfleet'.valid, hfleet'.actors⟩, fun _ b hb => ?_, fun _ _ hp => (by cases hp), fun task' hp => ?_⟩
      · cases hcur'.symm.trans hb
        exact Or.inr ⟨hin', rfl, hfin, hsame'.received.symm ▸ hwarm⟩
      · cases hp
        exact hsame'.profile.trans hcurrent
  · cases hs

theorem serve_nil (hin : a.inbox = []) (calls : NativeCalls) : a.serve parse hash calls = none := by
  unfold RendererActor.serve
  rw [hin]
  split
  · rfl
  · rfl

theorem serve_render {rest : List RenderCmd} (hfin : a.finished = false) (hin : a.inbox = .render task :: rest)
    (calls : NativeCalls) :
    a.serve parse hash calls = some (RendererActor.serveRender parse hash { a with inbox := rest } task calls) := by
  unfold RendererActor.serve
  rw [if_neg (by simp [hfin]), hin]

theorem serve_loadProfile {style : ResolvedStyle} {rest : List RenderCmd}
    (hfin : a.finished = false) (hin : a.inbox = .loadProfile style task :: rest) (calls : NativeCalls) :
    a.serve parse hash calls = some (RendererActor.serveLoad parse { a with inbox := rest } style task calls) := by
  unfold RendererActor.serve
  rw [if_neg (by simp [hfin]), hin]

/-- The actor in use serves what it was asked. -/
theorem Stands.serve {received : List PreparedProfile} {profile : Option (WorkerProfile × Option CredentialCachePartition)}
    {phase : WorkerPhase} {a a' : RendererActor} {calls : NativeCalls} (hinv : RendererActor.Inv received a)
    (h : Stands received profile phase a) (hprof : ∀ task, phase = .rendering task →
      profile = some (task.workerProfile, task.partition))
    (hs : a.serve parse hash calls = some a') : Stands received profile phase a' := by
  have hnone : a.inbox ≠ [] := by
    intro hin
    rw [serve_nil hin] at hs
    cases hs
  cases phase with
  | idle => exact absurd h.inbox hnone
  | entered task prepared => exact absurd h.inbox hnone
  | ready task prepared => exact absurd h.inbox hnone
  | stopped => trivial
  | rendering task =>
    rcases h with hset | ⟨hin, -, hfin, hwarm⟩
    · exact absurd hset.inbox hnone
    · rw [serve_render hfin hin] at hs
      cases hs
      obtain ⟨-, hw', hin', -⟩ :=
        RendererActor.serveRender_spec parse hash calls (a := { a with inbox := [] }) hinv.drawings hwarm
      refine Or.inl ⟨hin', fun p partition hp => ?_⟩
      rw [hprof task rfl] at hp
      cases hp
      exact hw'
  | settingUp task prepared =>
    rcases h with ⟨hin, -, hfin, hjson, hkept⟩ | ⟨hin, -, -⟩
    · rw [serve_loadProfile hfin hin] at hs
      cases hs
      refine Or.inr ?_
      rcases RendererActor.serveLoad_spec parse { a with inbox := [] } ⟨task.style, prepared.styleJson⟩ task calls with
        ⟨b', heq, hstyle, -, hactive⟩ | ⟨err, b', heq, -⟩
      · rw [heq]
        exact ⟨rfl, fun _ _ => Holds.of_load hjson hkept hstyle hactive, fun _ herr => by cases herr⟩
      · rw [heq]
        exact ⟨rfl, fun hok => (by cases hok), fun _ _ => rfl⟩
    · exact absurd hin hnone

variable {i : Nat}

theorem current_setActor_of_ne (hi : i ≠ w.actor) (a : RendererActor) : (w.setActor i a).current = w.current := by
  simp [Worker.current, Worker.setActor, List.getElem?_set_ne hi]

/-- One actor is replaced in the list: what the worker believes has to survive when it is the one in use. -/
theorem Inv.setActor {a a' : RendererActor} (h : w.Inv) (ha : w.actors[i]? = some a) (hinv : RendererActor.Inv w.received a')
    (hst : w.retiring = false → Stands w.received w.currentProfile w.phase a → Stands w.received w.currentProfile w.phase a') :
    (w.setActor i a').Inv := by
  refine ⟨h.fleet.setActor ha hinv, fun hret b hb => ?_, h.given, h.profiled⟩
  by_cases hi : i = w.actor
  · subst hi
    cases (current_setActor h.fleet a').symm.trans hb
    exact hst hret (h.current hret a ha)
  · rw [current_setActor_of_ne hi] at hb
    exact h.current hret b hb

theorem Inv.serve {calls : NativeCalls} (h : w.Inv) (hs : step parse hash w (.serve i calls) = some w') : w'.Inv := by
  simp only [step] at hs
  obtain ⟨a, ha, hmap⟩ := Option.bind_eq_some_iff.mp hs
  obtain ⟨a', ha', rfl⟩ := Option.map_eq_some_iff.mp hmap
  have hinv := h.fleet.actors i a ha
  refine h.setActor ha (hinv.serve parse hash ha') fun _ hst => ?_
  refine Stands.serve hinv hst (fun task hp => ?_) ha'
  exact h.profiled task (by simp only [setUp, hp])

/-- An actor that dies has nothing to do any more. -/
theorem Stands.crash {received : List PreparedProfile} {profile : Option (WorkerProfile × Option CredentialCachePartition)}
    {phase : WorkerPhase} (h : Stands received profile phase a)
    (hprof : ∀ task, phase = .rendering task → profile = some (task.workerProfile, task.partition)) :
    Stands received profile phase { a with inbox := [], finished := true } := by
  cases phase with
  | idle => exact ⟨rfl, h.warm⟩
  | entered task prepared => exact ⟨rfl, h.warm⟩
  | ready task prepared => exact ⟨rfl, h.warm⟩
  | stopped => trivial
  | rendering task =>
    refine Or.inl ⟨rfl, fun p partition hp => ?_⟩
    rcases h with hset | ⟨-, -, -, hwarm⟩
    · exact hset.warm p partition hp
    · rw [hprof task rfl] at hp
      cases hp
      exact hwarm
  | settingUp task prepared =>
    refine Or.inr ⟨rfl, ?_⟩
    rcases h with ⟨-, hreply, -⟩ | ⟨-, hok, herr⟩
    · exact ⟨fun hok => absurd hok (by simp [hreply]), fun _ herr => absurd herr (by simp [hreply])⟩
    · exact ⟨hok, herr⟩

theorem Inv.crash (h : w.Inv) (hs : step parse hash w (.crash i) = some w') : w'.Inv := by
  simp only [step] at hs
  obtain ⟨a, ha, rfl⟩ := Option.map_eq_some_iff.mp hs
  have hinv := h.fleet.actors i a ha
  refine h.setActor ha ⟨hinv.drawings, fun _ _ hin => (by cases hin), fun _ hc => absurd hc List.not_mem_nil⟩ fun _ hst => ?_
  exact Stands.crash hst fun task hp => h.profiled task (by simp only [setUp, hp])

/-- A render that has its reply was served. -/
theorem Inv.replied {reply : Except RendererError Unit} (h : w.Inv) (hphase : w.phase = .rendering task)
    (hreply : w.current.bind RendererActor.reply = some reply) (hret : w.retiring = false) (a : RendererActor)
    (ha : w.current = some a) : Settled w.received w.currentProfile a := by
  have hst := h.current hret a ha
  rw [hphase] at hst
  rw [ha, Option.bind_some] at hreply
  rcases hst with hset | ⟨-, hno, -, -⟩
  · exact hset
  · exact absurd hreply (by simp [hno])

theorem Inv.receive {late : Bool} (h : w.Inv) (hs : step parse hash w (.receive late replacement) = some w') : w'.Inv := by
  simp only [step] at hs
  split at hs
  · -- the setup has failed: whatever the error, the actor has nothing loaded
    rename_i task prepared err hphase hreply
    obtain ⟨a, ha, hreply⟩ := Option.bind_eq_some_iff.mp hreply
    cases hs
    refine Inv.failWith replacement h.fleet fun _ hret b hb => ?_
    cases ha.symm.trans hb
    have hst := h.current hret a ha
    rw [hphase] at hst
    rcases hst with ⟨-, hno, -⟩ | ⟨hin, -, herr⟩
    · exact absurd hreply (by simp [hno])
    · exact Settled.of_not_loaded hin (herr err hreply) _
  · rename_i task prepared hphase hreply
    obtain ⟨a, ha, hreply⟩ := Option.bind_eq_some_iff.mp hreply
    cases hs
    refine ⟨⟨h.fleet.valid, h.fleet.actors⟩, fun hret b hb => ?_, fun _ _ hp => (by cases hp), fun task' hp => ?_⟩
    · cases ha.symm.trans hb
      have hst := h.current hret a ha
      rw [hphase] at hst
      rcases hst with ⟨-, hno, -⟩ | ⟨hin, hok, -⟩
      · exact absurd hreply (by simp [hno])
      · refine ⟨hin, fun p partition hp => ?_⟩
        cases hp
        exact hok hreply
    · cases hp
      rfl
  · -- the render has failed: the actor has served it, and is still as the worker believes if the profile stays
    rename_i task err hphase hreply
    cases hs
    exact Inv.failWith_settled replacement h.fleet (h.replied hphase hreply)
  · rename_i task hphase hreply
    split at hs
    · cases hs
      exact Inv.failWith replacement h.fleet fun hne => absurd rfl hne
    · cases hs
      exact Inv.finish h.fleet (h.replied hphase hreply)
  · cases hs

/-- The task a worker awaits the actor for. -/
theorem awaiting_cases {stage : DeadlineStage} (h : w.awaiting = some (stage, task)) :
    (∃ prepared, w.phase = .settingUp task prepared) ∨ w.phase = .rendering task := by
  unfold awaiting at h
  split at h
  · rename_i t prepared hphase
    cases h
    exact Or.inl ⟨prepared, hphase⟩
  · rename_i t hphase
    cases h
    exact Or.inr hphase
  all_goals cases h

theorem Inv.expire (h : w.Inv) (hs : step parse hash w (.expire replacement) = some w') : w'.Inv := by
  simp only [step] at hs
  obtain ⟨⟨stage, task⟩, -, rfl⟩ := Option.map_eq_some_iff.mp hs
  exact Inv.failWith replacement h.fleet fun hne => absurd rfl hne

/-- An actor that has died takes no command with it: whatever was waiting in it is dropped. -/
theorem Inv.lose (h : w.Inv) (hs : step parse hash w (.lose replacement) = some w') : w'.Inv := by
  simp only [step] at hs
  split at hs
  · rename_i a ha
    split at hs
    · rename_i hdead
      obtain ⟨⟨stage, task⟩, hawait, rfl⟩ := Option.map_eq_some_iff.mp hs
      refine Inv.failWith replacement h.fleet fun _ hret b hb => ⟨?_, fun _ _ hp => by cases hp⟩
      cases ha.symm.trans hb
      have hst := h.current hret a ha
      rcases awaiting_cases hawait with ⟨prepared, hphase⟩ | hphase
      · rw [hphase] at hst
        rcases hst with ⟨-, -, hfin, -⟩ | ⟨hin, -⟩
        · exact absurd hdead.1 (by simp [hfin])
        · exact hin
      · rw [hphase] at hst
        rcases hst with hset | ⟨-, -, hfin, -⟩
        · exact hset.inbox
        · exact absurd hdead.1 (by simp [hfin])
    · cases hs
  · cases hs

theorem Inv.repair (h : w.Inv) (hs : step parse hash w (.repair replacement) = some w') : w'.Inv := by
  simp only [step] at hs
  split at hs
  · rename_i hphase
    split at hs
    · rename_i w1 hlive
      obtain ⟨hfleet, hsame, a, ha, -, -, hset⟩ := h.liveActor hlive (hphase ▸ trivial)
      cases hs
      refine ⟨hfleet, fun _ b hb => ?_, fun _ _ hp => ?_, fun _ hp => ?_⟩
      · cases ha.symm.trans hb
        rw [hsame.phase, hphase]
        exact hset
      · rw [hsame.phase, hphase] at hp
        cases hp
      · rw [setUp, hsame.phase, hphase] at hp
        cases hp
    · exact Option.some.inj hs ▸ h
  · cases hs

theorem Inv.retire (h : w.Inv) (hs : step parse hash w .retire = some w') : w'.Inv := by
  simp only [step] at hs
  split at hs
  · obtain ⟨hfleet, -, -, -⟩ := h.fleet.send_stop (show RenderCmd.Stops .shutdown from trivial)
    cases hs
    exact ⟨⟨hfleet.valid, hfleet.actors⟩, fun _ _ _ => trivial, fun _ _ hp => (by cases hp), fun _ hp => by cases hp⟩
  · cases hs

/-- What every step keeps, when no set-up keeps a document of another partition. -/
theorem Inv.step {action : WorkerAction} (h : w.Inv) (hc : ClearSetup w action) (hs : step parse hash w action = some w') :
    w'.Inv := by
  cases action with
  | process task prepared => exact h.process hs
  | leave failure => exact h.leave hs
  | skipSetup => exact h.skipSetup hs
  | setupProfile replacement => exact h.setupProfile hc hs
  | render replacement => exact h.render hs
  | serve i calls => exact h.serve hs
  | receive late replacement => exact h.receive hs
  | expire replacement => exact h.expire hs
  | lose replacement => exact h.lose hs
  | crash i => exact h.crash hs
  | repair replacement => exact h.repair hs
  | retire => exact h.retire hs

end

end Worker

end Biei
