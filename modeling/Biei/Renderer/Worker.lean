import Biei.Renderer.Backend

/-!
# A worker, its renderer and the renderer's actors

`worker.rs`, `maplibre.rs` and `protocol.rs`. A worker takes one task at a time and drives its renderer through the stages of it;
the renderer sends commands to an actor thread that owns a native backend, and replaces the actor when it has timed out or died. A
command that timed out is still served by the actor it was sent to.
-/

namespace Biei

/-- A style prepared for a task, with the credential partition it was fetched under. -/
structure PreparedProfile where
  revision : StyleRevision
  authorizationPartition : Option CredentialCachePartition
  styleJson : String
  addlayerSource : Option AddLayerSource

/-- The partition of the credential a task came with. -/
def InternalTask.partition (task : InternalTask) : Option CredentialCachePartition :=
  task.authorization.map RenderAuthorization.cachePartition

inductive DeadlineStage where
  | acquireRenderPermit
  | styleSwap
  | ensureSource
  | acquireNativeRenderPermit
  | render
deriving DecidableEq, Repr

inductive StageFailure where
  | deadlineExceeded (stage : DeadlineStage)
  | rendererError (stage : DeadlineStage) (err : RendererError)
  | permitClosed (stage : DeadlineStage)
deriving DecidableEq, Repr

/-! ## The actor -/

/-- A command to an actor. The actor is given the view of the task; the task itself says whose view it is. -/
inductive RenderCmd where
  | loadProfile (style : ResolvedStyle) (task : InternalTask)
  | render (task : InternalTask)
  | retire
  | shutdown

/-- An actor thread: the commands sent to it, its own record of the loaded revision, its backend, and the reply to the last
command. -/
structure RendererActor where
  inbox : List RenderCmd
  loaded : Option StyleRevision
  backend : MapLibreNativeBackend
  reply : Option (Except RendererError Unit)
  finished : Bool

def RendererActor.new : RendererActor := ⟨[], none, .new, none, false⟩

/-- What a caught panic is reported with. -/
def actorPanicText : String := "renderer actor panicked during "

/-- `catch_backend_unwind`. -/
def catchBackendUnwind (operation : String) (x : BackendM Unit) (b : MapLibreNativeBackend) :
    Except RendererError Unit × MapLibreNativeBackend :=
  match x b with
  | .ok () b' => (.ok (), b')
  | .error (.error err) b' => (.error err, b')
  | .error (.panic message) b' => (.error (.renderFailed (actorPanicText ++ operation ++ ": " ++ message)), b')

/-- `renderer_error_is_actor_panic`: told by how the message begins. -/
def rendererErrorIsActorPanic : RendererError → Bool
  | .renderFailed message => actorPanicText.toList.isPrefixOf message.toList
  | .styleLoadFailed .. => false
  | .setupFailed .. => false
  | .styleNotReady .. => false
  | .sourceFetchFailed .. => false
  | .timeout => false
  | .actorDead => false

/-- The result of a render calls for a reset. -/
def renderInvalidates : Except RendererError Unit → Bool
  | .ok () => false
  | .error err => rendererErrorIsActorPanic err || MapLibreNativeBackend.errorInvalidatesLoadedState err

section

variable (parse : String → BaseStyle) (hash : AddLayerSource → UInt64)

namespace RendererActor

/-- `run_actor` on a command to load. -/
def serveLoad (a : RendererActor) (style : ResolvedStyle) (task : InternalTask) (calls : NativeCalls) : RendererActor :=
  let load := MapLibreNativeBackend.loadProfile parse style (.ofTask task) calls
  match catchBackendUnwind "load_profile" load a.backend with
  | (.ok (), b) => { a with loaded := some style.revision, backend := b, reply := some (.ok ()) }
  | (.error err, b) => { a with loaded := none, backend := b.reset, reply := some (.error err) }

/-- `run_actor` on a command to render. -/
def serveRender (a : RendererActor) (task : InternalTask) (calls : NativeCalls) : RendererActor :=
  let (result, b) :=
    if a.loaded = some task.style then
      catchBackendUnwind "render" (MapLibreNativeBackend.render parse hash task calls) a.backend
    else (.error (.styleNotReady task.style.id task.style.version), a.backend)
  if renderInvalidates result then { a with loaded := none, backend := b.reset, reply := some result }
  else { a with backend := b, reply := some result }

/-- One turn of `run_actor`. -/
def serve (a : RendererActor) (calls : NativeCalls) : Option RendererActor :=
  if a.finished then none
  else
    match a.inbox with
    | [] => none
    | .loadProfile style task :: rest => some (serveLoad parse { a with inbox := rest } style task calls)
    | .render task :: rest => some (serveRender parse hash { a with inbox := rest } task calls)
    | .retire :: _ => some { a with inbox := [], finished := true }
    | .shutdown :: _ => some { a with inbox := [], finished := true }

/-- The command is sent; the reply to the one before is of no use any more. -/
def send (a : RendererActor) (cmd : RenderCmd) : RendererActor := { a with inbox := a.inbox ++ [cmd], reply := none }

end RendererActor

end

/-! ## The worker -/

/-- Where a worker is in its loop. -/
inductive WorkerPhase where
  | idle
  /-- The task has been taken; its render permit is being acquired. -/
  | entered (task : InternalTask) (prepared : Option PreparedProfile)
  /-- `setup_profile` awaits the actor. -/
  | settingUp (task : InternalTask) (prepared : PreparedProfile)
  /-- The task's profile is the current one. -/
  | ready (task : InternalTask) (prepared : Option PreparedProfile)
  /-- `render` awaits the actor. -/
  | rendering (task : InternalTask)
  | stopped

/-- What comes of an attempt to replace an actor: whether it could be abandoned, and with what spawning another failed. -/
structure Replacement where
  abandoned : Bool
  spawnError : Option String

/-- A worker with its renderer: all actors ever spawned, which of them the renderer uses, and whether that one is retiring.
`received` are the prepared profiles the worker was given so far. -/
structure Worker where
  currentProfile : Option (WorkerProfile × Option CredentialCachePartition)
  phase : WorkerPhase
  actors : List RendererActor
  actor : Nat
  retiring : Bool
  received : List PreparedProfile
  outcomes : List (UInt64 × Except StageFailure Unit)

/-- What a worker does, with what it finds. -/
inductive WorkerAction where
  | process (task : InternalTask) (prepared : Option PreparedProfile)
  | leave (failure : StageFailure)
  | skipSetup
  | setupProfile (replacement : Replacement)
  | render (replacement : Replacement)
  | serve (i : Nat) (calls : NativeCalls)
  | receive (late : Bool) (replacement : Replacement)
  | expire (replacement : Replacement)
  | lose (replacement : Replacement)
  | crash (i : Nat)
  | repair (replacement : Replacement)
  | retire

namespace Worker

def new : Worker := ⟨none, .idle, [.new], 0, false, [], []⟩

def setActor (w : Worker) (i : Nat) (a : RendererActor) : Worker := { w with actors := w.actors.set i a }

/-- The actor the renderer uses. -/
def current (w : Worker) : Option RendererActor := w.actors[w.actor]?

/-- Sends a command to the actor the renderer uses. -/
def sendCurrent (w : Worker) (cmd : RenderCmd) : Worker :=
  match w.current with
  | some a => w.setActor w.actor (a.send cmd)
  | none => w

/-- `spawn_and_install_replacement`; the actor that is dropped is told to shut down. -/
def spawnAndInstall (w : Worker) (replacement : Replacement) : Except RendererError Worker :=
  match replacement.spawnError with
  | some message => .error (.renderFailed ("failed to spawn renderer actor: " ++ message))
  | none => .ok { w.sendCurrent .shutdown with actors := (w.sendCurrent .shutdown).actors ++ [.new], actor := w.actors.length }

/-- `replace_retiring_actor`. -/
def replaceRetiringActor (w : Worker) (replacement : Replacement) : Except RendererError Worker :=
  if replacement.abandoned then (w.spawnAndInstall replacement).map fun w => { w with retiring := false }
  else .error .actorDead

/-- `actor`: a retiring or dead actor is replaced before it is used. -/
def liveActor (w : Worker) (replacement : Replacement) : Except RendererError Worker :=
  if w.retiring then w.replaceRetiringActor replacement
  else
    match w.current with
    | some a => if a.finished then w.spawnAndInstall replacement else .ok w
    | none => .error .actorDead

/-- `retire_after_current`. -/
def retireAfterCurrent (w : Worker) (replacement : Replacement) : Worker :=
  let w := { w.sendCurrent .retire with retiring := true }
  match w.replaceRetiringActor replacement with
  | .ok w' => w'
  | .error _ => w

def rendererErrorInvalidatesWarmState : RendererError → Bool
  | .styleLoadFailed .. => true
  | .setupFailed .. => true
  | .styleNotReady .. => true
  | .timeout => true
  | .actorDead => true
  | .renderFailed _ => false
  | .sourceFetchFailed .. => false

/-- The task ends. -/
def finish (w : Worker) (task : InternalTask) (result : Except StageFailure Unit) : Worker :=
  { w with phase := .idle, outcomes := w.outcomes ++ [(task.id, result)] }

/-- The task ends with an error of the renderer. -/
def failWith (w : Worker) (task : InternalTask) (stage : DeadlineStage) (err : RendererError) (replacement : Replacement) :
    Worker :=
  let w := if err = .timeout then w.retireAfterCurrent replacement else w
  let w := if rendererErrorInvalidatesWarmState err then { w with currentProfile := none } else w
  w.finish task (.error (.rendererError stage err))

/-- `style_swap`: the profile or the credential partition is another one. -/
def styleSwap (w : Worker) (task : InternalTask) : Bool :=
  match w.currentProfile with
  | none => true
  | some (profile, partition) => profile != task.workerProfile || partition != task.partition

/-- The source prepared for the request's own layer is put into the request. -/
def withAddlayerSource (task : InternalTask) (prepared : Option PreparedProfile) : InternalTask :=
  match prepared.bind PreparedProfile.addlayerSource, task.request with
  | some source, .staticImage positioning width height overlays beforeLayer padding (some addlayer) =>
    { task with
      request := .staticImage positioning width height overlays beforeLayer padding
        (some { addlayer with source := some source }) }
  | some _, .staticImage _ _ _ _ _ _ none => task
  | some _, .tile .. => task
  | none, _ => task

/-- The prepared profile that fits the task, or nothing to set up. -/
def fitting (task : InternalTask) (prepared : Option PreparedProfile) : Option PreparedProfile :=
  prepared.filter fun p => decide (p.revision = task.style ∧ p.authorizationPartition = task.partition)

/-- The stage a worker that awaits the actor is at, with its task. -/
def awaiting (w : Worker) : Option (DeadlineStage × InternalTask) :=
  match w.phase with
  | .settingUp task _ => some (.styleSwap, task)
  | .rendering task => some (.render, task)
  | .idle => none
  | .entered .. => none
  | .ready .. => none
  | .stopped => none

section

variable (parse : String → BaseStyle) (hash : AddLayerSource → UInt64)

def step (w : Worker) : WorkerAction → Option Worker
  | .process task prepared =>
    match w.phase with
    | .idle => some { w with phase := .entered task prepared, received := w.received ++ prepared.toList }
    | _ => none
  -- a deadline that has passed or a closed permit, before the actor is asked
  | .leave failure =>
    match w.phase, failure with
    | .entered task _, .deadlineExceeded _ => some (w.finish task (.error failure))
    | .entered task _, .permitClosed _ => some (w.finish task (.error failure))
    | .ready task _, .deadlineExceeded _ => some (w.finish task (.error failure))
    | .ready task _, .permitClosed _ => some (w.finish task (.error failure))
    | _, _ => none
  | .skipSetup =>
    match w.phase with
    | .entered task prepared => if w.styleSwap task then none else some { w with phase := .ready task prepared }
    | _ => none
  | .setupProfile replacement =>
    match w.phase with
    | .entered task prepared =>
      if w.styleSwap task then
        match fitting task prepared with
        | none =>
          some (w.failWith task .styleSwap (.styleLoadFailed task.style.id "prepared style JSON is missing or stale") replacement)
        | some profile =>
          match w.liveActor replacement with
          | .error err => some (w.failWith task .styleSwap err replacement)
          | .ok w' =>
            some { w'.sendCurrent (.loadProfile ⟨profile.revision, profile.styleJson⟩ task) with
              phase := .settingUp task profile }
      else none
    | _ => none
  | .render replacement =>
    match w.phase with
    | .ready task prepared =>
      let task := withAddlayerSource task prepared
      match w.liveActor replacement with
      | .error err => some (w.failWith task .render err replacement)
      | .ok w' => some { w'.sendCurrent (.render task) with phase := .rendering task }
    | _ => none
  | .serve i calls => w.actors[i]?.bind fun a => (a.serve parse hash calls).map (w.setActor i)
  | .receive late replacement =>
    match w.phase, w.current.bind RendererActor.reply with
    | .settingUp task _, some (.error err) => some (w.failWith task .styleSwap err replacement)
    | .settingUp task profile, some (.ok ()) =>
      some { w with currentProfile := some (task.workerProfile, task.partition), phase := .ready task (some profile) }
    | .rendering task, some (.error err) => some (w.failWith task .render err replacement)
    | .rendering task, some (.ok ()) =>
      -- an image that comes after the deadline counts as timed out
      if late then some (w.failWith task .render .timeout replacement) else some (w.finish task (.ok ()))
    | _, _ => none
  | .expire replacement => w.awaiting.map fun (stage, task) => w.failWith task stage .timeout replacement
  -- the actor has died without a reply
  | .lose replacement =>
    match w.current with
    | some a =>
      if a.finished ∧ a.reply.isNone then
        w.awaiting.map fun (stage, task) => w.failWith task stage .actorDead replacement
      else none
    | none => none
  | .crash i => w.actors[i]?.map fun a => w.setActor i { a with inbox := [], finished := true }
  | .repair replacement =>
    match w.phase with
    | .idle =>
      match w.liveActor replacement with
      | .ok w' => some w'
      | .error _ => some w
    | _ => none
  | .retire =>
    match w.phase with
    | .idle => some { w.sendCurrent .shutdown with phase := .stopped }
    | _ => none

def machine : Machine Worker WorkerAction where
  init := new
  step := step parse hash

end

/-- Everything the native renderers of this worker have drawn. -/
def drawings (w : Worker) : List Drawing := w.actors.flatMap fun a => a.backend.drawings

end Worker

end Biei
