import Biei.Lemmas.WorkerPool

/-!
# What a pool's prediction stands for

The profile a pool has recorded for a worker is that of the last command marked for it.
-/

namespace Biei

/-- The command has not been executed to its end. -/
def CallPhase.Live {n : Nat} : CallPhase n → Prop
  | .sending _ => True
  | .permitted _ => True
  | .queued _ => True
  | .running _ => True
  | .called => False
  | .scanning _ => False
  | .picked .. => False
  | .reserving .. => False
  | .reserved _ => False
  | .releasing _ => False
  | .ended _ => False

namespace WorkerPool

variable {spec : PoolSpec} {s s' : WorkerPool spec}

/-- The completion of a call's command, from when it was marked. -/
def completionAt (s : WorkerPool spec) (p : Nat) : Option (WorkerCompletion spec.workers) :=
  s.calls[p]?.bind fun c => c.phase.completion

/-- No command was marked for the worker after this one. -/
def Latest (s : WorkerPool spec) (d : WorkerCompletion spec.workers) : Prop :=
  ∀ q d', s.completionAt q = some d' → d'.workerIdx = d.workerIdx → d'.stamp ≤ d.stamp

/-! ## Stamps -/

/-- Stamps tell commands apart, and the generation of the last command marked for a worker is the worker's. -/
structure Stamps (s : WorkerPool spec) : Prop where
  bounded : ∀ p d, s.completionAt p = some d → 0 < d.stamp ∧ d.stamp ≤ s.marks
  distinct : ∀ p q d d', s.completionAt p = some d → s.completionAt q = some d' → d.stamp = d'.stamp → p = q
  latest : ∀ p d, s.completionAt p = some d → Latest s d → d.dispatchGeneration = s.state.dispatchGenerations d.workerIdx

section

variable {p : Nat} {c c' : ProcessCall spec.workers}

theorem completionAt_eq (hc : s.calls[p]? = some c) : s.completionAt p = c.phase.completion := by
  simp only [completionAt, hc, Option.bind_some]

/-- A call is replaced by one with the same completion. -/
theorem completionAt_set {t : WorkerPool spec} (hc : s.calls[p]? = some c) (hcalls : t.calls = s.calls.set p c')
    (hsame : c'.phase.completion = c.phase.completion) (q : Nat) : t.completionAt q = s.completionAt q := by
  by_cases hq : q = p
  · subst hq
    have hnew : t.calls[q]? = some c' := by
      rw [hcalls]
      exact getElem?_set_of_some hc c'
    rw [completionAt_eq hnew, completionAt_eq hc, hsame]
  · simp only [completionAt, hcalls, List.getElem?_set_ne (Ne.symm hq)]

theorem completionAt_append (hcalls : s'.calls = s.calls ++ [c]) (hnone : c.phase.completion = none) (q : Nat) :
    s'.completionAt q = s.completionAt q := by
  unfold completionAt
  rw [hcalls]
  rcases Nat.lt_trichotomy q s.calls.length with hlt | rfl | hgt
  · rw [List.getElem?_append_left hlt]
  · rw [List.getElem?_concat_length, List.getElem?_eq_none (Nat.le_refl _)]
    exact hnone
  · rw [List.getElem?_eq_none (by simp; omega), List.getElem?_eq_none (by omega)]

end

theorem Latest.congr {d : WorkerCompletion spec.workers} (h : Latest s d) (hcomp : ∀ q, s'.completionAt q = s.completionAt q) :
    Latest s' d := by
  intro q d' hq
  rw [hcomp] at hq
  exact h q d' hq

theorem Stamps.congr (h : Stamps s) (hcomp : ∀ q, s'.completionAt q = s.completionAt q) (hmarks : s'.marks = s.marks)
    (hgen : s'.state.dispatchGenerations = s.state.dispatchGenerations) : Stamps s' := by
  refine ⟨fun p d hp => ?_, fun p q d d' hp hq => ?_, fun p d hp hl => ?_⟩
  · rw [hcomp] at hp
    rw [hmarks]
    exact h.bounded p d hp
  · rw [hcomp] at hp hq
    exact h.distinct p q d d' hp hq
  · rw [hcomp] at hp
    rw [hgen]
    exact h.latest p d hp (hl.congr fun q => (hcomp q).symm)

/-! ## Channels -/

section

variable {n : Nat} {calls calls' : List (ProcessCall n)} {w : Fin n}

/-- The stamps of the commands in a channel, in order. -/
def stamps (calls : List (ProcessCall n)) (queue : List PoolCmd) : List Nat :=
  queue.filterMap fun cmd =>
    match cmd with
    | .process p => (calls[p]?.bind fun c => c.phase.completion).map WorkerCompletion.stamp
    | .retire => none

/-- A channel holds queued commands of its worker in the order of their marks, all marked after what the worker has taken. -/
structure ChannelOk (calls : List (ProcessCall n)) (w : Fin n) (queue : List PoolCmd) (taken : Nat) : Prop where
  queued : ∀ p, .process p ∈ queue →
    ∃ c d, calls[p]? = some c ∧ c.phase = CallPhase.queued d ∧ d.workerIdx = w ∧ c.enqueued = true
  sorted : (stamps calls queue).Pairwise (· < ·)
  above : ∀ x ∈ stamps calls queue, taken < x

/-- The last command a worker has taken was in its channel. -/
def TakenOk (calls : List (ProcessCall n)) (w : Fin n) (taken : Nat) : Prop :=
  taken = 0 ∨ ∃ (p : Nat) (c : ProcessCall n) (d : WorkerCompletion n), calls[p]? = some c ∧ c.enqueued = true ∧
    c.phase.completion = some d ∧ d.workerIdx = w ∧ d.stamp = taken

/-- The command a worker has in hand is the last it has taken. -/
def RunningOk (calls : List (ProcessCall n)) (w : Fin n) (phase : PoolWorkerPhase) (taken : Nat) : Prop :=
  ∀ p, (phase = .running p ∨ ∃ result, phase = .executed p result) →
    ∃ c d, calls[p]? = some c ∧ c.phase = CallPhase.running d ∧ d.workerIdx = w ∧ d.stamp = taken

variable {queue : List PoolCmd}

theorem mem_stamps {x : Nat} :
    x ∈ stamps calls queue ↔
      ∃ p c d, .process p ∈ queue ∧ calls[p]? = some c ∧ c.phase.completion = some d ∧ d.stamp = x := by
  unfold stamps
  rw [List.mem_filterMap]
  constructor
  · rintro ⟨cmd, hcmd, hx⟩
    cases cmd with
    | process p =>
      obtain ⟨d, hd, hstamp⟩ := Option.map_eq_some_iff.mp hx
      obtain ⟨c, hc, hcomp⟩ := Option.bind_eq_some_iff.mp hd
      exact ⟨p, c, d, hcmd, hc, hcomp, hstamp⟩
    | retire => cases hx
  · rintro ⟨p, c, d, hcmd, hc, hcomp, hstamp⟩
    exact ⟨.process p, hcmd, by simp [hc, hcomp, hstamp]⟩

variable {taken : Nat}

/-- What is in a channel has not changed. -/
theorem ChannelOk.transfer (h : ChannelOk calls w queue taken) (hsame : ∀ p c, .process p ∈ queue → calls[p]? = some c →
      ∃ c', calls'[p]? = some c' ∧ c'.phase = c.phase ∧ c'.enqueued = c.enqueued) : ChannelOk calls' w queue taken := by
  have hstamps : stamps calls' queue = stamps calls queue := by
    unfold stamps
    refine List.filterMap_congr fun cmd hcmd => ?_
    cases cmd with
    | process p =>
      obtain ⟨c, d, hc, -⟩ := h.queued p hcmd
      obtain ⟨c', hc', hphase, -⟩ := hsame p c hcmd hc
      simp only [hc, hc', Option.bind_some, hphase]
    | retire => rfl
  refine ⟨fun p hp => ?_, hstamps ▸ h.sorted, hstamps ▸ h.above⟩
  obtain ⟨c, d, hc, hphase, hw, henq⟩ := h.queued p hp
  obtain ⟨c', hc', hphase', henq'⟩ := hsame p c hp hc
  exact ⟨c', d, hc', hphase'.trans hphase, hw, henq'.trans henq⟩

variable {taken p : Nat} {c c' : ProcessCall n}

/-- A call that is not in the channel has changed. -/
theorem ChannelOk.set (h : ChannelOk calls w queue taken)
    (hc : calls[p]? = some c) (hnot : .process p ∉ queue ∨ (c'.phase = c.phase ∧ c'.enqueued = c.enqueued)) :
    ChannelOk (calls.set p c') w queue taken := by
  refine h.transfer fun q d hq hd => ?_
  by_cases hqp : q = p
  · subst hqp
    rcases hnot with hnot | ⟨hphase, henq⟩
    · exact absurd hq hnot
    · cases hc.symm.trans hd
      exact ⟨c', getElem?_set_of_some hc c', hphase, henq⟩
  · exact ⟨d, (List.getElem?_set_ne (Ne.symm hqp)).trans hd, rfl, rfl⟩

variable {c : ProcessCall n}

theorem ChannelOk.not_mem (h : ChannelOk calls w queue taken)
    (hc : calls[p]? = some c) (hphase : ∀ d, c.phase = .queued d → d.workerIdx ≠ w) : .process p ∉ queue := by
  intro hp
  obtain ⟨c', d, hc', hqueued, hw, -⟩ := h.queued p hp
  cases hc.symm.trans hc'
  exact hphase d hqueued hw

/-- The first command leaves the channel. -/
theorem ChannelOk.tail {rest : List PoolCmd} {d : WorkerCompletion n}
    (h : ChannelOk calls w (.process p :: rest) taken) (hc : calls[p]? = some c) (hd : c.phase.completion = some d) :
    ChannelOk calls w rest d.stamp ∧ .process p ∉ rest ∧ taken < d.stamp := by
  have hstamps : stamps calls (.process p :: rest) = d.stamp :: stamps calls rest := by
    simp [stamps, hc, hd]
  obtain ⟨hhead, hsorted⟩ := List.pairwise_cons.mp (hstamps ▸ h.sorted)
  refine ⟨⟨fun q hq => h.queued q (List.mem_cons_of_mem _ hq), hsorted, hhead⟩, fun hp => ?_, ?_⟩
  · exact absurd (hhead d.stamp (mem_stamps.mpr ⟨p, c, d, hp, hc, hd, rfl⟩)) (Nat.lt_irrefl _)
  · exact h.above d.stamp (hstamps ▸ List.mem_cons_self)

/-- Commands that end the loop have no stamp. -/
theorem ChannelOk.tail_retire {rest : List PoolCmd} (h : ChannelOk calls w (.retire :: rest) taken) :
    ChannelOk calls w rest taken :=
  ⟨fun q hq => h.queued q (List.mem_cons_of_mem _ hq), h.sorted, h.above⟩

theorem ChannelOk.retire (h : ChannelOk calls w queue taken) :
    ChannelOk calls w (queue ++ [.retire]) taken := by
  have hstamps : stamps calls (queue ++ [.retire]) = stamps calls queue := by simp [stamps]
  refine ⟨fun q hq => ?_, hstamps ▸ h.sorted, hstamps ▸ h.above⟩
  rcases List.mem_append.mp hq with hq | hq
  · exact h.queued q hq
  · exact absurd (List.mem_singleton.mp hq) (by simp)

/-- A command marked after all others comes last. -/
theorem ChannelOk.push {d : WorkerCompletion n}
    (h : ChannelOk calls w queue taken) (hc : calls[p]? = some c) (hphase : c.phase = .queued d) (hw : d.workerIdx = w)
    (henq : c.enqueued = true) (hlast : ∀ x ∈ stamps calls queue, x < d.stamp) (htaken : taken < d.stamp) :
    ChannelOk calls w (queue ++ [.process p]) taken := by
  have hd : c.phase.completion = some d := by
    rw [hphase]
    rfl
  have hstamps : stamps calls (queue ++ [.process p]) = stamps calls queue ++ [d.stamp] := by
    simp [stamps, hc, hd]
  refine ⟨fun q hq => ?_, ?_, fun x hx => ?_⟩
  · rcases List.mem_append.mp hq with hq | hq
    · exact h.queued q hq
    · cases List.mem_singleton.mp hq
      exact ⟨c, d, hc, hphase, hw, henq⟩
  · rw [hstamps, List.pairwise_append]
    refine ⟨h.sorted, List.pairwise_singleton _ _, fun x hx y hy => ?_⟩
    rw [List.mem_singleton.mp hy]
    exact hlast x hx
  · rw [hstamps] at hx
    rcases List.mem_append.mp hx with hx | hx
    · exact h.above x hx
    · rw [List.mem_singleton.mp hx]
      exact htaken

theorem TakenOk.set (h : TakenOk calls w taken) (hc : calls[p]? = some c)
    (hcomp : ∀ d, c.phase.completion = some d → c'.phase.completion = some d) (henq : c.enqueued = true → c'.enqueued = true) :
    TakenOk (calls.set p c') w taken := by
  rcases h with h | ⟨q, e, d, he, henqueued, hd, hw, hstamp⟩
  · exact Or.inl h
  · by_cases hqp : q = p
    · subst hqp
      cases hc.symm.trans he
      exact Or.inr ⟨q, c', d, getElem?_set_of_some hc c', henq henqueued, hcomp d hd, hw, hstamp⟩
    · exact Or.inr ⟨q, e, d, (List.getElem?_set_ne (Ne.symm hqp)).trans he, henqueued, hd, hw, hstamp⟩

theorem RunningOk.set {phase : PoolWorkerPhase} (h : RunningOk calls w phase taken)
    (hc : calls[p]? = some c) (hkeep : ∀ d, c.phase = .running d → d.workerIdx = w → c'.phase = c.phase) :
    RunningOk (calls.set p c') w phase taken := by
  intro q hq
  obtain ⟨e, d, he, hphase, hw, hstamp⟩ := h q hq
  by_cases hqp : q = p
  · subst hqp
    cases hc.symm.trans he
    exact ⟨c', d, getElem?_set_of_some hc c', (hkeep d hphase hw).trans hphase, hw, hstamp⟩
  · exact ⟨e, d, (List.getElem?_set_ne (Ne.symm hqp)).trans he, hphase, hw, hstamp⟩

/-- A worker that has nothing in hand. -/
theorem RunningOk.of_empty {phase : PoolWorkerPhase} (h : ∀ p, phase ≠ .running p)
    (h' : ∀ p result, phase ≠ .executed p result) : RunningOk calls w phase taken := by
  rintro p (hp | ⟨result, hp⟩)
  · exact absurd hp (h p)
  · exact absurd hp (h' p result)

/-- The channel of a worker, what it has taken and what it has in hand. -/
structure WorkerOk (calls : List (ProcessCall n)) (w : Fin n) (worker : PoolWorker) : Prop where
  channel : ChannelOk calls w worker.queue worker.taken
  taken : TakenOk calls w worker.taken
  running : RunningOk calls w worker.phase worker.taken

/-- A call changes that is neither queued at the worker nor run by it. -/
theorem WorkerOk.set {worker : PoolWorker} {p : Nat} (h : WorkerOk calls w worker) (hc : calls[p]? = some c)
    (hcomp : ∀ d, c.phase.completion = some d → c'.phase.completion = some d) (henq : c.enqueued = true → c'.enqueued = true)
    (hqueued : ∀ d, c.phase = .queued d → d.workerIdx ≠ w) (hrunning : ∀ d, c.phase = .running d → d.workerIdx ≠ w) :
    WorkerOk (calls.set p c') w worker :=
  ⟨h.channel.set hc (Or.inl (h.channel.not_mem hc hqueued)), h.taken.set hc hcomp henq,
    h.running.set hc fun d hd hw => absurd hw (hrunning d hd)⟩

/-- Every call is still there, and where it was. -/
def SameCalls (calls calls' : List (ProcessCall n)) : Prop :=
  ∀ (p : Nat) (c : ProcessCall n), calls[p]? = some c →
    ∃ c' : ProcessCall n, calls'[p]? = some c' ∧ c'.phase = c.phase ∧ c'.enqueued = c.enqueued ∧ c'.task = c.task

theorem SameCalls.refl : SameCalls calls calls := fun _ c hc => ⟨c, hc, rfl, rfl, rfl⟩

theorem SameCalls.append (c : ProcessCall n) : SameCalls calls (calls ++ [c]) :=
  fun _ d hd => ⟨d, getElem?_concat_of_some hd c, rfl, rfl, rfl⟩

/-- Only the answer of a call changes. -/
theorem SameCalls.set {p : Nat} (hc : calls[p]? = some c) (hphase : c'.phase = c.phase)
    (henq : c'.enqueued = c.enqueued) (htask : c'.task = c.task) : SameCalls calls (calls.set p c') := by
  intro q d hd
  by_cases hqp : q = p
  · subst hqp
    cases hc.symm.trans hd
    exact ⟨c', getElem?_set_of_some hc c', hphase, henq, htask⟩
  · exact ⟨d, (List.getElem?_set_ne (Ne.symm hqp)).trans hd, rfl, rfl, rfl⟩

theorem WorkerOk.same {worker : PoolWorker} (h : WorkerOk calls w worker) (hsame : SameCalls calls calls') :
    WorkerOk calls' w worker := by
  refine ⟨h.channel.transfer fun p c _ hc => ?_, ?_, fun p hp => ?_⟩
  · obtain ⟨c', hc', hphase, henq, -⟩ := hsame p c hc
    exact ⟨c', hc', hphase, henq⟩
  · rcases h.taken with hzero | ⟨p, c, d, hc, henqueued, hd, hw, hstamp⟩
    · exact Or.inl hzero
    · obtain ⟨c', hc', hphase, henq, -⟩ := hsame p c hc
      exact Or.inr ⟨p, c', d, hc', henq.trans henqueued, (congrArg _ hphase).trans hd, hw, hstamp⟩
  · obtain ⟨c, d, hc, hrun, hw, hstamp⟩ := h.running p hp
    obtain ⟨c', hc', hphase, -⟩ := hsame p c hc
    exact ⟨c', d, hc', hphase.trans hrun, hw, hstamp⟩

end

/-! ## Predictions -/

/-- The command has left its profile loaded. -/
def LeftLoaded (worker : PoolWorker) (stamp : Nat) (profile : WorkerProfile) : Prop :=
  stamp ≤ worker.taken ∧ ∃ partition, worker.currentProfile = some (profile, partition)

/-- The last command marked for the worker has this profile, and it is under way or has left the profile loaded. -/
def PredictedAt (s : WorkerPool spec) (w : Fin spec.workers) (profile : WorkerProfile) : Prop :=
  ∃ (p : Nat) (c : ProcessCall spec.workers) (d : WorkerCompletion spec.workers), s.calls[p]? = some c ∧
    c.phase.completion = some d ∧ d.workerIdx = w ∧ Latest s d ∧ c.task.workerProfile = profile ∧
    (c.phase.Live ∨ LeftLoaded (s.workers w) d.stamp profile)

/-- What the pool has recorded is predicted, and a worker's own record is what its last command has left. -/
structure Predicts (s : WorkerPool spec) : Prop where
  predicted : ∀ w profile, s.state.loaded w = some profile → PredictedAt s w profile
  executed : ∀ w p output, (s.workers w).phase = .executed p (.ok output) →
    ∃ c, s.calls[p]? = some c ∧ (s.workers w).currentProfile = some (c.task.workerProfile, c.task.partition)
  invalidated : ∀ w stage err, (s.workers w).last = some (.error (.rendererError stage err)) →
    Worker.rendererErrorInvalidatesWarmState err = true → (s.workers w).currentProfile = none

/-- What holds of a pool whose commands are put into the channels in the order of their marks. -/
structure OrderInv (s : WorkerPool spec) : Prop where
  stamps : Stamps s
  workers : ∀ w, WorkerOk s.calls w (s.workers w)
  predicts : Predicts s

theorem OrderInv.new : OrderInv (new : WorkerPool spec) := by
  refine ⟨⟨fun p d hp => ?_, fun p q d d' hp => ?_, fun p d hp => ?_⟩, fun w => ⟨⟨fun p hp => ?_, List.Pairwise.nil, ?_⟩, ?_, ?_⟩,
    ⟨fun w profile hp => ?_, fun w p output hp => ?_, fun w stage err hp => ?_⟩⟩
  · cases hp
  · cases hp
  · cases hp
  · cases hp
  · intro x hx
    cases hx
  · exact Or.inl rfl
  · exact RunningOk.of_empty (fun p hp => by cases hp) (fun p result hp => by cases hp)
  · cases hp
  · cases hp
  · cases hp

/-- The loop goes on with the profile it has, and has not executed anything. -/
structure Keeps (old new : PoolWorker) : Prop where
  profile : new.currentProfile = old.currentProfile
  last : new.last = old.last
  taken : old.taken ≤ new.taken
  executed : ∀ q output, new.phase = .executed q (.ok output) → old.phase = .executed q (.ok output)

theorem Keeps.refl (worker : PoolWorker) : Keeps worker worker := ⟨rfl, rfl, Nat.le_refl _, fun _ _ h => h⟩

theorem Keeps.setWorker {w : Fin spec.workers} {worker : PoolWorker} (h : Keeps (s.workers w) worker) (w' : Fin spec.workers) :
    Keeps (s.workers w') ((s.setWorker w worker).workers w') :=
  (Function.forall_update_iff s.workers fun v x => Keeps (s.workers v) x).mpr ⟨h, fun v _ => .refl (s.workers v)⟩ w'

theorem LeftLoaded.keeps {old new : PoolWorker} {stamp : Nat} {profile : WorkerProfile} (h : LeftLoaded old stamp profile)
    (hkeeps : Keeps old new) : LeftLoaded new stamp profile := by
  obtain ⟨hle, partition, hpart⟩ := h
  exact ⟨Nat.le_trans hle hkeeps.taken, partition, hkeeps.profile.trans hpart⟩

section

variable {p : Nat} {c c' : ProcessCall spec.workers}

/-- A prediction survives a change of one call and of the worker's loop that keeps its profile. -/
theorem PredictedAt.set {w : Fin spec.workers} {profile : WorkerProfile} (h : PredictedAt s w profile) (hc : s.calls[p]? = some c)
    (hcalls : s'.calls = s.calls.set p c') (hcomp : c'.phase.completion = c.phase.completion) (htask : c'.task = c.task)
    (hkeeps : Keeps (s.workers w) (s'.workers w))
    (hself : ∀ d, c.phase.completion = some d → d.workerIdx = w → Latest s d → c.task.workerProfile = profile → c.phase.Live →
      c'.phase.Live ∨ LeftLoaded (s'.workers w) d.stamp profile) : PredictedAt s' w profile := by
  obtain ⟨q, e, d, he, hd, hw, hlatest, hprof, hstatus⟩ := h
  have hlatest' : Latest s' d := hlatest.congr (completionAt_set hc hcalls hcomp)
  by_cases hqp : q = p
  · subst hqp
    cases hc.symm.trans he
    have hnew : s'.calls[q]? = some c' := by
      rw [hcalls]
      exact getElem?_set_of_some hc c'
    refine ⟨q, c', d, hnew, hcomp.trans hd, hw, hlatest', (congrArg _ htask).trans hprof, ?_⟩
    rcases hstatus with hlive | hleft
    · exact hself d hd hw hlatest hprof hlive
    · exact Or.inr (hleft.keeps hkeeps)
  · have hold : s'.calls[q]? = some e := by
      rw [hcalls, List.getElem?_set_ne (Ne.symm hqp)]
      exact he
    exact ⟨q, e, d, hold, hd, hw, hlatest', hprof, hstatus.imp_right fun hleft => hleft.keeps hkeeps⟩

/-- One call changes, keeping its completion, and the loop of a worker, keeping the profiles. -/
theorem OrderInv.set (h : OrderInv s) (hc : s.calls[p]? = some c) (hcalls : s'.calls = s.calls.set p c')
    (hcomp : c'.phase.completion = c.phase.completion) (htask : c'.task = c.task) (hmarks : s'.marks = s.marks)
    (hgen : s'.state.dispatchGenerations = s.state.dispatchGenerations)
    (hworkers : ∀ w, WorkerOk s'.calls w (s'.workers w)) (hkeeps : ∀ w, Keeps (s.workers w) (s'.workers w))
    (hpred : ∀ w profile, s'.state.loaded w = some profile → PredictedAt s' w profile) : OrderInv s' := by
  refine ⟨h.stamps.congr (completionAt_set hc hcalls hcomp) hmarks hgen, hworkers,
    ⟨hpred, fun w q output hq => ?_, fun w stage err hlast hinv => ?_⟩⟩
  · obtain ⟨e, he, hcur⟩ := h.predicts.executed w q output ((hkeeps w).executed q output hq)
    rw [(hkeeps w).profile]
    by_cases hqp : q = p
    · subst hqp
      cases hc.symm.trans he
      refine ⟨c', ?_, ?_⟩
      · rw [hcalls]
        exact getElem?_set_of_some hc c'
      · rw [hcur, htask]
    · refine ⟨e, ?_, hcur⟩
      rw [hcalls, List.getElem?_set_ne (Ne.symm hqp)]
      exact he
  · rw [(hkeeps w).last] at hlast
    rw [(hkeeps w).profile]
    exact h.predicts.invalidated w stage err hlast hinv

/-- A call moves on with the pool's records as they are. -/
theorem OrderInv.move (h : OrderInv s) (hc : s.calls[p]? = some c) (hcalls : s'.calls = s.calls.set p c')
    (hcomp : c'.phase.completion = c.phase.completion) (htask : c'.task = c.task) (hmarks : s'.marks = s.marks)
    (hstate : s'.state = s.state) (hworkers : ∀ w, WorkerOk s'.calls w (s'.workers w))
    (hkeeps : ∀ w, Keeps (s.workers w) (s'.workers w))
    (hself : ∀ d, c.phase.completion = some d → c.phase.Live →
      c'.phase.Live ∨ LeftLoaded (s'.workers d.workerIdx) d.stamp c.task.workerProfile) : OrderInv s' := by
  refine h.set hc hcalls hcomp htask hmarks (congrArg _ hstate) hworkers hkeeps fun w profile hl => ?_
  rw [hstate] at hl
  refine (h.predicts.predicted w profile hl).set hc hcalls hcomp htask (hkeeps w) ?_
  rintro d hd rfl - rfl hlive
  exact hself d hd hlive

/-- A completion is dropped, or finished after a failure: if it was the last of its worker, the prediction is taken back. -/
theorem OrderInv.drop (h : OrderInv s) {d : WorkerCompletion spec.workers} (hc : s.calls[p]? = some c)
    (hd : c.phase.completion = some d) (hcalls : s'.calls = s.calls.set p c') (hcomp : c'.phase.completion = c.phase.completion)
    (htask : c'.task = c.task) (hmarks : s'.marks = s.marks)
    (hstate : s'.state = s.state.clearLoadedIfLatest d.workerIdx d.dispatchGeneration)
    (hworkers : ∀ w, WorkerOk s'.calls w (s'.workers w)) (hkeeps : ∀ w, Keeps (s.workers w) (s'.workers w)) :
    OrderInv s' := by
  refine h.set hc hcalls hcomp htask hmarks ?_ hworkers hkeeps fun w profile hl => ?_
  · rw [hstate]
    exact PoolState.clearLoadedIfLatest_dispatchGenerations _ _ _
  · rw [hstate] at hl
    obtain ⟨hl, hlater⟩ := PoolState.clearLoadedIfLatest_loaded hl
    refine (h.predicts.predicted w profile hl).set hc hcalls hcomp htask (hkeeps w) ?_
    intro e he hw hlatest _ _
    cases hd.symm.trans he
    -- the last command of the worker has the worker's generation, so its prediction is gone
    refine absurd (h.stamps.latest p d ((completionAt_eq hc).trans hd) hlatest).symm (hlater hw.symm)

/-- No call moves, and the loops keep what they have loaded. -/
theorem OrderInv.same (h : OrderInv s) (hsame : SameCalls s.calls s'.calls) (hcomp : ∀ q, s'.completionAt q = s.completionAt q)
    (hmarks : s'.marks = s.marks) (hstate : s'.state = s.state) (hworkers : ∀ w, WorkerOk s.calls w (s'.workers w))
    (hkeeps : ∀ w, Keeps (s.workers w) (s'.workers w)) : OrderInv s' := by
  refine ⟨h.stamps.congr hcomp hmarks (congrArg _ hstate), fun w => (hworkers w).same hsame,
    ⟨fun w profile hl => ?_, fun w q output hq => ?_, fun w stage err hlast hinv => ?_⟩⟩
  · rw [hstate] at hl
    obtain ⟨q, c, d, hc, hd, hw, hlatest, hprof, hstatus⟩ := h.predicts.predicted w profile hl
    obtain ⟨c', hc', hphase, -, htask⟩ := hsame q c hc
    refine ⟨q, c', d, hc', (congrArg _ hphase).trans hd, hw, hlatest.congr hcomp, (congrArg _ htask).trans hprof, ?_⟩
    rw [hphase]
    exact hstatus.imp_right fun hleft => hleft.keeps (hkeeps w)
  · obtain ⟨c, hc, hcur⟩ := h.predicts.executed w q output ((hkeeps w).executed q output hq)
    obtain ⟨c', hc', -, -, htask⟩ := hsame q c hc
    exact ⟨c', hc', by rw [(hkeeps w).profile, hcur, htask]⟩
  · rw [(hkeeps w).last] at hlast
    rw [(hkeeps w).profile]
    exact h.predicts.invalidated w stage err hlast hinv

end

end WorkerPool

end Biei
