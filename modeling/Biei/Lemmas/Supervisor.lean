import Biei.Lib.Update
import Biei.Renderer.Supervisor

/-!
# What the orphan budget counts

Which actors have an entry in the budget, told from where their owner and their thread are.
-/

namespace Biei

namespace OrphanBudget

variable {b b' : OrphanBudget} {workerId : Nat}

/-- What the budget has for a worker. -/
def countOf (b : OrphanBudget) (workerId : Nat) : Nat := (b.orphanedByWorker.get? workerId).getD 0

/-- What the budget has for all workers. -/
def sum (b : OrphanBudget) : Nat := b.orphanedByWorker.values.sum

/-- A worker without an orphan has no entry. -/
def Positive (b : OrphanBudget) : Prop := ∀ k c, b.orphanedByWorker.get? k = some c → 0 < c

theorem get?_of_countOf_pos {k : Nat} (h : 0 < b.countOf k) : b.orphanedByWorker.get? k = some (b.countOf k) := by
  unfold countOf at h ⊢
  cases hget : b.orphanedByWorker.get? k with
  | none =>
    rw [hget] at h
    cases h
  | some c => rfl

/-- The budget has, for the worker and in all, one more or one less as the marks before and after say. -/
structure Changes (b b' : OrphanBudget) (workerId : Nat) (counted counted' totalled totalled' : Bool) : Prop where
  countOf : ∀ k, b'.countOf k + (if k = workerId ∧ counted = true then 1 else 0) =
    b.countOf k + if k = workerId ∧ counted' = true then 1 else 0
  sum : b'.sum + (if counted = true then 1 else 0) = b.sum + if counted' = true then 1 else 0
  total : b'.orphanedThreads + (if totalled = true then 1 else 0) = b.orphanedThreads + if totalled' = true then 1 else 0
  positive : b.Positive → b'.Positive
  max : b'.maxOrphanedThreads = b.maxOrphanedThreads

theorem Changes.refl (b : OrphanBudget) (workerId : Nat) (counted totalled : Bool) :
    Changes b b workerId counted counted totalled totalled :=
  ⟨fun _ => rfl, rfl, rfl, fun h => h, rfl⟩

theorem positive_insert {v : Nat} {total : Int} (h : b.Positive) (hv : 0 < v) :
    Positive { b with orphanedThreads := total, orphanedByWorker := b.orphanedByWorker.insert workerId v } := by
  intro k c hget
  rcases OrderedMap.get?_insert_eq_some.mp hget with ⟨-, rfl⟩ | ⟨-, hget⟩
  · exact hv
  · exact h k c hget

/-- The worker's entry is set to one more. -/
theorem changes_insert (b : OrphanBudget) (workerId : Nat) (total : Int) (totalled totalled' : Bool)
    (htotal : total + (if totalled = true then 1 else 0) = b.orphanedThreads + if totalled' = true then 1 else 0) :
    Changes b { b with orphanedThreads := total, orphanedByWorker := b.orphanedByWorker.insert workerId (b.countOf workerId + 1) }
      workerId false true totalled totalled' := by
  refine ⟨fun k => ?_, ?_, htotal, fun h => positive_insert h (Nat.succ_pos _), rfl⟩
  · by_cases hk : k = workerId
    · subst hk
      simp [OrphanBudget.countOf, OrderedMap.get?_insert_self]
    · simp [OrphanBudget.countOf, OrderedMap.get?_insert_of_ne hk, hk]
  · have hsum := b.orphanedByWorker.sum_values_insert workerId (b.countOf workerId + 1)
    unfold OrphanBudget.countOf at hsum
    simp only [OrphanBudget.sum, OrphanBudget.countOf, if_true, if_false, Bool.false_eq_true]
    omega

/-- A reservation that is made was free for the worker, and stays within the limit. -/
theorem tryReserveOrphan_spec (h : b.tryReserveOrphan workerId = some b') :
    Changes b b' workerId false true false true ∧ b'.countOf workerId = 1 ∧ b'.orphanedThreads ≤ b.maxOrphanedThreads := by
  unfold tryReserveOrphan at h
  split at h
  · cases h
  · rename_i hfree
    rw [Bool.or_eq_true, not_or] at hfree
    have hnone : b.countOf workerId = 0 := by
      cases hget : b.orphanedByWorker.get? workerId with
      | none => rw [countOf, hget, Option.getD_none]
      | some c => exact absurd (by rw [hget]; rfl) hfree.1
    have hlt : b.orphanedThreads < b.maxOrphanedThreads := by
      have hnot := hfree.2
      simp only [isExhausted, decide_eq_true_eq, not_or, not_le] at hnot
      exact hnot.2
    cases h
    have hchanges := changes_insert b workerId (b.orphanedThreads + 1) false true (by simp)
    rw [hnone] at hchanges
    refine ⟨hchanges, ?_, ?_⟩
    · simp [countOf, OrderedMap.get?_insert_self]
    · simp only
      omega

theorem recordOrphan_spec (b : OrphanBudget) (workerId : Nat) (totalled : Bool) :
    Changes b (b.recordOrphan workerId) workerId false true totalled totalled :=
  changes_insert b workerId b.orphanedThreads totalled totalled rfl

theorem countOrphan_spec (b : OrphanBudget) (workerId : Nat) (counted : Bool) :
    Changes b b.countOrphan workerId counted counted false true :=
  ⟨fun _ => rfl, rfl, by simp [countOrphan], fun h => h, rfl⟩

/-- A release that finds a count takes one out. -/
theorem releaseOrphan_spec (h : 0 < b.countOf workerId) :
    Changes b (b.releaseOrphan workerId) workerId true false true false := by
  have hget := get?_of_countOf_pos h
  unfold releaseOrphan
  rw [hget]
  simp only
  by_cases hone : b.countOf workerId - 1 = 0
  · rw [if_pos hone]
    have hsum := OrderedMap.sum_values_erase hget
    refine ⟨fun k => ?_, ?_, by simp, fun hpos k c hk => ?_, rfl⟩
    · by_cases hk : k = workerId
      · subst hk
        simp only [countOf, OrderedMap.get?_erase_self, Option.getD_none] at h ⊢
        simp only [countOf] at hone
        simp
        omega
      · simp [countOf, OrderedMap.get?_erase_of_ne hk, hk]
    · simp only [sum, if_true, Bool.false_eq_true, if_false]
      omega
    · exact hpos k c (OrderedMap.get?_erase_eq_some.mp hk).2
  · rw [if_neg hone]
    have hsum := b.orphanedByWorker.sum_values_insert workerId (b.countOf workerId - 1)
    rw [hget, Option.getD_some] at hsum
    refine ⟨fun k => ?_, ?_, by simp, fun hpos => positive_insert hpos (Nat.pos_of_ne_zero hone), rfl⟩
    · by_cases hk : k = workerId
      · subst hk
        simp only [countOf, OrderedMap.get?_insert_self, Option.getD_some] at h ⊢
        simp
        omega
      · simp [countOf, OrderedMap.get?_insert_of_ne hk, hk]
    · simp only [sum, if_true, Bool.false_eq_true, if_false]
      omega

/-- A release enters nothing. -/
theorem releaseOrphan_le (b : OrphanBudget) (workerId : Nat) :
    (b.releaseOrphan workerId).maxOrphanedThreads = b.maxOrphanedThreads ∧
      (b.releaseOrphan workerId).orphanedThreads ≤ b.orphanedThreads ∧ ∀ k,
        (b.releaseOrphan workerId).countOf k ≤ b.countOf k := by
  unfold releaseOrphan
  split
  · exact ⟨rfl, le_rfl, fun _ => le_rfl⟩
  · rename_i count hget
    refine ⟨rfl, Int.sub_le_self _ (by decide), fun k => ?_⟩
    by_cases hk : k = workerId
    · subst hk
      simp only [countOf, hget]
      split
      · simp [OrderedMap.get?_erase_self]
      · simp [OrderedMap.get?_insert_self]
    · simp only [countOf]
      split
      · rw [OrderedMap.get?_erase_of_ne hk]
      · rw [OrderedMap.get?_insert_of_ne hk]

end OrphanBudget

namespace ActorThread

/-- The thread is past the drop of its `ActorThreadExit`. -/
def Exited (a : ActorThread) : Prop := a.status = .finished ∧ (a.thread = .returning ∨ a.thread = .done)

/-- The thread is not orphaned: at work, or at its end. -/
def Unorphaned (a : ActorThread) : Prop := (a.status = .running ∧ a.thread = .running) ∨ a.Exited

/-- The thread is orphaned, and has not released its place yet. -/
def Outstanding (a : ActorThread) : Prop :=
  (a.status = .orphaned ∧ a.thread = .running) ∨ (a.status = .finished ∧ a.thread = .releasing)

/-- What was entered for the thread and taken out again. -/
def Ledger (a : ActorThread) (reservations releases : Nat) : Prop := a.reservations = reservations ∧ a.releases = releases

/-- A thread its owner has let go of: orphaned with a place, or at its end without one. -/
def LetGo (a : ActorThread) : Prop := (a.Outstanding ∧ a.Ledger 1 0) ∨ (a.Exited ∧ (a.Ledger 0 0 ∨ a.Ledger 1 1))

/-- How owner, status and thread stand to each other. -/
def Ok (a : ActorThread) : Prop :=
  match a.owner with
  | .held => (a.handle = true ∧ a.Unorphaned ∧ a.Ledger 0 0) ∨ (a.handle = false ∧ a.LetGo)
  | .checking => a.handle = true ∧ a.Unorphaned ∧ a.Ledger 0 0
  | .reserving => a.handle = true ∧ a.Unorphaned ∧ a.Ledger 0 0
  | .reserved => a.handle = true ∧ a.Unorphaned ∧ a.Ledger 1 0
  | .releasing finished => finished = true ∧ a.handle = true ∧ a.Exited ∧ a.Ledger 1 0
  | .joining => a.handle = false ∧ a.Exited ∧ (a.Ledger 0 0 ∨ a.Ledger 1 1)
  | .dropping => a.handle = false ∧ a.Unorphaned ∧ a.Ledger 0 0
  | .detaching => a.handle = false ∧ a.Unorphaned ∧ a.Ledger 0 0
  | .recording => a.handle = false ∧ a.Outstanding ∧ a.Ledger 0 0
  | .counting => a.handle = false ∧ a.Outstanding ∧ a.Ledger 1 0
  | .dropped => a.handle = false ∧ a.LetGo

/-- The actor has an entry in the count of its worker. -/
def counted (a : ActorThread) : Bool :=
  match a.owner with
  | .reserved => true
  | .releasing _ => true
  | .recording => false
  | .counting => true
  | .held => a.status == .orphaned || a.thread == .releasing
  | .dropped => a.status == .orphaned || a.thread == .releasing
  | .checking => false
  | .reserving => false
  | .joining => false
  | .dropping => false
  | .detaching => false

/-- The actor has an entry in the total. -/
def totalled (a : ActorThread) : Bool := if a.owner = .counting then false else a.counted

/-- The step of the thread is not a release that comes before its reservation. -/
def InOrder (a : ActorThread) (m : ActorMove) : Prop :=
  m = .thread → a.thread = .releasing → a.owner ≠ .recording ∧ a.owner ≠ .counting

theorem ok_spawn (workerId : Nat) : (spawn workerId).Ok := Or.inl ⟨rfl, Or.inl ⟨rfl, rfl⟩, rfl, rfl⟩

/-- What a move does: the actor stays in order, and the budget changes by its entries. -/
structure Moves (a a' : ActorThread) (b b' : OrphanBudget) : Prop where
  ok : a'.Ok
  workerId : a'.workerId = a.workerId
  changes : OrphanBudget.Changes b b' a.workerId a.counted a'.counted a.totalled a'.totalled

/-- A move that leaves the budget alone, and the actor's entries. -/
theorem Moves.quiet {a a' : ActorThread} (b : OrphanBudget) (hok : a'.Ok) (hid : a'.workerId = a.workerId)
    (hcounted : a'.counted = a.counted) (htotalled : a'.totalled = a.totalled) : Moves a a' b b := by
  refine ⟨hok, hid, ?_⟩
  rw [hcounted, htotalled]
  exact OrphanBudget.Changes.refl b _ _ _

section

variable {a a' : ActorThread} {b b' : OrphanBudget}

theorem Unorphaned.running (h : a.Unorphaned) (hst : a.status = .running) : a.thread = .running := by
  rcases h with ⟨-, hth⟩ | ⟨hfin, -⟩
  · exact hth
  · rw [hst] at hfin
    cases hfin

theorem Unorphaned.exited (h : a.Unorphaned) (hst : a.status ≠ .running) : a.Exited := by
  rcases h with ⟨hrun, -⟩ | h
  · exact absurd hrun hst
  · exact h

/-- A thread that has returned is past its exit. -/
theorem exited_of_isFinished (h : a.Unorphaned) (hfin : a.isFinished = true) : a.Exited := by
  have hdone : a.thread = .done := by simpa [isFinished] using hfin
  rcases h with ⟨-, hrun⟩ | h
  · rw [hrun] at hdone
    cases hdone
  · exact h

/-- A thread that is not orphaned has no place of its own. -/
theorem not_entered (h : a.Unorphaned) : (a.status == .orphaned || a.thread == .releasing) = false := by
  rcases h with ⟨hst, hth⟩ | ⟨hst, hth | hth⟩ <;> simp [hst, hth]

theorem tryAbandon_moves (h : a.Ok) (hs : a.tryAbandon = some a') : Moves a a' b b := by
  unfold tryAbandon at hs
  split at hs
  · rename_i howner
    have hok := h
    simp only [Ok, howner] at hok
    split at hs
    · rename_i hhandle
      cases hs
      rcases hok with ⟨-, hun, hled⟩ | ⟨hnot, -⟩
      · refine Moves.quiet b ⟨hhandle, hun, hled⟩ rfl ?_ ?_ <;> simp [counted, totalled, howner, not_entered hun]
      · exact absurd (hnot.symm.trans hhandle) (by simp)
    · cases hs
      refine Moves.quiet b hok rfl ?_ ?_ <;> simp [counted, totalled, answers, howner]
  · cases hs

theorem drop_moves (h : a.Ok) (hs : a.drop = some a') : Moves a a' b b := by
  unfold drop at hs
  split at hs
  · rename_i howner
    have hok := h
    simp only [Ok, howner] at hok
    split at hs
    · rename_i hhandle
      cases hs
      rcases hok with ⟨-, hun, hled⟩ | ⟨hnot, -⟩
      · refine Moves.quiet b ⟨rfl, hun, hled⟩ rfl ?_ ?_ <;> simp [counted, totalled, howner, not_entered hun]
      · exact absurd (hnot.symm.trans hhandle) (by simp)
    · rename_i hhandle
      cases hs
      rcases hok with ⟨hyes, -⟩ | hok
      · exact absurd hyes hhandle
      · refine Moves.quiet b hok rfl ?_ ?_ <;> simp [counted, totalled, howner]
  · cases hs

theorem graceOver_moves (h : a.Ok) (hs : a.graceOver = some a') : Moves a a' b b := by
  unfold graceOver at hs
  split at hs
  · rename_i howner
    have hok := h
    simp only [Ok, howner] at hok
    obtain ⟨hhandle, hun, hled⟩ := hok
    split at hs
    · rename_i hfin
      cases hs
      refine Moves.quiet b ⟨hhandle, Or.inr ⟨exited_of_isFinished hun hfin, Or.inl hled⟩⟩ rfl ?_ ?_ <;>
        simp [counted, totalled, howner, not_entered hun]
    · cases hs
      refine Moves.quiet b ⟨hhandle, hun, hled⟩ rfl ?_ ?_ <;> simp [counted, totalled, howner]
  · cases hs

/-- A release that finds the actor's place. -/
theorem notesRelease_eq (h : 0 < b.countOf a.workerId) : a.notesRelease b = { a with releases := a.releases + 1 } := by
  unfold notesRelease
  rw [OrphanBudget.get?_of_countOf_pos h]
  rfl

theorem ownerStep_moves (h : a.Ok) (hcount : a.counted = true → 0 < b.countOf a.workerId)
    (hs : a.ownerStep b = some (a', b')) : Moves a a' b b' := by
  have hok := h
  unfold ownerStep at hs
  cases howner : a.owner with
  | held => simp only [howner] at hs; cases hs
  | dropped => simp only [howner] at hs; cases hs
  | checking =>
    simp only [howner, Ok] at hs hok
    obtain ⟨hhandle, hun, hled⟩ := hok
    split at hs
    · rename_i hfin
      cases hs
      refine Moves.quiet b ⟨rfl, exited_of_isFinished hun hfin, Or.inl hled⟩ rfl ?_ ?_ <;> simp [counted, totalled, howner]
    · cases hs
      refine Moves.quiet b ⟨hhandle, hun, hled⟩ rfl ?_ ?_ <;> simp [counted, totalled, howner]
  | reserving =>
    simp only [howner, Ok] at hs hok
    obtain ⟨hhandle, hun, hled⟩ := hok
    split at hs
    · cases hs
      refine Moves.quiet b (Or.inl ⟨hhandle, hun, hled⟩) rfl ?_ ?_ <;> simp [counted, totalled, answers, howner, not_entered hun]
    · rename_i b1 hres
      cases hs
      refine ⟨⟨hhandle, hun, congrArg (· + 1) hled.1, hled.2⟩, rfl, ?_⟩
      simpa [counted, totalled, howner] using (OrphanBudget.tryReserveOrphan_spec hres).1
  | reserved =>
    simp only [howner, Ok] at hs hok
    obtain ⟨hhandle, hun, hled⟩ := hok
    cases hstatus : a.status with
    | running =>
      simp only [hstatus] at hs
      cases hs
      have hrun := hun.running hstatus
      refine Moves.quiet b (Or.inr ⟨rfl, Or.inl ⟨Or.inl ⟨rfl, hrun⟩, hled⟩⟩) rfl ?_ ?_ <;>
        simp [counted, totalled, answers, howner]
    | finished =>
      simp only [hstatus] at hs
      cases hs
      have hexit := hun.exited (by simp [hstatus])
      refine Moves.quiet b ⟨rfl, hhandle, ⟨rfl, hexit.2⟩, hled⟩ rfl ?_ ?_ <;> simp [counted, totalled, howner]
    | orphaned =>
      have hexit := hun.exited (by simp [hstatus])
      exact absurd (hstatus.symm.trans hexit.1) (by simp)
  | releasing finished =>
    simp only [howner, Ok] at hs hok
    obtain ⟨rfl, hhandle, hexit, hled⟩ := hok
    have hpos := hcount (by simp [counted, howner])
    simp only [notesRelease_eq hpos] at hs
    cases hs
    refine ⟨⟨rfl, hexit, Or.inr ⟨hled.1, congrArg (· + 1) hled.2⟩⟩, rfl, ?_⟩
    simpa [counted, totalled, howner] using OrphanBudget.releaseOrphan_spec hpos
  | joining =>
    simp only [howner, Ok] at hs hok
    obtain ⟨hhandle, hexit, hled⟩ := hok
    split at hs
    · cases hs
      refine Moves.quiet b (Or.inr ⟨hhandle, Or.inr ⟨hexit, hled⟩⟩) rfl ?_ ?_ <;>
        simp [counted, totalled, answers, howner, not_entered (Or.inr hexit)]
    · cases hs
  | dropping =>
    simp only [howner, Ok] at hs hok
    obtain ⟨hhandle, hun, hled⟩ := hok
    split at hs
    · rename_i hfin
      cases hs
      refine Moves.quiet b ⟨hhandle, Or.inr ⟨exited_of_isFinished hun hfin, Or.inl hled⟩⟩ rfl ?_ ?_ <;>
        simp [counted, totalled, howner, not_entered hun]
    · cases hs
  | detaching =>
    simp only [howner, Ok] at hs hok
    obtain ⟨hhandle, hun, hled⟩ := hok
    split at hs
    · rename_i hstatus
      cases hs
      have hrun := hun.running hstatus
      refine Moves.quiet b ⟨hhandle, Or.inl ⟨rfl, hrun⟩, hled⟩ rfl ?_ ?_ <;> simp [counted, totalled, howner]
    · rename_i hstatus
      cases hs
      have hexit := hun.exited hstatus
      refine Moves.quiet b ⟨hhandle, Or.inr ⟨hexit, Or.inl hled⟩⟩ rfl ?_ ?_ <;> simp [counted, totalled, howner, not_entered hun]
  | recording =>
    simp only [howner, Ok] at hs hok
    obtain ⟨hhandle, hout, hled⟩ := hok
    cases hs
    refine ⟨⟨hhandle, hout, congrArg (· + 1) hled.1, hled.2⟩, rfl, ?_⟩
    simpa [counted, totalled, howner] using OrphanBudget.recordOrphan_spec b a.workerId false
  | counting =>
    simp only [howner, Ok] at hs hok
    obtain ⟨hhandle, hout, hled⟩ := hok
    cases hs
    refine ⟨⟨hhandle, Or.inl ⟨hout, hled⟩⟩, rfl, ?_⟩
    have hentered : (a.status == .orphaned || a.thread == .releasing) = true := by
      rcases hout with ⟨hst, -⟩ | ⟨-, hth⟩
      · simp [hst]
      · simp [hth]
    simpa [counted, totalled, howner, hentered] using OrphanBudget.countOrphan_spec b a.workerId true

/-- The owner's side of an actor whose thread moves on from where it was not orphaned. -/
theorem Unorphaned.threadStep (h : a.Unorphaned) (hs : a.threadStep b = some (a', b')) :
    a'.Unorphaned ∧ (a.Exited → a'.Exited) ∧ b' = b ∧
      a' = { a with status := a'.status, thread := a'.thread } := by
  unfold ActorThread.threadStep at hs
  rcases h with ⟨hst, hth⟩ | ⟨hst, hth | hth⟩
  · simp only [hth, hst] at hs
    cases hs
    exact ⟨Or.inr ⟨rfl, Or.inl rfl⟩, fun hexit => absurd (hst.symm.trans hexit.1) (by simp), rfl, rfl⟩
  · simp only [hth] at hs
    cases hs
    exact ⟨Or.inr ⟨hst, Or.inr rfl⟩, fun _ => ⟨hst, Or.inr rfl⟩, rfl, rfl⟩
  · simp only [hth] at hs
    cases hs

/-- An orphaned thread comes to its end. -/
theorem threadStep_orphaned (hst : a.status = .orphaned) (hth : a.thread = .running) (hs : a.threadStep b = some (a', b')) :
    a' = { a with status := .finished, thread := .releasing } ∧ b' = b := by
  unfold threadStep at hs
  simp only [hth, hst, if_true] at hs
  cases hs
  exact ⟨rfl, rfl⟩

/-- An orphaned thread releases its place. -/
theorem threadStep_releasing (hth : a.thread = .releasing) (hpos : 0 < b.countOf a.workerId)
    (hs : a.threadStep b = some (a', b')) :
    a' = { a with thread := .returning, releases := a.releases + 1 } ∧ b' = b.releaseOrphan a.workerId := by
  unfold threadStep at hs
  simp only [hth, notesRelease_eq hpos] at hs
  cases hs
  exact ⟨rfl, rfl⟩

/-- The thread moves on where it was not orphaned: whatever the owner is doing, its side is the same. -/
theorem Unorphaned.moves (h : a.Unorphaned) (hs : a.threadStep b = some (a', b'))
    (hok : ∀ status thread, Unorphaned { a with status := status, thread := thread } →
      (a.Exited → Exited { a with status := status, thread := thread }) → Ok { a with status := status, thread := thread }) :
    Moves a a' b b' := by
  obtain ⟨hun, hexit, rfl, heq⟩ := h.threadStep hs
  have howner : a'.owner = a.owner := by rw [heq]
  have hcounted : a'.counted = a.counted := by simp only [counted, howner, not_entered h, not_entered hun]
  refine Moves.quiet _ ?_ (by rw [heq]) hcounted ?_
  · rw [heq] at hun hexit ⊢
    exact hok _ _ hun hexit
  · simp only [totalled, howner, hcounted]

/-- An owner that has let go of the thread has nothing to do with its end. -/
theorem LetGo.moves (h : a.LetGo) (howner : a.owner = .held ∨ a.owner = .dropped) (hhandle : a.handle = false)
    (hcount : a.counted = true → 0 < b.countOf a.workerId) (hs : a.threadStep b = some (a', b')) : Moves a a' b b' := by
  have hcounted : ∀ c : ActorThread, c.owner = a.owner → c.counted = (c.status == .orphaned || c.thread == .releasing) ∧
      c.totalled = c.counted := by
    intro c hc
    rcases howner with ho | ho <;> simp [counted, totalled, hc, ho]
  have hok : ∀ c : ActorThread, c.owner = a.owner → c.handle = false → c.LetGo → c.Ok := by
    intro c hc hch hgo
    rcases howner with ho | ho
    · simp only [Ok, hc, ho]
      exact Or.inr ⟨hch, hgo⟩
    · simp only [Ok, hc, ho]
      exact ⟨hch, hgo⟩
  obtain ⟨hca, hta⟩ := hcounted a rfl
  rcases h with ⟨⟨hst, hth⟩ | ⟨hst, hth⟩, hled⟩ | ⟨hexit, hled⟩
  · obtain ⟨rfl, rfl⟩ := threadStep_orphaned hst hth hs
    obtain ⟨hca', hta'⟩ := hcounted { a with status := .finished, thread := .releasing } rfl
    refine Moves.quiet _ (hok _ rfl hhandle (Or.inl ⟨Or.inr ⟨rfl, rfl⟩, hled⟩)) rfl ?_ ?_
    · rw [hca', hca]
      simp [hst]
    · rw [hta', hta, hca', hca]
      simp [hst]
  · have hyes : a.counted = true := by
      rw [hca]
      simp [hth]
    obtain ⟨rfl, rfl⟩ := threadStep_releasing hth (hcount hyes) hs
    obtain ⟨hca', hta'⟩ := hcounted { a with thread := .returning, releases := a.releases + 1 } rfl
    have hno : ActorThread.counted { a with thread := .returning, releases := a.releases + 1 } = false := by
      rw [hca']
      simp [hst]
    refine ⟨hok _ rfl hhandle (Or.inr ⟨⟨hst, Or.inl rfl⟩, Or.inr ⟨hled.1, congrArg (· + 1) hled.2⟩⟩), rfl, ?_⟩
    rw [hta', hta, hno, hyes]
    exact OrphanBudget.releaseOrphan_spec (hcount hyes)
  · refine Unorphaned.moves (Or.inr hexit) hs fun status thread _ hexit' => ?_
    exact hok _ rfl hhandle (Or.inr ⟨hexit' hexit, hled⟩)

/-- An owner that is still to enter the thread in the budget. -/
theorem Outstanding.moves (h : a.Outstanding) (howner : a.owner = .recording ∨ a.owner = .counting) (horder : a.InOrder .thread)
    (hok : Ok { a with status := .finished, thread := .releasing }) (hs : a.threadStep b = some (a', b')) : Moves a a' b b' := by
  rcases h with ⟨hst, hth⟩ | ⟨-, hth⟩
  · obtain ⟨rfl, rfl⟩ := threadStep_orphaned hst hth hs
    refine Moves.quiet _ hok rfl ?_ ?_ <;> rcases howner with ho | ho <;> simp [counted, totalled, ho]
  · obtain ⟨hno, hno'⟩ := horder rfl hth
    rcases howner with ho | ho
    · exact absurd ho hno
    · exact absurd ho hno'

theorem threadStep_moves (h : a.Ok) (horder : a.InOrder .thread) (hcount : a.counted = true → 0 < b.countOf a.workerId)
    (hs : a.threadStep b = some (a', b')) : Moves a a' b b' := by
  have hok := h
  cases howner : a.owner with
  | held =>
    simp only [Ok, howner] at hok
    rcases hok with ⟨hhandle, hun, hled⟩ | ⟨hhandle, hgo⟩
    · refine hun.moves hs fun status thread hun' _ => ?_
      simp only [Ok, howner]
      exact Or.inl ⟨hhandle, hun', hled⟩
    · exact hgo.moves (Or.inl howner) hhandle hcount hs
  | dropped =>
    simp only [Ok, howner] at hok
    exact hok.2.moves (Or.inr howner) hok.1 hcount hs
  | recording =>
    simp only [Ok, howner] at hok
    refine hok.2.1.moves (Or.inl howner) horder ?_ hs
    simp only [Ok, howner]
    exact ⟨hok.1, Or.inr ⟨rfl, rfl⟩, hok.2.2⟩
  | counting =>
    simp only [Ok, howner] at hok
    refine hok.2.1.moves (Or.inr howner) horder ?_ hs
    simp only [Ok, howner]
    exact ⟨hok.1, Or.inr ⟨rfl, rfl⟩, hok.2.2⟩
  | releasing finished =>
    simp only [Ok, howner] at hok
    obtain ⟨rfl, hhandle, hexit, hled⟩ := hok
    refine Unorphaned.moves (Or.inr hexit) hs fun status thread _ hexit' => ?_
    simp only [Ok, howner]
    exact ⟨trivial, hhandle, hexit' hexit, hled⟩
  | joining =>
    simp only [Ok, howner] at hok
    obtain ⟨hhandle, hexit, hled⟩ := hok
    refine Unorphaned.moves (Or.inr hexit) hs fun status thread _ hexit' => ?_
    simp only [Ok, howner]
    exact ⟨hhandle, hexit' hexit, hled⟩
  | checking =>
    simp only [Ok, howner] at hok
    refine Unorphaned.moves hok.2.1 hs fun status thread hun' _ => ?_
    simp only [Ok, howner]
    exact ⟨hok.1, hun', hok.2.2⟩
  | reserving =>
    simp only [Ok, howner] at hok
    refine Unorphaned.moves hok.2.1 hs fun status thread hun' _ => ?_
    simp only [Ok, howner]
    exact ⟨hok.1, hun', hok.2.2⟩
  | reserved =>
    simp only [Ok, howner] at hok
    refine Unorphaned.moves hok.2.1 hs fun status thread hun' _ => ?_
    simp only [Ok, howner]
    exact ⟨hok.1, hun', hok.2.2⟩
  | dropping =>
    simp only [Ok, howner] at hok
    refine Unorphaned.moves hok.2.1 hs fun status thread hun' _ => ?_
    simp only [Ok, howner]
    exact ⟨hok.1, hun', hok.2.2⟩
  | detaching =>
    simp only [Ok, howner] at hok
    refine Unorphaned.moves hok.2.1 hs fun status thread hun' _ => ?_
    simp only [Ok, howner]
    exact ⟨hok.1, hun', hok.2.2⟩

theorem move_moves {m : ActorMove} (h : a.Ok) (horder : a.InOrder m) (hcount : a.counted = true → 0 < b.countOf a.workerId)
    (hs : a.move b m = some (a', b')) : Moves a a' b b' := by
  have hquiet : ∀ o : Option ActorThread, (o.map fun c => (c, b)) = some (a', b') → o = some a' ∧ b' = b := by
    intro o ho
    obtain ⟨c, hc, heq⟩ := Option.map_eq_some_iff.mp ho
    cases heq
    exact ⟨hc, rfl⟩
  cases m with
  | tryAbandon =>
    obtain ⟨hmove, rfl⟩ := hquiet _ hs
    exact tryAbandon_moves h hmove
  | drop =>
    obtain ⟨hmove, rfl⟩ := hquiet _ hs
    exact drop_moves h hmove
  | graceOver =>
    obtain ⟨hmove, rfl⟩ := hquiet _ hs
    exact graceOver_moves h hmove
  | owner => exact ownerStep_moves h hcount hs
  | thread => exact threadStep_moves h horder hcount hs

end

/-- The drop of the actor has entered its thread in the count of its worker. -/
def dropRecorded (a : ActorThread) : Bool := a.owner == .counting || a.owner == .dropped

/-- The drop of the actor has entered its thread in the total. -/
def dropCounted (a : ActorThread) : Bool := a.owner == .dropped

/-- What a move enters in the budget is within the limit, or comes of a drop. -/
structure Limits (a a' : ActorThread) (b b' : OrphanBudget) : Prop where
  workerId : a'.workerId = a.workerId
  max : b'.maxOrphanedThreads = b.maxOrphanedThreads
  total : b'.orphanedThreads ≤ b.orphanedThreads ∨ b'.orphanedThreads ≤ b.maxOrphanedThreads ∨
    (b'.orphanedThreads = b.orphanedThreads + 1 ∧ a.dropCounted = false ∧ a'.dropCounted = true)
  countOf : ∀ k, b'.countOf k ≤ b.countOf k ∨ b'.countOf k ≤ 1 ∨
    (b'.countOf k = b.countOf k + 1 ∧ a.workerId = k ∧ a.dropRecorded = false ∧ a'.dropRecorded = true)
  counted : a.dropCounted = true → a'.dropCounted = true
  recorded : a.dropRecorded = true → a'.dropRecorded = true

/-- A move that enters nothing. -/
theorem Limits.less {a a' : ActorThread} {b b' : OrphanBudget} (hid : a'.workerId = a.workerId)
    (hmax : b'.maxOrphanedThreads = b.maxOrphanedThreads) (htotal : b'.orphanedThreads ≤ b.orphanedThreads)
    (hcount : ∀ k, b'.countOf k ≤ b.countOf k) (howner : a.dropRecorded = false ∨ a'.owner = a.owner) : Limits a a' b b' := by
  refine ⟨hid, hmax, Or.inl htotal, fun k => Or.inl (hcount k), fun hc => ?_, fun hr => ?_⟩
  · rcases howner with hno | heq
    · simp only [dropRecorded, dropCounted, Bool.or_eq_false_iff] at hno hc
      rw [hno.2] at hc
      cases hc
    · simpa [dropCounted, heq] using hc
  · rcases howner with hno | heq
    · rw [hno] at hr
      cases hr
    · simpa [dropRecorded, heq] using hr

section

variable {a a' : ActorThread} {b b' : OrphanBudget}

/-- A move of an owner that leaves the budget alone. -/
theorem Limits.quiet (b : OrphanBudget) (hid : a'.workerId = a.workerId) (hno : a.dropRecorded = false) : Limits a a' b b :=
  Limits.less hid rfl le_rfl (fun _ => le_rfl) (Or.inl hno)

theorem ownerStep_limits (hs : a.ownerStep b = some (a', b')) : Limits a a' b b' := by
  have hrelease : ∀ c : ActorThread, c.workerId = a.workerId → a.dropRecorded = false →
    Limits a c b (b.releaseOrphan a.workerId) :=
    fun c hid hno => by
      obtain ⟨hmax, htotal, hcount⟩ := b.releaseOrphan_le a.workerId
      exact Limits.less hid hmax htotal hcount (Or.inl hno)
  have hnotes : (a.notesRelease b).workerId = a.workerId := by
    unfold notesRelease
    split
    · rfl
    · rfl
  unfold ownerStep at hs
  cases howner : a.owner with
  | held => simp only [howner] at hs; cases hs
  | dropped => simp only [howner] at hs; cases hs
  | checking =>
    simp only [howner] at hs
    split at hs
    · cases hs
      exact Limits.quiet _ rfl (by simp [dropRecorded, howner])
    · cases hs
      exact Limits.quiet _ rfl (by simp [dropRecorded, howner])
  | reserving =>
    simp only [howner] at hs
    split at hs
    · cases hs
      exact Limits.quiet _ rfl (by simp [dropRecorded, howner])
    · rename_i b1 hres
      cases hs
      obtain ⟨hchanges, hone, hlimit⟩ := OrphanBudget.tryReserveOrphan_spec hres
      refine ⟨rfl, hchanges.max, Or.inr (Or.inl hlimit), fun k => ?_, fun hc => ?_, fun hr => ?_⟩
      · by_cases hk : k = a.workerId
        · subst hk
          exact Or.inr (Or.inl (le_of_eq hone))
        · have hsame := hchanges.countOf k
          simp only [hk, false_and, if_false, Nat.add_zero] at hsame
          exact Or.inl (le_of_eq hsame)
      · simp [dropCounted, howner] at hc
      · simp [dropRecorded, howner] at hr
  | reserved =>
    simp only [howner] at hs
    split at hs
    all_goals
      cases hs
      exact Limits.quiet _ rfl (by simp [dropRecorded, howner])
  | releasing finished =>
    cases finished with
    | true =>
      simp only [howner] at hs
      cases hs
      exact hrelease _ hnotes (by simp [dropRecorded, howner])
    | false =>
      simp only [howner] at hs
      cases hs
      exact hrelease _ hnotes (by simp [dropRecorded, howner])
  | joining =>
    simp only [howner] at hs
    split at hs
    · cases hs
      exact Limits.quiet _ rfl (by simp [dropRecorded, howner])
    · cases hs
  | dropping =>
    simp only [howner] at hs
    split at hs
    · cases hs
      exact Limits.quiet _ rfl (by simp [dropRecorded, howner])
    · cases hs
  | detaching =>
    simp only [howner] at hs
    split at hs
    all_goals
      cases hs
      exact Limits.quiet _ rfl (by simp [dropRecorded, howner])
  | recording =>
    simp only [howner] at hs
    cases hs
    have hchanges := OrphanBudget.recordOrphan_spec b a.workerId false
    refine ⟨rfl, rfl, Or.inl le_rfl, fun k => ?_, fun hc => ?_, fun hr => ?_⟩
    · have hk := hchanges.countOf k
      by_cases hid : k = a.workerId
      · subst hid
        simp only [true_and, Bool.false_eq_true, if_false, if_true, Nat.add_zero] at hk
        exact Or.inr (Or.inr ⟨hk, rfl, by simp [dropRecorded, howner], by simp [dropRecorded]⟩)
      · simp only [hid, false_and, if_false, Nat.add_zero] at hk
        exact Or.inl (le_of_eq hk)
    · simp [dropCounted, howner] at hc
    · simp [dropRecorded, howner] at hr
  | counting =>
    simp only [howner] at hs
    cases hs
    refine ⟨rfl, rfl, Or.inr (Or.inr ⟨rfl, by simp [dropCounted, howner], by simp [dropCounted]⟩), fun k => Or.inl le_rfl,
      fun hc => ?_,
      fun _ => by simp [dropRecorded]⟩
    simp [dropCounted, howner] at hc

theorem threadStep_limits (hs : a.threadStep b = some (a', b')) : Limits a a' b b' := by
  have hnotes : (a.notesRelease b).workerId = a.workerId ∧ (a.notesRelease b).owner = a.owner := by
    unfold notesRelease
    split
    · exact ⟨rfl, rfl⟩
    · exact ⟨rfl, rfl⟩
  unfold threadStep at hs
  split at hs
  · cases hs
    exact Limits.less rfl rfl le_rfl (fun _ => le_rfl) (Or.inr rfl)
  · cases hs
    obtain ⟨hmax, htotal, hcount⟩ := b.releaseOrphan_le a.workerId
    exact Limits.less hnotes.1 hmax htotal hcount (Or.inr hnotes.2)
  · cases hs
    exact Limits.less rfl rfl le_rfl (fun _ => le_rfl) (Or.inr rfl)
  · cases hs

theorem move_limits {m : ActorMove} (hs : a.move b m = some (a', b')) : Limits a a' b b' := by
  cases m with
  | tryAbandon =>
    obtain ⟨c, hc, heq⟩ := Option.map_eq_some_iff.mp hs
    cases heq
    unfold tryAbandon at hc
    split at hc
    · rename_i howner
      split at hc
      all_goals
        cases hc
        exact Limits.quiet _ rfl (by simp [dropRecorded, howner])
    · cases hc
  | drop =>
    obtain ⟨c, hc, heq⟩ := Option.map_eq_some_iff.mp hs
    cases heq
    unfold drop at hc
    split at hc
    · rename_i howner
      split at hc
      all_goals
        cases hc
        exact Limits.quiet _ rfl (by simp [dropRecorded, howner])
    · cases hc
  | graceOver =>
    obtain ⟨c, hc, heq⟩ := Option.map_eq_some_iff.mp hs
    cases heq
    unfold graceOver at hc
    split at hc
    · rename_i howner
      split at hc
      all_goals
        cases hc
        exact Limits.quiet _ rfl (by simp [dropRecorded, howner])
    · cases hc
  | owner => exact ownerStep_limits hs
  | thread => exact threadStep_limits hs

end

end ActorThread

namespace ActorThreads

variable {maxOrphanedThreads : Nat} {s s' : ActorThreads}

/-- The budget has an entry for every actor that its owner and thread say has one, and no other. -/
structure Booked (maxOrphanedThreads : Nat) (s : ActorThreads) : Prop where
  ok : ∀ a ∈ s.actors, a.Ok
  countOf : ∀ k, s.budget.countOf k = s.actors.countP fun a => decide (a.workerId = k) && a.counted
  sum : s.budget.sum = s.actors.countP ActorThread.counted
  total : s.budget.orphanedThreads = s.actors.countP ActorThread.totalled
  positive : s.budget.Positive
  max : s.budget.maxOrphanedThreads = maxOrphanedThreads

theorem Booked.new (maxOrphanedThreads : Nat) : Booked maxOrphanedThreads (new maxOrphanedThreads) :=
  ⟨fun _ ha => absurd ha List.not_mem_nil, fun _ => rfl, rfl, rfl, fun _ _ h => (by cases h), rfl⟩

theorem Booked.spawn (h : Booked maxOrphanedThreads s) (workerId : Nat) :
    Booked maxOrphanedThreads { s with actors := s.actors ++ [.spawn workerId] } := by
  refine ⟨fun a ha => ?_, fun k => ?_, ?_, ?_, h.positive, h.max⟩
  · rcases List.mem_append.mp ha with ha | ha
    · exact h.ok a ha
    · rw [List.mem_singleton.mp ha]
      exact ActorThread.ok_spawn workerId
  · simp [h.countOf k, ActorThread.counted, ActorThread.spawn]
  · simp [h.sum, ActorThread.counted, ActorThread.spawn]
  · simp [h.total, ActorThread.totalled, ActorThread.counted, ActorThread.spawn]

/-- An actor with an entry is found in the count of its worker. -/
theorem Booked.countOf_pos {a : ActorThread} (h : Booked maxOrphanedThreads s) (ha : a ∈ s.actors) (hc : a.counted = true) :
    0 < s.budget.countOf a.workerId := by
  rw [h.countOf]
  exact List.countP_pos_iff.mpr ⟨a, ha, by simp [hc]⟩

theorem Booked.move {i : Nat} {a a' : ActorThread} {b' : OrphanBudget} (h : Booked maxOrphanedThreads s)
    (ha : s.actors[i]? = some a)
    (hm : ActorThread.Moves a a' s.budget b') : Booked maxOrphanedThreads ⟨s.actors.set i a', b'⟩ := by
  refine ⟨fun c hc => ?_, fun k => ?_, ?_, ?_, hm.changes.positive h.positive, hm.changes.max.trans h.max⟩
  · rcases List.mem_or_eq_of_mem_set hc with hc | rfl
    · exact h.ok c hc
    · exact hm.ok
  · have hset := countP_set_add (fun a => decide (a.workerId = k) && a.counted) ha a'
    have hchange := hm.changes.countOf k
    have hold := h.countOf k
    simp only [hm.workerId, Bool.and_eq_true, decide_eq_true_eq, eq_comm (a := a.workerId) (b := k)] at hset
    dsimp only at hset hchange hold ⊢
    omega
  · have hset := countP_set_add ActorThread.counted ha a'
    have hchange := hm.changes.sum
    have hold := h.sum
    dsimp only at hset hchange hold ⊢
    omega
  · have hset := countP_set_add ActorThread.totalled ha a'
    have hchange := hm.changes.total
    have hold := h.total
    dsimp only at hset hchange hold ⊢
    split_ifs at hset hchange <;> omega

/-- No thread releases its place before `drop` has entered it. -/
def InOrder (s : ActorThreads) (action : ActorThreadAction) : Prop :=
  ∀ i a, action = .move i .thread → s.actors[i]? = some a → a.thread = .releasing → a.owner ≠ .recording ∧ a.owner ≠ .counting

theorem Booked.step {action : ActorThreadAction} (h : Booked maxOrphanedThreads s) (horder : s.InOrder action)
    (hs : step s action = some s') : Booked maxOrphanedThreads s' := by
  cases action with
  | spawn workerId =>
    cases hs
    exact h.spawn workerId
  | move i m =>
    obtain ⟨a, ha, hmap⟩ := Option.bind_eq_some_iff.mp hs
    obtain ⟨⟨a', b'⟩, hmove, rfl⟩ := Option.map_eq_some_iff.mp hmap
    have hmem : a ∈ s.actors := List.mem_of_getElem? ha
    refine h.move ha (ActorThread.move_moves (h.ok a hmem) ?_ (h.countOf_pos hmem) hmove)
    rintro rfl hth
    exact horder i a rfl ha hth

/-- What is entered beyond the limits comes of actors that were dropped. -/
structure Limited (maxOrphanedThreads : Nat) (s : ActorThreads) : Prop where
  max : s.budget.maxOrphanedThreads = maxOrphanedThreads
  total : s.budget.orphanedThreads ≤ maxOrphanedThreads + s.actors.countP ActorThread.dropCounted
  countOf : ∀ k, s.budget.countOf k ≤ 1 + s.actors.countP fun a => decide (a.workerId = k) && a.dropRecorded

theorem Limited.new (maxOrphanedThreads : Nat) : Limited maxOrphanedThreads (new maxOrphanedThreads) :=
  ⟨rfl, by simp [ActorThreads.new, OrphanBudget.new], fun _ => Nat.zero_le _⟩

theorem Limited.move {i : Nat} {a a' : ActorThread} {b' : OrphanBudget} (h : Limited maxOrphanedThreads s)
    (ha : s.actors[i]? = some a)
    (hm : ActorThread.Limits a a' s.budget b') : Limited maxOrphanedThreads ⟨s.actors.set i a', b'⟩ := by
  refine ⟨hm.max.trans h.max, ?_, fun k => ?_⟩
  · have hset := countP_set_add ActorThread.dropCounted ha a'
    have hold := h.total
    have hmax := h.max
    have hstays := hm.counted
    dsimp only at hset hold ⊢
    rcases hm.total with hless | hlimit | ⟨hmore, hno, hyes⟩
    · by_cases hc : a.dropCounted = true
      · rw [hc, hstays hc] at hset
        omega
      · simp only [hc, if_false, Bool.false_eq_true] at hset
        omega
    · omega
    · simp only [hno, hyes, if_true, Bool.false_eq_true, if_false] at hset
      omega
  · have hset := countP_set_add (fun a => decide (a.workerId = k) && a.dropRecorded) ha a'
    have hold := h.countOf k
    have hstays := hm.recorded
    have hid := hm.workerId
    dsimp only at hset hold ⊢
    rcases hm.countOf k with hless | hlimit | ⟨hmore, hk, hno, hyes⟩
    · simp only [hid, Bool.and_eq_true, decide_eq_true_eq] at hset
      by_cases hr : a.dropRecorded = true
      · rw [hr, hstays hr] at hset
        omega
      · simp only [hr, and_false, if_false, Bool.false_eq_true] at hset
        omega
    · omega
    · simp only [hid, hk, hno, hyes, Bool.and_true, Bool.and_false, decide_true, Bool.false_eq_true, if_true, if_false] at hset
      omega

theorem Limited.step {action : ActorThreadAction} (h : Limited maxOrphanedThreads s) (hs : step s action = some s') :
    Limited maxOrphanedThreads s' := by
  cases action with
  | spawn workerId =>
    cases hs
    refine ⟨h.max, ?_, fun k => ?_⟩
    · simpa [ActorThread.dropCounted, ActorThread.spawn] using h.total
    · simpa [ActorThread.dropRecorded, ActorThread.spawn] using h.countOf k
  | move i m =>
    obtain ⟨a, ha, hmap⟩ := Option.bind_eq_some_iff.mp hs
    obtain ⟨⟨a', b'⟩, hmove, rfl⟩ := Option.map_eq_some_iff.mp hmap
    exact h.move ha (ActorThread.move_limits hmove)

end ActorThreads

end Biei
