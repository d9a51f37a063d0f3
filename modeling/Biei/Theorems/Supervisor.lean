import Biei.Lemmas.Supervisor

/-!
# The orphan accounts

`drop` sets the status first and enters the place after; `try_abandon` does it the other way round.
-/

namespace Biei

namespace ActorThread

/-- Neither `try_abandon` nor `drop` nor the exit of the thread is in progress. -/
def Quiet (a : ActorThread) : Prop := (a.owner = .held ∨ a.owner = .dropped) ∧ (a.thread = .running ∨ a.thread = .done)

instance (a : ActorThread) : Decidable a.Quiet := inferInstanceAs (Decidable (_ ∧ _))

/-- The thread was let go of and has not exited. -/
def detached (a : ActorThread) : Bool := !a.handle && a.thread != .done

variable {a : ActorThread}

/-- A quiet actor has an entry exactly when its thread is detached, and its ledger says so. -/
theorem Ok.quiet (h : a.Ok) (hq : a.Quiet) :
    a.counted = a.detached ∧ a.totalled = a.detached ∧ a.reservations = a.releases + if a.detached then 1 else 0 := by
  obtain ⟨howner, hthread⟩ := hq
  have hcases : (a.handle = true ∧ a.Unorphaned ∧ a.Ledger 0 0) ∨ (a.handle = false ∧ a.LetGo) := by
    rcases howner with ho | ho
    · simpa only [Ok, ho] using h
    · simp only [Ok, ho] at h
      exact Or.inr h
  have hcounted : a.counted = (a.status == .orphaned || a.thread == .releasing) ∧ a.totalled = a.counted := by
    rcases howner with ho | ho <;> simp [counted, totalled, ho]
  rw [hcounted.2, hcounted.1]
  rcases hcases with ⟨hhandle, hun, hled⟩ | ⟨hhandle, ⟨⟨hst, hth⟩ | ⟨-, hth⟩, hled⟩ | ⟨⟨hst, hth⟩, hled⟩⟩
  · rw [not_entered hun]
    simp [detached, hhandle, hled.1, hled.2]
  · simp [detached, hhandle, hst, hth, hled.1, hled.2]
  · rcases hthread with hno | hno
    · exact absurd (hno.symm.trans hth) (by simp)
    · exact absurd (hno.symm.trans hth) (by simp)
  · have hdone : a.thread = .done := by
      rcases hth with hth | hth
      · rcases hthread with hno | hno
        · exact absurd (hno.symm.trans hth) (by simp)
        · exact hno
      · exact hth
    rcases hled with hled | hled <;> simp [detached, hst, hdone, hled.1, hled.2]

/-- What was entered for a thread is taken out once at the most, and entered once. -/
theorem Ok.once (h : a.Ok) : a.releases ≤ a.reservations ∧ a.reservations ≤ 1 := by
  have hof : ∀ r g, a.Ledger r g → g ≤ r → r ≤ 1 → a.releases ≤ a.reservations ∧ a.reservations ≤ 1 := by
    rintro r g ⟨rfl, rfl⟩ hle hone
    exact ⟨hle, hone⟩
  have hbalanced : (a.Ledger 0 0 ∨ a.Ledger 1 1) → a.releases ≤ a.reservations ∧ a.reservations ≤ 1 := by
    rintro (hled | hled)
    · exact hof 0 0 hled (by decide) (by decide)
    · exact hof 1 1 hled (by decide) (by decide)
  have hgo : a.LetGo → a.releases ≤ a.reservations ∧ a.reservations ≤ 1 := by
    rintro (⟨-, hled⟩ | ⟨-, hled⟩)
    · exact hof 1 0 hled (by decide) (by decide)
    · exact hbalanced hled
  unfold Ok at h
  split at h
  · rcases h with ⟨-, -, hled⟩ | ⟨-, hgone⟩
    · exact hof 0 0 hled (by decide) (by decide)
    · exact hgo hgone
  · exact hof 0 0 h.2.2 (by decide) (by decide)
  · exact hof 0 0 h.2.2 (by decide) (by decide)
  · exact hof 1 0 h.2.2 (by decide) (by decide)
  · exact hof 1 0 h.2.2.2 (by decide) (by decide)
  · exact hbalanced h.2.2
  · exact hof 0 0 h.2.2 (by decide) (by decide)
  · exact hof 0 0 h.2.2 (by decide) (by decide)
  · exact hof 0 0 h.2.2 (by decide) (by decide)
  · exact hof 1 0 h.2.2 (by decide) (by decide)
  · exact hgo h.2

end ActorThread

namespace ActorThreads

/-- No operation is in progress. -/
def Quiescent (s : ActorThreads) : Prop := ∀ a ∈ s.actors, a.Quiet

instance (s : ActorThreads) : Decidable s.Quiescent := inferInstanceAs (Decidable (∀ a ∈ s.actors, a.Quiet))

/-- How many threads of the worker are detached and have not exited. -/
def detachedOf (s : ActorThreads) (workerId : Nat) : Nat := s.actors.countP fun a => decide (a.workerId = workerId) && a.detached

/-- The orphan accounts are exact. -/
structure OrphansExact (maxOrphanedThreads : Nat) (s : ActorThreads) : Prop where
  /-- At rest, the total is the sum of the workers' counts, and each of these the number of the worker's detached threads. -/
  total : s.Quiescent → s.budget.orphanedThreads = s.budget.sum
  countOf : s.Quiescent → ∀ k, s.budget.countOf k = s.detachedOf k
  /-- No counter is below zero, and none that is kept for a worker is zero, at any time. -/
  nonneg : 0 ≤ s.budget.orphanedThreads
  positive : s.budget.Positive
  /-- What was reserved for a thread is released once: never twice, and at rest once the thread has exited. -/
  once : ∀ a ∈ s.actors, a.releases ≤ a.reservations ∧ a.reservations ≤ 1
  released : s.Quiescent → ∀ a ∈ s.actors, a.thread = .done → a.releases = a.reservations
  /-- What `try_abandon` reserves keeps the total within its limit and the worker within one. -/
  reserves : ∀ i a s', s.actors[i]? = some a → a.owner = .reserving → step s (.move i .owner) = some s' →
    s'.budget = s.budget ∨ (s'.budget.orphanedThreads ≤ maxOrphanedThreads ∧ s'.budget.countOf a.workerId = 1)
  /-- With no actor dropped, the total is within its limit and every worker within one. -/
  alone : (∀ a ∈ s.actors, a.owner ≠ .counting ∧ a.owner ≠ .dropped) →
    s.budget.orphanedThreads ≤ maxOrphanedThreads ∧ ∀ k, s.budget.countOf k ≤ 1

variable {maxOrphanedThreads : Nat} {s : ActorThreads}

/-- A reservation of `try_abandon` is refused, or within the limits. -/
theorem reserves_within {i : Nat} {a : ActorThread} {s' : ActorThreads} (ha : s.actors[i]? = some a)
    (howner : a.owner = .reserving)
    (hs : step s (.move i .owner) = some s') :
    s'.budget = s.budget ∨
      (s'.budget.orphanedThreads ≤ s.budget.maxOrphanedThreads ∧ s'.budget.countOf a.workerId = 1) := by
  obtain ⟨a0, ha0, hmap⟩ := Option.bind_eq_some_iff.mp hs
  cases ha.symm.trans ha0
  obtain ⟨⟨a', b'⟩, hmove, rfl⟩ := Option.map_eq_some_iff.mp hmap
  simp only [ActorThread.move, ActorThread.ownerStep, howner] at hmove
  split at hmove
  · cases hmove
    exact Or.inl rfl
  · rename_i b1 hres
    cases hmove
    obtain ⟨-, hone, hlimit⟩ := OrphanBudget.tryReserveOrphan_spec hres
    exact Or.inr ⟨hlimit, hone⟩

/-- The accounts are exact after every interleaving in which no thread releases its place before the drop of its actor has entered
it. -/
theorem orphans_exact_of_inOrder (h : (machine maxOrphanedThreads).ReachedBy InOrder s) : OrphansExact maxOrphanedThreads s := by
  have hbooked : Booked maxOrphanedThreads s :=
    h.invariant (I := Booked maxOrphanedThreads) (Booked.new _) fun _ _ _ hi ho hs => hi.step ho hs
  have hlimited : Limited maxOrphanedThreads s :=
    h.invariant (I := Limited maxOrphanedThreads) (Limited.new _) fun _ _ _ hi _ hs => hi.step hs
  refine ⟨fun hq => ?_, fun hq k => ?_, ?_, hbooked.positive, fun a ha => (hbooked.ok a ha).once, fun hq a ha hdone => ?_,
    fun i a s' ha howner hs => ?_, fun hnone => ⟨?_, fun k => ?_⟩⟩
  · rw [hbooked.total, hbooked.sum]
    refine congrArg Nat.cast (List.countP_congr fun a ha => ?_)
    obtain ⟨hc, ht, -⟩ := (hbooked.ok a ha).quiet (hq a ha)
    rw [hc, ht]
  · rw [hbooked.countOf k]
    refine List.countP_congr fun a ha => ?_
    rw [((hbooked.ok a ha).quiet (hq a ha)).1]
  · rw [hbooked.total]
    exact Int.natCast_nonneg _
  · obtain ⟨-, -, hled⟩ := (hbooked.ok a ha).quiet (hq a ha)
    simpa [ActorThread.detached, hdone] using hled.symm
  · have hwithin := reserves_within ha howner hs
    rwa [hbooked.max] at hwithin
  · have hzero : s.actors.countP ActorThread.dropCounted = 0 :=
      List.countP_eq_zero.mpr fun a ha => by simp [ActorThread.dropCounted, (hnone a ha).2]
    have htotal := hlimited.total
    rw [hzero] at htotal
    simpa using htotal
  · have hzero : (s.actors.countP fun a => decide (a.workerId = k) && a.dropRecorded) = 0 :=
      List.countP_eq_zero.mpr fun a ha => by simp [ActorThread.dropRecorded, (hnone a ha).1, (hnone a ha).2]
    have hcount := hlimited.countOf k
    rw [hzero] at hcount
    exact hcount

/-! ## One actor that is dropped -/

/-- The thread comes to its end. -/
def exitRun : List ActorThreadAction := [.move 0 .thread, .move 0 .thread, .move 0 .thread]

/-- An actor is dropped with its thread at work, up to where the status is set. -/
def droppedRun : List ActorThreadAction := [.spawn 0, .move 0 .drop, .move 0 .graceOver, .move 0 .owner]

/-- No thread releases anything but what its owner has entered. -/
def isInOrder (s : ActorThreads) : ActorThreadAction → Bool
  | .spawn _ => true
  | .move i .thread => s.actors[i]?.all fun a => decide (a.thread = .releasing → a.owner ≠ .recording ∧ a.owner ≠ .counting)
  | .move _ .tryAbandon => true
  | .move _ .drop => true
  | .move _ .graceOver => true
  | .move _ .owner => true

theorem inOrder_of_isInOrder {action : ActorThreadAction} (h : s.isInOrder action = true) : s.InOrder action := by
  rintro i a rfl ha
  simpa [isInOrder, ha, imp_iff_not_or] using h

/-- The place is entered before the thread comes to its end. -/
theorem orphans_exact_of_inOrder_droppedRun :
    ∃ s, (machine 1).ReachedBy InOrder s ∧ s.budget.orphanedThreads = 1 ∧ OrphansExact 1 s := by
  obtain ⟨s, hs, htotal⟩ := (machine 1).exists_of_guardedRun isInOrder (droppedRun ++ [.move 0 .owner, .move 0 .owner])
    (fun s => decide (s.budget.orphanedThreads = 1)) (by decide +kernel)
  have hreach : (machine 1).ReachedBy InOrder s := hs.mono fun _ _ h => inOrder_of_isInOrder h
  exact ⟨s, hreach, of_decide_eq_true htotal, orphans_exact_of_inOrder hreach⟩

/-- A thread that comes to its end between the two leaves a place that nobody releases. -/
theorem orphan_released_before_reserved : ∃ s, (machine 1).Reachable s ∧ s.Quiescent ∧ s.budget.countOf 0 = 1 ∧
    ¬OrphansExact 1 s := by
  have hrun : ((machine 1).run (machine 1).init (droppedRun ++ exitRun ++ [.move 0 .owner, .move 0 .owner])).map
      (fun s => (decide s.Quiescent, s.budget.countOf 0, s.detachedOf 0)) = some (true, 1, 0) := by decide +kernel
  obtain ⟨s, hs, htriple⟩ := Option.map_eq_some_iff.mp hrun
  obtain ⟨hquiet, hpair⟩ := Prod.mk.inj htriple
  obtain ⟨hcount, hdetached⟩ := Prod.mk.inj hpair
  have hquiet : s.Quiescent := of_decide_eq_true hquiet
  refine ⟨s, Machine.reachable_of_run hs, hquiet, hcount, fun hexact => ?_⟩
  have hsame := hexact.countOf hquiet 0
  rw [hcount, hdetached] at hsame
  cases hsame

end ActorThreads

end Biei
