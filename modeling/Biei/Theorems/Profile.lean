import Biei.Lemmas.Profile

/-! # Profiles and credential partitions -/

namespace Biei.Profile

open Preparer

/-- The `expect` on the fetch has failed for a load of the caller. -/
def CallerPhase.panicked : CallerPhase → Bool
  | .loading _ .panicked => true
  | .loadingTileset _ _ _ .panicked => true
  | _ => false

/-- The failed load that a call returns, if it returns one. -/
def Returned.failure? : Returned → Option (ProfileFetchError × Via)
  | .error _ (.load _ failure via) => some (failure, via)
  | .unavailable _ failure via => some (failure, via)
  | _ => none

/-- What the preparer guarantees in a state. -/
structure Preparer.Partitioned (env : SourceEnv) (s : Preparer) : Prop where
  /-- What is returned to a call comes from where it may. -/
  returned : ∀ (i : Nat) (c : Caller) result, s.callers[i]? = some c → c.phase = .returned result → result.Suits env s i c.call
  /-- Every fetch was made by a caller with the credential it is known under. -/
  made : ∀ f ∈ s.fetches, s.MadeBy f.1
  /-- A failure of the caller only, or a deadline, is returned to nobody else. -/
  deadlines : ∀ (i : Nat) (c : Caller) result failure via, s.callers[i]? = some c → c.phase = .returned result →
    result.failure? = some (failure, via) → failure.scope = .caller ∨ failure.error = .callerDeadlineExceeded → via = .own
  /-- No entry of the error cache comes from such a failure. -/
  cached : ∀ key entry, s.errors key = some entry → entry.error ≠ .callerDeadlineExceeded ∧
    ∀ failure source, entry.source = .failure failure source → failure.scope = .attempt
  /-- The `expect` on the fetch never fails. -/
  noPanic : ∀ (i : Nat) (c : Caller), s.callers[i]? = some c → c.phase.panicked = false

variable {s : Preparer}

/-- What may be cached for a key is a failure of a whole attempt. -/
theorem ErrorSource.Suits.attempt (h : s.StoresOk) {key : LoadKey} {error : ProfilePreparationError} {source : ErrorSource}
    (hs : source.Suits s key error) :
    error ≠ .callerDeadlineExceeded ∧ ∀ failure f, source = .failure failure f → failure.scope = .attempt := by
  cases source with
  | failure failure f =>
    obtain ⟨hmem, -, hcacheable, rfl⟩ := hs
    obtain ⟨hdeadline, hattempt⟩ := h.log _ hmem failure rfl
    refine ⟨hdeadline (hattempt hcacheable), fun failure' f' heq => ?_⟩
    cases heq
    exact hattempt hcacheable
  | rejected revision authorization =>
    obtain ⟨-, rfl, -⟩ := hs
    exact ⟨nofun, nofun⟩

/-- A failure that comes from somebody else is one of a whole attempt, and no deadline. -/
theorem Via.Suits.own (h : s.StoresOk) {me : Fetched} {failure : ProfileFetchError} {via : Via} (hv : via.Suits s me failure)
    (hfailure : failure.scope = .caller ∨ failure.error = .callerDeadlineExceeded) : via = .own := by
  cases via with
  | own => rfl
  | joined source =>
    obtain ⟨hmem, -, hwide⟩ := hv
    have hattempt : failure.scope = .attempt := beq_iff_eq.mp hwide
    rcases hfailure with hcaller | hdeadline
    · rw [hattempt] at hcaller
      cases hcaller
    · exact absurd hdeadline ((h.log _ hmem failure rfl).1 hattempt)
  | negative entry time =>
    obtain ⟨-, rfl, hsource⟩ := hv
    rcases hfailure with hcaller | hdeadline
    · cases hcaller
    · exact absurd hdeadline (hsource.attempt h).1

/-- The failed load that is returned comes from where it may. -/
theorem Returned.Suits.failure {env : SourceEnv} {i : Nat} {call : Call} {result : Returned} {failure : ProfileFetchError}
    {via : Via} (hr : result.Suits env s i call) (h : result.failure? = some (failure, via)) : ∃ me, via.Suits s me failure := by
  cases result with
  | error err cause =>
    cases cause with
    | load target f v =>
      cases h
      exact ⟨_, hr.1⟩
    | source => cases h
  | unavailable err f v =>
    cases h
    exact ⟨_, hr.1⟩
  | profile p style tileset => cases h
  | available style => cases h
  | marked => cases h

/-- A caller of which it is known what it does has not panicked. -/
theorem CallerPhase.Ok.not_panicked {env : SourceEnv} {i : Nat} {call : Call} {phase : CallerPhase}
    (h : phase.Ok env s i call) : phase.panicked = false := by
  cases phase with
  | loading load phase =>
    cases phase with
    | panicked => exact h.2.elim
    | _ => rfl
  | loadingTileset json style load phase =>
    cases phase with
    | panicked => exact h.2.2.elim
    | _ => rfl
  | _ => rfl

/-- Prepared profiles, and the errors in their place, stay in their credential partition. -/
theorem profiles_partitioned {env : SourceEnv} {start : Instant} {s : Preparer} (hs : (preparer env start).Reachable s) :
    s.Partitioned env := by
  have hinv := inv_of_reachable hs
  have hreturned : ∀ (i : Nat) (c : Caller) result, s.callers[i]? = some c → c.phase = .returned result →
    result.Suits env s i c.call := by
    intro i c result hc hphase
    have hok := hinv.callers i c hc
    rw [hphase] at hok
    exact hok
  refine ⟨hreturned, hinv.made, fun i c result failure via hc hphase hfailure hown => ?_, fun key entry hentry => ?_,
    fun i c hc => ?_⟩
  · obtain ⟨me, hvia⟩ := (hreturned i c result hc hphase).failure hfailure
    exact hvia.own hinv.stores hown
  · exact (hinv.stores.errors key entry hentry).attempt hinv.stores
  · exact (hinv.callers i c hc).not_panicked

namespace PartitionExample

/-- No source has a URL. -/
def env : SourceEnv where
  sourceUrl styleId _ := .error (.styleUnavailable styleId "no TileJSON URL")
  rewrite styleId _ _ _ := .error (.styleUnavailable styleId "no TileJSON")

def revision : StyleRevision := ⟨⟨"basic"⟩, 1⟩

def task : Call := .prepare revision none (10 * second) none

/-- Two tasks want one style; the second waits for the first one's fetch, and the renderer rejects what they got. -/
def rejectedAfterwards : List Action :=
  [Action.call task, Action.call task] ++ List.replicate 3 (Action.step 0) ++ List.replicate 3 (Action.step 1) ++
    [Action.fetched 0 (.body "style")] ++ List.replicate 3 (Action.step 0) ++ List.replicate 4 (Action.step 1) ++
    [Action.call (.mark revision none)] ++ List.replicate 2 (Action.step 2) ++ [Action.call task] ++ List.replicate 2
      (Action.step 3)

/-- The task got its style from the fetch of the first. -/
def fromFirst : CallerPhase → Bool
  | .returned (.profile p style none) => p.styleJson == "style" && style.caller == 0
  | _ => false

/-- The task failed with an entry of the error cache. -/
def fromEntry : CallerPhase → Bool
  | .returned (.error _ (.load _ _ (.negative _ _))) => true
  | _ => false

end PartitionExample

open PartitionExample in
/-- A joined fetch, and a rejection that the next task is told. -/
theorem profiles_partitioned_rejected :
    ∃ s : Preparer, (preparer env 0).Reachable s ∧ (s.callers[1]?.any fun c => fromFirst c.phase) = true ∧
      (s.callers[3]?.any fun c => fromEntry c.phase) = true ∧ s.Partitioned env := by
  obtain ⟨s, hs, hp⟩ := Machine.exists_of_guardedRun (preparer env 0) (fun _ _ => true) rejectedAfterwards
    (fun s => (s.callers[1]?.any fun c => fromFirst c.phase) && s.callers[3]?.any fun c => fromEntry c.phase) (by decide +kernel)
  rw [Bool.and_eq_true] at hp
  have hreach : (preparer env 0).Reachable s := hs.mono fun _ _ _ => trivial
  exact ⟨s, hreach, hp.1, hp.2, profiles_partitioned hreach⟩

end Biei.Profile
