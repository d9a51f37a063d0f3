import Biei.Lemmas.FlightTable
import Biei.Pmtiles.ReaderLoads

/-!
# Callers and their flights

Each caller's guard and follower are as the caller's phase says, and no two callers share one.
-/

namespace Biei

section

variable {T M : Type}

/-- The guard that a caller has. -/
def LoadPhase.leads : LoadPhase M → Option Nat
  | .asking g => some g
  | .reading g => some g
  | .loaded g _ => some g
  | .ending g _ => some g
  | .looping => none
  | .missed => none
  | .electing => none
  | .following _ => none
  | .returned .. => none
  | .cancelled => none

/-- The follower that a caller waits with. -/
def LoadPhase.follows : LoadPhase M → Option Nat
  | .following f => some f
  | .asking _ => none
  | .reading _ => none
  | .loaded .. => none
  | .ending .. => none
  | .looping => none
  | .missed => none
  | .electing => none
  | .returned .. => none
  | .cancelled => none

/-- What a caller that ends completes its flight with. -/
def outcomeOf : Option (LoadResult M) → Option ReaderFlightError
  | some (.error err) => some (.capture err)
  | some (.ok _) => none
  | none => none

/-- A caller that led the guard has come to the end of its own attempt with the error. -/
def LoadPhase.FailsWith (phase : LoadPhase M) (g : Nat) (err : AnyhowError) : Prop :=
  phase = .ending g (some (.error err)) ∨ phase = .returned (some g) (.error err)

namespace ReaderLoads

/-- The caller leads the guard for its key. -/
def Leads (t : FlightTable (LoadKey T) ReaderFlightError) (load : Load T) (g : Nat)
    (p : LeaderGuard (LoadKey T) ReaderFlightError → Prop) : Prop :=
  ∃ guard, t.guards[g]? = some guard ∧ guard.key = load.key ∧ p guard

/-- The follower is one of a flight for the key. -/
def Follows (t : FlightTable (LoadKey T) ReaderFlightError) (load : Load T) (f : Nat)
    (p : Follower ReaderFlightError → Prop) : Prop :=
  ∃ follower, t.followers[f]? = some follower ∧ p follower ∧
    ∃ guard, t.guards[follower.receiver]? = some guard ∧ guard.key = load.key

/-- What the flights are to a caller in the phase. -/
def PhaseOk (t : FlightTable (LoadKey T) ReaderFlightError) (load : Load T) : LoadPhase M → Prop
  | .asking g => Leads t load g fun guard => guard.phase = .live
  | .reading g => Leads t load g fun guard => guard.phase = .live
  | .loaded g _ => Leads t load g fun guard => guard.phase = .live
  | .ending g result => Leads t load g fun guard => guard.phase ≠ .live ∧ guard.outcome = outcomeOf result
  | .following f => Follows t load f fun follower => ∀ value, follower.phase ≠ .returned value
  | .looping => True
  | .missed => True
  | .electing => True
  | .returned .. => True
  | .cancelled => True

/-- The flights a caller has waited for were for its key, and had no outcome. -/
def WaitedOk (t : FlightTable (LoadKey T) ReaderFlightError) (caller : LoadCaller T M) : Prop :=
  ∀ f ∈ caller.waited, Follows t caller.load f fun follower => follower.phase = .returned none

structure Inv [DecidableEq T] (s : ReaderLoads T M) : Prop where
  reach : FlightTable.machine.Reachable s.flights
  phase : ∀ caller ∈ s.callers, PhaseOk s.flights caller.load caller.phase
  waited : ∀ caller ∈ s.callers, WaitedOk s.flights caller
  leaders : ∀ (i j : Nat) a b g, s.callers[i]? = some a → s.callers[j]? = some b → a.phase.leads = some g →
    b.phase.leads = some g → i = j
  followers : ∀ (i j : Nat) a b f, s.callers[i]? = some a → s.callers[j]? = some b → a.phase.follows = some f →
    b.phase.follows = some f →
    i = j
  outcomes : ∀ (g : Nat) guard e, s.flights.guards[g]? = some guard → guard.outcome = some e →
    ∃ caller ∈ s.callers, ∃ err, e = .capture err ∧ caller.load.key = guard.key ∧ caller.phase.FailsWith g err

theorem Inv.sound [DecidableEq T] {s : ReaderLoads T M} (h : s.Inv) : s.flights.Sound := FlightTable.sound_of_reachable h.reach

section

variable {t t' : FlightTable (LoadKey T) ReaderFlightError} {dropped moved : Option Nat} {load : Load T} {g : Nat}

/-- A caller keeps its live guard through what is not its own drop. -/
theorem Leads.live (h : t.Evolves dropped moved t') (hg : dropped ≠ some g)
    (hl : Leads t load g fun guard => guard.phase = .live) : Leads t' load g fun guard => guard.phase = .live := by
  obtain ⟨guard, hguard, hkey, hlive⟩ := hl
  obtain ⟨guard', hguard', -, hsame, -⟩ := h.guards g guard hguard
  obtain rfl := hsame hlive hg
  exact ⟨guard', hguard', hkey, hlive⟩

theorem Leads.done (h : t.Evolves dropped moved t') {result : Option (LoadResult M)}
    (hl : Leads t load g fun guard => guard.phase ≠ .live ∧ guard.outcome = outcomeOf result) :
    Leads t' load g fun guard => guard.phase ≠ .live ∧ guard.outcome = outcomeOf result := by
  obtain ⟨guard, hguard, hkey, hnot, hout⟩ := hl
  obtain ⟨guard', hguard', hkey', -, hdone⟩ := h.guards g guard hguard
  obtain ⟨hnot', hout'⟩ := hdone hnot
  exact ⟨guard', hguard', hkey'.trans hkey, hnot', hout'.trans hout⟩

/-- A follower that stays has the flight it had. -/
theorem Follows.mono (h : t.Evolves dropped moved t') {f : Nat} {p : Follower ReaderFlightError → Prop} (hf : Follows t load f p)
    (hstays : ∀ follower, t.followers[f]? = some follower → p follower → moved ≠ some f ∨ ∃ value,
      follower.phase = .returned value) :
    Follows t' load f p := by
  obtain ⟨follower, hfollower, hp, guard, hguard, hkey⟩ := hf
  obtain ⟨follower', hfollower', hreceiver, hsame, hreturned⟩ := h.followers f follower hfollower
  have heq : follower' = follower := by
    rcases hstays follower hfollower hp with hm | ⟨value, hv⟩
    · exact hsame hm
    · exact hreturned value hv
  subst heq
  obtain ⟨guard', hguard', hkey', -⟩ := h.guards _ guard hguard
  exact ⟨follower', hfollower', hp, guard', hguard', hkey'.trans hkey⟩

variable {phase : LoadPhase M}

/-- What a caller counts on stays through a step that is not its own. -/
theorem PhaseOk.mono (h : t.Evolves dropped moved t') (hok : PhaseOk t load phase)
    (hlead : ∀ g, phase.leads = some g → dropped ≠ some g) (hfollow : ∀ f, phase.follows = some f → moved ≠ some f) :
    PhaseOk t' load phase := by
  cases phase with
  | asking g => exact Leads.live h (hlead g rfl) hok
  | reading g => exact Leads.live h (hlead g rfl) hok
  | loaded g result => exact Leads.live h (hlead g rfl) hok
  | ending g result => exact Leads.done h hok
  | following f => exact Follows.mono h hok fun _ _ _ => Or.inl (hfollow f rfl)
  | looping => trivial
  | missed => trivial
  | electing => trivial
  | returned led result => trivial
  | cancelled => trivial

theorem WaitedOk.mono (h : t.Evolves dropped moved t') {caller : LoadCaller T M} (hok : WaitedOk t caller) : WaitedOk t' caller :=
  fun f hf => Follows.mono h (hok f hf) fun _ _ hp => Or.inr ⟨none, hp⟩

/-- The guard a caller leads is there. -/
theorem PhaseOk.leads_lt (hok : PhaseOk t load phase) (hl : phase.leads = some g) :
    g < t.guards.length := by
  have hlt : ∀ g', Leads t load g' (fun _ => True) → g' < t.guards.length := by
    rintro g' ⟨guard, hguard, -⟩
    exact (List.getElem?_eq_some_iff.mp hguard).1
  have hany : ∀ {p : LeaderGuard (LoadKey T) ReaderFlightError → Prop} {g'}, Leads t load g' p → g' < t.guards.length := by
    rintro p g' ⟨guard, hguard, hkey, -⟩
    exact hlt g' ⟨guard, hguard, hkey, trivial⟩
  cases phase with
  | asking g' => exact Option.some.inj hl ▸ hany hok
  | reading g' => exact Option.some.inj hl ▸ hany hok
  | loaded g' result => exact Option.some.inj hl ▸ hany hok
  | ending g' result => exact Option.some.inj hl ▸ hany hok
  | following f => cases hl
  | looping => cases hl
  | missed => cases hl
  | electing => cases hl
  | returned led result => cases hl
  | cancelled => cases hl

theorem PhaseOk.follows_lt {f : Nat} (hok : PhaseOk t load phase) (hf : phase.follows = some f) :
    f < t.followers.length := by
  cases phase with
  | following f' =>
    obtain ⟨follower, hfollower, -⟩ := hok
    exact Option.some.inj hf ▸ (List.getElem?_eq_some_iff.mp hfollower).1
  | asking g => cases hf
  | reading g => cases hf
  | loaded g result => cases hf
  | ending g result => cases hf
  | looping => cases hf
  | missed => cases hf
  | electing => cases hf
  | returned led result => cases hf
  | cancelled => cases hf

end

section

variable [DecidableEq T] {s s' : ReaderLoads T M} {i : Nat} {caller caller' : LoadCaller T M}

/-- One caller moves on, with a step of its own flight: the other callers have what they had. -/
theorem Inv.move {flights : FlightTable (LoadKey T) ReaderFlightError} {dropped moved : Option Nat} (c : ReaderCaches T M)
    (h : s.Inv)
    (hi : s.callers[i]? = some caller) (hload : caller'.load = caller.load) (hev : s.flights.Evolves dropped moved flights)
    (hreach : FlightTable.machine.Reachable flights) (hdropped : ∀ g, dropped = some g → caller.phase.leads = some g)
    (hmoved : ∀ f, moved = some f → caller.phase.follows = some f) (hphase : PhaseOk flights caller.load caller'.phase)
    (hwaited : WaitedOk flights caller')
    (hleads : ∀ g, caller'.phase.leads = some g → caller.phase.leads = some g ∨ s.flights.guards.length ≤ g)
    (hfollows : ∀ f, caller'.phase.follows = some f → caller.phase.follows = some f ∨ s.flights.followers.length ≤ f)
    (hout : ∀ (g : Nat) guard e, flights.guards[g]? = some guard → guard.outcome = some e →
      (∃ old, s.flights.guards[g]? = some old ∧ old.outcome = some e ∧ old.key = guard.key) ∨
        ∃ err, e = .capture err ∧ caller.load.key = guard.key ∧ caller'.phase.FailsWith g err)
    (hkeeps : ∀ g err, caller.phase.FailsWith g err → caller'.phase.FailsWith g err) :
    Inv ⟨c, flights, s.callers.set i caller'⟩ := by
  have hself := getElem?_set_of_some hi caller'
  have hothers : ∀ (j : Nat) other, j ≠ i → s.callers[j]? = some other → PhaseOk flights other.load other.phase := by
    intro j other hj hother
    refine (h.phase other (List.mem_of_getElem? hother)).mono hev (fun g hg hd => ?_) fun f hf hm => ?_
    · exact hj (h.leaders j i other caller g hother hi hg (hdropped g hd))
    · exact hj (h.followers j i other caller f hother hi hf (hmoved f hm))
  refine ⟨hreach, fun other hother => ?_, fun other hother => ?_, fun j k a b g hja hkb hga hgb => ?_,
    fun j k a b f hja hkb hfa hfb => ?_,
    fun g guard e hg he => ?_⟩
  · obtain ⟨j, hj⟩ := List.mem_iff_getElem?.mp hother
    rcases getElem?_set_cases hi hj with ⟨-, rfl⟩ | ⟨hne, hj⟩
    · exact hload ▸ hphase
    · exact hothers j other hne hj
  · rcases List.mem_or_eq_of_mem_set hother with hother | rfl
    · exact (h.waited other hother).mono hev
    · exact hwaited
  · have hlt : ∀ (j : Nat) a, s.callers[j]? = some a → a.phase.leads = some g → g < s.flights.guards.length := fun j a ha hl =>
      (h.phase a (List.mem_of_getElem? ha)).leads_lt hl
    rcases getElem?_set_cases hi hja with ⟨rfl, rfl⟩ | ⟨hne, ha⟩
    · rcases getElem?_set_cases hi hkb with ⟨rfl, -⟩ | ⟨-, hb⟩
      · rfl
      · rcases hleads g hga with hold | hnew
        · exact h.leaders _ _ _ _ g hi hb hold hgb
        · exact absurd (hlt k b hb hgb) (Nat.not_lt.mpr hnew)
    · rcases getElem?_set_cases hi hkb with ⟨hk, rfl⟩ | ⟨-, hb⟩
      · rcases hleads g hgb with hold | hnew
        · exact (h.leaders j i a caller g ha hi hga hold).trans hk.symm
        · exact absurd (hlt j a ha hga) (Nat.not_lt.mpr hnew)
      · exact h.leaders j k a b g ha hb hga hgb
  · have hlt : ∀ (j : Nat) a, s.callers[j]? = some a → a.phase.follows = some f → f < s.flights.followers.length :=
      fun j a ha hl =>
      (h.phase a (List.mem_of_getElem? ha)).follows_lt hl
    rcases getElem?_set_cases hi hja with ⟨rfl, rfl⟩ | ⟨hne, ha⟩
    · rcases getElem?_set_cases hi hkb with ⟨rfl, -⟩ | ⟨-, hb⟩
      · rfl
      · rcases hfollows f hfa with hold | hnew
        · exact h.followers _ _ _ _ f hi hb hold hfb
        · exact absurd (hlt k b hb hfb) (Nat.not_lt.mpr hnew)
    · rcases getElem?_set_cases hi hkb with ⟨hk, rfl⟩ | ⟨-, hb⟩
      · rcases hfollows f hfb with hold | hnew
        · exact (h.followers j i a caller f ha hi hfa hold).trans hk.symm
        · exact absurd (hlt j a ha hfa) (Nat.not_lt.mpr hnew)
      · exact h.followers j k a b f ha hb hfa hfb
  · have hmem : caller' ∈ s.callers.set i caller' := List.mem_of_getElem? hself
    rcases hout g guard e hg he with ⟨old, hold, hoe, hkey⟩ | ⟨err, rfl, hkey, hfails⟩
    · obtain ⟨other, hother, err, rfl, hother', hfails⟩ := h.outcomes g old e hold hoe
      obtain ⟨j, hj⟩ := List.mem_iff_getElem?.mp hother
      by_cases hji : j = i
      · subst hji
        cases hi.symm.trans hj
        exact ⟨caller', hmem, err, rfl, (congrArg Load.key hload).trans (hother'.trans hkey), hkeeps g err hfails⟩
      · refine ⟨other, List.mem_of_getElem? (i := j) ?_, err, rfl, hother'.trans hkey, hfails⟩
        rw [List.getElem?_set_ne (Ne.symm hji)]
        exact hj
    · exact ⟨caller', hmem, err, rfl, (congrArg Load.key hload).trans hkey, hfails⟩

variable {phase : LoadPhase M}

/-- A step of a caller alone. -/
theorem Inv.setPhase (c : ReaderCaches T M) (h : s.Inv) (hi : s.callers[i]? = some caller)
    (hphase : PhaseOk s.flights caller.load phase) (hleads : ∀ g, phase.leads = some g → caller.phase.leads = some g)
    (hfollows : phase.follows = none) (hkeeps : ∀ g err, caller.phase.FailsWith g err → phase.FailsWith g err) :
    Inv { s.setPhase i caller phase with caches := c } := by
  refine h.move c hi rfl (.refl s.flights) h.reach (fun _ hd => (by cases hd)) (fun _ hm => (by cases hm)) hphase
    (h.waited caller (List.mem_of_getElem? hi)) (fun g hg => Or.inl (hleads g hg)) (fun f hf => ?_)
    (fun g guard e hg he => Or.inl ⟨guard, hg, he, rfl⟩) hkeeps
  rw [hfollows] at hf
  cases hf

theorem withFlights_inv {step : FlightStep (LoadKey T) ReaderFlightError} (hs : s.withFlights i caller step phase = some s') :
    ∃ flights, s.flights.step step = some flights ∧ s' = ⟨s.caches, flights, s.callers.set i { caller with phase := phase }⟩ := by
  obtain ⟨flights, hflights, rfl⟩ := Option.map_eq_some_iff.mp hs
  exact ⟨flights, hflights, rfl⟩

/-- A step of a caller with one of its flight. -/
theorem Inv.withFlights {step : FlightStep (LoadKey T) ReaderFlightError} (h : s.Inv)
    (hi : s.callers[i]? = some caller) (hs : s.withFlights i caller step phase = some s')
    (hdropped : ∀ g, step.dropped = some g → caller.phase.leads = some g)
    (hmoved : ∀ f, step.moved = some f → caller.phase.follows = some f)
    (hphase : ∀ flights, s.flights.step step = some flights → PhaseOk flights caller.load phase)
    (hleads : ∀ g, phase.leads = some g → caller.phase.leads = some g ∨ s.flights.guards.length ≤ g)
    (hfollows : ∀ f, phase.follows = some f → caller.phase.follows = some f ∨ s.flights.followers.length ≤ f)
    (hout : ∀ g e guard, step = .completeWith g e → s.flights.guards[g]? = some guard →
      ∃ err, e = .capture err ∧ caller.load.key = guard.key ∧ phase.FailsWith g err)
    (hkeeps : ∀ g err, ¬caller.phase.FailsWith g err) : s'.Inv := by
  obtain ⟨flights, hflights, rfl⟩ := withFlights_inv hs
  have hev := FlightTable.evolves_step hflights
  refine h.move s.caches hi rfl hev (h.reach.next hflights) hdropped hmoved (hphase flights hflights)
    ((h.waited caller (List.mem_of_getElem? hi)).mono hev) hleads hfollows (fun g guard e hg he => ?_) fun g err hf =>
      absurd hf (hkeeps g err)
  rcases FlightTable.step_outcome hflights hg he with hold | ⟨rfl, old, hold, hkey⟩
  · exact Or.inl hold
  · obtain ⟨err, rfl, hkey', hfails⟩ := hout g e old rfl hold
    exact Or.inr ⟨err, rfl, hkey'.trans hkey, hfails⟩

end

/-! ## What the steps of a caller are -/

section

variable [DecidableEq T] {env : PmtilesEnv M} {s s' : ReaderLoads T M} {i : Nat} {caller : LoadCaller T M}

attribute [local simp] callerStep in
theorem lookUp_inv (hs : s.callerStep env i caller .lookUp = some s') : caller.phase = .looping ∧
    ((∃ value, s.caches.lookUp caller.load = some value ∧ s' = s.setPhase i caller (.returned none (.ok (some value)))) ∨
      s' = s.setPhase i caller .missed) := by
  cases hphase : caller.phase <;> simp only [callerStep, hphase, reduceCtorEq] at hs
  refine ⟨rfl, ?_⟩
  split at hs
  · rename_i value hvalue
    exact Or.inl ⟨value, hvalue, (Option.some.inj hs).symm⟩
  · exact Or.inr (Option.some.inj hs).symm

theorem checkAbsent_inv (hs : s.callerStep env i caller .checkAbsent = some s') : caller.phase = .missed ∧
    ((s.caches.isKnownAbsent caller.load = true ∧ s' = s.setPhase i caller (.returned none (.ok none))) ∨
      s' = s.setPhase i caller .electing) := by
  cases hphase : caller.phase <;> simp only [callerStep, hphase, reduceCtorEq] at hs
  refine ⟨rfl, ?_⟩
  split at hs
  · rename_i habsent
    exact Or.inl ⟨habsent, (Option.some.inj hs).symm⟩
  · exact Or.inr (Option.some.inj hs).symm

/-- The caller follows the guard of the key that is in the map, or leads a new one. -/
theorem elect_inv (hs : s.callerStep env i caller .elect = some s') : caller.phase = .electing ∧
    ∃ phase, s.withFlights i caller (.begin caller.load.key) phase = some s' ∧
      ((∃ sender, s.flights.entries caller.load.key = some sender ∧ phase = .following s.flights.followers.length) ∨
        (s.flights.entries caller.load.key = none ∧
          (phase = .reading s.flights.guards.length ∨ phase = .asking s.flights.guards.length))) := by
  cases hphase : caller.phase <;> simp only [callerStep, hphase, reduceCtorEq] at hs
  refine ⟨rfl, ?_⟩
  unfold elect at hs
  split at hs
  · rename_i sender hentry
    exact ⟨_, hs, Or.inl ⟨sender, hentry, rfl⟩⟩
  · rename_i hentry hload
    exact ⟨_, hs, Or.inr ⟨hentry, Or.inl rfl⟩⟩
  · rename_i hentry hload
    exact ⟨_, hs, Or.inr ⟨hentry, Or.inr rfl⟩⟩
  · rename_i hentry hload
    exact ⟨_, hs, Or.inr ⟨hentry, Or.inr rfl⟩⟩

theorem peerAnswers_inv {reply : PeerReply} (hs : s.callerStep env i caller (.peerAnswers reply) = some s') :
    ∃ g, caller.phase = .asking g ∧ (s' = s.setPhase i caller (.reading g) ∨
      ∃ caches result, s' = { s.setPhase i caller (.loaded g result) with caches := caches }) := by
  cases hphase : caller.phase <;> simp only [callerStep, hphase, reduceCtorEq] at hs
  rename_i g
  refine ⟨g, rfl, ?_⟩
  split at hs
  · exact Or.inl (Option.some.inj hs).symm
  · exact Or.inr ⟨_, _, (Option.some.inj hs).symm⟩
  · cases hs

theorem backendAnswers_inv {answer : Except StorageError Bytes}
    (hs : s.callerStep env i caller (.backendAnswers answer) = some s') :
    ∃ g, caller.phase = .reading g ∧ ∃ caches result, s' = { s.setPhase i caller (.loaded g result) with caches := caches } := by
  cases hphase : caller.phase <;> simp only [callerStep, hphase, reduceCtorEq] at hs
  rename_i g
  exact ⟨g, rfl, _, _, (Option.some.inj hs).symm⟩

theorem complete_inv (hs : s.callerStep env i caller .complete = some s') : ∃ g, 
    (∃ err, caller.phase = .loaded g (.error err) ∧
      s.withFlights i caller (.completeWith g (.capture err)) (.ending g (some (.error err))) = some s') ∨
    (∃ value, caller.phase = .loaded g (.ok value) ∧ s.withFlights i caller (.drop g) (.ending g (some (.ok value))) =
      some s') := by
  simp only [callerStep, complete] at hs
  split at hs
  · rename_i g err hphase
    exact ⟨g, Or.inl ⟨err, hphase, hs⟩⟩
  · rename_i g value hphase
    exact ⟨g, Or.inr ⟨value, hphase, hs⟩⟩
  · cases hs

theorem finish_inv (hs : s.callerStep env i caller .finish = some s') : ∃ g result guard, caller.phase = .ending g result ∧
    s.flights.guards[g]? = some guard ∧ guard.phase = .ended ∧
      s' = s.setPhase i caller (result.elim .cancelled (.returned (some g))) := by
  simp only [callerStep, finish] at hs
  split at hs
  · rename_i g result hphase
    split at hs
    · rename_i hended
      obtain ⟨guard, hguard, hended⟩ := Option.map_eq_some_iff.mp hended
      exact ⟨g, result, guard, hphase, hguard, hended, (Option.some.inj hs).symm⟩
    · cases hs
  · cases hs

theorem wake_inv (hs : s.callerStep env i caller .wake = some s') :
    ∃ f, caller.phase = .following f ∧ s.withFlights i caller (.wake f) (.following f) = some s' := by
  cases hphase : caller.phase <;> simp only [callerStep, hphase, reduceCtorEq] at hs
  rename_i f
  exact ⟨f, rfl, hs⟩

/-- The follower has what the channel held: an error, or nothing. -/
theorem read_inv (hs : s.callerStep env i caller .read = some s') : ∃ f flights follower value, caller.phase = .following f ∧
    s.flights.step (.read f) = some flights ∧ flights.followers[f]? = some follower ∧ follower.phase = .returned value ∧
      ((∃ e, value = some e ∧ s' = { s.setPhase i caller (.returned none (.error e.intoError)) with flights := flights }) ∨
        (value = none ∧
          s' = { s with flights := flights, callers := s.callers.set i ⟨caller.load, .looping, caller.waited ++ [f]⟩ })) := by
  simp only [callerStep, read] at hs
  split at hs
  · rename_i f hphase
    obtain ⟨flights, hflights, hs⟩ := Option.bind_eq_some_iff.mp hs
    split at hs
    · rename_i e hvalue
      obtain ⟨follower, hfollower, hvalue⟩ := Option.map_eq_some_iff.mp hvalue
      exact ⟨f, flights, follower, some e, hphase, hflights, hfollower, hvalue, Or.inl ⟨e, rfl, (Option.some.inj hs).symm⟩⟩
    · rename_i hvalue
      obtain ⟨follower, hfollower, hvalue⟩ := Option.map_eq_some_iff.mp hvalue
      exact ⟨f, flights, follower, none, hphase, hflights, hfollower, hvalue, Or.inr ⟨rfl, (Option.some.inj hs).symm⟩⟩
    · cases hs
  · cases hs

theorem cancel_inv (hs : s.callerStep env i caller .cancel = some s') :
    (∃ g, (caller.phase = .asking g ∨ caller.phase = .reading g) ∧ s.withFlights i caller (.drop g) (.ending g none) = some s') ∨
      ∃ f, caller.phase = .following f ∧ s.withFlights i caller (.cancel f) .cancelled = some s' := by
  simp only [callerStep, cancel] at hs
  split at hs
  · rename_i g hphase
    exact Or.inl ⟨g, Or.inl hphase, hs⟩
  · rename_i g hphase
    exact Or.inl ⟨g, Or.inr hphase, hs⟩
  · rename_i f hphase
    exact Or.inr ⟨f, hphase, hs⟩
  · cases hs

/-! ## Every step keeps it -/

/-- A caller that is not at its end has not failed yet. -/
theorem not_failsWith {phase : LoadPhase M} (hending : ∀ g result, phase ≠ .ending g result)
    (hreturned : ∀ led result, phase ≠ .returned led result)
    (g : Nat) (err : AnyhowError) : ¬phase.FailsWith g err := by
  rintro (hp | hp)
  · exact hending g _ hp
  · exact hreturned _ _ hp

theorem Inv.lookUp (h : s.Inv) (hi : s.callers[i]? = some caller) (hs : s.callerStep env i caller .lookUp = some s') :
    s'.Inv := by
  obtain ⟨hphase, hs⟩ := lookUp_inv hs
  have hkeeps : ∀ g err, ¬caller.phase.FailsWith g err := not_failsWith (by simp [hphase]) (by simp [hphase])
  rcases hs with ⟨value, -, rfl⟩ | rfl
  · exact h.setPhase s.caches hi trivial (fun _ hg => by cases hg) rfl fun g err hf => absurd hf (hkeeps g err)
  · exact h.setPhase s.caches hi trivial (fun _ hg => by cases hg) rfl fun g err hf => absurd hf (hkeeps g err)

theorem Inv.checkAbsent (h : s.Inv) (hi : s.callers[i]? = some caller) (hs : s.callerStep env i caller .checkAbsent = some s') :
    s'.Inv := by
  obtain ⟨hphase, hs⟩ := checkAbsent_inv hs
  have hkeeps : ∀ g err, ¬caller.phase.FailsWith g err := not_failsWith (by simp [hphase]) (by simp [hphase])
  rcases hs with ⟨-, rfl⟩ | rfl
  · exact h.setPhase s.caches hi trivial (fun _ hg => by cases hg) rfl fun g err hf => absurd hf (hkeeps g err)
  · exact h.setPhase s.caches hi trivial (fun _ hg => by cases hg) rfl fun g err hf => absurd hf (hkeeps g err)

/-- A guard that was made is led by who made it; a follower is one of the guard that the map has for the key. -/
theorem Inv.elect (h : s.Inv) (hi : s.callers[i]? = some caller) (hs : s.callerStep env i caller .elect = some s') : s'.Inv := by
  obtain ⟨hphase, phase, hs, hcase⟩ := elect_inv hs
  have hkeeps : ∀ g err, ¬caller.phase.FailsWith g err := not_failsWith (by simp [hphase]) (by simp [hphase])
  rcases hcase with ⟨sender, hentry, rfl⟩ | ⟨hentry, hp⟩
  · refine h.withFlights hi hs (fun _ hd => by cases hd) (fun _ hm => by cases hm) (fun flights hf => ?_)
      (fun _ hg => by cases hg)
      (fun f hf => Or.inr (Nat.le_of_eq (Option.some.inj hf))) (fun _ _ _ hc => by cases hc) hkeeps
    obtain ⟨guard, hguard, hkey, -⟩ := (h.sound.entry caller.load.key sender).mp hentry
    rw [← Option.some.inj hf, FlightTable.begin_follows hentry]
    exact ⟨⟨sender, .waiting⟩, List.getElem?_concat_length, fun _ hv => (by cases hv), guard, hguard, hkey⟩
  · have hleads : ∀ flights, s.flights.step (.begin caller.load.key) = some flights →
        Leads flights caller.load s.flights.guards.length fun guard => guard.phase = .live := by
      intro flights hf
      cases hf
      exact ⟨_, FlightTable.begin_leads hentry, rfl, rfl⟩
    rcases hp with rfl | rfl
    · exact h.withFlights hi hs (fun _ hd => by cases hd) (fun _ hm => by cases hm) hleads
        (fun g hg => Or.inr (Nat.le_of_eq (Option.some.inj hg))) (fun _ hf => by cases hf) (fun _ _ _ hc => by cases hc) hkeeps
    · exact h.withFlights hi hs (fun _ hd => by cases hd) (fun _ hm => by cases hm) hleads
        (fun g hg => Or.inr (Nat.le_of_eq (Option.some.inj hg))) (fun _ hf => by cases hf) (fun _ _ _ hc => by cases hc) hkeeps

theorem Inv.peerAnswers {reply : PeerReply} (h : s.Inv) (hi : s.callers[i]? = some caller)
    (hs : s.callerStep env i caller (.peerAnswers reply) = some s') : s'.Inv := by
  obtain ⟨g, hphase, hs⟩ := peerAnswers_inv hs
  have hkeeps : ∀ g err, ¬caller.phase.FailsWith g err := not_failsWith (by simp [hphase]) (by simp [hphase])
  have hlead : Leads s.flights caller.load g fun guard => guard.phase = .live := by
    have hok := h.phase caller (List.mem_of_getElem? hi)
    rw [hphase] at hok
    exact hok
  rcases hs with rfl | ⟨caches, result, rfl⟩
  · exact h.setPhase s.caches hi hlead (fun _ hg => hphase ▸ hg) rfl fun g err hf => absurd hf (hkeeps g err)
  · exact h.setPhase caches hi hlead (fun _ hg => hphase ▸ hg) rfl fun g err hf => absurd hf (hkeeps g err)

theorem Inv.backendAnswers {answer : Except StorageError Bytes} (h : s.Inv) (hi : s.callers[i]? = some caller)
    (hs : s.callerStep env i caller (.backendAnswers answer) = some s') : s'.Inv := by
  obtain ⟨g, hphase, caches, result, rfl⟩ := backendAnswers_inv hs
  have hkeeps : ∀ g err, ¬caller.phase.FailsWith g err := not_failsWith (by simp [hphase]) (by simp [hphase])
  have hok := h.phase caller (List.mem_of_getElem? hi)
  rw [hphase] at hok
  exact h.setPhase caches hi hok (fun _ hg => hphase ▸ hg) rfl fun g err hf => absurd hf (hkeeps g err)

/-- A guard that is dropped keeps no outcome: it had none. -/
theorem Inv.drop (h : s.Inv) (hi : s.callers[i]? = some caller) {g : Nat} {result : Option (LoadResult M)}
    (hleads : caller.phase.leads = some g) (hlive : Leads s.flights caller.load g fun guard => guard.phase = .live)
    (hnone : outcomeOf result = none) (hkeeps : ∀ g err, ¬caller.phase.FailsWith g err)
    (hs : s.withFlights i caller (.drop g) (.ending g result) = some s') : s'.Inv := by
  refine h.withFlights hi hs (fun _ hd => Option.some.inj hd ▸ hleads) (fun _ hm => by cases hm) (fun flights hf => ?_)
    (fun _ hg => Or.inl (Option.some.inj hg ▸ hleads)) (fun _ hf => by cases hf) (fun _ _ _ hc => by cases hc) hkeeps
  obtain ⟨guard, hguard, hphase, rfl⟩ := FlightTable.dropGuard_inv hf
  obtain ⟨guard', hguard', hkey, -⟩ := hlive
  cases hguard.symm.trans hguard'
  refine ⟨_, getElem?_set_of_some hguard _, hkey, fun hp => (by cases hp), ?_⟩
  rw [hnone]
  exact (h.sound.guards g guard hguard).1.fresh hphase

theorem Inv.complete (h : s.Inv) (hi : s.callers[i]? = some caller) (hs : s.callerStep env i caller .complete = some s') :
    s'.Inv := by
  have hok := h.phase caller (List.mem_of_getElem? hi)
  obtain ⟨g, ⟨err, hphase, hs⟩ | ⟨value, hphase, hs⟩⟩ := complete_inv hs
  · rw [hphase] at hok
    have hleads : caller.phase.leads = some g := by rw [hphase]; rfl
    obtain ⟨guard, hguard, hkey, -⟩ := hok
    refine h.withFlights hi hs (fun _ hd => Option.some.inj hd ▸ hleads) (fun _ hm => by cases hm) (fun flights hf => ?_)
      (fun _ hg => Or.inl (Option.some.inj hg ▸ hleads)) (fun _ hf => by cases hf) (fun g' e guard' hc hg' => ?_)
      (not_failsWith (by simp [hphase]) (by simp [hphase]))
    · obtain ⟨guard', hguard', -, rfl⟩ := FlightTable.completeWith_inv hf
      cases hguard.symm.trans hguard'
      exact ⟨_, getElem?_set_of_some hguard _, hkey, fun hp => (by cases hp), rfl⟩
    · injection hc with hg he
      subst hg he
      cases hguard.symm.trans hg'
      exact ⟨err, rfl, hkey.symm, Or.inl rfl⟩
  · rw [hphase] at hok
    exact h.drop hi (by rw [hphase]; rfl) hok rfl (not_failsWith (by simp [hphase]) (by simp [hphase])) hs

/-- A caller whose guard has ended returns what it failed with, if it failed. -/
theorem Inv.finish (h : s.Inv) (hi : s.callers[i]? = some caller) (hs : s.callerStep env i caller .finish = some s') :
    s'.Inv := by
  obtain ⟨g, result, guard, hphase, -, -, rfl⟩ := finish_inv hs
  cases result with
  | none =>
    refine h.setPhase s.caches hi trivial (fun _ hg => by cases hg) rfl fun g' err hf => ?_
    rw [hphase] at hf
    rcases hf with hp | hp
    · cases hp
    · cases hp
  | some result =>
    refine h.setPhase s.caches hi trivial (fun _ hg => by cases hg) rfl fun g' err hf => ?_
    rw [hphase] at hf
    rcases hf with hp | hp
    · injection hp with hg hp
      rw [Option.some.inj hp, hg]
      exact Or.inr rfl
    · cases hp

theorem Inv.wake (h : s.Inv) (hi : s.callers[i]? = some caller) (hs : s.callerStep env i caller .wake = some s') : s'.Inv := by
  obtain ⟨f, hphase, hs⟩ := wake_inv hs
  have hfollows : caller.phase.follows = some f := by rw [hphase]; rfl
  have hok := h.phase caller (List.mem_of_getElem? hi)
  rw [hphase] at hok
  refine h.withFlights hi hs (fun _ hd => by cases hd) (fun _ hm => Option.some.inj hm ▸ hfollows) (fun flights hf => ?_)
    (fun _ hg => by cases hg) (fun _ hf => Or.inl (Option.some.inj hf ▸ hfollows)) (fun _ _ _ hc => by cases hc)
    (not_failsWith (by simp [hphase]) (by simp [hphase]))
  obtain ⟨follower, channel, hfollower, -, -, -, rfl⟩ := FlightTable.wake_inv hf
  obtain ⟨follower', hfollower', -, hguard⟩ := hok
  cases hfollower.symm.trans hfollower'
  exact ⟨_, getElem?_set_of_some hfollower _, fun _ hv => (by cases hv), hguard⟩

/-- A caller that was told nothing has one more flight that it waited for. -/
theorem Inv.read (h : s.Inv) (hi : s.callers[i]? = some caller) (hs : s.callerStep env i caller .read = some s') : s'.Inv := by
  obtain ⟨f, flights, follower, value, hphase, hf, hfollower, hvalue, hs⟩ := read_inv hs
  have hev := FlightTable.evolves_step hf
  have hreach : FlightTable.machine.Reachable flights := h.reach.next (a := .read f) hf
  have hfollows : caller.phase.follows = some f := by rw [hphase]; rfl
  have hkeeps : ∀ g err, ¬caller.phase.FailsWith g err := not_failsWith (by simp [hphase]) (by simp [hphase])
  have hmoved : ∀ f', (FlightStep.read f : FlightStep (LoadKey T) ReaderFlightError).moved = some f' →
      caller.phase.follows = some f' := fun f' hm => Option.some.inj hm ▸ hfollows
  have hok := h.phase caller (List.mem_of_getElem? hi)
  have hwaited := (h.waited caller (List.mem_of_getElem? hi)).mono hev
  rw [hphase] at hok
  have hout : ∀ (g : Nat) guard e, flights.guards[g]? = some guard → guard.outcome = some e →
      ∃ old, s.flights.guards[g]? = some old ∧ old.outcome = some e ∧ old.key = guard.key := by
    intro g guard e hg he
    rcases FlightTable.step_outcome hf hg he with hold | ⟨hc, -⟩
    · exact hold
    · cases hc
  rcases hs with ⟨e, rfl, rfl⟩ | ⟨rfl, rfl⟩
  · exact h.move s.caches hi rfl hev hreach (fun _ hd => by cases hd) hmoved trivial hwaited (fun _ hg => by cases hg)
      (fun _ hf => by cases hf) (fun g guard e hg he => Or.inl (hout g guard e hg he)) fun g err hf => absurd hf (hkeeps g err)
  · refine h.move s.caches hi rfl hev hreach (fun _ hd => by cases hd) hmoved trivial (fun f' hf' => ?_) (fun _ hg => by cases hg)
      (fun _ hf => by cases hf) (fun g guard e hg he => Or.inl (hout g guard e hg he)) fun g err hf => absurd hf (hkeeps g err)
    rcases List.mem_append.mp hf' with hf' | hf'
    · exact hwaited f' hf'
    · rw [List.mem_singleton.mp hf']
      obtain ⟨old, hold, -, guard, hguard, hkey⟩ := hok
      obtain ⟨new, hnew, hreceiver, -⟩ := hev.followers f old hold
      cases hfollower.symm.trans hnew
      obtain ⟨guard', hguard', hkey', -⟩ := hev.guards _ guard hguard
      exact ⟨follower, hfollower, hvalue, guard', hreceiver ▸ hguard', hkey'.trans hkey⟩

theorem Inv.cancel (h : s.Inv) (hi : s.callers[i]? = some caller) (hs : s.callerStep env i caller .cancel = some s') :
    s'.Inv := by
  have hok := h.phase caller (List.mem_of_getElem? hi)
  rcases cancel_inv hs with ⟨g, hphase | hphase, hs⟩ | ⟨f, hphase, hs⟩
  · rw [hphase] at hok
    exact h.drop hi (by rw [hphase]; rfl) hok rfl (not_failsWith (by simp [hphase]) (by simp [hphase])) hs
  · rw [hphase] at hok
    exact h.drop hi (by rw [hphase]; rfl) hok rfl (not_failsWith (by simp [hphase]) (by simp [hphase])) hs
  · have hfollows : caller.phase.follows = some f := by rw [hphase]; rfl
    exact h.withFlights hi hs (fun _ hd => by cases hd) (fun _ hm => Option.some.inj hm ▸ hfollows) (fun _ _ => trivial)
      (fun _ hg => by cases hg) (fun _ hf => by cases hf) (fun _ _ _ hc => by cases hc)
      (not_failsWith (by simp [hphase]) (by simp [hphase]))

theorem Inv.callerStep {step : LoadStep} (h : s.Inv) (hi : s.callers[i]? = some caller)
    (hs : s.callerStep env i caller step = some s') : s'.Inv := by
  cases step with
  | lookUp => exact h.lookUp hi hs
  | checkAbsent => exact h.checkAbsent hi hs
  | elect => exact h.elect hi hs
  | peerAnswers reply => exact h.peerAnswers hi hs
  | backendAnswers answer => exact h.backendAnswers hi hs
  | complete => exact h.complete hi hs
  | finish => exact h.finish hi hs
  | wake => exact h.wake hi hs
  | read => exact h.read hi hs
  | cancel => exact h.cancel hi hs

/-- The flights go on without the callers. -/
theorem Inv.flights {flights : FlightTable (LoadKey T) ReaderFlightError} {action : FlightStep (LoadKey T) ReaderFlightError}
    (h : s.Inv)
    (hs : s.flights.step action = some flights) (hdropped : action.dropped = none) (hmoved : action.moved = none)
    (hnot : ∀ g e, action ≠ .completeWith g e) : Inv { s with flights := flights } := by
  have hev := FlightTable.evolves_step hs
  rw [hdropped, hmoved] at hev
  refine ⟨h.reach.next (a := action) hs, fun other hother => ?_, fun other hother => (h.waited other hother).mono hev, h.leaders,
    h.followers,
    fun g guard e hg he => ?_⟩
  · exact (h.phase other hother).mono hev (fun _ _ hd => by cases hd) fun _ _ hm => by cases hm
  · rcases FlightTable.step_outcome hs hg he with ⟨old, hold, hoe, hkey⟩ | ⟨hc, -⟩
    · obtain ⟨other, hother, err, he', hkey', hfails⟩ := h.outcomes g old e hold hoe
      exact ⟨other, hother, err, he', hkey'.trans hkey, hfails⟩
    · exact absurd hc (hnot g e)

theorem Inv.dropStep {flights : FlightTable (LoadKey T) ReaderFlightError} {g : Nat} {step : DropStep} (h : s.Inv)
    (hs : s.flights.step (step.toFlightStep g) = some flights) : Inv { s with flights := flights } := by
  cases step with
  | remove => exact h.flights hs rfl rfl fun _ _ hc => by cases hc
  | send => exact h.flights hs rfl rfl fun _ _ hc => by cases hc
  | close => exact h.flights hs rfl rfl fun _ _ hc => by cases hc

/-- A caller that has just come has no flight. -/
theorem Inv.call (h : s.Inv) (load : Load T) : Inv { s with callers := s.callers ++ [⟨load, .looping, []⟩] } := by
  refine ⟨h.reach, fun other hother => ?_, fun other hother => ?_, fun j k a b g ha hb hga hgb => ?_,
    fun j k a b f ha hb hfa hfb => ?_,
    fun g guard e hg he => ?_⟩
  · rcases List.mem_append.mp hother with hother | hother
    · exact h.phase other hother
    · rw [List.mem_singleton.mp hother]
      trivial
  · rcases List.mem_append.mp hother with hother | hother
    · exact h.waited other hother
    · rw [List.mem_singleton.mp hother]
      exact fun f hf => absurd hf List.not_mem_nil
  · rcases getElem?_concat_cases ha with ⟨-, rfl⟩ | ha
    · cases hga
    · rcases getElem?_concat_cases hb with ⟨-, rfl⟩ | hb
      · cases hgb
      · exact h.leaders j k a b g ha hb hga hgb
  · rcases getElem?_concat_cases ha with ⟨-, rfl⟩ | ha
    · cases hfa
    · rcases getElem?_concat_cases hb with ⟨-, rfl⟩ | hb
      · cases hfb
      · exact h.followers j k a b f ha hb hfa hfb
  · obtain ⟨other, hother, hrest⟩ := h.outcomes g guard e hg he
    exact ⟨other, List.mem_append_left _ hother, hrest⟩

theorem Inv.step {action : LoadAction T M} (h : s.Inv) (hs : s.step env action = some s') : s'.Inv := by
  cases action with
  | call load =>
    cases hs
    exact h.call load
  | move i step =>
    obtain ⟨caller, hi, hs⟩ := Option.bind_eq_some_iff.mp hs
    exact h.callerStep hi hs
  | dropStep g step =>
    obtain ⟨flights, hf, rfl⟩ := Option.map_eq_some_iff.mp hs
    exact h.dropStep hf
  | others caches =>
    cases hs
    exact ⟨h.reach, h.phase, h.waited, h.leaders, h.followers, h.outcomes⟩

theorem Inv.new : (new : ReaderLoads T M).Inv := by
  refine ⟨.init, fun _ hc => absurd hc List.not_mem_nil, fun _ hc => absurd hc List.not_mem_nil, fun i j a b g ha => ?_,
    fun i j a b f ha => ?_, fun g guard e hg => ?_⟩
  · simp [ReaderLoads.new] at ha
  · simp [ReaderLoads.new] at ha
  · simp [ReaderLoads.new, FlightTable.empty] at hg

theorem inv_of_reachable (h : (machine env).Reachable s) : s.Inv := h.invariant (I := Inv) Inv.new fun _ _ _ hi hs => hi.step hs

end

end ReaderLoads

end

end Biei
