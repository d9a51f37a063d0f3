import Biei.Lemmas.Singleflight

/-! # Flights lose nobody -/

namespace Biei.Filesource

namespace Coalescer

variable {hash : FlightKey → Nat} {s s' : Coalescer} {a : FlightAction}

/-- What holds in every state. -/
structure Lossless (s : Coalescer) : Prop where
  /-- A key has one leader at a time. -/
  oneLeader : ∀ (i j : Nat) (c d : FlightCaller) (f g : Nat), s.callers[i]? = some c → s.callers[j]? = some d → c.key = d.key →
    c.phase = .leading f →
    d.phase = .leading g → i = j
  /-- A flight that is in the map has a leader that has not ended. -/
  mapped : ∀ k f, s.entries k = some f → ∃ (i : Nat) (c : FlightCaller), s.callers[i]? = some c ∧ c.key = k ∧ c.phase = .leading f
  /-- Who waits for a pending flight has a leader that will change it. -/
  awaited : ∀ (i : Nat) (c : FlightCaller) (f : Nat), s.callers[i]? = some c → c.phase.waits = some f →
    (s.flights f).state = .pending →
    (s.flights f).stage.changes = true ∧ ∃ (j : Nat) (d : FlightCaller), s.callers[j]? = some d ∧ d.phase = .leading f
  /-- Who is parked without a notification has a leader that will notify it. -/
  parked : ∀ (i : Nat) (c : FlightCaller) (f : Nat), s.callers[i]? = some c → c.phase = .parked f false →
    (s.flights f).stage.notifies = true ∧ ∃ (j : Nat) (d : FlightCaller), s.callers[j]? = some d ∧ d.phase = .leading f
  /-- Whoever returns from a flight returns what its leader's fetch returned. -/
  returned : ∀ (i : Nat) (c : FlightCaller) (f : Nat) (r : Response), s.callers[i]? = some c → c.phase = .returned f r →
    (s.flights f).outcome = some r
  /-- When the copy of the response is left out, nobody waits. -/
  skipped : ∀ (f : Nat) (r : Response) (i : Nat) (c : FlightCaller), f < s.nextFlight →
    (s.flights f).stage = .completing r false → s.callers[i]? = some c →
    c.phase.waits ≠ some f

/-- What a step does to the callers that wait: each goes on waiting, returns the response of the leader, tries again because the
flight was aborted, or was dropped. -/
def Observes (s : Coalescer) (a : FlightAction) (s' : Coalescer) : Prop :=
  ∀ (i : Nat) (c : FlightCaller) (f : Nat), s.callers[i]? = some c → c.phase.waits = some f → ∃ c', s'.callers[i]? = some c' ∧
    (c'.phase.waits = some f ∨ (∃ r, c'.phase = .returned f r ∧ (s'.flights f).outcome = some r) ∨
      (c'.phase = .entering ∧ (s'.flights f).state = .aborted) ∨ (c'.phase = .cancelled ∧ a = .cancel i))

theorem Inv.lossless (h : Inv hash s) : s.Lossless where
  oneLeader := fun i j c d f g hc hd hkey hf hg => by
    obtain ⟨hflt, hfk, hfl, hfe⟩ := (h.callers i c hc).leads f hf
    obtain ⟨hglt, hgk, hgl, hge⟩ := (h.callers j d hd).leads g hg
    have hfmap := (h.live f hflt hfe).mapped
    have hgmap := (h.live g hglt hge).mapped
    rw [hfk, hkey, ← hgk, hgmap] at hfmap
    cases hfmap
    exact hfl.symm.trans hgl
  mapped := fun k f hf => by
    obtain ⟨hlt, hk, hne⟩ := h.entries k f hf
    obtain ⟨c, hc, hlead⟩ := (h.live f hlt hne).led
    exact ⟨_, c, hc, ((h.callers _ c hc).leads f hlead).2.1.symm.trans hk, hlead⟩
  awaited := fun i c f hc hw hpending => by
    obtain ⟨hlt, -, hawaited⟩ := (h.callers i c hc).waits f hw
    have hchanges := hawaited hpending
    refine ⟨hchanges, ?_⟩
    obtain ⟨d, hd, hlead⟩ := (h.live f hlt (fun he => by rw [he] at hchanges; cases hchanges)).led
    exact ⟨_, d, hd, hlead⟩
  parked := fun i c f hc hp => by
    obtain ⟨hlt, -⟩ := (h.callers i c hc).waits f (by rw [hp]; rfl)
    have hnotifies := (h.callers i c hc).parked f hp
    refine ⟨hnotifies, ?_⟩
    obtain ⟨d, hd, hlead⟩ := (h.live f hlt (fun he => by rw [he] at hnotifies; cases hnotifies)).led
    exact ⟨_, d, hd, hlead⟩
  returned := fun i c f r hc hr => ((h.callers i c hc).returned f r hr).2
  skipped := fun f r i c hlt hstage hc hw => by
    have hstate := h.stateOk f hlt
    rw [Flight.StateOk, hstage] at hstate
    have hchanges := ((h.callers i c hc).waits f hw).2.2 hstate.1
    rw [hstage] at hchanges
    cases hchanges

/-! ## What a step does to those who wait -/

/-- A step of another caller: a leader may notify. -/
theorem leaderStep_callers {i f : Nat} {c : FlightCaller} (hs : s.leaderStep hash i c f a = some s') {j : Nat} (hji : j ≠ i) :
    ∀ d, s.callers[j]? = some d → ∃ d', s'.callers[j]? = some d' ∧ (d'.phase = d.phase ∨ d'.phase = d.phase.notify f) := by
  intro d hd
  have hset : ∀ p, (s.callers.set i { c with phase := p })[j]? = some d := fun p => (List.getElem?_set_ne hji.symm).trans hd
  have hremove : (s.removeFlight f).callers = s.callers := by
    unfold removeFlight
    split <;> rfl
  cases a with
  | fetched k response =>
    simp only [leaderStep, Option.ite_none_right_eq_some, Option.some.injEq] at hs
    obtain ⟨-, rfl⟩ := hs
    exact ⟨d, hd, Or.inl rfl⟩
  | publish k =>
    simp only [leaderStep] at hs
    split at hs
    · cases hs
      exact ⟨d, hd, Or.inl rfl⟩
    · cases hs
  | notify k =>
    simp only [leaderStep] at hs
    split at hs
    · cases hs
      exact ⟨{ d with phase := d.phase.notify f }, by simp only [notifyWaiters, setFlight, List.getElem?_map, hd,
        Option.map_some],
        Or.inr rfl⟩
    · cases hs
      exact ⟨{ d with phase := d.phase.notify f }, by simp only [notifyWaiters, setFlight, List.getElem?_map, hd,
        Option.map_some],
        Or.inr rfl⟩
    · cases hs
  | leave k =>
    simp only [leaderStep] at hs
    split at hs
    · cases hs
      exact ⟨d, by simp only [setPhase, setFlight, hremove, hset], Or.inl rfl⟩
    · cases hs
      exact ⟨d, by simp only [setPhase, setFlight, hremove, hset], Or.inl rfl⟩
    · split at hs
      · cases hs
        exact ⟨d, by simp only [setPhase, setFlight, hremove, hset], Or.inl rfl⟩
      · cases hs
    · cases hs
  | abort k =>
    simp only [leaderStep] at hs
    split at hs
    · cases hs
      exact ⟨d, hd, Or.inl rfl⟩
    · cases hs
  | cancel k =>
    simp only [leaderStep, Option.ite_none_right_eq_some, Option.some.injEq] at hs
    obtain ⟨-, rfl⟩ := hs
    exact ⟨d, hd, Or.inl rfl⟩
  | _ => cases hs

theorem waits_notify (p : CallerPhase) (f : Nat) : (p.notify f).waits = p.waits := by
  cases p <;> rfl

/-- A caller that looks at its flight. -/
theorem settle_observes (h : Inv hash s) {i f : Nat} {c : FlightCaller} (hc : s.callers[i]? = some c)
    (hw : c.phase.waits = some f)
    {p : CallerPhase} (hp : p.waits = some f) :
    ∃ c', (s.settle i c f p).callers[i]? = some c' ∧ (c'.phase.waits = some f ∨
      (∃ r, c'.phase = .returned f r ∧ ((s.settle i c f p).flights f).outcome = some r) ∨
      (c'.phase = .entering ∧ ((s.settle i c f p).flights f).state = .aborted)) := by
  obtain ⟨hlt, -⟩ := (h.callers i c hc).waits f hw
  unfold settle
  cases hstate : (s.flights f).state with
  | pending => exact ⟨_, getElem?_set_of_some hc _, Or.inl hp⟩
  | complete r => exact ⟨_, getElem?_set_of_some hc _, Or.inr (Or.inl ⟨r, rfl, h.outcome f r hlt hstate⟩)⟩
  | aborted => exact ⟨_, getElem?_set_of_some hc _, Or.inr (Or.inr ⟨rfl, hstate⟩)⟩

theorem Inv.observes (h : Inv hash s) (hs : s.step hash a = some s') : s.Observes a s' := by
  intro i c f hc hw
  cases ha : a.caller with
  | none =>
    cases a with
    | call request =>
      simp only [Coalescer.step, Option.some.injEq] at hs
      subst hs
      exact ⟨c, getElem?_concat_of_some hc _, Or.inl hw⟩
    | _ => cases ha
  | some j =>
    obtain ⟨d, hd, hstep⟩ := step_caller ha hs
    -- the others keep waiting, notified or not
    have hother : ∀ p, j ≠ i → (s.setPhase j d p).callers[i]? = some c := fun p hji => (List.getElem?_set_ne hji).trans hc
    have hsettled : ∀ g p, j ≠ i → (s.settle j d g p).callers[i]? = some c := by
      intro g p hji
      unfold Coalescer.settle
      split <;> exact hother _ hji
    by_cases hji : j = i
    · subst hji
      rw [hc] at hd
      cases hd
      rcases callerStep_cases hstep with ⟨hphase, -⟩ | ⟨g, hphase, -⟩ | ⟨g, hphase, rfl⟩ | ⟨g, hphase, rfl⟩ | ⟨g, n, hphase,
        rfl⟩ |
        ⟨g, hphase, rfl⟩ | ⟨-, ⟨k, rfl⟩, rfl⟩
      · rw [hphase] at hw
        cases hw
      · rw [hphase] at hw
        cases hw
      · obtain rfl : g = f := by rw [hphase] at hw; exact Option.some.inj hw
        obtain ⟨c', hc', hcase⟩ := settle_observes h hc hw (p := .registering g) rfl
        exact ⟨c', hc', hcase.imp_right fun hr => hr.imp_right Or.inl⟩
      · obtain rfl : g = f := by rw [hphase] at hw; exact Option.some.inj hw
        exact ⟨_, getElem?_set_of_some hc _, Or.inl rfl⟩
      · obtain rfl : g = f := by rw [hphase] at hw; exact Option.some.inj hw
        obtain ⟨c', hc', hcase⟩ := settle_observes h hc hw (p := .parked g n) rfl
        exact ⟨c', hc', hcase.imp_right fun hr => hr.imp_right Or.inl⟩
      · obtain rfl : g = f := by rw [hphase] at hw; exact Option.some.inj hw
        exact ⟨_, getElem?_set_of_some hc _, Or.inl rfl⟩
      · cases ha
        exact ⟨_, getElem?_set_of_some hc _, Or.inr (Or.inr (Or.inr ⟨rfl, rfl⟩))⟩
    · rcases callerStep_cases hstep with ⟨-, -, rfl⟩ | ⟨g, -, hleader⟩ | ⟨g, -, rfl⟩ | ⟨g, -, rfl⟩ | ⟨g, n, -, rfl⟩ | ⟨g, -,
        rfl⟩ |
        ⟨-, -, rfl⟩
      · refine ⟨c, ?_, Or.inl hw⟩
        unfold Coalescer.enter
        split <;> exact hother _ hji
      · obtain ⟨c', hc', hphase⟩ := leaderStep_callers hleader (Ne.symm hji) c hc
        refine ⟨c', hc', Or.inl ?_⟩
        rcases hphase with hphase | hphase
        · rw [hphase, hw]
        · rw [hphase, waits_notify, hw]
      · exact ⟨c, hsettled _ _ hji, Or.inl hw⟩
      · exact ⟨c, hother _ hji, Or.inl hw⟩
      · exact ⟨c, hsettled _ _ hji, Or.inl hw⟩
      · exact ⟨c, hother _ hji, Or.inl hw⟩
      · exact ⟨c, hother _ hji, Or.inl hw⟩

/-! ## The result -/

/-- In every state that is reached, however the callers' steps interleave and whoever is dropped, nobody is lost; and no step
loses anybody. -/
theorem flights_lossless (h : (coalescer hash).Reachable s) :
    s.Lossless ∧ ∀ a s', s.step hash a = some s' → s.Observes a s' := by
  have hinv : Inv hash s := h.invariant inv_new fun t a t' ht hstep => ht.step hstep
  exact ⟨hinv.lossless, fun a s' hs => hinv.observes hs⟩

/-- A caller joins, parks, and returns the response of the leader. -/
theorem flights_lossless_joined :
    ∃ s : Coalescer, (coalescer fun _ => 0).Reachable s ∧
      ((s.callers[1]?).any fun c => c.phase == .returned 0 (.ofData [1])) = true ∧ s.Lossless := by
  obtain ⟨s, hs, hp⟩ := Machine.exists_of_guardedRun (coalescer fun _ => 0) (fun _ _ => true)
    [.call ⟨"", .tile, .permanent, true, .regular, none, none, none, none, none, none⟩,
      .call ⟨"", .tile, .permanent, true, .regular, none, none, none, none, none, none⟩, .enter 0, .enter 1, .check 1,
        .register 1,
      .recheck 1, .fetched 0 (.ofData [1]), .publish 0, .notify 0, .leave 0, .wake 1, .register 1, .recheck 1]
    (fun s => (s.callers[1]?).any fun c => c.phase == .returned 0 (.ofData [1])) (by decide +kernel)
  have hreach : (coalescer fun _ => 0).Reachable s := hs.mono fun _ _ _ => trivial
  exact ⟨s, hreach, hp, (flights_lossless hreach).1⟩

end Coalescer

end Biei.Filesource
